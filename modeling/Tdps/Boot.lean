import Mathlib.Logic.Function.Basic
import Tdps.Board
import Tdps.Lib.Machine
import Tdps.Serial

/-!
# Start-up and the calls on semaphores (`main.c`)

`main` calls the init functions of the four parts of the application and goes on whatever they return.
Each of them creates its semaphore, if it has one, and its thread, and either may fail. The priority of
`main` is above those of the threads, so these run when `main` has called all four and sleeps. From then
on a run is any order of their steps and of the receive interrupts of the command UART. A call with a
null handle ends in the loop of `rt_assert_handler`.
-/

namespace Tdps

/-- The semaphores of the application. -/
inductive Handle where
  | sem_motorctrl
  | sem_decoder
  | sem_infrared
deriving DecidableEq, Repr

/-- The threads of the application. -/
inductive AppThread where
  | motor_ctrl_th
  | commu_decoder_th
  | sr04_th
  | infrared_th
deriving DecidableEq, Repr

/-- Which of the calls of `rt_sem_create` and `rt_thread_create` succeed. -/
structure Allocs where
  rt_sem_create : Handle → Bool
  rt_thread_create : AppThread → Bool

/-! ## The init functions -/

def RT_EOK : ℤ := 0

def RT_ERROR : ℤ := 1

/-- The handles, `none` for `RT_NULL`, and which threads have been started. -/
structure Created where
  sem : Handle → Option Sem
  started : AppThread → Bool

/-- Before `main`. -/
def Created.none : Created := ⟨fun _ => Option.none, fun _ => false⟩

/-- Creates a thread and starts it. -/
def createThread (o : Allocs) (t : AppThread) (s : Created) : Created × ℤ :=
  if o.rt_thread_create t then ({ s with started := Function.update s.started t true }, RT_EOK)
  else (s, RT_ERROR)

/-- Creates a semaphore and, if that succeeds, the thread that takes it. -/
def createSemThread (o : Allocs) (h : Handle) (t : AppThread) (s : Created) : Created × ℤ :=
  if o.rt_sem_create h then
    createThread o t { s with sem := Function.update s.sem h (some Sem.create) }
  else ({ s with sem := Function.update s.sem h Option.none }, -1)

def motorInit (o : Allocs) : Created → Created × ℤ := createSemThread o .sem_motorctrl .motor_ctrl_th

def commuInit (o : Allocs) : Created → Created × ℤ := createSemThread o .sem_decoder .commu_decoder_th

def sr04Init (o : Allocs) : Created → Created × ℤ := createThread o .sr04_th

def infraredInit (o : Allocs) : Created → Created × ℤ := createSemThread o .sem_infrared .infrared_th

/-- The calls of `main`, which does not look at the results. -/
def mainInit (o : Allocs) : Created :=
  let s := (motorInit o Created.none).1
  let s := (commuInit o s).1
  let s := (sr04Init o s).1
  (infraredInit o s).1

/-! ## The threads -/

/-- Where `motor_ctrl_th` or `infrared_th` is. -/
inductive TakePc where
  /-- Before its loop. -/
  | setup
  /-- Before `rt_sem_take`. -/
  | take
  /-- Inside `rt_sem_take`, on the suspend list or just resumed from it. -/
  | suspended
  /-- After `rt_sem_take`. -/
  | taken
  /-- In `rt_assert_handler`. -/
  | assert
deriving DecidableEq, Repr

/-- Where `commu_decoder_th` is. -/
inductive DecoderPc where
  | rt_device_open
  | set_rx_indicate
  | read
  | take
  | suspended
  /-- Before the `switch` on the byte that was read. -/
  | switch (buffer : UInt8)
  /-- The accesses that are left of the current event. -/
  | ops (todo : List Op)
  | assert
deriving DecidableEq, Repr

structure Boot extends Created where
  motor : TakePc
  infrared : TakePc
  commu : DecoderPc
  dec : Decoder
  rx_fifo : RxFifo
  /-- `rx_callback` is registered. -/
  rx_indicate : Bool
  sp_data : Bytes4
  stop_flag : Bool

namespace Boot

/-- When `main` sleeps for the first time. -/
def init (o : Allocs) : Boot where
  toCreated := mainInit o
  motor := .setup
  infrared := .setup
  commu := .rt_device_open
  dec := Decoder.start Bytes4.zero
  rx_fifo := RxFifo.empty
  rx_indicate := false
  sp_data := Bytes4.zero
  stop_flag := false

/-- A choice of the scheduler and the environment. -/
inductive Choice where
  | thread (t : AppThread)
  /-- The receive interrupt of the command UART, with the bytes that came in. -/
  | irq (bytes : List UInt8)
deriving DecidableEq, Repr

/-- A call on a semaphore, and whether the handle is that of a semaphore. -/
inductive Act where
  | rt_sem_take (t : AppThread) (h : Handle) (created : Bool)
  | rt_sem_release (t : AppThread) (h : Handle) (created : Bool)
  /-- `rt_sem_release(sem_decoder)` in `rx_callback`. -/
  | rx_callback (created : Bool)
deriving DecidableEq, Repr

/-- The next step of a thread that takes a semaphore once in its loop, or only once. -/
def stepTake (s : Boot) (t : AppThread) (h : Handle) (loop : Bool) (pc : TakePc) :
    Boot × TakePc × List Act :=
  match pc with
  | .setup => (s, .take, [])
  | .take =>
    match s.sem h with
    | none => (s, .assert, [.rt_sem_take t h false])
    | some sem =>
      ({ s with sem := Function.update s.sem h (some sem.take.1) },
        if sem.take.2 then .taken else .suspended, [.rt_sem_take t h true])
  | .suspended => if (s.sem h).any Sem.suspended then (s, .suspended, []) else (s, .taken, [])
  | .taken => (s, if loop then .take else .taken, [])
  | .assert => (s, .assert, [])

def stepMotor (s : Boot) : Boot × List Act :=
  let r := s.stepTake .motor_ctrl_th .sem_motorctrl true s.motor
  ({ r.1 with motor := r.2.1 }, r.2.2)

def stepInfrared (s : Boot) : Boot × List Act :=
  let r := s.stepTake .infrared_th .sem_infrared false s.infrared
  ({ r.1 with infrared := r.2.1 }, r.2.2)

/-- `rt_sem_release` in `commu_decoder_th`. -/
def release (s : Boot) (h : Handle) (todo : List Op) : Boot × List Act :=
  match s.sem h with
  | none => ({ s with commu := .assert }, [.rt_sem_release .commu_decoder_th h false])
  | some sem =>
    ({ s with sem := Function.update s.sem h (some sem.release), commu := .ops todo },
      [.rt_sem_release .commu_decoder_th h true])

def stepOp (s : Boot) (op : Op) (todo : List Op) : Boot × List Act :=
  match op with
  | .store i b => ({ s with sp_data := s.sp_data.set i b, commu := .ops todo }, [])
  | .release_motorctrl => s.release .sem_motorctrl todo
  | .release_infrared => s.release .sem_infrared todo
  | .set_stop_flag => ({ s with stop_flag := true, commu := .ops todo }, [])

/-- The next step of `commu_decoder_th`. -/
def stepCommu (s : Boot) : Boot × List Act :=
  match s.commu with
  | .rt_device_open => ({ s with commu := .set_rx_indicate }, [])
  | .set_rx_indicate => ({ s with rx_indicate := true, commu := .read }, [])
  | .read =>
    match s.rx_fifo.intRx with
    | none => ({ s with commu := .take }, [])
    | some (buffer, rx_fifo) => ({ s with rx_fifo := rx_fifo, commu := .switch buffer }, [])
  | .take =>
    match s.sem .sem_decoder with
    | none => ({ s with commu := .assert }, [.rt_sem_take .commu_decoder_th .sem_decoder false])
    | some sem =>
      ({ s with
          sem := Function.update s.sem .sem_decoder (some sem.take.1)
          commu := if sem.take.2 then .read else .suspended },
        [.rt_sem_take .commu_decoder_th .sem_decoder true])
  | .suspended =>
    if (s.sem .sem_decoder).any Sem.suspended then (s, []) else ({ s with commu := .read }, [])
  | .switch buffer =>
    let r := s.dec.feed buffer
    ({ s with dec := r.1, commu := .ops (r.2.flatMap Event.ops) }, [])
  | .ops [] => ({ s with commu := .read }, [])
  | .ops (op :: todo) => s.stepOp op todo
  | .assert => (s, [])

/-- `sr04_th` calls no function on a semaphore. -/
def stepThread (s : Boot) : AppThread → Boot × List Act
  | .motor_ctrl_th => s.stepMotor
  | .commu_decoder_th => s.stepCommu
  | .sr04_th => (s, [])
  | .infrared_th => s.stepInfrared

/-- `rx_callback`. -/
def rxCallback (s : Boot) : Boot × List Act :=
  match s.sem .sem_decoder with
  | none => (s, [.rx_callback false])
  | some sem =>
    ({ s with sem := Function.update s.sem .sem_decoder (some sem.release) }, [.rx_callback true])

/-- `rt_hw_serial_isr`; `rt_device_open` has to enable the interrupt first. -/
def hwSerialIsr (s : Boot) (bytes : List UInt8) : Boot × List Act :=
  if s.commu = .rt_device_open then (s, [])
  else
    let s := { s with rx_fifo := bytes.foldl RxFifo.put s.rx_fifo }
    if s.rx_indicate then
      if s.rx_fifo.rxLength ≠ 0 then s.rxCallback else (s, [])
    else (s, [])

/-- A thread that was not created takes no step. -/
def step (s : Boot) : Choice → Boot × List Act
  | .thread t => if s.started t then s.stepThread t else (s, [])
  | .irq bytes => s.hwSerialIsr bytes

end Boot

end Tdps
