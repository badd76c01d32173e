import Tdps.Board
import Tdps.Lib.Machine
import Tdps.Serial

/-!
# The decoder thread and its receive interrupt

`commu_decoder_th` reads its UART until nothing is left and then waits for `sem_decoder`, which
`rx_callback` releases. `rt_hw_serial_isr` calls `rx_callback` after it has put the received bytes in
the ring buffer. A run starts when `rt_device_open` has enabled the interrupt. Its choices are the steps
of the handler and of the thread, in any order. (On the board the thread stands still while the handler
runs; here it need not, which only adds runs.) A choice that is not enabled changes nothing.
-/

namespace Tdps

/-- Where `rt_hw_serial_isr` is. -/
inductive Isr where
  /-- No interrupt is in progress. -/
  | idle
  /-- Before `serial->ops->getc`. -/
  | getc
  /-- After the test of `rx_indicate`, before `rx_length` is computed. -/
  | length
  /-- In the call of `rx_callback`, before `rt_sem_release(sem_decoder)`. -/
  | release
deriving DecidableEq, Repr

/-- Where `commu_decoder_th` is after `rt_device_open`. -/
inductive CommuPc where
  /-- Before `rt_device_set_rx_indicate`. -/
  | set_rx_indicate
  /-- Before `rt_device_read`. -/
  | read
  /-- Before `rt_sem_take(sem_decoder, RT_WAITING_FOREVER)`. -/
  | take
  /-- Inside `rt_sem_take`, on the suspend list or just resumed from it. -/
  | suspended
  /-- Before the `switch` on the byte that was read. -/
  | switch (buffer : UInt8)
deriving DecidableEq, Repr

/-- The thread, the handler and what they share. -/
structure Receive where
  rx_fifo : RxFifo
  /-- `rx_callback` is registered. -/
  rx_indicate : Bool
  sem_decoder : Sem
  isr : Isr
  pc : CommuPc
  dec : Decoder
deriving DecidableEq

namespace Receive

/-- After `rt_device_open`. -/
def init : Receive where
  rx_fifo := RxFifo.empty
  rx_indicate := false
  sem_decoder := Sem.create
  isr := .idle
  pc := .set_rx_indicate
  dec := Decoder.start Bytes4.zero

/-- A choice of the environment and the scheduler. -/
inductive Choice where
  /-- The UART raises its interrupt. -/
  | irq
  /-- `getc` returns a byte, or -1. -/
  | getc (ch : Option UInt8)
  /-- The handler goes on after its loop. -/
  | isr
  | thread
deriving DecidableEq, Repr

/-- What can be seen of a step. -/
inductive Act where
  /-- The handler has put a byte into the ring buffer. -/
  | received (ch : UInt8)
  /-- The thread has run the `switch` on a byte, with these events. -/
  | processed (buffer : UInt8) (events : List Event)
deriving DecidableEq, Repr

/-- The next step of `commu_decoder_th`. -/
def stepThread (s : Receive) : Receive × List Act :=
  match s.pc with
  | .set_rx_indicate => ({ s with rx_indicate := true, pc := .read }, [])
  | .read =>
    match s.rx_fifo.intRx with
    | none => ({ s with pc := .take }, [])
    | some (buffer, rx_fifo) => ({ s with rx_fifo := rx_fifo, pc := .switch buffer }, [])
  | .take =>
    let r := s.sem_decoder.take
    ({ s with sem_decoder := r.1, pc := if r.2 then .read else .suspended }, [])
  | .suspended => if s.sem_decoder.suspended then (s, []) else ({ s with pc := .read }, [])
  | .switch buffer =>
    let r := s.dec.feed buffer
    ({ s with dec := r.1, pc := .read }, [.processed buffer r.2])

/-- The next step of `rt_hw_serial_isr` after its loop. -/
def stepIsr (s : Receive) : Receive :=
  match s.isr with
  | .length => if s.rx_fifo.rxLength ≠ 0 then { s with isr := .release } else { s with isr := .idle }
  | .release => { s with sem_decoder := s.sem_decoder.release, isr := .idle }
  | _ => s

/-- One step of the system. -/
def step (s : Receive) (c : Choice) : Receive × List Act :=
  match c with
  | .irq => if s.isr = .idle then ({ s with isr := .getc }, []) else (s, [])
  | .getc ch =>
    if s.isr = .getc then
      match ch with
      | some ch => ({ s with rx_fifo := s.rx_fifo.put ch }, [.received ch])
      | none => ({ s with isr := if s.rx_indicate then .length else .idle }, [])
    else (s, [])
  | .isr => (s.stepIsr, [])
  | .thread => s.stepThread

/-- The byte of this step finds room in the ring buffer. -/
def NoOverflow (s : Receive) : Choice → Prop
  | .getc (some _) => s.isr = .getc → ¬ s.rx_fifo.Full
  | _ => True

instance (s : Receive) (c : Choice) : Decidable (s.NoOverflow c) := by
  unfold NoOverflow
  split <;> infer_instance

/-! ## What a trace shows -/

/-- The bytes put into the ring buffer, in order. -/
def received (tr : List Act) : List UInt8 :=
  tr.filterMap fun
    | .received ch => some ch
    | .processed _ _ => none

/-- The bytes the `switch` has been run on, in order. -/
def processed (tr : List Act) : List UInt8 :=
  tr.filterMap fun
    | .received _ => none
    | .processed buffer _ => some buffer

/-- The events of the decoder, in order. -/
def events (tr : List Act) : List Event :=
  tr.flatMap fun
    | .received _ => []
    | .processed _ events => events

/-- The byte that was read and not processed yet. -/
def inHand (s : Receive) : List UInt8 :=
  match s.pc with
  | .switch buffer => [buffer]
  | _ => []

/-- The bytes that were received and not processed yet, in order. -/
def pending (s : Receive) : List UInt8 := s.inHand ++ s.rx_fifo.contents

/-- The thread is on the suspend list of `sem_decoder`. -/
def Blocked (s : Receive) : Prop := s.pc = .suspended ∧ s.sem_decoder.suspended = true

end Receive

end Tdps
