import Tdps.Gate
import Tdps.GateController
import Tdps.MotorLink

/-!
# The rover and the gate

All parties of the course in one system: the camera, the four threads and the infrared interrupt of the
board, the controller of the gate, and the links between them. `Gate` is the camera with the decoder
thread, `sr04_th` and `infrared_rx_callback`; here it is joined with `motor_ctrl_th`, with `infrared_th`
and, over the air, with `GateController`.

The infrared modules may lose bytes and put bytes of their own between the others. A module does not hear
what it sends itself. Where a result needs that they do not make up the byte that the other side waits for,
it says so (`Choice.NoCode`).
-/

namespace Tdps

/-- Where `infrared_th` is. -/
inductive InfraredPc where
  /-- Before `rt_sem_take(sem_infrared, RT_WAITING_FOREVER)`. -/
  | take
  /-- Inside `rt_sem_take`, on the suspend list or just resumed from it. -/
  | suspended
  /-- `if (stop_flag)`. -/
  | test
  /-- `rt_device_write(infrared_uart, 0, &send_code, 5)`. -/
  | write
  /-- `rt_thread_mdelay(5000)`. -/
  | mdelay
deriving DecidableEq, Repr

/-- The two directions of the infrared link. -/
inductive Air where
  | toGate
  | toCar
deriving DecidableEq, Repr

/-- The byte that the receiver waits for. -/
def Air.code : Air → UInt8
  | .toGate => 0x44
  | .toCar => 0x22

structure Rover where
  /-- The camera, the decoder thread, `sr04_th` and the infrared interrupt. -/
  car : Gate
  motor : MotorThread
  /-- The pulse last passed to `rt_pwm_set` for each channel. -/
  programmed : Fin 4 → UInt32
  infrared_th : InfraredPc
  controller : GateController
  /-- The bytes on the air. -/
  toGate : List UInt8
  toCar : List UInt8

deriving instance DecidableEq for Gate.Act

namespace Rover

/-- The array `send_code` of `infrared.c`. -/
def send_code : List UInt8 := [0xfa, 0xf1, 0x22, 0x33, 0x44]

def init (globals : Globals) (back : List UInt8) : Rover :=
  { car := Gate.init globals back
    motor := MotorThread.init
    programmed := fun _ => 0
    infrared_th := .take
    controller := GateController.init
    toGate := []
    toCar := [] }

/-- A choice of the schedulers and the environment. -/
inductive Choice where
  /-- A step of the camera, the decoder thread or `sr04_th`. What the infrared interrupt reads is not
  chosen here, it comes over the air. -/
  | car (c : Gate.Choice)
  | motor
  | infrared_th
  /-- The receive interrupt of the infrared UART, with `n + 1` bytes if there are that many. -/
  | irq (n : ℕ)
  /-- The next statement of the gate's `main`. -/
  | main
  /-- The receive interrupt of the gate. -/
  | rx_irp2
  /-- Byte `i` is lost. -/
  | lose (air : Air) (i : ℕ)
  /-- A byte is put before byte `i`. -/
  | noise (air : Air) (i : ℕ) (b : UInt8)

/-- The byte of a reading cannot be taken for `stop_data`. -/
def Choice.NonZero : Choice → Prop
  | car c => c.NonZero
  | _ => True

instance : DecidablePred Choice.NonZero
  | .car c => inferInstanceAs (Decidable c.NonZero)
  | .motor | .infrared_th | .irq _ | .main | .rx_irp2 | .lose _ _ | .noise _ _ _ => isTrue trivial

/-- Noise is not the byte that the receiver waits for. -/
def Choice.NoCode : Choice → Prop
  | noise air _ b => b ≠ air.code
  | _ => True

instance : DecidablePred Choice.NoCode
  | .noise air _ b => inferInstanceAs (Decidable (b ≠ air.code))
  | .car _ | .motor | .infrared_th | .irq _ | .main | .rx_irp2 | .lose _ _ => isTrue trivial

/-- What can be seen of a step. -/
inductive Act where
  | car (a : Gate.Act)
  | motor (a : MotorLink.Act)
  /-- `infrared_th` wrote `send_code`. -/
  | code
  | gate (a : GateController.Act)
deriving DecidableEq

/-- The two threads that drive the motors. -/
def link (s : Rover) : MotorLink := ⟨s.car.decoder, s.car.shared, s.motor, s.programmed⟩

/-- One step of `motor_ctrl_th`. -/
def stepMotor (A : Arith) (s : Rover) : Rover × List Act :=
  let r := s.link.stepMotor A
  ({ s with
      car := { s.car with shared := r.1.shared }
      motor := r.1.motor
      programmed := r.1.programmed },
    r.2.map .motor)

/-- One step of `infrared_th`. -/
def stepInfrared (s : Rover) : Rover × List Act :=
  match s.infrared_th with
  | .take =>
    let r := s.car.shared.sem_infrared.take
    let car := { s.car with shared := { s.car.shared with sem_infrared := r.1 } }
    ({ s with car := car, infrared_th := if r.2 then .test else .suspended }, [])
  | .suspended =>
    if s.car.shared.sem_infrared.suspended then (s, []) else ({ s with infrared_th := .test }, [])
  | .test => if s.car.shared.stop_flag then ({ s with infrared_th := .write }, []) else (s, [])
  | .write => ({ s with infrared_th := .mdelay, toGate := s.toGate ++ send_code }, [.code])
  | .mdelay => ({ s with infrared_th := .test }, [])

/-- The receive interrupt of the infrared UART. -/
def irq (s : Rover) (n : ℕ) : Rover × List Act :=
  if s.toCar = [] then (s, [])
  else
    let r := s.car.step (.infrared (s.toCar.take (n + 1)))
    ({ s with car := r.1, toCar := s.toCar.drop (n + 1) }, r.2.map .car)

/-- The bytes that a step of the gate puts on the air. -/
def written : GateController.Act → List UInt8
  | .write bytes => bytes
  | _ => []

/-- A step of the gate's `main`. -/
def main (s : Rover) : Rover × List Act :=
  let r := s.controller.step .main
  ({ s with controller := r.1, toCar := s.toCar ++ r.2.flatMap written }, r.2.map .gate)

/-- `rx_irp2` reads the next byte. -/
def rxIrp2 (s : Rover) : Rover × List Act :=
  match s.toGate with
  | [] => (s, [])
  | c :: toGate =>
    let r := s.controller.step (.rx_irp2 c)
    ({ s with controller := r.1, toGate := toGate }, r.2.map .gate)

/-- Changes what is on the air in one direction. -/
def onAir (s : Rover) (air : Air) (f : List UInt8 → List UInt8) : Rover :=
  match air with
  | .toGate => { s with toGate := f s.toGate }
  | .toCar => { s with toCar := f s.toCar }

/-- One step of the system. -/
def step (A : Arith) (s : Rover) (c : Choice) : Rover × List Act :=
  match c with
  | .car (.infrared _) => (s, [])
  | .car c =>
    let r := s.car.step c
    ({ s with car := r.1 }, r.2.map .car)
  | .motor => s.stepMotor A
  | .infrared_th => s.stepInfrared
  | .irq n => s.irq n
  | .main => s.main
  | .rx_irp2 => s.rxIrp2
  | .lose air i => (s.onAir air (·.eraseIdx i), [])
  | .noise air i b => (s.onAir air (·.insertIdx i b), [])

/-! ## What a trace shows -/

/-- What can be seen of the camera, the decoder thread and the infrared interrupt. -/
def Act.car? : Act → Option Gate.Act
  | .car a => some a
  | _ => none

/-- The camera sends its request for the gate. -/
def Request (a : Act) : Prop := ∃ it, a = .car (.pass it) ∧ Effect.send_gate ∈ it.effects

/-- The stations of a gate crossing: the camera requests the gate, the decoder sets `stop_flag`,
`infrared_th` sends its code, the gate's interrupt reads the last byte of it, the gate opens and sends its
code, and `infrared_rx_callback` reads the go code. -/
def crossing : List (Act → Prop) :=
  [Request, (· = .car .set_stop_flag), (· = .code), (· = .gate (.received 0x44)),
    (· = .gate (.myled 75)), (· = .gate (.write GateController.send_code)), (· = .car (.revc 0x22))]

end Rover

end Tdps
