import Tdps.Board
import Tdps.Motor

/-!
# The decoder thread and the motor thread

`commu_decoder_th` and `motor_ctrl_th` have the same priority and share `sp_data` and
`sem_motorctrl`. A run is a list of choices: a byte that the decoder reads, the next access of the
decoder, or the next step of the motor thread. A choice that is not enabled changes nothing.
-/

namespace Tdps

/-- Where `motor_ctrl_th` is in its loop. -/
inductive MotorPc where
  /-- Before the call of `rt_pwm_set` for channel `ch + 1`. -/
  | pwm_set (ch : Fin 4)
  /-- Before `rt_sem_take(sem_motorctrl, RT_WAITING_FOREVER)`. -/
  | take
  /-- Inside `rt_sem_take`, on the suspend list or just resumed from it. -/
  | suspended
  /-- Before the access to `sp_data[i]`. -/
  | load (i : Fin 4)
deriving DecidableEq, Repr

/-- `motor_ctrl_th`: its position, the bytes of `sp_data` it has loaded and its local pulses. -/
structure MotorThread where
  pc : MotorPc
  loaded : Bytes4
  pulses : Pulses
deriving DecidableEq, Repr

def MotorThread.init : MotorThread := ⟨.pwm_set 0, Bytes4.zero, ⟨0, 0⟩⟩

/-- The payload of a motor event. -/
def Event.payload : Event → Option Bytes4
  | .gate => none
  | .motor q => some q

/-- The access that begins a copy to `sp_data`. -/
def Op.startsCopy : Op → Bool
  | .store 0 _ => true
  | _ => false

/-- An access to `sp_data`. -/
def Op.isStore : Op → Bool
  | .store _ _ => true
  | _ => false

/-- The `pulse` argument for channel `ch + 1`; `pulse1` and `pulse4` are never assigned. -/
def Pulses.arg (p : Pulses) (ch : Fin 4) : UInt32 :=
  match ch with
  | 0 => 0
  | 1 => p.pulse2
  | 2 => p.pulse3
  | 3 => 0

/-- The two threads, what they share, and the pulse last passed to `rt_pwm_set` for each channel. -/
structure MotorLink where
  decoder : DecoderThread
  shared : Shared
  motor : MotorThread
  programmed : Fin 4 → UInt32

namespace MotorLink

def init : MotorLink := ⟨DecoderThread.init, Shared.init, MotorThread.init, fun _ => 0⟩

/-- A choice of the scheduler and the sender. -/
inductive Choice where
  | uart (b : UInt8)
  | decoder
  | motor
deriving DecidableEq, Repr

/-- What can be seen of a step. -/
inductive Act where
  /-- The decoder read this byte. -/
  | recv (b : UInt8)
  /-- `rt_sem_take(sem_motorctrl)` returned. -/
  | taken
  /-- `rt_pwm_set(dev, channel, period, pulse)`. -/
  | pwm_set (channel : ℕ) (period pulse : UInt32)
deriving DecidableEq, Repr

/-- One step of `motor_ctrl_th`. The pulses are computed with the last load. -/
def stepMotor (A : Arith) (s : MotorLink) : MotorLink × List Act :=
  match s.motor.pc with
  | .pwm_set ch =>
    let pulse := s.motor.pulses.arg ch
    let pc := if h : ch.val + 1 < 4 then .pwm_set ⟨ch.val + 1, h⟩ else .take
    ({ s with
        motor := { s.motor with pc := pc }
        programmed := Function.update s.programmed ch pulse },
      [.pwm_set (ch.val + 1) period pulse])
  | .take =>
    let r := s.shared.sem_motorctrl.take
    let shared := { s.shared with sem_motorctrl := r.1 }
    if r.2 then ({ s with shared := shared, motor := { s.motor with pc := .load 0 } }, [.taken])
    else ({ s with shared := shared, motor := { s.motor with pc := .suspended } }, [])
  | .suspended =>
    if s.shared.sem_motorctrl.suspended then (s, [])
    else ({ s with motor := { s.motor with pc := .load 0 } }, [.taken])
  | .load i =>
    let loaded := s.motor.loaded.set i (s.shared.sp_data.get i)
    if h : i.val + 1 < 4 then
      ({ s with motor := { s.motor with pc := .load ⟨i.val + 1, h⟩, loaded := loaded } }, [])
    else ({ s with motor := ⟨.pwm_set 0, loaded, motorCtrl A loaded⟩ }, [])

/-- One step of the system. -/
def step (A : Arith) (s : MotorLink) (c : Choice) : MotorLink × List Act :=
  match c with
  | .uart b =>
    if s.decoder.todo = [] then
      let r := s.decoder.dec.feed b
      ({ s with decoder := ⟨r.1, r.2.flatMap Event.ops⟩ }, [.recv b])
    else (s, [])
  | .decoder =>
    match s.decoder.todo with
    | [] => (s, [])
    | op :: ops =>
      ({ s with decoder := { s.decoder with todo := ops }, shared := op.exec s.shared }, [])
  | .motor => s.stepMotor A

/-- The bytes the decoder has read. -/
def received (tr : List Act) : List UInt8 :=
  tr.filterMap fun
    | .recv b => some b
    | _ => none

/-- The payloads of the complete frames among the bytes read so far. -/
def payloads (tr : List Act) : List Bytes4 :=
  (Decoder.decode (Decoder.start Bytes4.zero) (received tr)).2.filterMap Event.payload

/-- The decoder has a complete frame but has not stored its first byte to `sp_data` yet. -/
def CopyPending (s : MotorLink) : Prop := ∃ op ∈ s.decoder.todo, op.startsCopy = true

instance (s : MotorLink) : Decidable s.CopyPending := by
  unfold CopyPending
  infer_instance

/-- The decoder is between the first byte it stored to `sp_data` and the release that follows. -/
def Copying (s : MotorLink) : Prop :=
  Op.release_motorctrl ∈ s.decoder.todo ∧ ¬ s.CopyPending

/-- Some but not all of the four bytes of a frame are stored. -/
def Storing (s : MotorLink) : Prop := s.Copying ∧ ∃ op ∈ s.decoder.todo, op.isStore = true

/-- The motor thread has loaded some but not all of the four bytes. -/
def Loading (s : MotorLink) : Prop := ∃ i, 0 < i ∧ s.motor.pc = .load i

/-- Mutual exclusion: neither thread accesses `sp_data` while the other one is between its first and
its last access of a round. -/
def Exclusive (s : MotorLink) : Choice → Prop
  | .uart _ => True
  | .decoder => s.decoder.todo.head?.any Op.isStore = true → ¬ s.Loading
  | .motor => (∃ i, s.motor.pc = .load i) → ¬ s.Storing

/-- The frames whose copy to `sp_data` has begun: all complete ones but a pending one. -/
def handedOver (tr : List Act) (s : MotorLink) : List Bytes4 :=
  if s.CopyPending then (payloads tr).dropLast else payloads tr

/-- The conversion of the last of these frames, 0 when there is none. -/
def lastPulses (A : Arith) (F : List Bytes4) : Pulses :=
  match F.getLast? with
  | none => ⟨0, 0⟩
  | some q => motorCtrl A q

/-- The motor thread is blocked in `rt_sem_take` and no release is pending. -/
def MotorBlocked (s : MotorLink) : Prop :=
  s.motor.pc = .suspended ∧ s.shared.sem_motorctrl.suspended = true

instance (s : MotorLink) : Decidable s.Copying := by
  unfold Copying
  infer_instance

instance (s : MotorLink) : Decidable s.MotorBlocked := by
  unfold MotorBlocked
  infer_instance

instance (s : MotorLink) (c : Choice) : Decidable (s.Exclusive c) := by
  cases c <;> unfold Exclusive <;> try unfold Loading
  · infer_instance
  · infer_instance
  · unfold Storing
    infer_instance

/-- A schedule in which the decoder reads a motor frame and hands it over without interruption. -/
def frameSchedule (q : Bytes4) : List Choice :=
  (Frame.speed q).bytes.map .uart ++ List.replicate 5 .decoder

end MotorLink

end Tdps
