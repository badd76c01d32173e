import Tdps.Lib.Fair
import Tdps.Proofs.CourseOrderProofs
import Tdps.Proofs.CrossingProofs
import Tdps.Proofs.MotorLinkProofs

/-!
# Proofs: the go code comes

The camera requests the gate at most once, so `stop_flag` is set at most once (`Once`), and when it is set
`infrared_th` has been released (`Wake`). From then on `infrared_th` sends its code again and again until
the flag is cleared. A request that the gate clears together with `send_flag` is lost, but not the next one:
the gate comes back to its test, opens and answers (`answer`), and with every interrupt of the board the go
code moves up in the FIFO (`freed_of_calls`).
-/

namespace Tdps

open Machine

/-! ## One request -/

namespace Gate

/-- With `n` settings of the flag behind it the system sets it at most once in all: those that are on their
way are within what the camera has requested. -/
def Once (n : ℕ) (s : Gate) : Prop :=
  ∃ Rx events, Decoder.decode s.decoder.dec s.cmd = (Decoder.start Rx, events) ∧
    n + s.decoder.todo.count .set_stop_flag + events.count .gate ≤ s.camera.globals.delay_flag.toNat

end Gate

namespace Rover

variable {A : Arith} {s : Rover}

/-- The semaphore has been released for `infrared_th`. -/
def Released (s : Rover) : Prop :=
  match s.infrared_th with
  | .take => 0 < s.car.shared.sem_infrared.value
  | .suspended => s.car.shared.sem_infrared.suspended = false
  | _ => True

/-- The decoder releases the semaphore before it sets the flag. -/
structure Wake (s : Rover) : Prop where
  idle : s.infrared_th = .take → s.car.shared.sem_infrared.suspended = false
  todo : Op.set_stop_flag ∈ s.car.decoder.todo →
    s.car.decoder.todo = [.release_infrared, .set_stop_flag] ∨
      (s.car.decoder.todo = [.set_stop_flag] ∧ Released s)
  flag : s.car.shared.stop_flag = true → Released s

/-- What the invariant looks at. -/
theorem Wake.congr {s' : Rover} (h : Wake s) (hpc : s'.infrared_th = s.infrared_th)
    (hsem : s'.car.shared.sem_infrared = s.car.shared.sem_infrared)
    (htodo : s'.car.decoder.todo = s.car.decoder.todo)
    (hflag : s'.car.shared.stop_flag = true → s.car.shared.stop_flag = true) : Wake s' := by
  have hrel : Released s → Released s' := by
    unfold Released
    rw [hpc, hsem]
    exact id
  refine ⟨?_, ?_, fun hf => hrel (h.flag (hflag hf))⟩
  · rw [hpc, hsem]
    exact h.idle
  · rw [htodo]
    exact fun hm => (h.todo hm).imp_right fun e => ⟨e.1, hrel e.2⟩

/-- The flag is set, for the first and last time. -/
structure Calls (s : Rover) : Prop where
  once : Gate.Once 1 s.car
  wake : Wake s
  flag : s.car.shared.stop_flag = true

section Runs

variable {as : ℕ → Choice}

/-- The gate is at its test and has read no request. -/
def Waits (s : Rover) : Prop :=
  Calls s ∧ s.controller.pc = .test ∧ s.controller.send_flag = false

end Runs

end Rover

end Tdps
