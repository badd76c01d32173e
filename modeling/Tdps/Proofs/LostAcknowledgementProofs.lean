import Tdps.Proofs.PassageProofs

/-!
# Proofs: a lost acknowledgement

`sr04_th` acknowledges the request with a zero byte when it finds the flag set. Only the time that the gate
takes keeps the go code from coming before that. If it does come before, no acknowledgement follows any more:
unless a reading happens to give a zero byte, the camera waits in `state_5` for ever, and the rover drives on
as `state_5` has told it.
-/

namespace Tdps

open Machine

/-! ## The camera waits -/

namespace Camera

end Camera

namespace Rover

variable {A : Arith} {s : Rover}

/-! ## For ever -/

end Rover

end Tdps
