import Mathlib.Algebra.Order.Ring.Rat
import Mathlib.Tactic.NormNum

/-!
# The PID controller (`PID.py`)

What `__init__` stores is `PID`, what `get_pid` keeps from call to call is `PID.Vars`. Numbers are
exact; a `nan` in `_last_derivative` is `none`.
-/

namespace Tdps

/-- The gains and the limit of the integrator. -/
structure PID where
  kp : ℚ
  ki : ℚ
  kd : ℚ
  imax : ℚ
deriving DecidableEq, Repr

namespace PID

/-- `PID(p, i, d, imax)`. -/
def new (p i d imax : ℚ) : PID := ⟨p, i, d, |imax|⟩

/-- `math.pi` as a double. -/
def pi : ℚ := 884279719003555 / 281474976710656

/-- `_RC`, the time constant of the filter for the derivative. -/
def RC : ℚ := 1 / (2 * pi * 20)

/-- The attributes that `get_pid` updates. -/
structure Vars where
  integrator : ℚ
  last_error : ℚ
  last_derivative : Option ℚ
  last_t : ℤ
deriving DecidableEq, Repr

/-- After `__init__`. -/
def Vars.init : Vars := ⟨0, 0, none, 0⟩

def Vars.resetI (v : Vars) : Vars := { v with integrator := 0, last_derivative := none }

/-- `if integrator < -imax: ... elif integrator > imax: ...`. -/
def clampI (p : PID) (integrator : ℚ) : ℚ :=
  if integrator < -p.imax then -p.imax
  else if p.imax < integrator then p.imax
  else integrator

/-- The filtered derivative; it is 0 in the first call after a reset. -/
def derivative (v : Vars) (error delta_time : ℚ) : ℚ :=
  match v.last_derivative with
  | none => 0
  | some last_derivative =>
    let derivative := (error - v.last_error) / delta_time
    last_derivative + delta_time / (RC + delta_time) * (derivative - last_derivative)

/-- `get_pid(error, scaler)`, where `millis()` returns `tnow`. -/
def getPid (p : PID) (v : Vars) (tnow : ℤ) (error scaler : ℚ) : Vars × ℚ :=
  let restart := v.last_t = 0 ∨ 1000 < tnow - v.last_t
  let dt := if restart then 0 else tnow - v.last_t
  let v := if restart then v.resetI else v
  let v := { v with last_t := tnow }
  let delta_time : ℚ := dt / 1000
  let output := error * p.kp
  let r : Vars × ℚ :=
    if 0 < |p.kd| ∧ 0 < dt then
      let derivative := derivative v error delta_time
      ({ v with last_error := error, last_derivative := some derivative },
        output + p.kd * derivative)
    else (v, output)
  let v := r.1
  let output := r.2 * scaler
  if 0 < |p.ki| ∧ 0 < dt then
    let integrator := p.clampI (v.integrator + error * p.ki * scaler * delta_time)
    ({ v with integrator := integrator }, output + integrator)
  else (v, output)

/-- With only the proportional gain the output does not depend on the calls before. -/
theorem getPid_proportional {p : PID} (hi : p.ki = 0) (hd : p.kd = 0) (v : Vars) (tnow : ℤ)
    (error scaler : ℚ) : (p.getPid v tnow error scaler).2 = error * p.kp * scaler := by
  unfold getPid
  simp [hi, hd]

/-! ## The divisions

`getPid` again, for any filter constant, with an exception for a division by zero and with a record of
the finite differences that are formed.
-/

inductive PyError where
  | ZeroDivisionError
deriving DecidableEq, Repr

def div (x y : ℚ) : Except PyError ℚ := if y = 0 then .error .ZeroDivisionError else .ok (x / y)

/-- The `_last_error` and the `delta_time` of a finite difference. -/
structure Difference where
  last_error : ℚ
  delta_time : ℚ
deriving DecidableEq, Repr

/-- What a call of `get_pid` leaves behind. -/
structure Reply where
  vars : Vars
  output : ℚ
  difference : Option Difference
deriving DecidableEq, Repr

/-- The block of the derivative: the new `_last_derivative`, and the finite difference if one was
formed. -/
def derivativeChecked (RC : ℚ) (v : Vars) (error delta_time : ℚ) :
    Except PyError (ℚ × Option Difference) := do
  match v.last_derivative with
  | none =>
    let factor ← div delta_time (RC + delta_time)
    return (0 + factor * (0 - 0), none)
  | some last_derivative =>
    let derivative ← div (error - v.last_error) delta_time
    let factor ← div delta_time (RC + delta_time)
    return (last_derivative + factor * (derivative - last_derivative),
      some ⟨v.last_error, delta_time⟩)

/-- The block of the integrator. -/
def integrate (p : PID) (r : Reply) (dt : ℤ) (error scaler delta_time : ℚ) : Reply :=
  if 0 < |p.ki| ∧ 0 < dt then
    let integrator := p.clampI (r.vars.integrator + error * p.ki * scaler * delta_time)
    { r with vars := { r.vars with integrator := integrator }, output := r.output + integrator }
  else r

/-- `get_pid(error, scaler)`, where `millis()` returns `tnow`. -/
def getPidChecked (RC : ℚ) (p : PID) (v : Vars) (tnow : ℤ) (error scaler : ℚ) :
    Except PyError Reply := do
  let restart := v.last_t = 0 ∨ 1000 < tnow - v.last_t
  let dt := if restart then 0 else tnow - v.last_t
  let v := if restart then v.resetI else v
  let v := { v with last_t := tnow }
  let delta_time : ℚ := dt / 1000
  let output := error * p.kp
  let r : Reply ←
    if 0 < |p.kd| ∧ 0 < dt then do
      let (derivative, difference) ← derivativeChecked RC v error delta_time
      pure ⟨{ v with last_error := error, last_derivative := some derivative },
        output + p.kd * derivative, difference⟩
    else pure ⟨v, output, none⟩
  return p.integrate { r with output := r.output * scaler } dt error scaler delta_time

theorem div_ok {x y : ℚ} (h : y ≠ 0) : div x y = .ok (x / y) := if_neg h

/-- After a positive time the block of the derivative does not fail. -/
theorem derivativeChecked_eq {RC : ℚ} (hRC : 0 < RC) (v : Vars) (error : ℚ) {delta_time : ℚ}
    (h : 0 < delta_time) :
    derivativeChecked RC v error delta_time = .ok (match v.last_derivative with
      | none => (0, none)
      | some last_derivative =>
        (last_derivative + delta_time / (RC + delta_time) *
          ((error - v.last_error) / delta_time - last_derivative),
          some ⟨v.last_error, delta_time⟩)) := by
  unfold derivativeChecked
  rw [div_ok (add_pos hRC h).ne', div_ok h.ne']
  cases v.last_derivative with
  | none => simp [bind, Except.bind, pure, Except.pure]
  | some last_derivative => rfl

end PID

end Tdps
