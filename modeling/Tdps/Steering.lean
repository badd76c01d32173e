import Mathlib.Tactic.Linarith
import Tdps.PID

/-!
# Line tracking (`main.py`)

From the blue mask of a frame `track` computes the speeds of the two wheels: a histogram of the lower
rows, the first column of the line seen from one side, the column scaled to an error, a filter and a
proportional controller.
-/

namespace Tdps

/-- The values of the global `direction`. -/
inductive Direction where
  /-- 0 -/
  | stop
  /-- 1 -/
  | left
  /-- 2 -/
  | forward
  /-- 3 -/
  | right
deriving DecidableEq, Repr

def ROW : ℕ := 109
def width_const : ℚ := 50
def edge_threshold : ℕ := 5
def SP_L : ℚ := 154 / 5
def SP_R : ℚ := 35
def alpha_value : ℚ := 1 / 5

/-- `distance_pid = PID(p=0.4, i=0)`; its variables are in `Tracker.pid`. -/
def distance_pid : PID := PID.new (2 / 5) 0 0 0

/-- The globals that `track` and the functions it calls use. -/
structure Tracker where
  direction : Direction
  old_direction : Direction
  old_output : ℚ
  old_error : ℚ
  pid : PID.Vars
deriving DecidableEq, Repr

/-- The globals as `main.py` initialises them. -/
def Tracker.init : Tracker := ⟨.right, .right, 0, -40, PID.Vars.init⟩

/-- `get_sparse_his(img, COL)`: for each of 80 columns how many of 10 pixels are white. -/
def getSparseHis (img : ℕ → ℕ → Bool) (COL : ℕ) : List ℕ :=
  (List.range 80).map fun i => (List.range 10).countP fun j => img (i + COL) (j + ROW)

def lowPassFilter (input_data alpha : ℚ) (g : Tracker) : Tracker × ℚ :=
  let output_data := alpha * input_data + (1 - alpha) * g.old_output
  ({ g with old_output := output_data }, output_data)

def limitError (error : ℚ) : ℚ :=
  if 40 < error then 40
  else if error < -40 then -40
  else error

/-- The column that the loop of `get_error_filtered` stops at: the first one above the threshold from
the left for direction 3, from the right for direction 1. -/
def edgeIndex (direction : Direction) (his : List ℕ) : Option ℕ :=
  let above : ℕ × ℕ → Bool := fun p => edge_threshold < p.1
  match direction with
  | .right => (his.zipIdx.find? above).map Prod.snd
  | .left => (his.zipIdx.reverse.find? above).map Prod.snd
  | _ => none

/-- The distance of the column from `width_const`, scaled. -/
def edgeError (width_const : ℚ) (direction : Direction) (index : ℕ) : ℚ :=
  let error := width_const - index
  match direction with
  | .right => if error < 0 then error * (40 / width_const) else error * (40 / (80 - width_const))
  | _ => if error < 0 then error * (40 / (80 - width_const)) else error * (40 / width_const)

/-- `get_error_filtered(his, alpha)`. -/
def getErrorFiltered (width_const : ℚ) (his : List ℕ) (alpha : ℚ) (g : Tracker) : Tracker × ℚ :=
  match edgeIndex g.direction his with
  | some index =>
    let old_error := edgeError width_const g.direction index
    let r := lowPassFilter old_error alpha { g with old_error := old_error, old_output := old_error }
    (r.1, limitError r.2)
  | none => (g, limitError g.old_output)

/-- The seed of the error when the direction has just changed. -/
def seed (old_output : ℚ) (g : Tracker) : Tracker :=
  if g.old_direction ≠ g.direction then { g with old_output := old_output } else g

/-- The error that `track` hands to the controller. -/
def trackError (img_blue : ℕ → ℕ → Bool) (g : Tracker) : Tracker × ℚ :=
  match g.direction with
  | .left => getErrorFiltered width_const (getSparseHis img_blue 0) alpha_value (seed 30 g)
  | .right => getErrorFiltered width_const (getSparseHis img_blue 79) alpha_value (seed (-20) g)
  | _ => (g, 0)

/-- `track(img)`, where `img_blue` is the dilated blue mask of `img` and `millis()` returns `tnow`. -/
def track (img_blue : ℕ → ℕ → Bool) (tnow : ℤ) (g : Tracker) : Tracker × ℚ × ℚ :=
  let r := trackError img_blue g
  let p := distance_pid.getPid r.1.pid tnow r.2 1
  ({ r.1 with old_direction := r.1.direction, pid := p.1 }, SP_L - p.2, SP_R + p.2)

/-! ## What tracking leaves alone, and the range of the speeds -/

theorem limitError_mem (error : ℚ) : -40 ≤ limitError error ∧ limitError error ≤ 40 := by
  unfold limitError
  split_ifs <;> constructor <;> linarith

theorem getErrorFiltered_direction (w : ℚ) (his : List ℕ) (alpha : ℚ) (g : Tracker) :
    (getErrorFiltered w his alpha g).1.direction = g.direction := by
  unfold getErrorFiltered
  split <;> rfl

theorem seed_direction (old_output : ℚ) (g : Tracker) : (seed old_output g).direction = g.direction := by
  unfold seed
  split_ifs <;> rfl

theorem trackError_direction (img_blue : ℕ → ℕ → Bool) (g : Tracker) :
    (trackError img_blue g).1.direction = g.direction := by
  unfold trackError
  split <;> simp only [getErrorFiltered_direction, seed_direction]

/-- `track` reads `direction` and does not assign it. -/
@[simp] theorem track_direction (img_blue : ℕ → ℕ → Bool) (tnow : ℤ) (g : Tracker) :
    (track img_blue tnow g).1.direction = g.direction :=
  trackError_direction img_blue g

/-- `track` stores the direction for the next call. -/
@[simp] theorem track_old_direction (img_blue : ℕ → ℕ → Bool) (tnow : ℤ) (g : Tracker) :
    (track img_blue tnow g).1.old_direction = g.direction :=
  trackError_direction img_blue g

theorem getErrorFiltered_mem (w : ℚ) (his : List ℕ) (alpha : ℚ) (g : Tracker) :
    -40 ≤ (getErrorFiltered w his alpha g).2 ∧ (getErrorFiltered w his alpha g).2 ≤ 40 := by
  unfold getErrorFiltered
  split <;> exact limitError_mem _

theorem trackError_mem (img_blue : ℕ → ℕ → Bool) (g : Tracker) :
    -40 ≤ (trackError img_blue g).2 ∧ (trackError img_blue g).2 ≤ 40 := by
  unfold trackError
  split
  · exact getErrorFiltered_mem _ _ _ _
  · exact getErrorFiltered_mem _ _ _ _
  · constructor <;> norm_num

/-- The tracked speeds are the straight-ahead speeds, one lowered and the other raised by at most 16
percent. -/
theorem track_speeds (img_blue : ℕ → ℕ → Bool) (tnow : ℤ) (g : Tracker) :
    ∃ d : ℚ, -16 ≤ d ∧ d ≤ 16 ∧ (track img_blue tnow g).2 = (SP_L - d, SP_R + d) := by
  obtain ⟨hlo, hhi⟩ := trackError_mem img_blue g
  refine ⟨(trackError img_blue g).2 * (2 / 5), by linarith, by linarith, ?_⟩
  have hout := PID.getPid_proportional (p := distance_pid) rfl rfl (trackError img_blue g).1.pid tnow
    (trackError img_blue g).2 1
  have hkp : distance_pid.kp = 2 / 5 := rfl
  rw [hkp, mul_one] at hout
  show (SP_L - _, SP_R + _) = _
  rw [hout]

end Tdps
