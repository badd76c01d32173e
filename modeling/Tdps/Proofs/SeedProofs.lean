import Tdps.Proofs.CourseProofs
import Tdps.Proofs.FilterProofs

/-!
# Proofs: steering without a line

Without a line in the image the error is `limit_error(old_output)`. `old_output` is set by an edge and by
the seeds of `track`, but the seed after the straight-ahead manoeuvre goes to `old_error`, which nothing
reads (`old_output_run`). So a pass that lost the line uses the latest of these values exactly when that
seed is not the latest (`lost_line_iff`).
-/

namespace Tdps

open Machine

/-! ## What sets the value to hold -/

/-- The events that are to set the value that steers the car without a line. -/
inductive Seed where
  /-- An edge was found, with this scaled error. -/
  | edge (error : ℚ)
  /-- The direction changed to 1. -/
  | left
  /-- The direction changed to 3. -/
  | right
  /-- The straight-ahead manoeuvre of direction 2 is over. -/
  | straight
deriving DecidableEq

namespace Seed

/-- The value that an event sets. -/
def value : Seed → ℚ
  | edge error => error
  | left => 30
  | right => -20
  | straight => -30

/-- The value of the last event, or the value at the start. -/
def latest (y : ℚ) (seeds : List Seed) : ℚ := seeds.foldl (fun _ s => s.value) y

/-- The value of the last event that is not `straight`. -/
def held (y : ℚ) (seeds : List Seed) : ℚ :=
  seeds.foldl (fun y s => if s = .straight then y else s.value) y

theorem held_append (y : ℚ) (seeds seeds' : List Seed) :
    held y (seeds ++ seeds') = held (held y seeds) seeds' := List.foldl_append

theorem latest_concat (y : ℚ) (seeds : List Seed) (s : Seed) :
    latest y (seeds ++ [s]) = s.value := by
  unfold latest
  rw [List.foldl_append]
  rfl

theorem held_concat (y : ℚ) (seeds : List Seed) (s : Seed) :
    held y (seeds ++ [s]) = if s = .straight then held y seeds else s.value := by
  rw [held_append]
  rfl

/-- The two values are the same unless the last event is `straight`. -/
theorem latest_eq_held {y : ℚ} {seeds : List Seed} (h : seeds.getLast? ≠ some .straight) :
    latest y seeds = held y seeds := by
  induction seeds using List.reverseRecOn with
  | nil => rfl
  | append_singleton seeds s _ =>
    rw [List.getLast?_concat] at h
    rw [latest_concat, held_concat, if_neg fun e => h (by rw [e])]

theorem latest_straight {y : ℚ} {seeds : List Seed} (h : seeds.getLast? = some .straight) :
    latest y seeds = -30 := by
  obtain ⟨seeds, rfl⟩ := List.getLast?_eq_some_iff.1 h
  exact latest_concat y seeds .straight

end Seed

/-- The histogram that `track` takes in this direction. -/
def histogram (d : Direction) (img_blue : ℕ → ℕ → Bool) : List ℕ :=
  getSparseHis img_blue (if d = .left then 0 else 79)

/-- The seed of a direction that has just changed. -/
def turnSeeds (g : Tracker) : List Seed :=
  if g.old_direction = g.direction then []
  else
    match g.direction with
    | .left => [.left]
    | .right => [.right]
    | _ => []

/-- The edge that is found. -/
def edgeSeeds (img_blue : ℕ → ℕ → Bool) (g : Tracker) : List Seed :=
  match edgeIndex g.direction (histogram g.direction img_blue) with
  | some k => [.edge (edgeError width_const g.direction k)]
  | none => []

/-- The end of a straight-ahead manoeuvre. -/
def straightSeeds (it : Iter) : List Seed :=
  match it.direction, it.outcome with
  | .forward, .next _ => [.straight]
  | _, _ => []

namespace Visit

/-- The events in `track`; it is called at the start of a pass only. -/
def trackSeeds (v : Visit) : List Seed :=
  if v.1.pc = .top then
    turnSeeds v.1.globals.toTracker ++ edgeSeeds v.2.img_blue v.1.globals.toTracker
  else []

/-- The events of a step in order. -/
def seeds (v : Visit) : List Seed := v.trackSeeds ++ (v.1.step v.2).2.flatMap straightSeeds

/-- The error that `track` hands to the controller. -/
def error (v : Visit) : ℚ := (trackError v.2.img_blue v.1.globals.toTracker).2

/-- A pass begins that tracks the line, but the line is not in its image. -/
structure LostLine (v : Visit) : Prop where
  top : v.1.pc = .top
  tracks : v.1.globals.direction = .left ∨ v.1.globals.direction = .right
  lost : ¬ HasEdge (histogram v.1.globals.direction v.2.img_blue)

end Visit

/-! ## `track` -/

theorem seed_old_output {g : Tracker} {y : ℚ} {s : Seed} (hy : s.value = y) (hs : s ≠ .straight)
    (hturn : turnSeeds g = if g.old_direction = g.direction then [] else [s]) :
    (seed y g).old_output = Seed.held g.old_output (turnSeeds g) := by
  rw [hturn]
  unfold seed
  by_cases h : g.old_direction = g.direction
  · rw [if_neg (not_not.2 h), if_pos h]
    rfl
  · rw [if_pos h, if_neg h]
    show y = if s = .straight then g.old_output else s.value
    rw [if_neg hs, hy]

/-- `get_error_filtered` on the seeded variables. -/
theorem getErrorFiltered_seeds (img_blue : ℕ → ℕ → Bool) {g g' : Tracker} {turn : List Seed}
    (hd : g'.direction = g.direction) (hold : g'.old_output = Seed.held g.old_output turn) :
    (edgeIndex g.direction (histogram g.direction img_blue) = none →
        (getErrorFiltered width_const (histogram g.direction img_blue) alpha_value g').2 =
          limitError (Seed.held g.old_output turn)) ∧
      (getErrorFiltered width_const (histogram g.direction img_blue) alpha_value g').1.old_output =
        Seed.held g.old_output (turn ++ edgeSeeds img_blue g) := by
  unfold edgeSeeds
  cases hedge : edgeIndex g.direction (histogram g.direction img_blue) with
  | none =>
    rw [getErrorFiltered_lost ((congrArg (edgeIndex · _) hd).trans hedge), List.append_nil, hold]
    exact ⟨fun _ => rfl, rfl⟩
  | some k =>
    rw [getErrorFiltered_edge ((congrArg (edgeIndex · _) hd).trans hedge), Seed.held_append, hd]
    exact ⟨nofun, rfl⟩

/-- What one call of `track` makes of the held value: the seed comes first, then the edge. -/
structure TrackSeeds (img_blue : ℕ → ℕ → Bool) (g : Tracker) : Prop where
  lost : (g.direction = .left ∨ g.direction = .right) →
    edgeIndex g.direction (histogram g.direction img_blue) = none →
    (trackError img_blue g).2 = limitError (Seed.held g.old_output (turnSeeds g))
  old_output : (trackError img_blue g).1.old_output =
    Seed.held g.old_output (turnSeeds g ++ edgeSeeds img_blue g)

/-- Directions 1 and 3, with the seed of the direction. -/
theorem trackSeeds_tracking {img_blue : ℕ → ℕ → Bool} {g : Tracker} {y : ℚ} {s : Seed}
    (hy : s.value = y) (hs : s ≠ .straight)
    (hturn : turnSeeds g = if g.old_direction = g.direction then [] else [s])
    (htrack : trackError img_blue g =
      getErrorFiltered width_const (histogram g.direction img_blue) alpha_value (seed y g)) :
    TrackSeeds img_blue g := by
  have hd := seed_direction y g
  have hold := seed_old_output hy hs hturn
  constructor
  · intro _ hnone
    rw [htrack]
    exact (getErrorFiltered_seeds img_blue hd hold).1 hnone
  · rw [htrack]
    exact (getErrorFiltered_seeds img_blue hd hold).2

/-- Directions 0 and 2, in which `track` looks for no edge. -/
theorem trackSeeds_still {img_blue : ℕ → ℕ → Bool} {g : Tracker}
    (hd : g.direction = .stop ∨ g.direction = .forward) : TrackSeeds img_blue g := by
  constructor
  · intro h
    rcases hd with hd | hd <;> rw [hd] at h <;> simp at h
  · have hnone : turnSeeds g ++ edgeSeeds img_blue g = [] := by
      unfold turnSeeds edgeSeeds
      rcases hd with hd | hd <;> rw [hd] <;> simp [edgeIndex]
    rw [hnone]
    unfold trackError
    rcases hd with hd | hd <;> rw [hd] <;> rfl

theorem trackSeeds (img_blue : ℕ → ℕ → Bool) (g : Tracker) : TrackSeeds img_blue g := by
  cases hd : g.direction with
  | stop => exact trackSeeds_still (Or.inl hd)
  | forward => exact trackSeeds_still (Or.inr hd)
  | left =>
    refine trackSeeds_tracking (s := .left) rfl (by decide) ?_ ?_
    · unfold turnSeeds
      rw [hd]
    · unfold trackError
      rw [hd]
      rfl
  | right =>
    refine trackSeeds_tracking (s := .right) rfl (by decide) ?_ ?_
    · unfold turnSeeds
      rw [hd]
    · unfold trackError
      rw [hd]
      rfl

/-! ## The rest of a pass -/

/-- No state function assigns `old_output`. -/
theorem call_old_output {n : ℕ} {f : Snapshot → Globals → Call} (hf : stateFunctions n = some f)
    (img : Snapshot) (g : Globals) : (f img g).globals.old_output = g.old_output := by
  unfold stateFunctions at hf
  split at hf <;> cases hf
  case h_1 =>
    obtain ⟨d, k, n, e, -⟩ := checkArrow_cases img g
    rw [e]
  case h_2 =>
    obtain ⟨d, n, e, -⟩ := trafficLight_cases img g
    rw [e]
  case h_3 =>
    obtain ⟨k, used, rest, n, -, e, -⟩ := pedestrianLoop_cases g g.uart
    unfold pedestrian
    rw [e]
  case h_4 =>
    rcases getAround_cases img g with ⟨-, e⟩ | ⟨-, n, e, -⟩ <;> rw [e]
  case h_5 =>
    rcases state5_cases img g with ⟨-, e⟩ | ⟨-, d, used, rest, n, -, e, -⟩
    · rw [e]
      exact awaitZero_old_output _ _
    · rw [e]
  case h_6 | h_7 => rfl

theorem finish_old_output (start : Globals) (sp_l sp_r : ℚ) (c : Call) :
    (finish start sp_l sp_r c).1.globals.old_output = c.globals.old_output := by
  unfold finish
  cases c.ret with
  | none => rfl
  | some n =>
    show (command sp_l sp_r { c.globals with current_state := n }).1.old_output = _
    rcases command_cases sp_l sp_r { c.globals with current_state := n } with
      ⟨-, e⟩ | ⟨-, e⟩ | ⟨-, e⟩ <;> rw [e]

/-- The seed after the straight-ahead manoeuvre does not change the held value. -/
theorem held_straightSeeds (y : ℚ) (its : List Iter) : Seed.held y (its.flatMap straightSeeds) = y := by
  induction its with
  | nil => rfl
  | cons it its ih =>
    have hit : Seed.held y (straightSeeds it) = y := by
      unfold straightSeeds
      split <;> rfl
    rw [List.flatMap_cons, Seed.held_append, hit, ih]

theorem step_old_output (v : Visit) :
    v.after.globals.old_output = Seed.held v.1.globals.old_output v.seeds := by
  obtain ⟨c, img⟩ := v
  have htop : c.pc = .top → (c.globals.tracked img).old_output =
      Seed.held c.globals.old_output (Visit.trackSeeds (c, img)) := by
    intro hpc
    unfold Visit.trackSeeds
    rw [if_pos hpc]
    exact (trackSeeds img.img_blue c.globals.toTracker).old_output
  have hskip : c.pc ≠ .top → Visit.trackSeeds (c, img) = [] := fun hpc => if_neg hpc
  unfold Visit.seeds
  rw [Seed.held_append, held_straightSeeds]
  unfold Visit.after
  rcases hpc : c.pc with _ | ⟨sp_l, sp_r⟩ | _
  · rw [← htop hpc]
    cases hf : stateFunctions c.globals.current_state with
    | none => rw [Camera.step_lookup_fails hpc hf]
    | some f =>
      rw [Camera.step_top hpc hf]
      exact (finish_old_output _ _ _ _).trans (call_old_output hf img _)
  · rw [hskip (by simp [hpc]), Camera.step_wait hpc]
    exact (finish_old_output _ _ _ _).trans (awaitZero_old_output _ _)
  · rw [hskip (by simp [hpc]), Camera.step_raised hpc]
    rfl

/-- In every run `old_output` is the held value. -/
theorem old_output_run (g : Globals) (imgs : List Snapshot) {pre post : List Visit} {v : Visit}
    (h : visits ⟨g, .top⟩ imgs = pre ++ v :: post) :
    v.1.globals.old_output = Seed.held g.old_output (pre.flatMap Visit.seeds) := by
  refine visits_emitted Camera.step
    (I := fun tr c => c.globals.old_output = Seed.held g.old_output (tr.flatMap Visit.seeds))
    rfl ?_ imgs h
  intro tr c img hI
  rw [List.flatMap_append, Seed.held_append, ← hI, List.flatMap_singleton]
  exact step_old_output (c, img)

/-! ## The latest seed -/

/-- The events before the error of this pass: those of the steps before it, and its own turn. -/
def seedsBefore (pre : List Visit) (v : Visit) : List Seed :=
  pre.flatMap Visit.seeds ++ turnSeeds v.1.globals.toTracker

/-- **Steering without a line.** In every run, a pass that has lost the line uses the limited value of
the latest event if and only if this is not the end of a straight-ahead manoeuvre, or the value held
before that was -30 anyway. -/
theorem lost_line_iff (g : Globals) (imgs : List Snapshot) {pre post : List Visit} {v : Visit}
    (h : visits ⟨g, .top⟩ imgs = pre ++ v :: post) (hv : v.LostLine) :
    v.error = limitError (Seed.latest g.old_output (seedsBefore pre v)) ↔
      ((seedsBefore pre v).getLast? ≠ some .straight ∨
        Seed.held g.old_output (seedsBefore pre v) = -30) := by
  have hnone : edgeIndex v.1.globals.direction
      (histogram v.1.globals.direction v.2.img_blue) = none := edgeIndex_eq_none hv.lost
  have herr : v.error = limitError (Seed.held g.old_output (seedsBefore pre v)) := by
    unfold Visit.error seedsBefore
    rw [(trackSeeds v.2.img_blue v.1.globals.toTracker).lost hv.tracks hnone, Seed.held_append,
      ← old_output_run g imgs h]
  rw [herr]
  by_cases hlast : (seedsBefore pre v).getLast? = some .straight
  · rw [Seed.latest_straight hlast, limitError_eq_iff]
    constructor
    · rintro (e | ⟨-, h40⟩ | ⟨-, h40⟩)
      · exact Or.inr e
      · norm_num at h40
      · norm_num at h40
    · rintro (e | e)
      · exact absurd hlast e
      · exact Or.inl e
  · rw [Seed.latest_eq_held hlast]
    exact iff_of_true rfl (Or.inl hlast)

/-- An arrow with this template, and no line. -/
def Snapshot.arrow (template : String) : Snapshot :=
  { Snapshot.blank with find_template := fun t => t == template }

/-- The pass that sees the arrow in state 1. -/
def arrowSeen (template : String) : Visit := (⟨Globals.init 1, .top⟩, .arrow template)

theorem visits_arrow (template : String) :
    visits ⟨Globals.init 1, .top⟩ [.arrow template, .blank] =
      [arrowSeen template] ++ ((arrowSeen template).after, .blank) :: [] := rfl

theorem lost_line_after_left_arrow :
    Visit.error ((arrowSeen "/left1.pgm").after, .blank) =
      limitError (Seed.latest 0
        (seedsBefore [arrowSeen "/left1.pgm"] ((arrowSeen "/left1.pgm").after, .blank))) :=
  (lost_line_iff (Globals.init 1) _ (visits_arrow "/left1.pgm")
    ⟨by decide +kernel, by decide +kernel, by decide +kernel⟩).2 (Or.inl (by decide +kernel))

/-- After a forward arrow the latest value is -30, but the car is steered with error 0. -/
theorem forward_seed_ignored :
    ∃ pre v, visits ⟨Globals.init 1, .top⟩ [.arrow "/forward1.pgm", .blank] = pre ++ v :: [] ∧
      v.LostLine ∧ Seed.latest 0 (seedsBefore pre v) = -30 ∧ limitError (-30) = -30 ∧
      v.error = 0 := by
  refine ⟨_, _, visits_arrow "/forward1.pgm", ⟨?_, ?_, ?_⟩, ?_, ?_, ?_⟩ <;> decide +kernel

end Tdps
