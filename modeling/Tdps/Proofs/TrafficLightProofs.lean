import Tdps.Proofs.CourseProofs

/-!
# Proofs: the traffic light

A pass in state 2 leaves for state 3 exactly when its image has a green circle and the car stood when
the pass began (`step_two`). The car does not stand when it enters state 2, and in state 2 only a red
circle stops it, so green is obeyed only after red (`traffic_light_interlock`). But a pass that sees
both lights from a standing car drives off (`red_stops_iff`).
-/

namespace Tdps

open Machine

/-! ## The end of a pass and the direction -/

section Finish

variable {c : Call} {n : ℕ} (start : Globals) (sp_l sp_r : ℚ)

/-- Standing, the car is sent (0, 0) and goes on standing. -/
theorem finish_stop (hret : c.ret = some n) (hd : c.globals.direction = .stop) :
    (finish start sp_l sp_r c).1.globals.direction = .stop ∧
      (finish start sp_l sp_r c).2.speeds = c.effects.filterMap Effect.speed ++ [(0, 0)] := by
  have hcmd : command sp_l sp_r { c.globals with current_state := n } =
      ({ c.globals with current_state := n }, [.send_sp 0 0]) := by
    unfold command
    rw [hd]
  unfold finish
  rw [hret]
  dsimp only
  rw [hcmd]
  exact ⟨hd, List.filterMap_append⟩

/-- The command does not stop a moving car. -/
theorem finish_moving (hret : c.ret = some n) (hd : c.globals.direction ≠ .stop) :
    (finish start sp_l sp_r c).1.globals.direction ≠ .stop := by
  unfold finish
  rw [hret]
  dsimp only
  rw [command_direction]
  split_ifs
  · simp
  · exact hd

end Finish

/-! ## The steps in states 1 and 2 -/

/-- A pass in this state tracks, calls the function of the state and ends. -/
theorem Visit.InState.step {n : ℕ} {f : Snapshot → Globals → Call} {v : Visit} (h : v.InState n)
    (hf : stateFunctions n = some f) :
    v.1.step v.2 =
      ((finish v.1.globals (track v.2.img_blue v.2.tnow v.1.globals.toTracker).2.1
          (track v.2.img_blue v.2.tnow v.1.globals.toTracker).2.2
          (f v.2 (v.1.globals.tracked v.2))).1,
        [(finish v.1.globals (track v.2.img_blue v.2.tnow v.1.globals.toTracker).2.1
          (track v.2.img_blue v.2.tnow v.1.globals.toTracker).2.2
          (f v.2 (v.1.globals.tracked v.2))).2]) := by
  apply Camera.step_top h.1
  rw [h.2]
  exact hf

/-- The arrow state does not stop the car. -/
theorem checkArrow_direction {img : Snapshot} {g : Globals} (h : g.direction ≠ .stop) :
    (checkArrow img g).globals.direction ≠ .stop := by
  unfold checkArrow
  split_ifs
  · simp
  · simp
  · dsimp only
    split_ifs <;> exact h

theorem step_one {v : Visit} (h1 : v.InState 1) (h : v.1.globals.direction ≠ .stop) :
    v.after.globals.direction ≠ .stop := by
  have hcall : (checkArrow v.2 (v.1.globals.tracked v.2)).globals.direction ≠ .stop := by
    apply checkArrow_direction
    show (track v.2.img_blue v.2.tnow v.1.globals.toTracker).1.direction ≠ .stop
    rw [track_direction]
    exact h
  obtain ⟨d, k, n, e, -⟩ := checkArrow_cases v.2 (v.1.globals.tracked v.2)
  unfold Visit.after
  rw [h1.step rfl]
  exact finish_moving (n := n) _ _ _ (by rw [e]) hcall

/-- The direction at the end of a pass that stays in state 2. -/
def lightDirection (v : Visit) : Direction :=
  if v.2.red_circle then .stop else v.1.globals.direction

/-- A pass in state 2 goes on to state 3, or stays and sends (0, 0) if the car stands then. -/
theorem step_two {v : Visit} (h2 : v.InState 2) :
    (v.2.green_circle = true ∧ v.1.globals.direction = .stop ∧ v.after.globals.current_state = 3) ∨
      (¬ (v.2.green_circle = true ∧ v.1.globals.direction = .stop) ∧
        v.after.globals.current_state = 2 ∧
        (lightDirection v ≠ .stop → v.after.globals.direction ≠ .stop) ∧
        (lightDirection v = .stop → v.after.globals.direction = .stop ∧ v.speeds = [(0, 0)])) := by
  have hold : (v.1.globals.tracked v.2).old_direction = v.1.globals.direction :=
    track_old_direction v.2.img_blue v.2.tnow v.1.globals.toTracker
  have hdir : (v.1.globals.tracked v.2).direction = v.1.globals.direction :=
    track_direction v.2.img_blue v.2.tnow v.1.globals.toTracker
  -- the test of `old_direction` is a test of the direction at the start of the pass
  have hcall := trafficLight_eq v.2 (v.1.globals.tracked v.2)
  rw [hold, hdir] at hcall
  unfold Visit.after Visit.speeds
  rw [h2.step rfl]
  generalize trafficLight v.2 (v.1.globals.tracked v.2) = call at hcall ⊢
  by_cases hgo : v.2.green_circle = true ∧ v.1.globals.direction = .stop
  · left
    rw [if_pos hgo] at hcall
    rw [hcall]
    exact ⟨hgo.1, hgo.2, command_current_state _ _ _⟩
  · right
    rw [if_neg hgo] at hcall
    have hret : call.ret = some 2 := by rw [hcall]
    have hd : call.globals.direction = lightDirection v := by
      rw [hcall]
      rfl
    refine ⟨hgo, ?_, ?_, ?_⟩
    · rw [hcall]
      exact command_current_state _ _ _
    · intro h
      apply finish_moving _ _ _ hret
      rw [hd]
      exact h
    · intro h
      obtain ⟨hstand, hspeeds⟩ := finish_stop v.1.globals
        (track v.2.img_blue v.2.tnow v.1.globals.toTracker).2.1
        (track v.2.img_blue v.2.tnow v.1.globals.toTracker).2.2 hret (hd.trans h)
      refine ⟨hstand, ?_⟩
      rw [List.flatMap_singleton, hspeeds, hcall]
      rfl

/-! ## Red -/

/-- **Red stops**, except when the same image also has a green circle and the car already stood: in
every pass that is in state 2 and sees a red circle, whatever has been before, the last command is (0, 0)
and the state stays 2 if and only if this is not the case. -/
theorem red_stops_iff (v : Visit) (h2 : v.InState 2) (hred : v.2.red_circle = true) :
    (v.speeds.getLast? = some (0, 0) ∧ v.after.globals.current_state = 2) ↔
      ¬ (v.2.green_circle = true ∧ v.1.globals.direction = .stop) := by
  have hstop : lightDirection v = .stop := by
    unfold lightDirection
    rw [if_pos hred]
  rcases step_two h2 with ⟨hgreen, hd, h3⟩ | ⟨hno, hstay, -, hhalt⟩
  · refine iff_of_false ?_ (not_not.2 ⟨hgreen, hd⟩)
    rintro ⟨-, hs⟩
    rw [h3] at hs
    cases hs
  · refine iff_of_true ⟨?_, hstay⟩ hno
    rw [(hhalt hstop).2]
    rfl

/-- An image with these lights. -/
def Snapshot.lights (red green : Bool) : Snapshot :=
  { Snapshot.blank with red_circle := red, green_circle := green }

theorem red_stops_both_lights_moving :
    (Visit.speeds (⟨Globals.init 2, .top⟩, .lights true true)).getLast? = some (0, 0) ∧
      (Visit.after (⟨Globals.init 2, .top⟩, .lights true true)).globals.current_state = 2 :=
  (red_stops_iff (⟨Globals.init 2, .top⟩, .lights true true) ⟨rfl, rfl⟩ rfl).2 (by decide)

/-- Red, then red and green in one image: the car drives off. -/
theorem red_overruled :
    ∃ v ∈ visits ⟨Globals.init 2, .top⟩ [.lights true false, .lights true true],
      v.InState 2 ∧ v.2.red_circle = true ∧ v.after.globals.current_state = 3 ∧
        v.speeds.getLast? ≠ some (0, 0) := by
  refine ⟨(Visit.after (⟨Globals.init 2, .top⟩, .lights true false), .lights true true),
    List.mem_cons_of_mem _ List.mem_cons_self, ⟨rfl, rfl⟩, rfl, rfl, ?_⟩
  decide +kernel

/-! ## Green after red -/

/-- A pass in state 2 that sees a red circle. -/
def Visit.SeesRed (v : Visit) : Prop := v.InState 2 ∧ v.2.red_circle = true

instance : DecidablePred Visit.SeesRed := fun v => by
  unfold Visit.SeesRed
  infer_instance

/-- The steps from the first pass on that sees red. -/
def sinceRed (tr : List Visit) : List Visit := tr.dropWhile fun v => ¬ v.SeesRed

theorem sinceRed_concat (tr : List Visit) (v : Visit) :
    sinceRed (tr ++ [v]) =
      if sinceRed tr = [] then (if v.SeesRed then [v] else []) else sinceRed tr ++ [v] := by
  unfold sinceRed
  rw [List.dropWhile_append]
  simp only [List.isEmpty_iff]
  by_cases hv : v.SeesRed <;> simp [List.dropWhile, hv]

/-- The car goes on standing in one more step. -/
theorem sinceRed_standing {tr : List Visit} {v : Visit}
    (h : ∀ u ∈ sinceRed tr, ∀ sp ∈ u.speeds, sp = (0, 0)) (hv : ∀ sp ∈ v.speeds, sp = (0, 0)) :
    ∀ u ∈ sinceRed (tr ++ [v]), ∀ sp ∈ u.speeds, sp = (0, 0) := by
  intro u hu
  rw [sinceRed_concat] at hu
  split_ifs at hu
  · rw [List.mem_singleton.1 hu]
    exact hv
  · cases hu
  · rcases List.mem_append.1 hu with hu | hu
    · exact h u hu
    · rw [List.mem_singleton.1 hu]
      exact hv

/-- The history of a run before it leaves state 2: the car moves until it sees red and stands from then
on. -/
structure Interlock (tr : List Visit) (c : Camera) : Prop where
  waits : c.WaitsInFive
  positive : 1 ≤ c.globals.current_state
  arrow : c.globals.current_state = 1 → sinceRed tr = [] ∧ c.globals.direction ≠ .stop
  moving : c.globals.current_state = 2 → sinceRed tr = [] → c.globals.direction ≠ .stop
  standing : c.globals.current_state = 2 → sinceRed tr ≠ [] →
    c.globals.direction = .stop ∧ ∀ u ∈ sinceRed tr, ∀ sp ∈ u.speeds, sp = (0, 0)

theorem interlock_init {g : Globals} (hstate : g.current_state = 1 ∨ g.current_state = 2)
    (hd : g.direction ≠ .stop) : Interlock [] ⟨g, .top⟩ where
  waits := by
    intro _ _ hpc
    cases hpc
  positive := by
    show 1 ≤ g.current_state
    omega
  arrow := fun _ => ⟨rfl, hd⟩
  moving := fun _ _ => hd
  standing := fun _ h => absurd rfl h

/-- From state 3 on there is nothing to remember. -/
theorem interlock_of_three {tr : List Visit} {c : Camera} (hw : c.WaitsInFive)
    (h3 : 3 ≤ c.globals.current_state) : Interlock tr c := by
  refine ⟨hw, by omega, ?_, ?_, ?_⟩
  · intro h1
    omega
  · intro h2
    omega
  · intro h2
    omega

/-- The step of a program that has raised an exception. -/
theorem interlock_raised {tr : List Visit} {c : Camera} (h : Interlock tr c) (img : Snapshot)
    (hpc : c.pc = .raised) : Interlock (tr ++ [(c, img)]) c := by
  have hv : ¬ Visit.SeesRed (c, img) := by
    intro hv
    have htop : c.pc = .top := hv.1.1
    rw [hpc] at htop
    cases htop
  have hspeeds : Visit.speeds (c, img) = [] := by
    unfold Visit.speeds
    rw [Camera.step_raised hpc]
    rfl
  have hnil : sinceRed (tr ++ [(c, img)]) = [] ↔ sinceRed tr = [] := by
    rw [sinceRed_concat, if_neg hv]
    split_ifs with h0 <;> simp [h0]
  refine ⟨h.waits, h.positive, ?_, ?_, ?_⟩
  · intro h1
    exact ⟨hnil.2 (h.arrow h1).1, (h.arrow h1).2⟩
  · intro h2 h0
    exact h.moving h2 (hnil.1 h0)
  · intro h2 h0
    have hne : sinceRed tr ≠ [] := mt hnil.2 h0
    obtain ⟨hd, hall⟩ := h.standing h2 hne
    refine ⟨hd, sinceRed_standing hall ?_⟩
    rw [hspeeds]
    intro sp hsp
    cases hsp

/-- A pass in state 1. -/
theorem interlock_one {tr : List Visit} {v : Visit} (h : Interlock tr v.1) (h1 : v.InState 1)
    (hw : v.after.WaitsInFive) (hnext : v.after.globals.current_state = 1 ∨
      v.after.globals.current_state = 2) : Interlock (tr ++ [v]) v.after := by
  obtain ⟨hnil, hd⟩ := h.arrow h1.2
  have hv : ¬ v.SeesRed := by
    intro hv
    have htwo := hv.1.2
    rw [h1.2] at htwo
    cases htwo
  have hnil' : sinceRed (tr ++ [v]) = [] := by
    rw [sinceRed_concat, if_pos hnil, if_neg hv]
  have hd' := step_one h1 hd
  exact ⟨hw, by omega, fun _ => ⟨hnil', hd'⟩, fun _ _ => hd', fun _ h0 => absurd hnil' h0⟩

/-- A pass that stays in state 2. -/
theorem interlock_two {tr : List Visit} {v : Visit} (h : Interlock tr v.1) (h2 : v.InState 2)
    (hw : v.after.WaitsInFive) (hstay : v.after.globals.current_state = 2)
    (hgo : lightDirection v ≠ .stop → v.after.globals.direction ≠ .stop)
    (hhalt : lightDirection v = .stop → v.after.globals.direction = .stop ∧ v.speeds = [(0, 0)]) :
    Interlock (tr ++ [v]) v.after := by
  refine ⟨hw, by omega, fun h1 => by omega, ?_, ?_⟩
  · -- still nothing red, so the direction is what it was
    intro _ hnil'
    rw [sinceRed_concat] at hnil'
    by_cases hnil : sinceRed tr = []
    · rw [if_pos hnil] at hnil'
      have hv : ¬ v.SeesRed := by
        intro hv
        rw [if_pos hv] at hnil'
        cases hnil'
      apply hgo
      unfold lightDirection
      rw [if_neg fun hred => hv ⟨h2, hred⟩]
      exact h.moving h2.2 hnil
    · rw [if_neg hnil] at hnil'
      simp at hnil'
  · intro _ hne'
    have hstop : lightDirection v = .stop := by
      unfold lightDirection
      split_ifs with hred
      · rfl
      · by_cases hnil : sinceRed tr = []
        · refine absurd ?_ hne'
          rw [sinceRed_concat, if_pos hnil, if_neg fun hv => hred hv.2]
        · exact (h.standing h2.2 hnil).1
    obtain ⟨hd', hspeeds⟩ := hhalt hstop
    refine ⟨hd', sinceRed_standing ?_ ?_⟩
    · intro u hu
      exact (h.standing h2.2 (List.ne_nil_of_mem hu)).2 u hu
    · rw [hspeeds]
      simp

theorem interlock_step {tr : List Visit} {c : Camera} (h : Interlock tr c) (img : Snapshot) :
    Interlock (tr ++ [(c, img)]) (c.step img).1 := by
  have hnext := step_current_state h.waits img
  have hw := waitsInFive_step c img h.waits
  have hpos := h.positive
  rcases hpc : c.pc with _ | ⟨sp_l, sp_r⟩ | _
  · by_cases h1 : c.globals.current_state = 1
    · rw [h1] at hnext
      exact interlock_one h ⟨hpc, h1⟩ hw hnext
    · by_cases h2 : c.globals.current_state = 2
      · rcases step_two (v := (c, img)) ⟨hpc, h2⟩ with ⟨-, -, h3⟩ | ⟨-, hstay, hgo, hhalt⟩
        · exact interlock_of_three hw h3.ge
        · exact interlock_two h ⟨hpc, h2⟩ hw hstay hgo hhalt
      · exact interlock_of_three hw (by omega)
  · have h5 := h.waits sp_l sp_r hpc
    exact interlock_of_three hw (by omega)
  · rw [Camera.step_raised hpc]
    exact interlock_raised h img hpc

/-- The state changes from 2 to 3 in a pass, and in no other step. -/
theorem inState_two {v : Visit} (hw : v.1.WaitsInFive) (h2 : v.1.globals.current_state = 2)
    (h3 : v.after.globals.current_state = 3) : v.InState 2 := by
  refine ⟨?_, h2⟩
  rcases hpc : v.1.pc with _ | ⟨sp_l, sp_r⟩ | _
  · rfl
  · cases h2.symm.trans (hw sp_l sp_r hpc)
  · unfold Visit.after at h3
    rw [Camera.step_raised hpc] at h3
    cases h2.symm.trans h3

/-- **The interlock.** Started in state 1 or 2 with direction 3, the course leaves state 2 only in a pass
that sees a green circle, only after a pass in state 2 that saw a red circle, and from the first such
pass on every command until then is (0, 0). -/
theorem traffic_light_interlock {g : Globals} (hstate : g.current_state = 1 ∨ g.current_state = 2)
    (hd : g.direction = .right) (imgs : List Snapshot) {pre post : List Visit} {v : Visit}
    (h : visits ⟨g, .top⟩ imgs = pre ++ v :: post) (hfrom : v.1.globals.current_state = 2)
    (h3 : v.after.globals.current_state = 3) :
    v.2.green_circle = true ∧ (∃ u ∈ pre, u.InState 2 ∧ u.2.red_circle = true) ∧
      ∀ u ∈ sinceRed pre, ∀ sp ∈ u.speeds, sp = (0, 0) := by
  have hI : Interlock pre v.1 :=
    visits_emitted Camera.step (interlock_init hstate (by rw [hd]; decide))
      (fun tr c img h => interlock_step h img) imgs h
  have h2 := inState_two hI.waits hfrom h3
  rcases step_two h2 with ⟨hgreen, hstop, -⟩ | ⟨-, hstay, -⟩
  · have hne : sinceRed pre ≠ [] := by
      intro hnil
      exact hI.moving h2.2 hnil hstop
    refine ⟨hgreen, ?_, (hI.standing h2.2 hne).2⟩
    by_contra hno
    apply hne
    unfold sinceRed
    rw [List.dropWhile_eq_nil_iff]
    intro u hu
    have hred : ¬ u.SeesRed := fun hred => hno ⟨u, hu, hred⟩
    simpa using hred
  · rw [h3] at hstay
    cases hstay

/-- A pass in state 2 that sees red, from the initial globals. -/
def redPass : Visit := (⟨Globals.init 2, .top⟩, .lights true false)

theorem traffic_light_interlock_two_images :
    (∃ u ∈ [redPass], Visit.InState 2 u ∧ u.2.red_circle = true) ∧
      ∀ u ∈ sinceRed [redPass], ∀ sp ∈ Visit.speeds u, sp = (0, 0) := by
  have h : visits ⟨Globals.init 2, .top⟩ [.lights true false, .lights false true] =
      [redPass] ++ (redPass.after, .lights false true) :: [] := rfl
  exact (traffic_light_interlock (Or.inr rfl) rfl _ h rfl (by decide)).2

end Tdps
