import Tdps.Proofs.CourseProofs
import Tdps.Proofs.SteeringProofs

/-!
# Proofs: state 3

In state 3 the rover stops exactly while the last distance byte is close (`stops_iff_close`), and it
leaves for state 4 when `state_cnt` passes 160. The counter is shared with `check_arrow`, which does
not reset it when it has found an arrow, so the readings that end state 3 are 161 close ones exactly
if the counter was 0 when the state was entered or a far reading has reset it since
(`full_streak_iff`); otherwise fewer are enough (`short_streak`).
-/

namespace Tdps

open Machine

/-- The distance bytes read since state 3 was entered. -/
def since (tr : List Iter) : List UInt8 := (stay 3 tr).flatMap Iter.reads

/-- The value of `state_cnt` when state 3 was entered. -/
def entryCnt (tr : List Iter) (g : Globals) : ℕ :=
  ((stay 3 tr).head?.map fun it => it.start.state_cnt).getD g.state_cnt

theorem stay_concat (n : ℕ) (tr : List Iter) (it : Iter) :
    stay n (tr ++ [it]) = if it.start.current_state = n then stay n tr ++ [it] else [] := by
  unfold stay
  rw [List.rtakeWhile_concat]
  simp

theorem since_concat {tr : List Iter} {it : Iter} (h : it.start.current_state = 3) :
    since (tr ++ [it]) = since tr ++ it.reads := by
  unfold since
  rw [stay_concat, if_pos h, List.flatMap_append, List.flatMap_singleton]

theorem entryCnt_concat {tr : List Iter} {it : Iter} (h : it.start.current_state = 3)
    (g : Globals) : entryCnt (tr ++ [it]) g = entryCnt tr it.start := by
  unfold entryCnt
  rw [stay_concat, if_pos h]
  cases stay 3 tr <;> rfl

/-- What holds in state 3 between two passes. -/
structure InThree (tr : List Iter) (g : Globals) : Prop where
  cnt : g.state_cnt = Streak.count close (entryCnt tr g) (since tr)
  low : since tr = [] ∨ g.state_cnt ≤ 160
  dir : g.direction = heading g.direction (since tr)

/-- The invariant of a run. -/
structure Course (tr : List Iter) (c : Camera) : Prop where
  waits : c.WaitsInFive
  three : c.pc = .top → c.globals.current_state = 3 → InThree tr c.globals

/-- On entry nothing has been read. -/
theorem inThree_enter {tr : List Iter} (h : stay 3 tr = []) (g : Globals) : InThree tr g := by
  have hsince : since tr = [] := by
    unfold since
    rw [h]
    rfl
  refine ⟨?_, Or.inl hsince, by rw [hsince]; rfl⟩
  unfold entryCnt
  rw [hsince, h]
  rfl

theorem inThree_of_ne {tr : List Iter} {it : Iter} (h : it.start.current_state ≠ 3) (g : Globals) :
    InThree (tr ++ [it]) g :=
  inThree_enter (by rw [stay_concat, if_neg h]) g

/-! ## A pass in state 3 -/

/-- What a pass in state 3 does: the bytes it reads, its one command, and how it ends. -/
structure PedestrianPass (c c' : Camera) (it : Iter) (used : List UInt8) : Prop where
  start : it.start = c.globals
  reads : it.reads = used
  read_dir : used ≠ [] → c'.globals.direction = heading c.globals.direction used
  idle_dir : used = [] → c.globals.direction ≠ .forward → c'.globals.direction = c.globals.direction
  speeds : ∃ sp, it.speeds = [sp] ∧ (sp = (0, 0) ↔ c'.globals.direction = .stop)
  ending : (it.outcome = .next 3 ∧
      c'.globals.state_cnt = Streak.count close c.globals.state_cnt used ∧
      (used = [] ∨ c'.globals.state_cnt ≤ 160)) ∨
    (it.outcome = .next 4 ∧ c'.globals.current_state = 4 ∧ used ≠ [] ∧
      160 < Streak.count close c.globals.state_cnt used ∧
      (used.dropLast = [] ∨ Streak.count close c.globals.state_cnt used.dropLast ≤ 160))

theorem tracked_ne_zero {sp : ℚ × ℚ} (h : Tracked sp) : sp ≠ (0, 0) := by
  rintro rfl
  have := (tracked_bounds h).1
  norm_num at this

theorem heading_ne_forward (d : Direction) {used : List UInt8} (h : used ≠ []) :
    heading d used ≠ .forward := by
  obtain ⟨used, b, rfl⟩ := (List.eq_nil_or_concat' used).resolve_left h
  rw [heading_of_getLast? List.getLast?_concat]
  split_ifs <;> simp

theorem finish_pedestrian {c : Camera} {sp : ℚ × ℚ} (ht : Tracked sp) {g : Globals}
    {used : List UInt8} {n : ℕ} (hd : g.direction = heading c.globals.direction used)
    (hn : (n = 3 ∧ g.state_cnt = Streak.count close c.globals.state_cnt used ∧
        (used = [] ∨ g.state_cnt ≤ 160)) ∨
      (n = 4 ∧ used ≠ [] ∧ 160 < Streak.count close c.globals.state_cnt used ∧
        (used.dropLast = [] ∨ Streak.count close c.globals.state_cnt used.dropLast ≤ 160))) :
    PedestrianPass c (finish c.globals sp.1 sp.2 ⟨g, used.map .read, some n⟩).1
      (finish c.globals sp.1 sp.2 ⟨g, used.map .read, some n⟩).2 used := by
  have hreads : ∀ es : List Effect, es.filterMap Effect.distance = [] →
      (used.map Effect.read ++ es).filterMap Effect.distance = used := by
    intro es hes
    rw [List.filterMap_append, reads_map, hes, List.append_nil]
  have hspeeds : ∀ es : List Effect,
      (used.map Effect.read ++ es).filterMap Effect.speed = es.filterMap Effect.speed := by
    intro es
    rw [List.filterMap_append, speeds_map, List.nil_append]
  unfold finish
  dsimp only
  rcases command_cases sp.1 sp.2 { g with current_state := n } with ⟨hfwd, e⟩ | ⟨hstop, e⟩ | ⟨hlr, e⟩
  · rw [e]
    have hnil : used = [] := by
      by_contra hne
      exact heading_ne_forward _ hne (hd.symm.trans hfwd)
    subst hnil
    refine ⟨rfl, hreads _ rfl, fun h => absurd rfl h, fun _ h => absurd (hd.symm.trans hfwd) h,
      ⟨(SP_L, SP_R), hspeeds _, ?_⟩, ?_⟩
    · simp [SP_L, SP_R]
    · rcases hn with ⟨rfl, hk, hlow⟩ | ⟨rfl, hne, -⟩
      · exact Or.inl ⟨rfl, hk, hlow⟩
      · exact absurd rfl hne
  · rw [e]
    refine ⟨rfl, hreads _ rfl, fun _ => hd, fun h _ => (by subst h; exact hd),
      ⟨(0, 0), hspeeds _, iff_of_true rfl hstop⟩, ?_⟩
    rcases hn with ⟨rfl, hk, hlow⟩ | ⟨rfl, hpass⟩
    · exact Or.inl ⟨rfl, hk, hlow⟩
    · exact Or.inr ⟨rfl, rfl, hpass⟩
  · rw [e]
    have hne : g.direction ≠ .stop := by
      intro h
      rcases hlr with hl | hr
      · cases hl.symm.trans h
      · cases hr.symm.trans h
    refine ⟨rfl, hreads _ rfl, fun _ => hd, fun h _ => (by subst h; exact hd),
      ⟨sp, hspeeds _, iff_of_false (tracked_ne_zero ht) hne⟩, ?_⟩
    rcases hn with ⟨rfl, hk, hlow⟩ | ⟨rfl, hpass⟩
    · exact Or.inl ⟨rfl, hk, hlow⟩
    · exact Or.inr ⟨rfl, rfl, hpass⟩

theorem step_three {c : Camera} (hpc : c.pc = .top) (h3 : c.globals.current_state = 3)
    (img : Snapshot) :
    ∃ it used, (c.step img).2 = [it] ∧ PedestrianPass c (c.step img).1 it used := by
  have hf : stateFunctions c.globals.current_state = some pedestrian := by rw [h3]; rfl
  rw [Camera.step_top hpc hf]
  obtain ⟨k, used, rest, n, -, e, hn⟩ :=
    pedestrianLoop_cases (c.globals.tracked img) (c.globals.tracked img).uart
  have ht := track_speeds img.img_blue img.tnow c.globals.toTracker
  have hd : (c.globals.tracked img).direction = c.globals.direction := track_direction _ _ _
  have hcall : pedestrian img (c.globals.tracked img) = _ := e
  rw [hcall, hd]
  exact ⟨_, used, rfl, finish_pedestrian ht rfl hn⟩

/-! ## The run -/

theorem course_step {tr : List Iter} {c : Camera} (h : Course tr c) (img : Snapshot) :
    Course (tr ++ (c.step img).2) (c.step img).1 := by
  refine ⟨waitsInFive_step c img h.waits, ?_⟩
  intro htop h3'
  by_cases h3 : c.globals.current_state = 3
  · rcases hpc : c.pc with _ | ⟨sp_l, sp_r⟩ | _
    · obtain ⟨it, used, hout, hpass⟩ := step_three hpc h3 img
      rw [hout]
      have hthree := h.three hpc h3
      have hstart : it.start.current_state = 3 := by rw [hpass.start]; exact h3
      have hsince : since (tr ++ [it]) = since tr ++ used := by
        rw [since_concat hstart, hpass.reads]
      rcases hpass.ending with ⟨-, hcnt, hlow⟩ | ⟨-, h4, -⟩
      · refine ⟨?_, ?_, ?_⟩
        · rw [hcnt, entryCnt_concat hstart, hsince, Streak.count_append, hpass.start, ← hthree.cnt]
        · rw [hsince]
          rcases hlow with rfl | hlow
          · rw [hcnt]
            simpa using hthree.low
          · exact Or.inr hlow
        · rw [hsince, heading_append]
          by_cases hused : used = []
          · subst hused
            by_cases hnil : since tr = []
            · rw [hnil]
              rfl
            · have hdir := hthree.dir
              have hfwd := heading_ne_forward c.globals.direction hnil
              rw [hpass.idle_dir rfl (hdir ▸ hfwd)]
              exact hdir
          · obtain ⟨used, b, rfl⟩ := (List.eq_nil_or_concat' used).resolve_left hused
            rw [hpass.read_dir hused, heading_of_getLast? List.getLast?_concat,
              heading_of_getLast? List.getLast?_concat]
      · rw [h4] at h3'
        cases h3'
    · have := h.waits sp_l sp_r hpc
      omega
    · rw [Camera.step_raised hpc] at htop
      rw [hpc] at htop
      cases htop
  · rcases step_out c img with ⟨-, hstep⟩ | ⟨it, -, hout, hstart⟩
    · rw [hstep] at h3'
      exact absurd h3' h3
    · rw [hout]
      exact inThree_of_ne (by rw [hstart]; exact h3) _

theorem course_init (g : Globals) : Course [] ⟨g, .top⟩ :=
  ⟨fun _ _ h => (by cases h), fun _ _ => inThree_enter rfl g⟩

/-- A record of a pass in state 3 comes from such a pass. -/
theorem emitted_three {tr u v : List Iter} {c : Camera} {img : Snapshot} {it : Iter}
    (h : Course tr c) (hout : (c.step img).2 = u ++ it :: v) (h3 : it.start.current_state = 3) :
    u = [] ∧ InThree tr c.globals ∧ ∃ used, PedestrianPass c (c.step img).1 it used := by
  obtain ⟨rfl, hsingle, hst, hne⟩ := emitted_start hout
  rw [hst] at h3
  have hpc : c.pc = .top := by
    rcases hpc : c.pc with _ | ⟨sp_l, sp_r⟩ | _
    · rfl
    · have := h.waits sp_l sp_r hpc
      omega
    · exact absurd hpc hne
  obtain ⟨it', used, hout', hpass⟩ := step_three hpc h3 img
  rw [hsingle] at hout'
  obtain ⟨rfl, -⟩ := List.cons.inj hout'
  exact ⟨rfl, h.three hpc h3, used, hpass⟩

/-! ## The two laws -/

/-- **Pedestrian stop.** In every pass in state 3 by which a byte has been read since the state was
entered, the last speed command is (0, 0) if and only if the last of these bytes is close. -/
theorem stops_iff_close (g : Globals) (imgs : List Snapshot) {pre post : List Iter} {it : Iter}
    (h : (run Camera.step ⟨g, .top⟩ imgs).2 = pre ++ it :: post)
    (h3 : it.start.current_state = 3) {distance : UInt8}
    (hlast : (since (pre ++ [it])).getLast? = some distance) :
    it.speeds.getLast? = some (0, 0) ↔ distance < DIS_CONST := by
  revert h3 distance
  refine run_emitted Camera.step (I := Course)
    (P := fun pre it => it.start.current_state = 3 → ∀ {distance : UInt8},
      (since (pre ++ [it])).getLast? = some distance →
      (it.speeds.getLast? = some (0, 0) ↔ distance < DIS_CONST))
    (course_init g) (fun _ _ img h => course_step h img) ?_ imgs h
  intro tr c img u it v hI hout h3 distance hlast
  obtain ⟨rfl, hthree, used, hpass⟩ := emitted_three hI hout h3
  rw [List.append_nil, since_concat h3, hpass.reads] at hlast
  obtain ⟨sp, hsp, hstop⟩ := hpass.speeds
  have hdir : (c.step img).1.globals.direction = if close distance then .stop else .right := by
    by_cases hused : used = []
    · subst hused
      rw [List.append_nil] at hlast
      have hd := hthree.dir.trans (heading_of_getLast? hlast)
      rw [hpass.idle_dir rfl ?_, hd]
      rw [hd]
      split_ifs <;> simp
    · rw [hpass.read_dir hused]
      refine heading_of_getLast? ?_
      obtain ⟨used, b, rfl⟩ := (List.eq_nil_or_concat' used).resolve_left hused
      rw [← List.append_assoc, List.getLast?_concat] at hlast
      rw [List.getLast?_concat, hlast]
  rw [hsp, List.getLast?_singleton, Option.some.injEq, hstop, hdir]
  by_cases hclose : distance < DIS_CONST
  · simp [close, hclose]
  · simp [close, hclose]

theorem stops_iff_close_mixed :
    ∃ it, (run Camera.step ⟨Globals.init 3, .top⟩ [.readings [20, 50, 10]]).2 = [] ++ it :: [] ∧
      it.speeds.getLast? = some (0, 0) := by
  obtain ⟨it, hrun, h3, hlast⟩ : ∃ it,
      (run Camera.step ⟨Globals.init 3, .top⟩ [.readings [20, 50, 10]]).2 = [] ++ it :: [] ∧
      it.start.current_state = 3 ∧ (since ([] ++ [it])).getLast? = some 10 :=
    ⟨_, rfl, rfl, by decide +kernel⟩
  exact ⟨it, hrun, (stops_iff_close (Globals.init 3) _ hrun h3 hlast).2 (by decide)⟩

/-- The last 161 distance bytes were all close, and all were read since state 3 was entered. -/
def FullStreak (tr : List Iter) : Prop :=
  161 ≤ (since tr).length ∧ ∀ distance ∈ (since tr).rtake 161, distance < DIS_CONST

/-- **Obstacle avoidance.** Whenever the course goes from state 3 to 4 the last 161 bytes were close
and read in state 3 if and only if `state_cnt` was 0 on entry or a far byte has reset it since. -/
theorem full_streak_iff (g : Globals) (imgs : List Snapshot) {pre post : List Iter} {it : Iter}
    (h : (run Camera.step ⟨g, .top⟩ imgs).2 = pre ++ it :: post)
    (h3 : it.start.current_state = 3) (h4 : it.outcome = .next 4) :
    FullStreak (pre ++ [it]) ↔
      entryCnt (pre ++ [it]) it.start = 0 ∨
        ∃ distance ∈ since (pre ++ [it]), DIS_CONST ≤ distance := by
  revert h3 h4
  refine run_emitted Camera.step (I := Course)
    (P := fun pre it => it.start.current_state = 3 → it.outcome = .next 4 →
      (FullStreak (pre ++ [it]) ↔ entryCnt (pre ++ [it]) it.start = 0 ∨
        ∃ distance ∈ since (pre ++ [it]), DIS_CONST ≤ distance))
    (course_init g) (fun _ _ img h => course_step h img) ?_ imgs h
  intro tr c img u it v hI hout h3 h4
  obtain ⟨rfl, hthree, used, hpass⟩ := emitted_three hI hout h3
  rcases hpass.ending with ⟨h3', -⟩ | ⟨-, -, hne, hnow, hbefore⟩
  · rw [h3'] at h4
    cases h4
  · have hcnt := hthree.cnt
    rw [List.append_nil, entryCnt_concat h3, hpass.start]
    have hsince : since (tr ++ [it]) = since tr ++ used := by rw [since_concat h3, hpass.reads]
    have key := Streak.first_pass_iff close (n := entryCnt tr c.globals) (k := 160)
      (l := since tr ++ used) (by norm_num)
      (by rw [Streak.count_append, ← hcnt]; exact hnow)
      (by
        rw [List.dropLast_append_of_ne_nil hne, Streak.count_append, ← hcnt]
        rcases hbefore with hnil | hle
        · rw [hnil, List.append_nil]
          exact hthree.low
        · exact Or.inr hle)
    unfold FullStreak
    rw [hsince]
    simpa [close] using key

theorem full_streak_from_start :
    ∃ it, (run Camera.step ⟨Globals.init 3, .top⟩ [.readings (List.replicate 161 20)]).2 =
        [] ++ it :: [] ∧ FullStreak ([] ++ [it]) := by
  obtain ⟨it, hrun, h3, h4, hcnt⟩ : ∃ it,
      (run Camera.step ⟨Globals.init 3, .top⟩ [.readings (List.replicate 161 20)]).2 =
        [] ++ it :: [] ∧
      it.start.current_state = 3 ∧ it.outcome = .next 4 ∧ entryCnt ([] ++ [it]) it.start = 0 :=
    ⟨_, rfl, rfl, by decide +kernel, rfl⟩
  exact ⟨it, hrun, (full_streak_iff (Globals.init 3) _ hrun h3 h4).2 (Or.inl hcnt)⟩

/-- One frame without an arrow, the arrow, a red and a green light, and 160 close readings. -/
def countedFrame : List Snapshot :=
  [Snapshot.blank,
    { Snapshot.blank with find_template := fun t => t = "/left1.pgm" },
    { Snapshot.blank with red_circle := true },
    { Snapshot.blank with green_circle := true },
    .readings (List.replicate 160 20)]

/-- **A short streak.** The frame that `check_arrow` counted counts as a close reading. -/
theorem short_streak :
    ¬ ∀ n ∈ [1, 2, 3], ∀ imgs pre it post,
      (run Camera.step ⟨Globals.init n, .top⟩ imgs).2 = pre ++ it :: post →
      it.start.current_state = 3 → it.outcome = .next 4 → FullStreak (pre ++ [it]) := by
  intro h
  obtain ⟨pre, it, hrun, h3, h4, hlen⟩ : ∃ pre it,
      (run Camera.step ⟨Globals.init 1, .top⟩ countedFrame).2 = pre ++ it :: [] ∧
      it.start.current_state = 3 ∧ it.outcome = .next 4 ∧ (since (pre ++ [it])).length = 160 :=
    ⟨_, _, (List.dropLast_concat_getLast (by decide +kernel)).symm, by decide +kernel,
      by decide +kernel, by decide +kernel⟩
  have hfull := h 1 (by simp) countedFrame pre it [] hrun h3 h4
  have := hfull.1
  omega

end Tdps
