import Tdps.Lib.Alarm
import Tdps.Lib.Serial
import Tdps.Timer

/-!
# The kernel's timers keep their times

`Timers.Sim` relates the timer list, with its 32-bit ticks, to alarms on a clock that never wraps around.
All times in the list lie in a window of less than half of the tick range around the present, in which the
comparisons of `rt_timer_start` and `rt_timer_check` are those of the true times. Hence the timers go off
as the alarms do (`refines`), and a timer that is left alone goes off when its time is over, to the tick
(`timeout_exact`).
-/

namespace Tdps

open Machine Serial

namespace Timers

variable {τ : Type} [DecidableEq τ]

/-- `RT_TICK_MAX / 2`. -/
def half : ℕ := 0x7fffffff

theorem shown_half : RT_TICK_MAX / 2 = shown 32 half := by decide

theorem half_le : 2 * half ≤ 2 ^ 32 := by decide

/-! ## Putting a timer in its place -/

/-- The comparisons of `rt_timer_start` find the place behind all timers that are due no later. -/
theorem insert_eq {timer : τ → RtTimer} {d : τ → ℕ} {t : τ} {l : List τ}
    (ht : (timer t).timeout_tick = shown 32 (d t))
    (hl : ∀ p ∈ l, (timer p).timeout_tick = shown 32 (d p) ∧ d p < d t + half ∧ d t ≤ d p + half) :
    insert timer t l = l.orderedInsert (fun y z => d y < d z) t := by
  induction l with
  | nil => rfl
  | cons p l ih =>
    obtain ⟨⟨hp, hlate, hearly⟩, hl⟩ := List.forall_mem_cons.1 hl
    have hzero := sub_eq_zero_iff half_le hlate hearly (by decide)
    have hlt := sub_lt_half_iff half_le hlate hearly
    rw [insert, hp, ht, shown_half, List.orderedInsert_cons, ih hl]
    simp only [hzero, hlt]
    split_ifs <;> first | rfl | omega

/-! ## Single operations -/

section
variable {s : Timers τ} {t u : τ} {f : RtTimer → RtTimer}

theorem modify_self : (s.modify t f).timer t = f (s.timer t) := Function.update_self ..

theorem modify_of_ne (h : u ≠ t) : (s.modify t f).timer u = s.timer u := Function.update_of_ne h ..

/-- What the change of a timer leaves alone is the same for all timers. -/
theorem modify_same {β : Type} (g : RtTimer → β) (hg : g (f (s.timer t)) = g (s.timer t)) (u : τ) :
    g ((s.modify t f).timer u) = g (s.timer u) := by
  by_cases hu : u = t
  · rw [hu, modify_self, hg]
  · rw [modify_of_ne hu]

theorem rtTimerStart_self : (s.rtTimerStart t).timer t =
    ⟨(s.timer t).init_tick, s.rt_tick + (s.timer t).init_tick, true, (s.timer t).periodic⟩ := by
  simp only [rtTimerStart, modify_self, remove]

theorem rtTimerStart_of_ne (h : u ≠ t) : (s.rtTimerStart t).timer u = s.timer u := by
  simp only [rtTimerStart, modify_of_ne h, remove]

theorem rtTimerStart_init_tick : ((s.rtTimerStart t).timer u).init_tick = (s.timer u).init_tick := by
  by_cases hu : u = t
  · rw [hu, rtTimerStart_self]
  · rw [rtTimerStart_of_ne hu]

theorem rtTimerStart_periodic : ((s.rtTimerStart t).timer u).periodic = (s.timer u).periodic := by
  by_cases hu : u = t
  · rw [hu, rtTimerStart_self]
  · rw [rtTimerStart_of_ne hu]

theorem rtTimerStop_self : ((s.rtTimerStop t).1.timer t).activated = false := by
  by_cases hact : (s.timer t).activated = true
  · rw [rtTimerStop, if_pos hact, modify_self]
  · rw [rtTimerStop, if_neg hact]
    simpa using hact

theorem rtTimerStop_of_ne (h : u ≠ t) : (s.rtTimerStop t).1.timer u = s.timer u := by
  by_cases hact : (s.timer t).activated = true
  · rw [rtTimerStop, if_pos hact, modify_of_ne h]
    rfl
  · rw [rtTimerStop, if_neg hact]

/-- Stopping changes no more than the flag of the timer. -/
theorem rtTimerStop_same {β : Type} (g : RtTimer → β)
    (hg : ∀ timer : RtTimer, g { timer with activated := false } = g timer) :
    g ((s.rtTimerStop t).1.timer u) = g (s.timer u) := by
  by_cases hact : (s.timer t).activated = true
  · rw [rtTimerStop, if_pos hact]
    exact modify_same (f := fun timer => { timer with activated := false }) g (hg _) u
  · rw [rtTimerStop, if_neg hact]

theorem rtTimerStart_list {d : τ → ℕ} (ht : s.rt_tick + (s.timer t).init_tick = shown 32 (d t))
    (hnot : t ∉ s.timer_list.erase t)
    (hl : ∀ p ∈ s.timer_list.erase t,
      (s.timer p).timeout_tick = shown 32 (d p) ∧ d p < d t + half ∧ d t ≤ d p + half) :
    (s.rtTimerStart t).timer_list =
      (s.timer_list.erase t).orderedInsert (fun y z => d y < d z) t := by
  refine insert_eq ?_ ?_
  · rw [modify_self]
    exact ht
  · intro p hp
    rw [modify_of_ne (ne_of_mem_of_not_mem hp hnot)]
    exact hl p hp

end

/-! ## The simulation -/

/-- The timers are these alarms. -/
structure Sim (s : Timers τ) (c : Alarm.Clock τ) : Prop where
  tick : s.rt_tick = shown 32 c.now
  list : s.timer_list = c.agenda
  time : ∀ t, (s.timer t).init_tick = shown 32 (c.delay t)
  periodic : ∀ t, (s.timer t).periodic = c.again t
  timeout : ∀ t ∈ c.agenda, (s.timer t).timeout_tick = shown 32 (c.deadline t)
  activated : ∀ t, (s.timer t).activated = true ↔ t ∈ c.agenda
  sound : c.Sound
  window : ∀ t ∈ c.agenda, c.now ≤ c.deadline t + 1 ∧ c.deadline t < c.now + half
  time_lt : ∀ t, c.delay t < half
  time_pos : ∀ t, c.again t = true → 0 < c.delay t

namespace Sim

variable {s : Timers τ} {c : Alarm.Clock τ} (h : Sim s c) (t : τ)
include h

theorem start : Sim (s.rtTimerStart t) (c.arm t) := by
  have hnot : t ∉ c.agenda.erase t := h.sound.nodup.not_mem_erase
  constructor
  case tick => exact h.tick
  case list =>
    have hself : s.rt_tick + (s.timer t).init_tick = shown 32 ((c.arm t).deadline t) := by
      rw [Alarm.Clock.arm_deadline_self, h.tick, h.time, shown_add]
    rw [rtTimerStart_list hself (by rwa [h.list]), h.list]
    · rfl
    · intro p hp
      rw [h.list] at hp
      have hp' := List.mem_of_mem_erase hp
      have hwindow := h.window p hp'
      have htime := h.time_lt t
      rw [Alarm.Clock.arm_deadline_of_ne (ne_of_mem_of_not_mem hp hnot),
        Alarm.Clock.arm_deadline_self]
      exact ⟨h.timeout p hp', by omega, by omega⟩
  case time =>
    intro u
    rw [rtTimerStart_init_tick]
    exact h.time u
  case periodic =>
    intro u
    rw [rtTimerStart_periodic]
    exact h.periodic u
  case timeout =>
    intro u hmem
    by_cases hu : u = t
    · rw [hu, rtTimerStart_self, Alarm.Clock.arm_deadline_self, shown_add, ← h.tick, ← h.time]
    · rw [rtTimerStart_of_ne hu, Alarm.Clock.arm_deadline_of_ne hu]
      exact h.timeout u ((Alarm.Clock.mem_arm.1 hmem).resolve_left hu)
  case activated =>
    intro u
    rw [Alarm.Clock.mem_arm]
    by_cases hu : u = t
    · rw [hu, rtTimerStart_self]
      exact iff_of_true rfl (Or.inl rfl)
    · rw [rtTimerStart_of_ne hu, h.activated, or_iff_right hu]
  case sound => exact h.sound.arm t
  case window =>
    intro u hmem
    by_cases hu : u = t
    · have htime := h.time_lt t
      rw [hu, Alarm.Clock.arm_deadline_self, Alarm.Clock.arm_now]
      omega
    · rw [Alarm.Clock.arm_deadline_of_ne hu]
      exact h.window u ((Alarm.Clock.mem_arm.1 hmem).resolve_left hu)
  case time_lt => exact h.time_lt
  case time_pos => exact h.time_pos

/-- Taking a timer off the list, with its flag cleared. -/
theorem stop : Sim ((s.remove t).modify t fun timer => { timer with activated := false })
    (c.disarm t) := by
  have hmem : ∀ u, u ∈ (c.disarm t).agenda ↔ u ≠ t ∧ u ∈ c.agenda := fun u =>
    Alarm.Clock.mem_disarm h.sound
  constructor
  case tick => exact h.tick
  case list => exact congrArg (List.erase · t) h.list
  case time =>
    intro u
    rw [modify_same RtTimer.init_tick rfl]
    exact h.time u
  case periodic =>
    intro u
    rw [modify_same RtTimer.periodic rfl]
    exact h.periodic u
  case timeout =>
    intro u hu
    obtain ⟨hne, hu⟩ := (hmem u).1 hu
    rw [modify_of_ne hne]
    exact h.timeout u hu
  case activated =>
    intro u
    rw [hmem]
    by_cases hu : u = t
    · rw [hu, modify_self]
      simp
    · rw [modify_of_ne hu, and_iff_right hu]
      exact h.activated u
  case sound => exact h.sound.disarm t
  case window =>
    intro u hu
    exact h.window u ((hmem u).1 hu).2
  case time_lt => exact h.time_lt
  case time_pos => exact h.time_pos

theorem rtTimerStop : Sim (s.rtTimerStop t).1 (c.disarm t) := by
  by_cases hact : (s.timer t).activated = true
  · rw [Timers.rtTimerStop, if_pos hact]
    exact h.stop t
  · have hnot : t ∉ c.agenda := fun ht => hact ((h.activated t).2 ht)
    have hsame : c.disarm t = c := by
      unfold Alarm.Clock.disarm
      rw [List.erase_of_not_mem hnot]
    rw [Timers.rtTimerStop, if_neg hact, hsame]
    exact h

/-- A change of a timer's time or flag. -/
theorem modify {f : RtTimer → RtTimer} {delay : τ → ℕ} {again : τ → Bool}
    (htimeout : (f (s.timer t)).timeout_tick = (s.timer t).timeout_tick)
    (hactivated : (f (s.timer t)).activated = (s.timer t).activated)
    (htime : ∀ u, ((s.modify t f).timer u).init_tick = shown 32 (delay u))
    (hperiodic : ∀ u, ((s.modify t f).timer u).periodic = again u)
    (hlt : ∀ u, delay u < half) (hpos : ∀ u, again u = true → 0 < delay u) :
    Sim (s.modify t f) { c with delay := delay, again := again } := by
  constructor
  case tick => exact h.tick
  case list => exact h.list
  case time => exact htime
  case periodic => exact hperiodic
  case timeout =>
    intro u hu
    rw [modify_same RtTimer.timeout_tick htimeout]
    exact h.timeout u hu
  case activated =>
    intro u
    rw [modify_same RtTimer.activated hactivated]
    exact h.activated u
  case sound => exact ⟨h.sound.nodup, h.sound.sorted⟩
  case window => exact h.window
  case time_lt => exact hlt
  case time_pos => exact hpos

end Sim

/-- The call on the alarms. -/
def Call.toAlarm : Call τ → Alarm.Call τ
  | control t (.RT_TIMER_CTRL_SET_TIME time) => .setDelay t time.toNat
  | control t .RT_TIMER_CTRL_SET_ONESHOT => .setAgain t false
  | control t .RT_TIMER_CTRL_SET_PERIODIC => .setAgain t true
  | start t => .start t
  | stop t => .stop t
  | tick => .tick

omit [DecidableEq τ] in
theorem Call.alarm_toAlarm (b : Call τ) : b.toAlarm.alarm = b.timer := by
  cases b with
  | control t cmd => cases cmd <;> rfl
  | start t => rfl
  | stop t => rfl
  | tick => rfl

omit [DecidableEq τ] in
theorem Call.toAlarm_eq_tick {b : Call τ} : b.toAlarm = .tick ↔ b = .tick := by
  cases b with
  | control t cmd => cases cmd <;> simp [toAlarm]
  | start t => simp [toAlarm]
  | stop t => simp [toAlarm]
  | tick => simp [toAlarm]

theorem Call.count_tick_map (bs : List (Call τ)) :
    (bs.map toAlarm).count .tick = bs.count .tick := by
  induction bs with
  | nil => rfl
  | cons b bs ih =>
    rw [List.map_cons, List.count_cons, List.count_cons, ih]
    simp only [beq_iff_eq, toAlarm_eq_tick]

theorem Sim.control {s : Timers τ} {c : Alarm.Clock τ} (h : Sim s c) (t : τ) (cmd : Control)
    (hok : Allowed s (.control t cmd)) :
    Sim (s.rtTimerControl t cmd) (c.step (Call.control t cmd).toAlarm).1 := by
  cases cmd with
  | RT_TIMER_CTRL_SET_TIME time =>
    obtain ⟨hlt, hpos⟩ := hok
    refine h.modify (f := fun timer => { timer with init_tick := time }) t rfl rfl ?_ ?_ ?_ ?_
    · intro u
      by_cases hu : u = t
      · rw [hu, modify_self, Function.update_self, shown_toNat]
      · rw [modify_of_ne hu, Function.update_of_ne hu, h.time]
    · intro u
      rw [modify_same RtTimer.periodic rfl, h.periodic]
    · intro u
      by_cases hu : u = t
      · rw [hu, Function.update_self]
        exact hlt
      · rw [Function.update_of_ne hu]
        exact h.time_lt u
    · intro u hagain
      by_cases hu : u = t
      · have hne := hpos (by rw [h.periodic, ← hu]; exact hagain)
        rw [hu, Function.update_self]
        exact Nat.pos_of_ne_zero fun e => hne (BitVec.eq_of_toNat_eq e)
      · rw [Function.update_of_ne hu]
        exact h.time_pos u hagain
  | RT_TIMER_CTRL_SET_ONESHOT =>
    refine h.modify (f := fun timer => { timer with periodic := false }) t rfl rfl ?_ ?_ h.time_lt ?_
    · intro u
      rw [modify_same RtTimer.init_tick rfl, h.time]
    · intro u
      by_cases hu : u = t
      · rw [hu, modify_self, Function.update_self]
      · rw [modify_of_ne hu, Function.update_of_ne hu, h.periodic]
    · intro u hagain
      by_cases hu : u = t
      · rw [hu, Function.update_self] at hagain
        cases hagain
      · rw [Function.update_of_ne hu] at hagain
        exact h.time_pos u hagain
  | RT_TIMER_CTRL_SET_PERIODIC =>
    refine h.modify (f := fun timer => { timer with periodic := true }) t rfl rfl ?_ ?_ h.time_lt ?_
    · intro u
      rw [modify_same RtTimer.init_tick rfl, h.time]
    · intro u
      by_cases hu : u = t
      · rw [hu, modify_self, Function.update_self]
      · rw [modify_of_ne hu, Function.update_of_ne hu, h.periodic]
    · intro u hagain
      by_cases hu : u = t
      · rw [hu]
        refine Nat.pos_of_ne_zero fun e => hok ?_
        rw [h.time, e]
        rfl
      · rw [Function.update_of_ne hu] at hagain
        exact h.time_pos u hagain

/-! ## The tick -/

section
variable {s : Timers τ} {c : Alarm.Clock τ}

theorem Sim.expire (h : Sim s c) {t : τ} (ht : t ∈ c.agenda) : Sim (s.expire t) (c.fire t) := by
  have hactivated : (s.timer t).activated = true := (h.activated t).2 ht
  by_cases hp : (s.timer t).periodic = true
  · -- taken off twice and started: the same as started
    have hagain : c.again t = true := by rwa [← h.periodic]
    have hstart : s.expire t = s.rtTimerStart t := by
      have herase : (s.timer_list.erase t).erase t = s.timer_list.erase t :=
        List.erase_of_not_mem (by rw [h.list]; exact h.sound.nodup.not_mem_erase)
      simp [Timers.expire, rtTimerStart, remove, Timers.modify, hp, hactivated, herase]
    rw [hstart, Alarm.Clock.fire, if_pos hagain]
    exact h.start t
  · have hagain : ¬ c.again t = true := by rwa [← h.periodic]
    have hstop : s.expire t = (s.remove t).modify t fun timer => { timer with activated := false } := by
      simp [Timers.expire, remove, Timers.modify, hp]
    rw [hstop, Alarm.Clock.fire, if_neg hagain]
    exact h.stop t

omit [DecidableEq τ] in
/-- The comparison of `rt_timer_check`. -/
theorem Sim.compare (h : Sim s c) {t : τ} (ht : t ∈ c.agenda) :
    s.rt_tick - (s.timer t).timeout_tick < RT_TICK_MAX / 2 ↔ c.deadline t ≤ c.now := by
  have hwindow := h.window t ht
  rw [h.tick, h.timeout t ht, shown_half]
  exact sub_lt_half_iff half_le (by unfold half; omega) (by omega)

/-- The loop of `rt_timer_check` ends and calls the timeout functions of what is due, in order. -/
theorem Sim.check (h : Sim s c) {fuel : ℕ} (hfuel : c.due.length < fuel) :
    ∃ s', rtTimerCheck fuel s = some (s', c.due) ∧ Sim s' (c.due.foldl Alarm.Clock.fire c) := by
  induction fuel generalizing s c with
  | zero => exact absurd hfuel (Nat.not_lt_zero _)
  | succ fuel ih =>
    cases hlist : c.agenda with
    | nil =>
      have hdue : c.due = [] := by rw [Alarm.Clock.due, hlist]; rfl
      rw [rtTimerCheck, h.list, hlist, hdue]
      exact ⟨s, rfl, h⟩
    | cons t l =>
      have ht : t ∈ c.agenda := by rw [hlist]; exact List.mem_cons_self
      have hcompare := h.compare ht
      rw [rtTimerCheck, h.list, hlist]
      by_cases hdue : c.deadline t ≤ c.now
      · have hcons := Alarm.Clock.due_eq_cons h.sound hlist hdue (h.time_pos t)
        rw [hcons, List.length_cons] at hfuel
        obtain ⟨s', hs', hsim⟩ := ih (h.expire ht) (by omega)
        refine ⟨s', ?_, ?_⟩
        · simp only [hcompare, if_pos hdue, hs', hcons, Option.map_some]
        · rw [hcons]
          exact hsim
      · have hnone : c.due = [] := by
          rw [Alarm.Clock.due, hlist, List.takeWhile_cons_of_neg (by simpa using hdue)]
        rw [hnone]
        refine ⟨s, ?_, h⟩
        simp only [hcompare, if_neg hdue]

end

theorem expire_of_ne {s : Timers τ} {t u : τ} (hu : u ≠ t) : (s.expire t).timer u = s.timer u := by
  by_cases hp : (s.timer t).periodic = true
  · by_cases hact : (s.timer t).activated = true
    · simp only [expire, remove, hp, hact, if_true, Bool.and_self]
      rw [rtTimerStart_of_ne hu, modify_of_ne hu]
    · simp [expire, remove, hp, hact]
  · simp [expire, remove, hp, modify_self, modify_of_ne hu]

theorem expire_rt_tick {s : Timers τ} {t : τ} : (s.expire t).rt_tick = s.rt_tick := by
  unfold expire
  dsimp only
  split_ifs <;> rfl

/-- `rt_timer_check` changes nothing but the timers that are due. -/
theorem rtTimerCheck_of_not_mem {fuel : ℕ} {s s' : Timers τ} {due : List τ}
    (h : rtTimerCheck fuel s = some (s', due)) :
    s'.rt_tick = s.rt_tick ∧ ∀ u ∉ due, s'.timer u = s.timer u := by
  induction fuel generalizing s due with
  | zero => cases h
  | succ fuel ih =>
    rw [rtTimerCheck] at h
    split at h
    · cases h
      exact ⟨rfl, fun _ _ => rfl⟩
    · split_ifs at h with hdue
      · obtain ⟨⟨s₁, due₁⟩, h₁, heq⟩ := Option.map_eq_some_iff.1 h
        cases heq
        obtain ⟨htick, hsame⟩ := ih h₁
        refine ⟨htick.trans expire_rt_tick, ?_⟩
        intro u hu
        rw [List.mem_cons, not_or] at hu
        exact (hsame u hu.2).trans (expire_of_ne hu.1)
      · cases h
        exact ⟨rfl, fun _ _ => rfl⟩

/-! ## Runs -/

/-- Between two calls nothing on the list is overdue. -/
structure Good (s : Timers τ) (c : Alarm.Clock τ) : Prop extends Sim s c where
  early : ∀ t ∈ c.agenda, c.now ≤ c.deadline t

section
variable {s : Timers τ} {c : Alarm.Clock τ}

omit [DecidableEq τ] in
theorem Good.advance (h : Good s c) : Sim s.advance c.advance := by
  constructor
  case tick =>
    rw [Timers.advance, h.tick, Alarm.Clock.advance, shown_add]
    rfl
  case list => exact h.list
  case time => exact h.time
  case periodic => exact h.periodic
  case timeout => exact h.timeout
  case activated => exact h.activated
  case sound => exact h.sound.advance
  case window =>
    intro t ht
    have hwindow := h.window t ht
    have hearly := h.early t ht
    constructor
    · exact Nat.succ_le_succ hearly
    · show c.deadline t < c.now + 1 + half
      omega
  case time_lt => exact h.time_lt
  case time_pos => exact h.time_pos

/-- The length of the list is fuel enough. -/
theorem Sim.check_length (h : Sim s c) :
    ∃ s', rtTimerCheck (s.timer_list.length + 1) s = some (s', c.due) ∧
      Sim s' (c.due.foldl Alarm.Clock.fire c) := by
  refine h.check ?_
  have hle : c.due.length ≤ c.agenda.length := (List.takeWhile_sublist _).length_le
  rw [h.list]
  omega

/-- When all that is due has gone off, nothing on the agenda is overdue. -/
theorem early_due (hc : c.Sound) : ∀ t ∈ (c.due.foldl Alarm.Clock.fire c).agenda,
    c.now ≤ (c.due.foldl Alarm.Clock.fire c).deadline t := by
  intro t ht
  by_cases hdue : t ∈ c.due
  · have hnodup := Alarm.Clock.nodup_due hc
    have hagain := (Alarm.Clock.mem_foldl_fire hc hnodup hdue).1 ht
    rw [Alarm.Clock.foldl_fire_deadline hnodup hdue hagain]
    exact Nat.le_add_right _ _
  · have hmem := (Alarm.Clock.mem_foldl_fire_of_not_mem hdue).1 ht
    rw [Alarm.Clock.foldl_fire_deadline_of_not_mem hdue]
    by_contra hlt
    exact hdue ((Alarm.Clock.mem_due hc).2 ⟨hmem, Nat.le_of_not_le hlt⟩)

/-- **Step lemma.** A call of the timer functions is the call on the alarms. -/
theorem Good.step (h : Good s c) {b : Call τ} (hb : Allowed s b) :
    Good (s.step b).1 (c.step b.toAlarm).1 ∧ (s.step b).2 = (c.step b.toAlarm).2 := by
  cases b with
  | control t cmd =>
    refine ⟨⟨h.toSim.control t cmd hb, ?_⟩, ?_⟩
    · cases cmd <;> exact h.early
    · cases cmd <;> rfl
  | start t =>
    refine ⟨⟨h.toSim.start t, ?_⟩, rfl⟩
    intro u hu
    show c.now ≤ (c.arm t).deadline u
    by_cases hut : u = t
    · rw [hut, Alarm.Clock.arm_deadline_self]
      exact Nat.le_add_right _ _
    · rw [Alarm.Clock.arm_deadline_of_ne hut]
      exact h.early u ((Alarm.Clock.mem_arm.1 hu).resolve_left hut)
  | stop t =>
    refine ⟨⟨h.toSim.rtTimerStop t, ?_⟩, rfl⟩
    intro u hu
    exact h.early u ((Alarm.Clock.mem_disarm h.sound).1 hu).2
  | tick =>
    obtain ⟨s', hs', hsim⟩ := h.advance.check_length
    have htick : s.step .tick = (s', c.advance.due) := by
      rw [Timers.step, tick]
      exact congrArg (Option.getD · _) hs'
    rw [htick]
    refine ⟨⟨hsim, ?_⟩, rfl⟩
    intro t ht
    show (c.step .tick).1.now ≤ (c.step .tick).1.deadline t
    rw [Alarm.Clock.tick_now]
    exact early_due h.sound.advance t ht

/-- **Run lemma.** -/
theorem Good.run (h : Good s c) {bs : List (Call τ)} (hbs : Along Timers.step Allowed s bs) :
    Good (Machine.run Timers.step s bs).1
        (Machine.run Alarm.Clock.step c (bs.map Call.toAlarm)).1 ∧
      (Machine.run Timers.step s bs).2 =
        (Machine.run Alarm.Clock.step c (bs.map Call.toAlarm)).2 := by
  induction bs generalizing s c with
  | nil => exact ⟨h, rfl⟩
  | cons b bs ih =>
    obtain ⟨hb, hbs⟩ := hbs
    obtain ⟨hgood, hout⟩ := h.step hb
    obtain ⟨hgood', hout'⟩ := ih hgood hbs
    rw [List.map_cons, run_cons, run_cons]
    refine ⟨hgood', ?_⟩
    dsimp only
    rw [hout, hout']

end

/-- The alarms at the start. -/
def clock (rt_tick : RtTick) (time : τ → RtTick) (periodic : τ → Bool) : Alarm.Clock τ :=
  { now := rt_tick.toNat
    delay := fun t => (time t).toNat
    again := periodic
    deadline := fun _ => 0
    agenda := [] }

omit [DecidableEq τ] in
theorem good_init {rt_tick : RtTick} {time : τ → RtTick} {periodic : τ → Bool}
    (htime : ∀ t, time t < RT_TICK_MAX / 2 ∧ (periodic t = true → time t ≠ 0)) :
    Good (init rt_tick time periodic) (clock rt_tick time periodic) := by
  constructor
  case early => simp [clock]
  constructor
  case tick => exact (shown_toNat rt_tick).symm
  case list => rfl
  case time => exact fun t => (shown_toNat (time t)).symm
  case periodic => exact fun t => rfl
  case timeout => simp [clock]
  case activated => simp [clock, init, RtTimer.init]
  case sound => exact ⟨List.nodup_nil, List.Pairwise.nil⟩
  case window => simp [clock]
  case time_lt => exact fun t => (htime t).1
  case time_pos =>
    intro t hp
    exact Nat.pos_of_ne_zero fun e => (htime t).2 hp (BitVec.eq_of_toNat_eq e)

variable {rt_tick : RtTick} {time : τ → RtTick} {periodic : τ → Bool}

/-- **The wrap-around of the tick count does not show.** In every run of calls from any tick count, the
timeout functions are called as the alarms of a clock that counts without end go off, and the next
`rt_timer_check` returns. -/
theorem refines (htime : ∀ t, time t < RT_TICK_MAX / 2 ∧ (periodic t = true → time t ≠ 0))
    {bs : List (Call τ)} (hbs : Along step Allowed (init rt_tick time periodic) bs) :
    (run step (init rt_tick time periodic) bs).2 =
        (run Alarm.Clock.step (clock rt_tick time periodic) (bs.map Call.toAlarm)).2 ∧
      ∃ r, rtTimerCheck ((run step (init rt_tick time periodic) bs).1.timer_list.length + 1)
        (run step (init rt_tick time periodic) bs).1.advance = some r := by
  obtain ⟨hgood, hout⟩ := (good_init htime).run hbs
  obtain ⟨s', hs', -⟩ := hgood.advance.check_length
  exact ⟨hout, _, hs'⟩

/-- Just before the tick count wraps around. -/
theorem refines_wrap :
    (run step (init 0xfffffffe (fun _ => 3) id)
        [.start true, .tick, .start false, .tick, .tick, .tick]).2 =
      (run Alarm.Clock.step (clock 0xfffffffe (fun _ => 3) id)
        ([Call.start true, .tick, .start false, .tick, .tick, .tick].map Call.toAlarm)).2 ∧
    ∃ r, rtTimerCheck ((run step (init 0xfffffffe (fun _ => 3) id)
          [.start true, .tick, .start false, .tick, .tick, .tick]).1.timer_list.length + 1)
        (run step (init 0xfffffffe (fun _ => 3) id)
          [.start true, .tick, .start false, .tick, .tick, .tick]).1.advance = some r :=
  refines (by decide) (by decide)

/-- **A timer goes off when its time is over.** After any run, a timer that is started and then left
alone has its timeout function called once, at tick `init_tick` from then (at the first one for 0), or
at every `init_tick`-th tick if it is periodic; and at no other tick, however the calls for other timers
and the ticks follow each other. -/
theorem timeout_exact (htime : ∀ t, time t < RT_TICK_MAX / 2 ∧ (periodic t = true → time t ≠ 0))
    {bs : List (Call τ)} (hbs : Along step Allowed (init rt_tick time periodic) bs)
    {t : τ} {cs : List (Call τ)}
    (hcs : Along step Allowed ((run step (init rt_tick time periodic) bs).1.rtTimerStart t) cs)
    (hleft : ∀ b ∈ cs, b.timer ≠ some t) :
    let s := (run step (init rt_tick time periodic) bs).1
    let k := (s.timer t).init_tick.toNat
    (run step (s.rtTimerStart t) cs).2.count t =
      if (s.timer t).periodic then cs.count .tick / k
      else if cs.count .tick < max k 1 then 0 else 1 := by
  intro s k
  obtain ⟨hgood, -⟩ := (good_init htime).run hbs
  obtain ⟨hstart, -⟩ := hgood.step (b := .start t) trivial
  obtain ⟨-, hout⟩ := hstart.run hcs
  have hk : k = _ := (congrArg BitVec.toNat (hgood.time t)).trans
    (toNat_shown ((hgood.time_lt t).trans (by decide)))
  have hleft' : ∀ b ∈ cs.map Call.toAlarm, b.alarm ≠ some t := by
    intro b hb
    obtain ⟨b', hb', rfl⟩ := List.mem_map.1 hb
    rw [Call.alarm_toAlarm]
    exact hleft b' hb'
  rw [hk, hgood.periodic, ← Call.count_tick_map cs,
    ← Alarm.Clock.count_run_arm hgood.sound (hgood.time_pos t) hleft']
  exact congrArg (List.count t) hout

theorem timeout_exact_wrap :
    let s := (run step (init 0xfffffffe (fun _ => 3) id) [.start false, .tick]).1
    let k := ((s.timer true).init_tick).toNat
    let cs : List (Call Bool) := [.tick, .tick, .stop false, .tick, .tick, .start false, .tick, .tick]
    (run step (s.rtTimerStart true) cs).2.count true =
      if (s.timer true).periodic then cs.count .tick / k
      else if cs.count .tick < max k 1 then 0 else 1 :=
  timeout_exact (by decide) (by decide) (by decide) (by decide)

/-- A periodic timer with time 0 would keep `rt_timer_check` in its loop. -/
theorem rtTimerCheck_period_zero {s : Timers τ} {t : τ} (hlist : s.timer_list = [t])
    (ht : s.timer t = ⟨0, s.rt_tick, true, true⟩) (fuel : ℕ) : rtTimerCheck fuel s = none := by
  induction fuel generalizing s with
  | zero => rfl
  | succ fuel ih =>
    have hstart : s.expire t = s.rtTimerStart t := by
      simp [expire, rtTimerStart, remove, modify, ht, hlist]
    have hdue : s.rt_tick - s.rt_tick < RT_TICK_MAX / 2 := by
      rw [BitVec.sub_self]
      decide
    rw [rtTimerCheck, hlist]
    dsimp only
    rw [ht, if_pos hdue, hstart, ih]
    · rfl
    · simp [rtTimerStart, remove, modify, hlist, insert]
    · rw [rtTimerStart_self, ht]
      exact congrArg (RtTimer.mk 0 · true true) (BitVec.add_zero _)

end Timers

end Tdps
