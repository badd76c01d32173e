import Mathlib.Logic.Function.Basic
import Tdps.Lib.Line
import Tdps.Lib.Machine

/-!
# Alarms

A clock counts ticks without end and keeps an agenda of alarms. Starting an alarm puts it on the agenda
with its delay from now as the deadline, behind all that are due no later. A tick fires, in the order of
the agenda, what is due by then; an alarm that is to go off again is started anew, with the deadline one
delay after the tick.

`count_run` says when that is: an alarm that is left alone goes off for the first time at its deadline,
at the next tick if that has passed, then after each further delay if it is to go off again, and at no
other time.
-/

namespace Alarm

open Machine

/-- A clock with its alarms; `agenda` holds those that are on, in the order in which they go off. -/
structure Clock (α : Type*) where
  now : ℕ
  delay : α → ℕ
  again : α → Bool
  deadline : α → ℕ
  agenda : List α

/-- What can be asked of the clock; at a tick it is asked for the alarms that go off. -/
inductive Call (α : Type*) where
  | setDelay (x : α) (k : ℕ)
  | setAgain (x : α) (b : Bool)
  | start (x : α)
  | stop (x : α)
  | tick
deriving DecidableEq

/-- The alarm that a call is about. -/
def Call.alarm {α : Type*} : Call α → Option α
  | setDelay x _ => some x
  | setAgain x _ => some x
  | start x => some x
  | stop x => some x
  | tick => none

variable {α : Type*} [DecidableEq α]

namespace Clock

variable (c : Clock α) (x : α)

def arm : Clock α :=
  let deadline := Function.update c.deadline x (c.now + c.delay x)
  { c with
    deadline := deadline
    agenda := (c.agenda.erase x).orderedInsert (fun y z => deadline y < deadline z) x }

def disarm : Clock α := { c with agenda := c.agenda.erase x }

/-- An alarm goes off. -/
def fire : Clock α := if c.again x then c.arm x else c.disarm x

omit [DecidableEq α] in
/-- The alarms that are due, in the order of the agenda. -/
def due : List α := c.agenda.takeWhile fun x => c.deadline x ≤ c.now

/-- The next tick begins. -/
def advance : Clock α := { c with now := c.now + 1 }

def step : Call α → Clock α × List α
  | .setDelay x k => ({ c with delay := Function.update c.delay x k }, [])
  | .setAgain x b => ({ c with again := Function.update c.again x b }, [])
  | .start x => (c.arm x, [])
  | .stop x => (c.disarm x, [])
  | .tick => (c.advance.due.foldl fire c.advance, c.advance.due)

/-- The agenda has no alarm twice and is in the order of the deadlines. -/
structure Sound : Prop where
  nodup : c.agenda.Nodup
  sorted : c.agenda.Pairwise fun x y => c.deadline x ≤ c.deadline y

variable {c x}

/-! ## Starting and stopping -/

@[simp] theorem arm_now : (c.arm x).now = c.now := rfl
@[simp] theorem arm_delay : (c.arm x).delay = c.delay := rfl
@[simp] theorem arm_again : (c.arm x).again = c.again := rfl

theorem arm_deadline_self : (c.arm x).deadline x = c.now + c.delay x :=
  Function.update_self ..

theorem arm_deadline_of_ne {y : α} (h : y ≠ x) : (c.arm x).deadline y = c.deadline y :=
  Function.update_of_ne h ..

theorem mem_arm {y : α} : y ∈ (c.arm x).agenda ↔ y = x ∨ y ∈ c.agenda := by
  unfold arm
  rw [List.mem_orderedInsert]
  by_cases h : y = x
  · simp [h]
  · simp [h, List.mem_erase_of_ne h]

theorem Sound.disarm (h : c.Sound) (x : α) : (c.disarm x).Sound :=
  ⟨h.nodup.erase x, h.sorted.sublist List.erase_sublist⟩

theorem Sound.arm (h : c.Sound) (x : α) : (c.arm x).Sound := by
  have hx : x ∉ c.agenda.erase x := h.nodup.not_mem_erase
  constructor
  · exact (List.perm_orderedInsert _ x _).nodup_iff.2 (List.nodup_cons.2 ⟨hx, h.nodup.erase x⟩)
  · refine Line.pairwise_orderedInsert ?_
    refine (h.sorted.sublist List.erase_sublist).imp_of_mem ?_
    intro y z hy hz hyz
    rw [arm_deadline_of_ne (ne_of_mem_of_not_mem hy hx),
      arm_deadline_of_ne (ne_of_mem_of_not_mem hz hx)]
    exact hyz

theorem mem_disarm (h : c.Sound) {y : α} : y ∈ (c.disarm x).agenda ↔ y ≠ x ∧ y ∈ c.agenda :=
  h.nodup.mem_erase_iff

/-! ## Going off -/

@[simp] theorem fire_now : (c.fire x).now = c.now := by
  unfold fire
  split_ifs <;> rfl

@[simp] theorem fire_delay : (c.fire x).delay = c.delay := by
  unfold fire
  split_ifs <;> rfl

@[simp] theorem fire_again : (c.fire x).again = c.again := by
  unfold fire
  split_ifs <;> rfl

theorem Sound.fire (h : c.Sound) (x : α) : (c.fire x).Sound := by
  unfold Clock.fire
  split_ifs
  · exact h.arm x
  · exact h.disarm x

theorem fire_deadline_of_ne {y : α} (h : y ≠ x) : (c.fire x).deadline y = c.deadline y := by
  unfold fire
  split_ifs
  · exact arm_deadline_of_ne h
  · rfl

theorem fire_deadline_self (h : c.again x = true) : (c.fire x).deadline x = c.now + c.delay x := by
  rw [fire, if_pos h, arm_deadline_self]

theorem mem_fire_of_ne {y : α} (h : y ≠ x) : y ∈ (c.fire x).agenda ↔ y ∈ c.agenda := by
  unfold fire
  split_ifs
  · rw [mem_arm, or_iff_right h]
  · exact List.mem_erase_of_ne h

theorem mem_fire_self (hc : c.Sound) : x ∈ (c.fire x).agenda ↔ c.again x = true := by
  unfold fire
  split_ifs with h
  · simp [mem_arm, h]
  · simp [mem_disarm hc, h]

omit [DecidableEq α] in
/-- In an agenda in order, what is due is at the front. -/
theorem due_eq_filter (hc : c.Sound) : c.due = c.agenda.filter fun x => c.deadline x ≤ c.now := by
  have key : ∀ l : List α, (l.Pairwise fun x y => c.deadline x ≤ c.deadline y) →
      l.takeWhile (fun x => c.deadline x ≤ c.now) = l.filter fun x => c.deadline x ≤ c.now := by
    intro l hl
    induction l with
    | nil => rfl
    | cons y l ih =>
      obtain ⟨hy, hl⟩ := List.pairwise_cons.1 hl
      by_cases h : c.deadline y ≤ c.now
      · rw [List.takeWhile_cons_of_pos (by simpa using h), List.filter_cons_of_pos (by simpa using h),
          ih hl]
      · rw [List.takeWhile_cons_of_neg (by simpa using h), List.filter_cons_of_neg (by simpa using h)]
        symm
        rw [List.filter_eq_nil_iff]
        intro z hz hz'
        have hyz := hy z hz
        have hz' : c.deadline z ≤ c.now := by simpa using hz'
        omega
  exact key c.agenda hc.sorted

omit [DecidableEq α] in
theorem mem_due (hc : c.Sound) : x ∈ c.due ↔ x ∈ c.agenda ∧ c.deadline x ≤ c.now := by
  rw [due_eq_filter hc, List.mem_filter, decide_eq_true_iff]

omit [DecidableEq α] in
theorem nodup_due (hc : c.Sound) : c.due.Nodup := by
  rw [due_eq_filter hc]
  exact hc.nodup.filter _

/-- An element that the filter drops can be put in anywhere. -/
theorem filter_orderedInsert {α : Type*} {x : α} {p : α → Bool} (r : α → α → Prop) [DecidableRel r]
    (hx : p x = false) (l : List α) : (l.orderedInsert r x).filter p = l.filter p := by
  rw [List.orderedInsert_eq_take_drop, List.filter_append, List.filter_cons_of_neg (by simp [hx]),
    ← List.filter_append, List.takeWhile_append_dropWhile]

/-- When the first alarm on the agenda goes off, what was due behind it still is. -/
theorem due_eq_cons (hc : c.Sound) {l : List α} (hl : c.agenda = x :: l) (hx : c.deadline x ≤ c.now)
    (hagain : c.again x = true → 0 < c.delay x) : c.due = x :: (c.fire x).due := by
  have hxl : x ∉ l := by
    have := hc.nodup
    rw [hl] at this
    exact (List.nodup_cons.1 this).1
  rw [due_eq_filter hc, due_eq_filter (hc.fire x), hl, List.filter_cons_of_pos (by simpa using hx)]
  congr 1
  have hrest : l.filter (fun y => c.deadline y ≤ c.now) =
      l.filter fun y => (c.fire x).deadline y ≤ (c.fire x).now := by
    refine List.filter_congr ?_
    intro y hy
    rw [fire_deadline_of_ne (ne_of_mem_of_not_mem hy hxl), fire_now]
  rw [hrest]
  by_cases h : c.again x = true
  · have hlate : decide ((c.fire x).deadline x ≤ (c.fire x).now) = false := by
      rw [fire_deadline_self h, fire_now, decide_eq_false_iff_not]
      have := hagain h
      omega
    have hagenda : (c.fire x).agenda = l.orderedInsert
        (fun y z => (c.fire x).deadline y < (c.fire x).deadline z) x := by
      rw [fire, if_pos h]
      conv_lhs => rw [arm, hl, List.erase_cons_head]
      rfl
    rw [hagenda]
    exact (filter_orderedInsert (p := fun y => (c.fire x).deadline y ≤ (c.fire x).now) _ hlate l).symm
  · rw [fire, if_neg h]
    simp [disarm, hl]

/-! ## A tick -/

section
variable {xs : List α} {y : α}

@[simp] theorem foldl_fire_now : (xs.foldl fire c).now = c.now := by
  induction xs generalizing c with
  | nil => rfl
  | cons x xs ih => rw [List.foldl_cons, ih, fire_now]

@[simp] theorem foldl_fire_delay : (xs.foldl fire c).delay = c.delay := by
  induction xs generalizing c with
  | nil => rfl
  | cons x xs ih => rw [List.foldl_cons, ih, fire_delay]

@[simp] theorem foldl_fire_again : (xs.foldl fire c).again = c.again := by
  induction xs generalizing c with
  | nil => rfl
  | cons x xs ih => rw [List.foldl_cons, ih, fire_again]

theorem Sound.foldl_fire (h : c.Sound) (xs : List α) : (xs.foldl Clock.fire c).Sound := by
  induction xs generalizing c with
  | nil => exact h
  | cons x xs ih => exact ih (h.fire x)

theorem foldl_fire_deadline_of_not_mem (hy : y ∉ xs) :
    (xs.foldl fire c).deadline y = c.deadline y := by
  induction xs generalizing c with
  | nil => rfl
  | cons x xs ih =>
    rw [List.foldl_cons, ih (List.not_mem_of_not_mem_cons hy),
      fire_deadline_of_ne (List.ne_of_not_mem_cons hy)]

theorem mem_foldl_fire_of_not_mem (hy : y ∉ xs) :
    y ∈ (xs.foldl fire c).agenda ↔ y ∈ c.agenda := by
  induction xs generalizing c with
  | nil => rfl
  | cons x xs ih =>
    rw [List.foldl_cons, ih (List.not_mem_of_not_mem_cons hy),
      mem_fire_of_ne (List.ne_of_not_mem_cons hy)]

theorem mem_foldl_fire (hc : c.Sound) (hxs : xs.Nodup) (hy : y ∈ xs) :
    y ∈ (xs.foldl fire c).agenda ↔ c.again y = true := by
  induction xs generalizing c with
  | nil => cases hy
  | cons x xs ih =>
    obtain ⟨hx, hxs⟩ := List.nodup_cons.1 hxs
    rw [List.foldl_cons]
    rcases List.mem_cons.1 hy with rfl | hy
    · rw [mem_foldl_fire_of_not_mem hx, mem_fire_self hc]
    · rw [ih (hc.fire x) hxs hy, fire_again]

theorem foldl_fire_deadline (hxs : xs.Nodup) (hy : y ∈ xs) (h : c.again y = true) :
    (xs.foldl fire c).deadline y = c.now + c.delay y := by
  induction xs generalizing c with
  | nil => cases hy
  | cons x xs ih =>
    obtain ⟨hx, hxs⟩ := List.nodup_cons.1 hxs
    rw [List.foldl_cons]
    rcases List.mem_cons.1 hy with rfl | hy
    · rw [foldl_fire_deadline_of_not_mem hx, fire_deadline_self h]
    · rw [ih hxs hy (by rw [fire_again]; exact h), fire_now, fire_delay]

end

omit [DecidableEq α] in
theorem Sound.advance (h : c.Sound) : c.advance.Sound := ⟨h.nodup, h.sorted⟩

theorem Sound.step (h : c.Sound) (b : Call α) : (c.step b).1.Sound := by
  cases b with
  | setDelay x k => exact ⟨h.nodup, h.sorted⟩
  | setAgain x b => exact ⟨h.nodup, h.sorted⟩
  | start x => exact h.arm x
  | stop x => exact h.disarm x
  | tick => exact h.advance.foldl_fire _

/-- A tick fires the alarms whose deadline it is, each once. -/
theorem count_tick (hc : c.Sound) :
    (c.step .tick).2.count x = if x ∈ c.agenda ∧ c.deadline x ≤ c.now + 1 then 1 else 0 := by
  show c.advance.due.count x = _
  rw [(nodup_due hc.advance).count]
  simp only [mem_due hc.advance]
  rfl

/-! ## An alarm that is left alone -/

/-- The same as far as one alarm is concerned. -/
structure Agree (x : α) (c c' : Clock α) : Prop where
  delay : c'.delay x = c.delay x
  again : c'.again x = c.again x
  deadline : c'.deadline x = c.deadline x
  agenda : x ∈ c'.agenda ↔ x ∈ c.agenda

/-- Calls that are about other alarms. -/
theorem agree_step (hc : c.Sound) {b : Call α} (hb : b ≠ .tick) (hx : b.alarm ≠ some x) :
    Agree x c (c.step b).1 ∧ (c.step b).1.now = c.now ∧ (c.step b).2 = [] := by
  cases b with
  | setDelay y k =>
    have hxy : x ≠ y := fun e => hx (congrArg some e.symm)
    exact ⟨⟨Function.update_of_ne hxy .., rfl, rfl, Iff.rfl⟩, rfl, rfl⟩
  | setAgain y b =>
    have hxy : x ≠ y := fun e => hx (congrArg some e.symm)
    exact ⟨⟨rfl, Function.update_of_ne hxy .., rfl, Iff.rfl⟩, rfl, rfl⟩
  | start y =>
    have hxy : x ≠ y := fun e => hx (congrArg some e.symm)
    exact ⟨⟨rfl, rfl, arm_deadline_of_ne hxy, mem_arm.trans (or_iff_right hxy)⟩, rfl, rfl⟩
  | stop y =>
    have hxy : x ≠ y := fun e => hx (congrArg some e.symm)
    exact ⟨⟨rfl, rfl, rfl, (mem_disarm hc).trans (and_iff_right hxy)⟩, rfl, rfl⟩
  | tick => exact absurd rfl hb

/-- A tick at which the alarm does not go off. -/
theorem agree_tick (hc : c.Sound) (hx : ¬ (x ∈ c.agenda ∧ c.deadline x ≤ c.now + 1)) :
    Agree x c (c.step .tick).1 := by
  have hdue : x ∉ c.advance.due := fun h => hx ((mem_due hc.advance).1 h)
  constructor
  · exact congrFun foldl_fire_delay x
  · exact congrFun foldl_fire_again x
  · exact foldl_fire_deadline_of_not_mem hdue
  · exact mem_foldl_fire_of_not_mem hdue

theorem tick_now : (c.step .tick).1.now = c.now + 1 := foldl_fire_now

/-- How often an alarm goes off within `n` ticks, the first time at tick `first`. -/
def times (again : Bool) (first delay n : ℕ) : ℕ :=
  if n < first then 0 else if again then 1 + (n - first) / delay else 1

omit [DecidableEq α] in
/-- The first tick counted off, when it is not that of the alarm. -/
theorem times_succ {again : Bool} {first delay n : ℕ} (h : 1 < first) :
    times again first delay (n + 1) = times again (first - 1) delay n := by
  unfold times
  have e : n + 1 - first = n - (first - 1) := by omega
  have e' : n + 1 < first ↔ n < first - 1 := by omega
  rw [e]
  simp only [e']

/-- After it has gone off once, an alarm that goes off again has a whole delay before it. -/
theorem times_one {delay n : ℕ} (h : 0 < delay) :
    times true 1 delay (n + 1) = 1 + times true delay delay n := by
  unfold times
  rw [if_neg (by omega), if_pos rfl, Nat.add_sub_cancel]
  by_cases hn : n < delay
  · rw [if_pos hn, Nat.div_eq_of_lt hn]
  · rw [if_neg hn, if_pos rfl, Nat.div_eq_sub_div h (Nat.le_of_not_lt hn)]
    omega

theorem count_run_of_not_mem (hc : c.Sound) (hx : x ∉ c.agenda) {bs : List (Call α)}
    (hbs : ∀ b ∈ bs, b.alarm ≠ some x) : (run step c bs).2.count x = 0 := by
  induction bs generalizing c with
  | nil => rfl
  | cons b bs ih =>
    obtain ⟨hb, hrest⟩ := List.forall_mem_cons.1 hbs
    rw [run_cons, List.count_append]
    by_cases htick : b = .tick
    · subst htick
      have hno : ¬ (x ∈ c.agenda ∧ c.deadline x ≤ c.now + 1) := fun h => hx h.1
      rw [count_tick hc, if_neg hno, ih (hc.step _) _ hrest]
      rw [(agree_tick hc hno).agenda]
      exact hx
    · obtain ⟨hagree, -, hout⟩ := agree_step hc htick hb
      rw [hout, ih (hc.step _) _ hrest]
      · rfl
      · rw [hagree.agenda]
        exact hx

/-- **When an alarm goes off.** An alarm on the agenda that is left alone goes off at its deadline, or at
the next tick if that has passed, and then, if it is to go off again, after every further delay. -/
theorem count_run (hc : c.Sound) (hx : x ∈ c.agenda) (hdelay : c.again x = true → 0 < c.delay x)
    {bs : List (Call α)} (hbs : ∀ b ∈ bs, b.alarm ≠ some x) :
    (run step c bs).2.count x =
      times (c.again x) (max (c.deadline x - c.now) 1) (c.delay x) (bs.count .tick) := by
  induction bs generalizing c with
  | nil => simp [times]
  | cons b bs ih =>
    obtain ⟨hb, hrest⟩ := List.forall_mem_cons.1 hbs
    rw [run_cons, List.count_append]
    by_cases htick : b = .tick
    · subst htick
      rw [List.count_cons_self, count_tick hc]
      by_cases hdue : c.deadline x ≤ c.now + 1
      · -- the alarm goes off at this tick
        have hmem : x ∈ c.advance.due := (mem_due hc.advance).2 ⟨hx, hdue⟩
        have hfirst : max (c.deadline x - c.now) 1 = 1 := by omega
        rw [if_pos ⟨hx, hdue⟩, hfirst]
        by_cases hagain : c.again x = true
        · have hon : x ∈ (c.step .tick).1.agenda :=
            (mem_foldl_fire hc.advance (nodup_due hc.advance) hmem).2 hagain
          have hdeadline : (c.step .tick).1.deadline x = c.now + 1 + c.delay x :=
            foldl_fire_deadline (nodup_due hc.advance) hmem hagain
          have hagain' : (c.step .tick).1.again x = c.again x := congrFun foldl_fire_again x
          have hdelay' : (c.step .tick).1.delay x = c.delay x := congrFun foldl_fire_delay x
          have hpos := hdelay hagain
          have hnext : max ((c.step .tick).1.deadline x - (c.step .tick).1.now) 1 = c.delay x := by
            rw [hdeadline, tick_now]
            omega
          rw [ih (hc.step _) hon (by rwa [hagain', hdelay']) hrest, hnext, hagain', hdelay', hagain,
            times_one hpos]
        · have hoff : x ∉ (c.step .tick).1.agenda := fun h =>
            hagain ((mem_foldl_fire hc.advance (nodup_due hc.advance) hmem).1 h)
          rw [count_run_of_not_mem (hc.step _) hoff hrest, times, if_neg (by omega), if_neg hagain]
      · have hno : ¬ (x ∈ c.agenda ∧ c.deadline x ≤ c.now + 1) := fun h => hdue h.2
        have hagree := agree_tick hc hno
        have hnext : max ((c.step .tick).1.deadline x - (c.step .tick).1.now) 1 =
            max (c.deadline x - c.now) 1 - 1 := by
          rw [hagree.deadline, tick_now]
          omega
        rw [if_neg hno, ih (hc.step _) (hagree.agenda.2 hx)
          (by rwa [hagree.again, hagree.delay]) hrest, hnext, hagree.again, hagree.delay, Nat.zero_add,
          times_succ (by omega)]
    · obtain ⟨hagree, hnow, hout⟩ := agree_step hc htick hb
      rw [hout, List.count_nil, Nat.zero_add, List.count_cons_of_ne htick,
        ih (hc.step _) (hagree.agenda.2 hx) (by rwa [hagree.again, hagree.delay]) hrest,
        hagree.deadline, hagree.again, hagree.delay, hnow]

/-- An alarm that is started and then left alone. -/
theorem count_run_arm (hc : c.Sound) (hdelay : c.again x = true → 0 < c.delay x) {bs : List (Call α)}
    (hbs : ∀ b ∈ bs, b.alarm ≠ some x) :
    (run step (c.arm x) bs).2.count x =
      if c.again x then bs.count .tick / c.delay x
      else if bs.count .tick < max (c.delay x) 1 then 0 else 1 := by
  have hfirst : c.now + c.delay x - c.now = c.delay x := Nat.add_sub_cancel_left ..
  rw [count_run (hc.arm x) (mem_arm.2 (Or.inl rfl)) hdelay hbs, arm_deadline_self, arm_now, hfirst,
    arm_again, arm_delay, times]
  by_cases hagain : c.again x = true
  · have hpos := hdelay hagain
    rw [if_pos hagain, if_pos hagain, Nat.max_eq_left hpos]
    by_cases hn : bs.count .tick < c.delay x
    · rw [if_pos hn, Nat.div_eq_of_lt hn]
    · rw [if_neg hn, Nat.div_eq_sub_div hpos (Nat.le_of_not_lt hn), Nat.add_comm]
  · rw [if_neg hagain, if_neg hagain]

end Clock

end Alarm
