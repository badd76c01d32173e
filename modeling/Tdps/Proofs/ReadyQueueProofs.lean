import Tdps.Kernel

/-!
# The lists of the kernel

`Queues k R` says that the ready queues hold the threads of `R`, each once and in the queue of its
priority, and that the bit mask shows the queues that are not empty; `Waiters k W` says which threads are
on the list of which semaphore. Taking a thread off its list and putting one in a queue change these sets
by one thread.
-/

namespace Tdps

namespace Kernel

variable {τ ς : Type} [DecidableEq τ] {k k' : Kernel τ ς} {t u : τ}

/-! ## Changing one thread -/

theorem modifyThread_self {f : RtThread → RtThread} :
    (k.modifyThread t f).thread t = f (k.thread t) := Function.update_self ..

theorem modifyThread_of_ne {f : RtThread → RtThread} (h : u ≠ t) :
    (k.modifyThread t f).thread u = k.thread u := Function.update_of_ne h ..

/-- What the change of a thread leaves alone is the same for all threads. -/
theorem modifyThread_same {β : Type} (g : RtThread → β) {f : RtThread → RtThread}
    (hg : g (f (k.thread t)) = g (k.thread t)) : g ((k.modifyThread t f).thread u) = g (k.thread u) := by
  by_cases hu : u = t
  · rw [hu, modifyThread_self, hg]
  · rw [modifyThread_of_ne hu]

theorem insert_current (h : t = k.rt_current_thread) :
    k.rtScheduleInsertThread t = k.modifyThread t fun thread => { thread with stat := .running } :=
  if_pos h

theorem insert_of_ne (h : t ≠ k.rt_current_thread) :
    k.rtScheduleInsertThread t =
      { k.modifyThread t fun thread => { thread with stat := .ready } with
        rt_thread_priority_table := Function.update k.rt_thread_priority_table
          (k.thread t).current_priority
          (k.rt_thread_priority_table (k.thread t).current_priority ++ [t])
        rt_thread_ready_priority_group :=
          k.rt_thread_ready_priority_group ||| numberMask (k.thread t).current_priority } := by
  have hp : ((k.modifyThread t fun thread => { thread with stat := .ready }).thread t).current_priority =
      (k.thread t).current_priority := by rw [modifyThread_self]
  rw [rtScheduleInsertThread, if_neg h]
  dsimp only
  rw [hp]
  rfl

/-- What the ready queues have nothing to do with is the same. -/
structure Frame (k k' : Kernel τ ς) : Prop where
  priority : ∀ t, (k'.thread t).current_priority = (k.thread t).current_priority
  error : ∀ t, (k'.thread t).error = (k.thread t).error
  sem : k'.sem = k.sem
  timers : k'.timers = k.timers
  lock : k'.rt_scheduler_lock_nest = k.rt_scheduler_lock_nest
  idle : k'.idle = k.idle
  pc : k'.pc = k.pc
  irq : k'.irq = k.irq

omit [DecidableEq τ] in
theorem Frame.refl : Frame k k := ⟨fun _ => rfl, fun _ => rfl, rfl, rfl, rfl, rfl, rfl, rfl⟩

omit [DecidableEq τ] in
theorem Frame.trans {k'' : Kernel τ ς} (h : Frame k k') (h' : Frame k' k'') : Frame k k'' where
  priority t := (h'.priority t).trans (h.priority t)
  error t := (h'.error t).trans (h.error t)
  sem := h'.sem.trans h.sem
  timers := h'.timers.trans h.timers
  lock := h'.lock.trans h.lock
  idle := h'.idle.trans h.idle
  pc := h'.pc.trans h.pc
  irq := h'.irq.trans h.irq

theorem frame_modifyThread {f : RtThread → RtThread}
    (hpriority : (f (k.thread t)).current_priority = (k.thread t).current_priority)
    (herror : (f (k.thread t)).error = (k.thread t).error) : Frame k (k.modifyThread t f) where
  priority _ := modifyThread_same RtThread.current_priority hpriority
  error _ := modifyThread_same RtThread.error herror
  sem := rfl
  timers := rfl
  lock := rfl
  idle := rfl
  pc := rfl
  irq := rfl

theorem frame_insert : Frame k (k.rtScheduleInsertThread t) := by
  by_cases h : t = k.rt_current_thread
  · rw [insert_current h]
    exact frame_modifyThread rfl rfl
  · rw [insert_of_ne h]
    have hframe : Frame k (k.modifyThread t fun thread => { thread with stat := .ready }) :=
      frame_modifyThread rfl rfl
    exact ⟨hframe.priority, hframe.error, rfl, rfl, rfl, rfl, rfl, rfl⟩

theorem insert_rt_current_thread :
    (k.rtScheduleInsertThread t).rt_current_thread = k.rt_current_thread := by
  by_cases h : t = k.rt_current_thread
  · rw [insert_current h]
    rfl
  · rw [insert_of_ne h]
    rfl

theorem insert_stat_self : ((k.rtScheduleInsertThread t).thread t).stat =
    if t = k.rt_current_thread then .running else .ready := by
  by_cases h : t = k.rt_current_thread
  · rw [insert_current h, if_pos h, modifyThread_self]
  · rw [insert_of_ne h, if_neg h]
    show ((k.modifyThread t fun thread => { thread with stat := .ready }).thread t).stat = .ready
    rw [modifyThread_self]

theorem insert_ne_suspend : ((k.rtScheduleInsertThread t).thread t).stat ≠ .suspend := by
  rw [insert_stat_self]
  split_ifs <;> exact nofun

theorem insert_of_ne_self (h : u ≠ t) : (k.rtScheduleInsertThread t).thread u = k.thread u := by
  by_cases ht : t = k.rt_current_thread
  · rw [insert_current ht, modifyThread_of_ne h]
  · rw [insert_of_ne ht]
    show (k.modifyThread t fun thread => { thread with stat := .ready }).thread u = k.thread u
    rw [modifyThread_of_ne h]

/-! ## The bit mask -/

theorem getLsbD_numberMask (p q : Priority) : (numberMask p).getLsbD q = decide (q = p) := by
  revert p q
  decide

theorem ffs_eq_none {value : BitVec 32} : ffs value = none ↔ ∀ p : Priority, value.getLsbD p = false := by
  unfold ffs
  simp

/-- `__rt_ffs` finds the lowest bit that is set. -/
theorem ffs_eq_some {value : BitVec 32} {p : Priority} (h : ffs value = some p) :
    value.getLsbD p = true ∧ ∀ q : Priority, value.getLsbD q = true → p ≤ q := by
  obtain ⟨hp, i, hi, hpi, hlow⟩ := List.find?_eq_some_iff_getElem.1 h
  refine ⟨hp, ?_⟩
  intro q hq
  by_contra hlt
  have hqi : q.val < i := by
    have hval : p.val = i := by
      rw [← hpi, List.getElem_finRange]
      rfl
    exact hval ▸ Nat.lt_of_not_le hlt
  have hfalse := hlow q.val hqi
  rw [List.getElem_finRange] at hfalse
  simp [hq] at hfalse

/-! ## Who is on which list -/

/-- The ready queues hold the threads of `R`. -/
structure Queues (k : Kernel τ ς) (R : τ → Prop) : Prop where
  mem : ∀ p t, t ∈ k.rt_thread_priority_table p ↔ R t ∧ (k.thread t).current_priority = p
  nodup : ∀ p, (k.rt_thread_priority_table p).Nodup
  mask : ∀ p : Priority,
    k.rt_thread_ready_priority_group.getLsbD p = true ↔ k.rt_thread_priority_table p ≠ []

/-- The list of semaphore `s` holds the threads `t` with `W s t`. -/
structure Waiters (k : Kernel τ ς) (W : ς → τ → Prop) : Prop where
  mem : ∀ s t, t ∈ (k.sem s).suspend_thread ↔ W s t
  nodup : ∀ s, (k.sem s).suspend_thread.Nodup

variable {R R' : τ → Prop} {W W' : ς → τ → Prop}

omit [DecidableEq τ] in
theorem Queues.congr (h : k.Queues R)
    (htable : k'.rt_thread_priority_table = k.rt_thread_priority_table)
    (hmask : k'.rt_thread_ready_priority_group = k.rt_thread_ready_priority_group)
    (hpriority : ∀ t, (k'.thread t).current_priority = (k.thread t).current_priority)
    (hR : ∀ t, R' t ↔ R t) : k'.Queues R' := by
  constructor
  · intro p t
    rw [htable, hpriority, hR]
    exact h.mem p t
  · rw [htable]
    exact h.nodup
  · rw [htable, hmask]
    exact h.mask

omit [DecidableEq τ] in
theorem Waiters.congr (h : k.Waiters W)
    (hlist : ∀ s, (k'.sem s).suspend_thread = (k.sem s).suspend_thread)
    (hW : ∀ s t, W' s t ↔ W s t) : k'.Waiters W' := by
  constructor
  · intro s t
    rw [hlist, hW]
    exact h.mem s t
  · intro s
    rw [hlist]
    exact h.nodup s

theorem Queues.remove (h : k.Queues R) (t : τ) :
    (k.rtScheduleRemoveThread t).Queues fun u => R u ∧ u ≠ t := by
  constructor
  · intro p u
    show u ∈ (k.rt_thread_priority_table p).erase t ↔ _
    rw [(h.nodup p).mem_erase_iff, h.mem p u]
    tauto
  · exact fun p => (h.nodup p).erase t
  · intro p
    show (if (k.rt_thread_priority_table (k.thread t).current_priority).erase t = [] then
        k.rt_thread_ready_priority_group &&& ~~~ numberMask (k.thread t).current_priority
      else k.rt_thread_ready_priority_group).getLsbD p = true ↔
        (k.rt_thread_priority_table p).erase t ≠ []
    by_cases hpq : p = (k.thread t).current_priority
    · rw [← hpq]
      by_cases hempty : (k.rt_thread_priority_table p).erase t = []
      · rw [if_pos hempty, BitVec.getLsbD_and, BitVec.getLsbD_not, getLsbD_numberMask]
        simp [hempty]
      · rw [if_neg hempty]
        refine iff_of_true ((h.mask p).2 ?_) hempty
        intro hnil
        exact hempty (by rw [hnil]; rfl)
    · have hnot : t ∉ k.rt_thread_priority_table p := fun ht => hpq ((h.mem p t).1 ht).2.symm
      have hlt : p.val < 32 := p.isLt
      rw [List.erase_of_not_mem hnot, ← h.mask p]
      split_ifs with hempty
      · rw [BitVec.getLsbD_and, BitVec.getLsbD_not, getLsbD_numberMask]
        simp only [hlt, hpq, decide_true, decide_false, Bool.not_false, Bool.and_true]
      · rfl

theorem Queues.insert (h : k.Queues R) (hne : t ≠ k.rt_current_thread) (hR : ¬ R t) :
    (k.rtScheduleInsertThread t).Queues fun u => R u ∨ u = t := by
  have hsame := (frame_insert (k := k) (t := t)).priority
  have htable : (k.rtScheduleInsertThread t).rt_thread_priority_table =
      Function.update k.rt_thread_priority_table (k.thread t).current_priority
        (k.rt_thread_priority_table (k.thread t).current_priority ++ [t]) := by
    rw [insert_of_ne hne]
  have hmask : (k.rtScheduleInsertThread t).rt_thread_ready_priority_group =
      k.rt_thread_ready_priority_group ||| numberMask (k.thread t).current_priority := by
    rw [insert_of_ne hne]
  constructor
  · intro p u
    rw [htable, hsame]
    by_cases hpq : p = (k.thread t).current_priority
    · rw [hpq, Function.update_self, List.mem_append, List.mem_singleton, h.mem]
      constructor
      · rintro (⟨hu, hup⟩ | rfl)
        · exact ⟨Or.inl hu, hup⟩
        · exact ⟨Or.inr rfl, rfl⟩
      · rintro ⟨hu | rfl, hup⟩
        · exact Or.inl ⟨hu, hup⟩
        · exact Or.inr rfl
    · rw [Function.update_of_ne hpq, h.mem]
      constructor
      · rintro ⟨hu, hup⟩
        exact ⟨Or.inl hu, hup⟩
      · rintro ⟨hu | rfl, hup⟩
        · exact ⟨hu, hup⟩
        · exact absurd hup.symm hpq
  · intro p
    rw [htable]
    by_cases hpq : p = (k.thread t).current_priority
    · rw [hpq, Function.update_self]
      refine (h.nodup _).append (List.nodup_singleton t) ?_
      rw [List.disjoint_singleton]
      exact fun ht => hR ((h.mem _ t).1 ht).1
    · rw [Function.update_of_ne hpq]
      exact h.nodup p
  · intro p
    rw [htable, hmask, BitVec.getLsbD_or, getLsbD_numberMask]
    by_cases hpq : p = (k.thread t).current_priority
    · rw [hpq, Function.update_self]
      simp
    · rw [Function.update_of_ne hpq, ← h.mask p]
      simp [hpq]

theorem Waiters.listRemove (h : k.Waiters W) (t : τ) :
    (k.listRemove t).Waiters fun s u => W s u ∧ u ≠ t := by
  constructor
  · intro s u
    show u ∈ (k.sem s).suspend_thread.erase t ↔ _
    rw [(h.nodup s).mem_erase_iff, h.mem, and_comm]
  · exact fun s => (h.nodup s).erase t

/-- A thread that is on no list is not taken off one. -/
theorem listRemove_of_not (hQ : k.Queues R) (hW : k.Waiters W) (ht : ¬ R t) (ht' : ∀ s, ¬ W s t) :
    k.listRemove t = k := by
  have htable : (fun p => (k.rt_thread_priority_table p).erase t) = k.rt_thread_priority_table := by
    funext p
    exact List.erase_of_not_mem fun hmem => ht ((hQ.mem p t).1 hmem).1
  have hsem : (fun s => { k.sem s with suspend_thread := (k.sem s).suspend_thread.erase t }) = k.sem := by
    funext s
    rw [List.erase_of_not_mem fun hmem => ht' s ((hW.mem s t).1 hmem)]
  unfold Kernel.listRemove
  rw [htable, hsem]

theorem remove_of_not (hQ : k.Queues R) (hW : k.Waiters W) (ht : ¬ R t) (ht' : ∀ s, ¬ W s t) :
    k.rtScheduleRemoveThread t = k := by
  unfold rtScheduleRemoveThread
  dsimp only
  rw [listRemove_of_not hQ hW ht ht']
  split_ifs with hempty
  · -- the bit is clear already
    have hclear : k.rt_thread_ready_priority_group &&& ~~~ numberMask (k.thread t).current_priority =
        k.rt_thread_ready_priority_group := by
      refine BitVec.eq_of_getLsbD_eq ?_
      intro i hi
      have hbit := getLsbD_numberMask (k.thread t).current_priority ⟨i, hi⟩
      rw [BitVec.getLsbD_and, BitVec.getLsbD_not, hbit]
      by_cases hpi : (⟨i, hi⟩ : Priority) = (k.thread t).current_priority
      · have hzero : k.rt_thread_ready_priority_group.getLsbD i = false := by
          rw [← Bool.not_eq_true]
          intro hset
          exact (hQ.mask ⟨i, hi⟩).1 hset (hpi ▸ hempty)
        rw [hzero, Bool.false_and]
      · simp [hi, hpi]
    rw [hclear]
  · rfl

/-! ## The highest ready thread -/

omit [DecidableEq τ] in
theorem getHighestPriorityThread_eq_none (h : k.Queues R) :
    k.getHighestPriorityThread = none ↔ ∀ t, ¬ R t := by
  unfold getHighestPriorityThread
  cases hffs : ffs k.rt_thread_ready_priority_group with
  | none =>
    refine iff_of_true rfl ?_
    intro t ht
    have hmem := (h.mem _ t).2 ⟨ht, rfl⟩
    have hbit := (h.mask _).2 (List.ne_nil_of_mem hmem)
    rw [ffs_eq_none.1 hffs] at hbit
    cases hbit
  | some p =>
    have hne := (h.mask p).1 (ffs_eq_some hffs).1
    obtain ⟨t, l, hl⟩ := List.exists_cons_of_ne_nil hne
    have ht : t ∈ k.rt_thread_priority_table p := by rw [hl]; exact List.mem_cons_self
    refine iff_of_false ?_ fun hno => hno t ((h.mem p t).1 ht).1
    simp [hl]

omit [DecidableEq τ] in
theorem getHighestPriorityThread_eq_some (h : k.Queues R) {p : Priority}
    (ht : k.getHighestPriorityThread = some (t, p)) :
    R t ∧ (k.thread t).current_priority = p ∧ ∀ u, R u → p ≤ (k.thread u).current_priority := by
  unfold getHighestPriorityThread at ht
  cases hffs : ffs k.rt_thread_ready_priority_group with
  | none => simp [hffs] at ht
  | some q =>
    simp only [hffs, Option.map_eq_some_iff, Prod.mk.injEq] at ht
    obtain ⟨t', hhead, rfl, rfl⟩ := ht
    obtain ⟨hR, hp⟩ := (h.mem q t').1 (List.mem_of_mem_head? hhead)
    refine ⟨hR, hp, ?_⟩
    intro u hu
    refine (ffs_eq_some hffs).2 _ ((h.mask _).2 ?_)
    exact List.ne_nil_of_mem ((h.mem _ u).2 ⟨hu, rfl⟩)

end Kernel

end Tdps
