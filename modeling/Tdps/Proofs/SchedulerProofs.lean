import Tdps.Proofs.ReadyQueueProofs

/-!
# What the scheduler does

`Scheduled k k'` lists the outcomes of `rt_schedule`: nothing happens, the current thread goes on, or
another thread of the highest ready priority is switched to.
-/

namespace Tdps

namespace Kernel

variable {τ ς : Type} [DecidableEq τ] {k k' : Kernel τ ς} {W : ς → τ → Prop} {t u : τ}

/-- A switch from the current thread to the thread `next`. -/
structure Switch (k k' : Kernel τ ς) (next : τ) : Prop extends Frame k k' where
  current : k'.rt_current_thread = next
  queues : k'.Queues fun t => (k'.thread t).stat = .ready
  stat_next : (k'.thread next).stat = .running
  stat_from : (k'.thread k.rt_current_thread).stat =
    if (k.thread k.rt_current_thread).stat = .running then .ready
    else (k.thread k.rt_current_thread).stat
  stat_other : ∀ t, t ≠ next → t ≠ k.rt_current_thread → (k'.thread t).stat = (k.thread t).stat

/-- No ready thread has a higher priority than this one. -/
def Highest (k : Kernel τ ς) (t : τ) : Prop :=
  ∀ u, (k.thread u).stat = .ready → (k.thread t).current_priority ≤ (k.thread u).current_priority

/-- The outcomes of `rt_schedule`. -/
inductive Scheduled (k k' : Kernel τ ς) : Prop
  | locked (hlock : k.rt_scheduler_lock_nest ≠ 0) (h : k' = k)
  | alone (hlock : k.rt_scheduler_lock_nest = 0) (hnone : ∀ t, (k.thread t).stat ≠ .ready) (h : k' = k)
  | keep (hlock : k.rt_scheduler_lock_nest = 0)
      (hrunning : (k.thread k.rt_current_thread).stat = .running)
      (hhighest : k.Highest k.rt_current_thread)
      (h : k' = k.modifyThread k.rt_current_thread fun thread => { thread with yield := false })
  | switch (next : τ) (hlock : k.rt_scheduler_lock_nest = 0) (hready : (k.thread next).stat = .ready)
      (hhighest : k.Highest next)
      (hle : (k.thread k.rt_current_thread).stat = .running →
        (k.thread next).current_priority ≤ (k.thread k.rt_current_thread).current_priority)
      (h : Switch k k' next)

/-- A thread that runs is marked as running. -/
theorem modifyThread_running (h : (k.thread t).stat = .running) :
    (k.modifyThread t fun thread => { thread with stat := .running }) = k := by
  unfold modifyThread
  rw [← h, Function.update_eq_self]

section
variable (hQ : k.Queues fun t => (k.thread t).stat = .ready) (hW : k.Waiters W)
variable (hsuspend : ∀ s t, W s t → (k.thread t).stat = .suspend)
include hQ hW hsuspend

/-- The current thread goes on. -/
theorem schedule_keep (hrunning : (k.thread k.rt_current_thread).stat = .running) :
    let k₁ := k.modifyThread k.rt_current_thread fun thread => { thread with yield := false }
    ((k₁.rtScheduleRemoveThread k.rt_current_thread).modifyThread k.rt_current_thread fun thread =>
      { thread with stat := .running }) = k₁ := by
  intro k₁
  have hstat : ∀ t, (k₁.thread t).stat = (k.thread t).stat := fun t =>
    modifyThread_same RtThread.stat rfl
  have hQ₁ : k₁.Queues fun t => (k.thread t).stat = .ready :=
    hQ.congr rfl rfl (fun t => modifyThread_same RtThread.current_priority rfl) fun t => Iff.rfl
  have hremove : k₁.rtScheduleRemoveThread k.rt_current_thread = k₁ := by
    have hW₁ : k₁.Waiters W := hW.congr (fun s => rfl) fun s t => Iff.rfl
    refine remove_of_not hQ₁ hW₁ ?_ ?_
    · rw [hrunning]
      decide
    · intro s hs
      have := hsuspend s _ hs
      rw [hrunning] at this
      cases this
  rw [hremove]
  exact modifyThread_running ((hstat _).trans hrunning)

omit hQ in
/-- The last part of a switch: the thread is taken off its queue and runs. In the state `k₃` the thread
that ran is back in a queue. -/
theorem Switch.of_insert {k₃ : Kernel τ ς} {next : τ} (hready : (k.thread next).stat = .ready)
    (hcurrent : (k.thread k.rt_current_thread).stat ≠ .ready)
    (hcur : k₃.rt_current_thread = next) (hframe : Frame k k₃)
    (hstat : ∀ t, (k₃.thread t).stat = if t = k.rt_current_thread ∧ (k.thread t).stat = .running
      then .ready else (k.thread t).stat)
    (hqueues : k₃.Queues fun t => (k₃.thread t).stat = .ready) :
    Switch k ((k₃.rtScheduleRemoveThread next).modifyThread next fun thread =>
      { thread with stat := .running }) next := by
  have hne : next ≠ k.rt_current_thread := fun e => hcurrent (e ▸ hready)
  have hother : ∀ t, t ≠ next → (((k₃.rtScheduleRemoveThread next).modifyThread next fun thread =>
      { thread with stat := .running }).thread t).stat = (k₃.thread t).stat := fun t ht =>
    congrArg RtThread.stat (modifyThread_of_ne ht)
  have hsem : (k₃.rtScheduleRemoveThread next).sem = k₃.sem := by
    funext s
    have hnot : next ∉ (k₃.sem s).suspend_thread := by
      rw [hframe.sem, hW.mem]
      intro hs
      have hasleep := hsuspend s next hs
      rw [hready] at hasleep
      cases hasleep
    show { k₃.sem s with suspend_thread := (k₃.sem s).suspend_thread.erase next } = k₃.sem s
    rw [List.erase_of_not_mem hnot]
  have hremove : Frame k₃ (k₃.rtScheduleRemoveThread next) :=
    ⟨fun t => rfl, fun t => rfl, hsem, rfl, rfl, rfl, rfl, rfl⟩
  constructor
  case toFrame => exact (hframe.trans hremove).trans (frame_modifyThread rfl rfl)
  case current => exact hcur
  case queues =>
    refine (hqueues.remove next).congr rfl rfl
      (fun t => modifyThread_same RtThread.current_priority rfl) ?_
    intro t
    by_cases ht : t = next
    · rw [ht, modifyThread_self]
      simp
    · rw [hother t ht]
      simp [ht]
  case stat_next => rw [modifyThread_self]
  case stat_from =>
    rw [hother _ hne.symm, hstat]
    simp
  case stat_other =>
    intro t ht htcur
    rw [hother t ht, hstat, if_neg fun h => htcur h.1]

/-- Another thread is switched to. -/
theorem schedule_switch {next : τ} (hready : (k.thread next).stat = .ready)
    (hcurrent : (k.thread k.rt_current_thread).stat ≠ .ready) :
    let k₁ := if (k.thread k.rt_current_thread).stat = .running then
        k.modifyThread k.rt_current_thread fun thread => { thread with yield := false }
      else k
    let k₂ := { k₁ with rt_current_thread := next }
    let k₃ := if (k.thread k.rt_current_thread).stat = .running then
        k₂.rtScheduleInsertThread k.rt_current_thread
      else k₂
    Switch k ((k₃.rtScheduleRemoveThread next).modifyThread next fun thread =>
      { thread with stat := .running }) next := by
  have hne : k.rt_current_thread ≠ next := fun e => hcurrent (e ▸ hready)
  intro k₁ k₂ k₃
  by_cases hrunning : (k.thread k.rt_current_thread).stat = .running
  · -- the thread that ran goes to the end of its queue
    have hk₁ : k₁ = k.modifyThread k.rt_current_thread fun thread => { thread with yield := false } :=
      if_pos hrunning
    have hk₃ : k₃ = k₂.rtScheduleInsertThread k.rt_current_thread := if_pos hrunning
    have hframe₁ : Frame k k₁ := by
      rw [hk₁]
      exact frame_modifyThread rfl rfl
    have hframe₂ : Frame k k₂ := ⟨hframe₁.priority, hframe₁.error, hframe₁.sem, hframe₁.timers,
      hframe₁.lock, hframe₁.idle, hframe₁.pc, hframe₁.irq⟩
    have hstat₂ : ∀ t, (k₂.thread t).stat = (k.thread t).stat := by
      intro t
      show (k₁.thread t).stat = _
      rw [hk₁]
      exact modifyThread_same (f := fun thread => { thread with yield := false }) RtThread.stat rfl
    have hQ₂ : k₂.Queues fun t => (k.thread t).stat = .ready := by
      refine hQ.congr ?_ ?_ hframe₂.priority fun t => Iff.rfl
      · show k₁.rt_thread_priority_table = _
        rw [hk₁]
        rfl
      · show k₁.rt_thread_ready_priority_group = _
        rw [hk₁]
        rfl
    have hstat₃ : ∀ t, (k₃.thread t).stat = if t = k.rt_current_thread ∧ (k.thread t).stat = .running
        then .ready else (k.thread t).stat := by
      intro t
      rw [hk₃]
      by_cases ht : t = k.rt_current_thread
      · rw [ht, insert_stat_self, if_neg hne, if_pos ⟨rfl, hrunning⟩]
      · rw [insert_of_ne_self ht, hstat₂, if_neg fun h => ht h.1]
    refine Switch.of_insert hW hsuspend hready hcurrent ?_ ?_ hstat₃ ?_
    · rw [hk₃, insert_rt_current_thread]
    · rw [hk₃]
      exact hframe₂.trans frame_insert
    · rw [hk₃] at hstat₃ ⊢
      refine (hQ₂.insert hne hcurrent).congr rfl rfl (fun t => rfl) ?_
      intro t
      rw [hstat₃]
      by_cases ht : t = k.rt_current_thread
      · simp [ht, hrunning]
      · simp [ht]
  · have hk₁ : k₁ = k := if_neg hrunning
    have hk₃ : k₃ = k₂ := if_neg hrunning
    have hk₂ : k₂ = { k with rt_current_thread := next } := by
      show { k₁ with rt_current_thread := next } = _
      rw [hk₁]
    rw [hk₃, hk₂]
    refine Switch.of_insert hW hsuspend hready hcurrent rfl
      ⟨fun t => rfl, fun t => rfl, rfl, rfl, rfl, rfl, rfl, rfl⟩ ?_ ?_
    · intro t
      by_cases ht : t = k.rt_current_thread
      · simp [ht, hrunning]
      · simp [ht]
    · exact hQ.congr rfl rfl (fun t => rfl) fun t => Iff.rfl

/-- **What `rt_schedule` does.** -/
theorem rtSchedule_scheduled (hcurrent : (k.thread k.rt_current_thread).stat ≠ .ready) :
    Scheduled k k.rtSchedule := by
  by_cases hlock : k.rt_scheduler_lock_nest = 0
  · cases hhighest : k.getHighestPriorityThread with
    | none =>
      refine Scheduled.alone hlock ((getHighestPriorityThread_eq_none hQ).1 hhighest) ?_
      rw [rtSchedule, if_neg (by simpa using hlock), hhighest]
    | some r =>
      obtain ⟨next, p⟩ := r
      obtain ⟨hready, rfl, hle⟩ := getHighestPriorityThread_eq_some hQ hhighest
      have hne : next ≠ k.rt_current_thread := fun e => hcurrent (e ▸ hready)
      by_cases hkeep : (k.thread k.rt_current_thread).stat = .running ∧
          ((k.thread k.rt_current_thread).current_priority < (k.thread next).current_priority ∨
            (k.thread k.rt_current_thread).current_priority = (k.thread next).current_priority ∧
              (k.thread k.rt_current_thread).yield = false)
      · refine Scheduled.keep hlock hkeep.1 ?_ ?_
        · intro u hu
          refine le_trans ?_ (hle u hu)
          rcases hkeep.2 with hlt | ⟨heq, -⟩
          · exact hlt.le
          · exact heq.le
        · rw [rtSchedule, if_neg (not_not.2 hlock), hhighest]
          simp only [if_pos hkeep, if_pos hkeep.1, ne_eq, not_true_eq_false, if_false]
          exact schedule_keep hQ hW hsuspend hkeep.1
      · have hneed : (k.thread k.rt_current_thread).stat = .running →
            (k.thread next).current_priority ≤ (k.thread k.rt_current_thread).current_priority := by
          intro hrunning
          by_contra hlt
          exact hkeep ⟨hrunning, Or.inl (lt_of_not_ge hlt)⟩
        refine Scheduled.switch next hlock hready hle hneed ?_
        rw [rtSchedule, if_neg (not_not.2 hlock), hhighest]
        simp only [hkeep, if_false, ne_eq, hne, not_false_eq_true, if_true, and_true]
        exact schedule_switch hQ hW hsuspend hready hcurrent
  · exact Scheduled.locked hlock (if_pos hlock)

end

end Kernel

end Tdps
