import Tdps.Proofs.PreemptionProofs

/-!
# What a step does to the threads that wait

`Outcome k k' c es` lists, for a step `c`, what happens to the semaphores and to the threads that wait:
a unit is taken, given, handed to the first thread on the list, or the current thread starts to wait or
comes back, or threads are resumed because their time is over; and for all other threads nothing changes
(`Same`).
-/

namespace Tdps

open Machine

namespace Kernel

variable {τ ς : Type} [DecidableEq τ] {k k' k'' : Kernel τ ς} {t u : τ} {ts : List τ}

/-- A thread is in the same call as it was, if that is one in which it waits. -/
structure SameCall (k k' : Kernel τ ς) (t : τ) : Prop where
  take : ∀ s, k'.InCall t (.take s) ↔ k.InCall t (.take s)
  sleep : k'.InCall t .sleep ↔ k.InCall t .sleep
  priority : (k'.thread t).current_priority = (k.thread t).current_priority

/-- The waiting of a thread is as it was. -/
structure Same (k k' : Kernel τ ς) (t : τ) : Prop extends SameCall k k' t where
  suspend : (k'.thread t).stat = .suspend ↔ (k.thread t).stat = .suspend
  error : (k'.thread t).error = (k.thread t).error
  timer : k'.timers.timer t = k.timers.timer t

omit [DecidableEq τ] in
theorem SameCall.trans (h : SameCall k k' t) (h' : SameCall k' k'' t) : SameCall k k'' t where
  take s := (h'.take s).trans (h.take s)
  sleep := h'.sleep.trans h.sleep
  priority := h'.priority.trans h.priority

omit [DecidableEq τ] in
theorem Same.refl : Same k k t := ⟨⟨fun _ => Iff.rfl, Iff.rfl, rfl⟩, Iff.rfl, rfl, rfl⟩

omit [DecidableEq τ] in
theorem Same.trans (h : Same k k' t) (h' : Same k' k'' t) : Same k k'' t where
  toSameCall := h.toSameCall.trans h'.toSameCall
  suspend := h'.suspend.trans h.suspend
  error := h'.error.trans h.error
  timer := h'.timer.trans h.timer

omit [DecidableEq τ] in
theorem same_of_eq (hthread : k'.thread t = k.thread t)
    (htimer : k'.timers.timer t = k.timers.timer t) (hcall : ∀ c, k'.InCall t c ↔ k.InCall t c) :
    Same k k' t :=
  ⟨⟨fun _ => hcall _, hcall _, by rw [hthread]⟩, by rw [hthread], by rw [hthread], htimer⟩

omit [DecidableEq τ] in
theorem Frame.sameCall (h : Frame k k') : SameCall k k' t :=
  ⟨fun _ => InCall.congr h.pc, InCall.congr h.pc, h.priority t⟩

omit [DecidableEq τ] in
theorem Frame.same (h : Frame k k')
    (hsuspend : (k'.thread t).stat = .suspend ↔ (k.thread t).stat = .suspend) : Same k k' t where
  toSameCall := h.sameCall
  suspend := hsuspend
  error := h.error t
  timer := by rw [h.timers]

theorem same_modifyThread {f : RtThread → RtThread}
    (hstat : (f (k.thread u)).stat = (k.thread u).stat)
    (hpriority : (f (k.thread u)).current_priority = (k.thread u).current_priority)
    (herror : (f (k.thread u)).error = (k.thread u).error) : Same k (k.modifyThread u f) t :=
  (frame_modifyThread hpriority herror).same (by rw [modifyThread_same RtThread.stat hstat])

/-- The thread starts or ends a call in which it does not wait. -/
theorem same_setPc {pc : Pc ς} (htake : ∀ s, (pc = .schedule (.take s) ∨ pc = .back (.take s)) ↔
      k.InCall u (.take s)) (hsleep : (pc = .schedule .sleep ∨ pc = .back .sleep) ↔ k.InCall u .sleep) :
    Same k (k.setPc u pc) t := by
  have hcall : ∀ c, ((pc = .schedule c ∨ pc = .back c) ↔ k.InCall u c) →
      ((k.setPc u pc).InCall t c ↔ k.InCall t c) := by
    intro c hc
    by_cases ht : t = u
    · rw [ht, ← hc]
      unfold InCall setPc
      simp
    · exact inCall_setPc_of_ne ht
  exact ⟨⟨fun s => hcall _ (htake s), hcall _ hsleep, rfl⟩, Iff.rfl, rfl, rfl⟩

theorem same_setPc_other {pc : Pc ς} (hpc : k.pc u = .user) (hother : pc = .schedule .other ∨
    pc = .back .other ∨ pc = .schedule .exit) : Same k (k.setPc u pc) t := by
  refine same_setPc (fun s => iff_of_false ?_ (not_inCall hpc _)) (iff_of_false ?_ (not_inCall hpc _))
  · rcases hother with rfl | rfl | rfl <;> simp
  · rcases hother with rfl | rfl | rfl <;> simp

theorem Base.same_rtSchedule {transit : List τ} (h : k.Base transit) : Same k k.rtSchedule t := by
  refine h.rtSchedule_frame.same ?_
  cases h.scheduled with
  | locked hlock he => rw [he]
  | alone hlock hnone he => rw [he]
  | keep hlock hrunning hhighest he =>
    rw [he, modifyThread_same (f := fun thread => { thread with yield := false }) RtThread.stat rfl]
  | switch next hlock hready hhighest hle hs => exact hs.suspend_iff hready

/-! ## Threads that are resumed -/

/-- The threads `ts` are resumed. -/
structure Woke (k k' : Kernel τ ς) (ts : List τ) : Prop where
  sem : ∀ s, k'.sem s =
    { k.sem s with suspend_thread := (k.sem s).suspend_thread.filter (· ∉ ts) }
  same : ∀ t ∉ ts, Same k k' t
  was : ∀ t ∈ ts, (k.thread t).stat = .suspend
  awake : ∀ t ∈ ts, (k'.thread t).stat ≠ .suspend
  call : ∀ t ∈ ts, SameCall k k' t

theorem Woke.nil (hsem : k'.sem = k.sem) (hsame : ∀ t, Same k k' t) : Woke k k' [] where
  sem s := by simp [hsem]
  same t _ := hsame t
  was := by simp
  awake := by simp
  call := by simp

theorem Woke.cons (h : Woke k k' [t]) (h' : Woke k' k'' ts) (ht : t ∉ ts) : Woke k k'' (t :: ts) where
  sem s := by
    rw [h'.sem, h.sem]
    simp only [List.filter_filter, List.mem_cons, List.not_mem_nil, or_false, not_or, Bool.decide_and,
      Bool.and_comm]
  same u hu := by
    rw [List.mem_cons, not_or] at hu
    exact (h.same u (by simpa using hu.1)).trans (h'.same u hu.2)
  was u hu := by
    rcases List.mem_cons.1 hu with rfl | hu
    · exact h.was u (List.mem_singleton_self u)
    · have hne : u ∉ [t] := by simpa using ne_of_mem_of_not_mem hu ht
      exact (h.same u hne).suspend.1 (h'.was u hu)
  awake u hu := by
    rcases List.mem_cons.1 hu with rfl | hu
    · exact fun hs => h.awake u (List.mem_singleton_self u) ((h'.same u ht).suspend.1 hs)
    · exact h'.awake u hu
  call u hu := by
    rcases List.mem_cons.1 hu with rfl | hu
    · exact (h.call u (List.mem_singleton_self u)).trans (h'.same u ht).toSameCall
    · have hne : u ∉ [t] := by simpa using ne_of_mem_of_not_mem hu ht
      exact (h.same u hne).toSameCall.trans (h'.call u hu)

/-- A semaphore for which none of the threads waited is as it was. -/
theorem Woke.sem_of_not_mem {s : ς} (h : Woke k k' ts) (hs : ∀ t ∈ (k.sem s).suspend_thread, t ∉ ts) :
    k'.sem s = k.sem s := by
  rw [h.sem, List.filter_eq_self.2 (by simpa using hs)]

/-- A step before or after that leaves the waiting threads alone. -/
theorem Woke.trans_same (h : Woke k k' ts) (hsem : k''.sem = k'.sem) (hsame : ∀ t, Same k' k'' t) :
    Woke k k'' ts where
  sem s := by rw [hsem, h.sem]
  same t ht := (h.same t ht).trans (hsame t)
  was := h.was
  awake t ht hs := h.awake t ht ((hsame t).suspend.1 hs)
  call t ht := (h.call t ht).trans (hsame t).toSameCall

/-- A step before that changes only the timers and error numbers of the threads that are resumed. -/
theorem Woke.same_trans (h : Woke k' k'' ts) (hsem : k'.sem = k.sem) (hsame : ∀ t ∉ ts, Same k k' t)
    (hsuspend : ∀ t ∈ ts, (k'.thread t).stat = (k.thread t).stat)
    (hcall : ∀ t ∈ ts, SameCall k k' t) : Woke k k'' ts where
  sem s := by rw [h.sem, hsem]
  same t ht := (hsame t ht).trans (h.same t ht)
  was t ht := (hsuspend t ht).symm.trans (h.was t ht)
  awake := h.awake
  call t ht := (hcall t ht).trans (h.call t ht)

/-- A suspended thread is taken off its list and put in its queue; its timer has been stopped. -/
theorem Base.woke_insert {transit : List τ} (h : k.Base (t :: transit)) :
    Woke k ((k.listRemove t).rtScheduleInsertThread t) [t] where
  sem s := by
    rw [frame_insert.sem]
    show { k.sem s with suspend_thread := (k.sem s).suspend_thread.erase t } = _
    rw [(h.waiters.nodup s).erase_eq_filter]
    simp only [List.mem_singleton, bne, Bool.beq_eq_decide_eq, decide_not]
  same u hu := by
    have hne : u ≠ t := by simpa using hu
    have hframe : Frame (k.listRemove t) ((k.listRemove t).rtScheduleInsertThread t) := frame_insert
    have hremove : Same k (k.listRemove t) u := same_of_eq rfl rfl fun _ => Iff.rfl
    exact hremove.trans (hframe.same (by rw [insert_of_ne_self hne]))
  was u hu := by
    rw [List.mem_singleton.1 hu]
    exact h.transit_suspend t List.mem_cons_self
  awake u hu := by
    rw [List.mem_singleton.1 hu]
    exact insert_ne_suspend
  call u _ := by
    have hframe : Frame (k.listRemove t) ((k.listRemove t).rtScheduleInsertThread t) := frame_insert
    have hremove : SameCall k (k.listRemove t) u := ⟨fun _ => Iff.rfl, Iff.rfl, rfl⟩
    exact hremove.trans hframe.sameCall

theorem Base.woke_rtThreadResume (h : k.Base []) (hsuspend : (k.thread t).stat = .suspend) :
    Woke k (k.rtThreadResume t) [t] ∧ ((k.rtThreadResume t).thread t).error = (k.thread t).error := by
  have hwoke := (h.stopTimer hsuspend List.not_mem_nil).woke_insert
  rw [Kernel.rtThreadResume, if_neg (not_not.2 hsuspend)]
  refine ⟨hwoke.same_trans rfl ?_ (fun _ _ => rfl) fun _ _ => ⟨fun _ => Iff.rfl, Iff.rfl, rfl⟩,
    frame_insert.error t⟩
  intro u hu
  have hne : u ≠ t := by simpa using hu
  exact ⟨⟨fun _ => Iff.rfl, Iff.rfl, rfl⟩, Iff.rfl, rfl, Timers.rtTimerStop_of_ne hne⟩

theorem Base.woke_threadTimeout {transit : List τ} (h : k.Base (t :: transit)) :
    Woke k (k.threadTimeout t) [t] ∧ ((k.threadTimeout t).thread t).error = .RT_ETIMEOUT := by
  set k₁ := k.modifyThread t fun thread => { thread with error := .RT_ETIMEOUT } with hk₁
  have hbase₁ : k₁.Base (t :: transit) := h.modifyThread rfl rfl
  have hsame : ∀ u ∉ [t], Same k k₁ u := by
    intro u hu
    have hthread : k₁.thread u = k.thread u := modifyThread_of_ne (by simpa using hu)
    exact ⟨⟨fun _ => Iff.rfl, Iff.rfl, by rw [hthread]⟩, by rw [hthread], by rw [hthread], rfl⟩
  have hself : k₁.thread t = { k.thread t with error := .RT_ETIMEOUT } := modifyThread_self
  have hwoke : Woke k ((k₁.listRemove t).rtScheduleInsertThread t) [t] := by
    refine hbase₁.woke_insert.same_trans rfl hsame ?_ ?_
    · intro u hu
      rw [List.mem_singleton.1 hu, hself]
    · intro u hu
      refine ⟨fun _ => Iff.rfl, Iff.rfl, ?_⟩
      rw [List.mem_singleton.1 hu, hself]
  have hwake := hbase₁.wake
  refine ⟨hwoke.trans_same hwake.rtSchedule_frame.sem fun _ => hwake.same_rtSchedule, ?_⟩
  have hinsert : Frame (k₁.listRemove t) ((k₁.listRemove t).rtScheduleInsertThread t) := frame_insert
  show (((k₁.listRemove t).rtScheduleInsertThread t).rtSchedule.thread t).error = _
  rw [hwake.rtSchedule_frame.error, hinsert.error]
  exact congrArg RtThread.error hself

theorem Base.woke_foldl (h : k.Base ts) :
    Woke k (ts.foldl Kernel.threadTimeout k) ts ∧
      ∀ t ∈ ts, ((ts.foldl Kernel.threadTimeout k).thread t).error = .RT_ETIMEOUT := by
  induction ts generalizing k with
  | nil => exact ⟨Woke.nil rfl fun _ => Same.refl, by simp⟩
  | cons t ts ih =>
    obtain ⟨ht, -⟩ := List.nodup_cons.1 h.transit_nodup
    obtain ⟨hwoke, herror⟩ := h.woke_threadTimeout
    obtain ⟨hwoke', herror'⟩ := ih h.threadTimeout
    refine ⟨hwoke.cons hwoke' ht, ?_⟩
    intro u hu
    rcases List.mem_cons.1 hu with rfl | hu
    · exact (hwoke'.same u ht).error.trans herror
    · exact herror' u hu

/-! ## What a step does -/

/-- The thread's timer is running, and its time is over. -/
def Due (k : Kernel τ ς) (t : τ) : Prop :=
  (k.timers.timer t).activated = true ∧
    k.timers.rt_tick - (k.timers.timer t).timeout_tick < RT_TICK_MAX / 2

/-- The current thread starts to wait in a call. -/
structure Waits (k k' : Kernel τ ς) (c : Call ς) : Prop where
  user : k.pc k.rt_current_thread = .user
  was : (k.thread k.rt_current_thread).stat = .running
  same : ∀ t, t ≠ k.rt_current_thread → Same k k' t
  suspend : (k'.thread k.rt_current_thread).stat = .suspend
  priority : (k'.thread k.rt_current_thread).current_priority =
    (k.thread k.rt_current_thread).current_priority
  error : (k'.thread k.rt_current_thread).error = .RT_EOK
  call : ∀ c', k'.InCall k.rt_current_thread c' ↔ c' = c

/-- The timer of the thread has been started. -/
def Started (k k' : Kernel τ ς) (t : τ) (time : RtTick) : Prop :=
  (k'.timers.timer t).activated = true ∧ (k'.timers.timer t).timeout_tick = k.timers.rt_tick + time

/-- The step is a timer check. -/
def Checks (k : Kernel τ ς) (c : Choice τ ς) : Prop := c = .irq ∧ k.irq.head? = some .timerCheck

variable [DecidableEq ς]

/-- What a step `c` does to the semaphores and the threads that wait, and the events it shows. -/
inductive Outcome (k k' : Kernel τ ς) : Choice τ ς → List (Event τ ς) → Prop
  | quiet (c : Choice τ ς) (es : List (Event τ ς)) (hc : c.sem = none) (hcheck : ¬ k.Checks c)
      (hsem : k'.sem = k.sem) (hsame : ∀ t, Same k k' t) (hes : c ≠ .tick ∧ es = [] ∨ c = .tick ∧ es = [.tick]) :
      Outcome k k' c es
  | took (s : ς) (time : Int32) (hvalue : 0 < (k.sem s).value)
      (hsem : k'.sem = Function.update k.sem s { k.sem s with value := (k.sem s).value - 1 })
      (hsame : ∀ t, Same k k' t) : Outcome k k' (.take s time) [.took k.rt_current_thread s]
  | poll (s : ς) (hvalue : ¬ 0 < (k.sem s).value) (hk : k' = k) :
      Outcome k k' (.take s 0) [.timedOut k.rt_current_thread s]
  | waits (s : ς) (time : Int32) (htime : time ≠ 0) (hvalue : ¬ 0 < (k.sem s).value)
      (hsem : k'.sem = Function.update k.sem s { k.sem s with
        suspend_thread := k.ipcListInsert k.rt_current_thread (k.sem s).suspend_thread (k.sem s).flag })
      (hwaits : Waits k k' (.take s))
      (htimer : 0 < time → Started k k' k.rt_current_thread time.toBitVec)
      (hforever : ¬ 0 < time → (k'.timers.timer k.rt_current_thread).activated = false) :
      Outcome k k' (.take s time) []
  | sleeps (tick : RtTick) (hsem : k'.sem = k.sem) (hwaits : Waits k k' .sleep)
      (htimer : Started k k' k.rt_current_thread tick) : Outcome k k' (.sleep tick) []
  | gave (s : ς) (c : Choice τ ς) (hc : c = .release s ∨ c = .isrRelease s)
      (hlist : (k.sem s).suspend_thread = []) (hmax : (k.sem s).value < RT_SEM_VALUE_MAX)
      (hsem : k'.sem = Function.update k.sem s { k.sem s with value := (k.sem s).value + 1 })
      (hsame : ∀ t, Same k k' t) : Outcome k k' c [.released s]
  | handed (s : ς) (c : Choice τ ς) (hc : c = .release s ∨ c = .isrRelease s) (t : τ) (l : List τ)
      (hlist : (k.sem s).suspend_thread = t :: l) (hwoke : Woke k k' [t])
      (herror : (k'.thread t).error = (k.thread t).error) : Outcome k k' c [.released s]
  | full (s : ς) (c : Choice τ ς) (hc : c = .release s ∨ c = .isrRelease s)
      (hlist : (k.sem s).suspend_thread = []) (hmax : ¬ (k.sem s).value < RT_SEM_VALUE_MAX)
      (hk : k' = k) : Outcome k k' c [.full s]
  | returns (c : Call ς) (hirq : k.irq = []) (hpc : k.pc k.rt_current_thread = .back c)
      (hpc' : k'.pc k.rt_current_thread = .user)
      (hrunning : (k.thread k.rt_current_thread).stat = .running) (hsem : k'.sem = k.sem)
      (hpriority : (k'.thread k.rt_current_thread).current_priority =
        (k.thread k.rt_current_thread).current_priority)
      (hsame : ∀ t, t ≠ k.rt_current_thread → Same k k' t) :
      Outcome k k' .proceed (match c with
        | .take s => if (k.thread k.rt_current_thread).error = .RT_EOK then [.took k.rt_current_thread s]
          else [.timedOut k.rt_current_thread s]
        | _ => [])
  | timeouts (ts : List τ) (hcheck : k.Checks (.irq : Choice τ ς)) (hnodup : ts.Nodup)
      (hdue : ∀ t, t ∈ ts ↔ k.Due t) (hwoke : Woke k k' ts)
      (herror : ∀ t ∈ ts, (k'.thread t).error = .RT_ETIMEOUT) : Outcome k k' .irq []

omit [DecidableEq τ] [DecidableEq ς] in
theorem ipcListInsert_congr (h : ∀ t, (k'.thread t).current_priority = (k.thread t).current_priority)
    (l : List τ) (flag : IpcFlag) : k'.ipcListInsert t l flag = k.ipcListInsert t l flag := by
  unfold ipcListInsert
  simp only [h]

section
variable (h : k.Inv)
include h

omit [DecidableEq ς] in
theorem Inv.woke_timerCheck (irq : List Irq) :
    ∃ ts : List τ, ts.Nodup ∧ (∀ t, t ∈ ts ↔ k.Due t) ∧
      Woke k ({ k with irq := irq }.rtTimerCheck) ts ∧
      ∀ t ∈ ts, (({ k with irq := irq }.rtTimerCheck).thread t).error = .RT_ETIMEOUT := by
  obtain ⟨timers, due, hcheck, hfold, hbase, hdue⟩ := h.base.timerCheck irq
  obtain ⟨hwoke, herror⟩ := hbase.woke_foldl
  refine ⟨due, hbase.transit_nodup, hdue, ?_⟩
  rw [hfold]
  refine ⟨hwoke.same_trans rfl ?_ (fun _ _ => rfl) fun _ _ => ⟨fun _ => Iff.rfl, Iff.rfl, rfl⟩, herror⟩
  intro t ht
  exact same_of_eq rfl ((Timers.rtTimerCheck_of_not_mem hcheck).2 t ht) fun _ => Iff.rfl

theorem Inv.outcome_proceed (hc : k.Enabled .proceed) :
    Outcome k (k.exec .proceed).1 .proceed (k.exec .proceed).2 := by
  obtain ⟨hirq, huser⟩ := hc
  unfold Kernel.exec Kernel.proceed
  dsimp only
  cases hpc : k.pc k.rt_current_thread with
  | user => exact absurd hpc huser
  | schedule c =>
    have hback := h.base.setPc_back hpc
    have hset : ∀ t, Same k (k.setPc k.rt_current_thread (.back c)) t := by
      intro t
      refine same_setPc (fun s => ?_) ?_
      · simp [InCall, hpc]
      · simp [InCall, hpc]
    exact .quiet _ _ rfl (by simp [Checks]) hback.rtSchedule_frame.sem
      (fun t => (hset t).trans hback.same_rtSchedule) (Or.inl ⟨by simp, rfl⟩)
  | back c =>
    have hno : ∀ c', k.pc k.rt_current_thread ≠ .schedule c' := by
      intro c' hc'
      rw [hpc] at hc'
      cases hc'
    have hrunning := h.running hirq hno
    have hsame : ∀ t, t ≠ k.rt_current_thread → Same k (k.setPc k.rt_current_thread .user) t :=
      fun t ht => same_of_eq rfl rfl fun _ => inCall_setPc_of_ne ht
    have hself : (k.setPc k.rt_current_thread .user).pc k.rt_current_thread = .user :=
      Function.update_self ..
    cases c with
    | take s => exact .returns (.take s) hirq hpc hself hrunning rfl rfl hsame
    | sleep =>
      refine .returns .sleep hirq hpc hself hrunning rfl ?_ fun t ht => (hsame t ht).trans ?_
      · dsimp only
        rw [modifyThread_self]
        rfl
      · dsimp only
        exact same_of_eq (modifyThread_of_ne ht) rfl fun _ => Iff.rfl
    | exit => exact .quiet _ _ rfl (by simp [Checks]) rfl (fun _ => Same.refl) (Or.inl ⟨by simp, rfl⟩)
    | other => exact .returns .other hirq hpc hself hrunning rfl rfl hsame

/-! ### Calls that wait -/

omit [DecidableEq ς] in
/-- The state after the current thread has suspended itself. -/
theorem Inv.suspend_eq (hmode : k.ThreadMode) :
    (k.modifyThread k.rt_current_thread fun thread => { thread with error := .RT_EOK }
      ).rtThreadSuspend k.rt_current_thread =
    k.modifyThread k.rt_current_thread fun thread => { thread with error := .RT_EOK, stat := .suspend } := by
  have hbase : (k.modifyThread k.rt_current_thread fun thread => { thread with error := .RT_EOK }
      ).Base [] := h.base.modifyThread rfl rfl
  have hrunning : ((k.modifyThread k.rt_current_thread fun thread => { thread with error := .RT_EOK }
      ).thread k.rt_current_thread).stat = .running := by
    rw [modifyThread_self]
    exact h.running_of_threadMode hmode
  refine (hbase.rtThreadSuspend_eq hrunning).trans ?_
  unfold Kernel.modifyThread
  simp

omit [DecidableEq ς] in
/-- It waits in the call `c`, on a list or with its timer started. -/
theorem Inv.waits (hmode : k.ThreadMode) {k₁ : Kernel τ ς} {c : Call ς}
    (hthread : k₁.thread = (k.modifyThread k.rt_current_thread fun thread =>
      { thread with error := .RT_EOK, stat := .suspend }).thread)
    (htimer : ∀ t, t ≠ k.rt_current_thread → k₁.timers.timer t = k.timers.timer t)
    (hpc : k₁.pc = k.pc) : Waits k (k₁.setPc k.rt_current_thread (.schedule c)) c := by
  have hself : (k₁.setPc k.rt_current_thread (.schedule c)).thread k.rt_current_thread =
      { k.thread k.rt_current_thread with error := .RT_EOK, stat := .suspend } := by
    show k₁.thread _ = _
    rw [hthread, modifyThread_self]
  refine ⟨hmode.2, h.running_of_threadMode hmode, ?_, ?_, ?_, ?_, fun _ => inCall_setPc_self⟩
  · intro t ht
    refine same_of_eq ?_ (htimer t ht) fun c' => (inCall_setPc_of_ne ht).trans (InCall.congr hpc)
    show k₁.thread t = _
    rw [hthread, modifyThread_of_ne ht]
  · rw [hself]
  · rw [hself]
  · rw [hself]

omit h [DecidableEq τ] [DecidableEq ς] in
theorem startTimer_started [DecidableEq τ] {k₁ : Kernel τ ς} {time : RtTick} {pc : Pc ς}
    (htick : k₁.timers.rt_tick = k.timers.rt_tick) :
    Started k ((k₁.startTimer t time).setPc u pc) t time := by
  have hself := Timers.rtTimerStart_self (t := t)
    (s := k₁.timers.rtTimerControl t (.RT_TIMER_CTRL_SET_TIME time))
  have hset : ((k₁.timers.rtTimerControl t (.RT_TIMER_CTRL_SET_TIME time)).timer t).init_tick = time := by
    rw [Timers.rtTimerControl, Timers.modify_self]
  constructor
  · show (((k₁.timers.rtTimerControl t (.RT_TIMER_CTRL_SET_TIME time)).rtTimerStart t).timer t
      ).activated = true
    rw [hself]
  · show (((k₁.timers.rtTimerControl t (.RT_TIMER_CTRL_SET_TIME time)).rtTimerStart t).timer t
      ).timeout_tick = _
    rw [hself, hset, ← htick]
    rfl

omit h [DecidableEq τ] [DecidableEq ς] in
theorem startTimer_of_ne [DecidableEq τ] {k₁ : Kernel τ ς} {time : RtTick} (hu : u ≠ t) :
    (k₁.startTimer t time).timers.timer u = k₁.timers.timer u := by
  show ((k₁.timers.rtTimerControl t (.RT_TIMER_CTRL_SET_TIME time)).rtTimerStart t).timer u = _
  rw [Timers.rtTimerStart_of_ne hu, Timers.rtTimerControl, Timers.modify_of_ne hu]

/-- The state after the current thread has suspended itself on the list of a semaphore. -/
theorem Inv.ipcListSuspend_eq {s : ς} (hmode : k.ThreadMode) :
    (k.modifyThread k.rt_current_thread fun thread => { thread with error := .RT_EOK }
      ).ipcListSuspend s k.rt_current_thread =
    { k.modifyThread k.rt_current_thread (fun thread =>
        { thread with error := .RT_EOK, stat := .suspend }) with
      sem := Function.update k.sem s { k.sem s with
        suspend_thread := k.ipcListInsert k.rt_current_thread (k.sem s).suspend_thread (k.sem s).flag } } := by
  rw [Kernel.ipcListSuspend, h.suspend_eq hmode]
  dsimp only
  rw [ipcListInsert_congr (k := k) fun _ => modifyThread_same
    (f := fun thread => { thread with error := .RT_EOK, stat := .suspend })
    RtThread.current_priority rfl]
  rfl

/-- The current thread finds no unit and waits for one. -/
theorem Inv.waits_take {s : ς} {time : Int32} (hmode : k.ThreadMode) (hvalue : ¬ 0 < (k.sem s).value)
    (htime : time ≠ 0) : (k.exec (.take s time)).2 = [] ∧
      (k.exec (.take s time)).1.sem = Function.update k.sem s { k.sem s with
        suspend_thread := k.ipcListInsert k.rt_current_thread (k.sem s).suspend_thread (k.sem s).flag } ∧
      Waits k (k.exec (.take s time)).1 (.take s) ∧
      (0 < time → Started k (k.exec (.take s time)).1 k.rt_current_thread time.toBitVec) ∧
      (¬ 0 < time → ((k.exec (.take s time)).1.timers.timer k.rt_current_thread).activated = false) := by
  unfold Kernel.exec
  dsimp only
  rw [← Prod.mk.eta (p := k.rtSemTake s time), rtSemTake_wait hvalue htime, rtSemTake_fst hvalue htime]
  dsimp only
  -- of the state in which the thread is on the list, four fields are enough
  have hlist := h.ipcListSuspend_eq (s := s) hmode
  generalize (k.modifyThread k.rt_current_thread fun thread => { thread with error := .RT_EOK }
    ).ipcListSuspend s k.rt_current_thread = k₁ at hlist ⊢
  have hsem := congrArg Kernel.sem hlist
  have hthread := congrArg Kernel.thread hlist
  have htimers : k₁.timers = k.timers := (congrArg Kernel.timers hlist).trans rfl
  have hpc : k₁.pc = k.pc := (congrArg Kernel.pc hlist).trans rfl
  refine ⟨rfl, ?_⟩
  split_ifs with hpos
  · have hwaits : Waits k ((k₁.startTimer k.rt_current_thread time.toBitVec).setPc
        k.rt_current_thread (.schedule (.take s))) (.take s) :=
      h.waits hmode hthread (fun t ht => (startTimer_of_ne ht).trans (by rw [htimers])) hpc
    exact ⟨hsem, hwaits, fun _ => startTimer_started (by rw [htimers]), fun hno => absurd hpos hno⟩
  · have hwaits : Waits k (k₁.setPc k.rt_current_thread (.schedule (.take s))) (.take s) :=
      h.waits hmode hthread (fun _ _ => by rw [htimers]) hpc
    refine ⟨hsem, hwaits, fun h => absurd h hpos, fun _ => ?_⟩
    show (k₁.timers.timer k.rt_current_thread).activated = false
    rw [htimers]
    exact h.base.inactive_current (h.running_of_threadMode hmode)

theorem Inv.outcome_take {s : ς} {time : Int32} (hc : k.Enabled (.take s time)) :
    Outcome k (k.exec (.take s time)).1 (.take s time) (k.exec (.take s time)).2 := by
  by_cases hvalue : 0 < (k.sem s).value
  · unfold Kernel.exec
    dsimp only
    rw [rtSemTake_pos hvalue]
    exact .took s time hvalue rfl fun _ => same_of_eq rfl rfl fun _ => Iff.rfl
  · by_cases htime : time = 0
    · unfold Kernel.exec
      dsimp only
      rw [rtSemTake_poll hvalue htime, htime]
      exact .poll s hvalue rfl
    · obtain ⟨hes, hsem, hwaits, htimer, hforever⟩ := h.waits_take hc.1 hvalue htime
      rw [hes]
      exact .waits s time htime hvalue hsem hwaits htimer hforever

omit [DecidableEq ς] in
theorem Inv.rtThreadSleep_eq {tick : RtTick} (hmode : k.ThreadMode) :
    k.rtThreadSleep tick = (k.modifyThread k.rt_current_thread fun thread =>
      { thread with error := .RT_EOK, stat := .suspend }).startTimer k.rt_current_thread tick := by
  rw [rtThreadSleep, h.suspend_eq hmode]

/-- The current thread goes to sleep. -/
theorem Inv.waits_sleep (tick : RtTick) (hmode : k.ThreadMode) :
    Waits k (k.exec (.sleep tick)).1 .sleep ∧
      Started k (k.exec (.sleep tick)).1 k.rt_current_thread tick := by
  unfold Kernel.exec
  dsimp only
  rw [h.rtThreadSleep_eq hmode]
  exact ⟨h.waits hmode rfl (fun _ ht => startTimer_of_ne ht) rfl, startTimer_started rfl⟩

theorem Inv.outcome_sleep {tick : RtTick} (hc : k.Enabled (.sleep tick)) :
    Outcome k (k.exec (.sleep tick)).1 (.sleep tick) (k.exec (.sleep tick)).2 := by
  obtain ⟨hwaits, hstarted⟩ := h.waits_sleep tick hc.1
  refine .sleeps tick ?_ hwaits hstarted
  unfold Kernel.exec
  dsimp only
  rw [h.rtThreadSleep_eq hc.1]
  rfl

omit h in
/-- The caller or the interrupt handler goes on to its call of `rt_schedule`. -/
theorem Base.outcome_rtSemRelease (h : k.Base []) {s : ς} {c : Choice τ ς}
    (hc : c = .release s ∨ c = .isrRelease s)
    (hsem : k'.sem = (k.rtSemRelease s).1.sem) (hsame : ∀ t, Same (k.rtSemRelease s).1 k' t)
    (hkeep : (k.rtSemRelease s).2.1 = false → k' = (k.rtSemRelease s).1) :
    Outcome k k' c [(k.rtSemRelease s).2.2] := by
  cases hlist : (k.sem s).suspend_thread with
  | nil =>
    by_cases hmax : (k.sem s).value < RT_SEM_VALUE_MAX
    · rw [rtSemRelease_nil hlist hmax] at hsem hsame ⊢
      have hvalue : ∀ t, Same k ({ k with
          sem := Function.update k.sem s { k.sem s with value := (k.sem s).value + 1 } } : Kernel τ ς) t :=
        fun _ => same_of_eq rfl rfl fun _ => Iff.rfl
      exact .gave s c hc hlist hmax hsem fun t => (hvalue t).trans (hsame t)
    · rw [rtSemRelease_full hlist hmax] at hkeep ⊢
      exact .full s c hc hlist hmax (hkeep rfl)
  | cons t l =>
    obtain ⟨hsuspend, -⟩ := h.head_waits hlist
    rw [rtSemRelease_cons hlist] at hsem hsame ⊢
    obtain ⟨hwoke, herror⟩ := h.woke_rtThreadResume hsuspend
    exact .handed s c hc t l hlist (hwoke.trans_same hsem hsame) ((hsame t).error.trans herror)

theorem Inv.outcome_release {s : ς} (hc : k.Enabled (.release s)) :
    Outcome k (k.exec (.release s)).1 (.release s) (k.exec (.release s)).2 := by
  refine h.base.outcome_rtSemRelease (Or.inl rfl) ?_ ?_ ?_
  · unfold Kernel.exec
    dsimp only
    split_ifs <;> rfl
  · intro t
    unfold Kernel.exec
    dsimp only
    split_ifs
    · refine same_setPc_other ?_ (Or.inl rfl)
      rw [rtSemRelease_pc]
      exact hc.2
    · exact Same.refl
  · intro hneed
    unfold Kernel.exec
    simp only [hneed]
    rfl

theorem Inv.outcome_isrRelease {s : ς} :
    Outcome k (k.exec (.isrRelease s)).1 (.isrRelease s) (k.exec (.isrRelease s)).2 := by
  refine h.base.outcome_rtSemRelease (Or.inr rfl) ?_ ?_ ?_
  · unfold Kernel.exec
    dsimp only
    split_ifs <;> rfl
  · intro t
    unfold Kernel.exec
    dsimp only
    split_ifs
    · exact same_of_eq rfl rfl fun _ => Iff.rfl
    · exact Same.refl
  · intro hneed
    unfold Kernel.exec
    simp only [hneed]
    rfl

/-! ### All other steps -/

theorem Inv.quiet_startup (hmode : k.ThreadMode) (hinit : (k.thread t).stat = .init) :
    (k.exec (.startup t)).1.sem = k.sem ∧ ∀ u, Same k (k.exec (.startup t)).1 u := by
  have hbase := h.base.transit_startup hinit
  have hwoke := hbase.woke_insert
  have hframe : Frame ((k.modifyThread t fun thread =>
      { thread with stat := .suspend, yield := false }).listRemove t) (k.rtThreadStartup t) := by
    rw [h.base.rtThreadStartup_eq hinit]
    exact frame_insert
  rw [← h.base.rtThreadStartup_eq hinit] at hwoke
  have hcall : ∀ c, ¬ k.InCall t c := not_inCall (h.base.fresh t hinit)
  constructor
  · show (k.rtThreadStartup t).sem = k.sem
    funext s
    have hnot : t ∉ (k.sem s).suspend_thread := fun hmem => hcall _ ((h.base.waiters.mem s t).1 hmem).2
    refine hwoke.sem_of_not_mem fun u hu => ?_
    simpa using ne_of_mem_of_not_mem hu hnot
  · intro u
    have hset : Same (k.rtThreadStartup t) ((k.rtThreadStartup t).setPc k.rt_current_thread
        (.schedule .other)) u := by
      refine same_setPc_other ?_ (Or.inl rfl)
      rw [hframe.pc]
      exact hmode.2
    refine Same.trans ?_ hset
    by_cases hu : u = t
    · have hself : ∀ c, (k.rtThreadStartup t).InCall t c ↔ k.InCall t c := fun c =>
        InCall.congr hframe.pc
      have hsame : ∀ {β : Type} (g : RtThread → β), g { k.thread t with stat := .suspend, yield := false }
          = g (k.thread t) → g ((k.modifyThread t fun thread =>
            { thread with stat := .suspend, yield := false }).thread t) = g (k.thread t) := fun g hg =>
        modifyThread_same (f := fun thread => { thread with stat := .suspend, yield := false }) g hg
      rw [hu]
      refine ⟨⟨fun _ => hself _, hself _, ?_⟩, iff_of_false ?_ ?_, ?_, ?_⟩
      · exact (hframe.priority t).trans (hsame RtThread.current_priority rfl)
      · exact hwoke.awake t (List.mem_singleton_self t)
      · rw [hinit]
        decide
      · exact (hframe.error t).trans (hsame RtThread.error rfl)
      · rw [hframe.timers]
        rfl
    · refine Same.trans ?_ (hwoke.same u (by simpa using hu))
      exact same_of_eq (modifyThread_of_ne hu) rfl fun _ => Iff.rfl

theorem Inv.quiet_exit (hmode : k.ThreadMode) :
    (k.exec .exit).1.sem = k.sem ∧ ∀ u, Same k (k.exec .exit).1 u := by
  have hrunning := h.running_of_threadMode hmode
  unfold Kernel.exec
  dsimp only
  rw [h.base.threadExit_eq hrunning]
  refine ⟨rfl, fun u => Same.trans ?_ (same_setPc_other hmode.2 (Or.inr (Or.inr rfl)))⟩
  have htimer : (k.timers.rtTimerDetach k.rt_current_thread).timer u = k.timers.timer u := by
    rw [Timers.rtTimerDetach]
    by_cases hu : u = k.rt_current_thread
    · rw [hu, Timers.modify_self]
      show { k.timers.timer k.rt_current_thread with activated := false } = _
      rw [← h.base.inactive_current hrunning]
    · rw [Timers.modify_of_ne hu]
      rfl
  by_cases hu : u = k.rt_current_thread
  · refine ⟨⟨fun _ => Iff.rfl, Iff.rfl, ?_⟩, iff_of_false ?_ ?_, ?_, htimer⟩
    · rw [hu, modifyThread_self]
    · rw [hu, modifyThread_self]
      dsimp only
      decide
    · rw [hu, hrunning]
      decide
    · rw [hu, modifyThread_self]
  · exact same_of_eq (modifyThread_of_ne hu) htimer fun _ => Iff.rfl

theorem Inv.quiet_yield (hmode : k.ThreadMode) :
    (k.exec .yield).1.sem = k.sem ∧ ∀ u, Same k (k.exec .yield).1 u := by
  have hbase := h.base_yield hmode
  refine ⟨hbase.rtSchedule_frame.sem, fun u => Same.trans ?_ hbase.same_rtSchedule⟩
  exact (same_setPc_other hmode.2 (Or.inr (Or.inl rfl))).trans (same_modifyThread rfl rfl rfl)

omit h [DecidableEq ς] in
theorem quiet_tick : k.rtTickIncrease.sem = k.sem ∧ ∀ u, Same k k.rtTickIncrease u := by
  have hpc : k.rtTickIncrease.pc = k.pc := rtTickIncrease_irq.1.2.2
  have hrest : k.rtTickIncrease.sem = k.sem ∧ k.rtTickIncrease.timers.timer = k.timers.timer := by
    unfold Kernel.rtTickIncrease
    dsimp only
    split_ifs <;> exact ⟨rfl, rfl⟩
  refine ⟨hrest.1, fun u => ⟨⟨fun _ => InCall.congr hpc, InCall.congr hpc, ?_⟩, ?_, ?_, ?_⟩⟩
  · exact rtTickIncrease_same RtThread.current_priority fun _ _ _ => rfl
  · rw [rtTickIncrease_same RtThread.stat fun _ _ _ => rfl]
  · exact rtTickIncrease_same RtThread.error fun _ _ _ => rfl
  · rw [hrest.2]

/-- **What a step does.** -/
theorem Inv.outcome {c : Choice τ ς} (hc : k.Enabled c) :
    Outcome k (k.exec c).1 c (k.exec c).2 := by
  cases c with
  | startup t =>
    obtain ⟨hsem, hsame⟩ := h.quiet_startup hc.1 hc.2
    exact .quiet _ _ rfl (by simp [Checks]) hsem hsame (Or.inl ⟨by simp, rfl⟩)
  | take s time => exact h.outcome_take hc
  | release s => exact h.outcome_release hc
  | yield =>
    obtain ⟨hsem, hsame⟩ := h.quiet_yield hc
    exact .quiet _ _ rfl (by simp [Checks]) hsem hsame (Or.inl ⟨by simp, rfl⟩)
  | sleep tick => exact h.outcome_sleep hc
  | exit =>
    obtain ⟨hsem, hsame⟩ := h.quiet_exit hc.1
    exact .quiet _ _ rfl (by simp [Checks]) hsem hsame (Or.inl ⟨by simp, rfl⟩)
  | enterCritical =>
    exact .quiet _ _ rfl (by simp [Checks]) rfl (fun _ => same_of_eq rfl rfl fun _ => Iff.rfl) (Or.inl ⟨by simp, rfl⟩)
  | exitCritical =>
    have hlock : ∀ n t, Same k ({ k with rt_scheduler_lock_nest := n } : Kernel τ ς) t :=
      fun _ _ => same_of_eq rfl rfl fun _ => Iff.rfl
    have hset : ∀ t, Same ({ k with rt_scheduler_lock_nest := 0 } : Kernel τ ς)
        ({ k with rt_scheduler_lock_nest := 0 }.setPc k.rt_current_thread (.schedule .other)) t :=
      fun _ => same_setPc_other hc.2 (Or.inl rfl)
    unfold Kernel.exec
    dsimp only
    split_ifs
    · exact .quiet _ _ rfl (by simp [Checks]) rfl (fun t => (hlock 0 t).trans (hset t)) (Or.inl ⟨by simp, rfl⟩)
    · exact .quiet _ _ rfl (by simp [Checks]) rfl (fun _ => same_of_eq rfl rfl fun _ => Iff.rfl) (Or.inl ⟨by simp, rfl⟩)
  | proceed => exact h.outcome_proceed hc
  | isrRelease s => exact h.outcome_isrRelease
  | tick => exact .quiet _ _ rfl (by simp [Checks]) quiet_tick.1 quiet_tick.2 (Or.inr ⟨rfl, rfl⟩)
  | irq =>
    unfold Kernel.exec
    dsimp only
    cases hirq : k.irq with
    | nil => exact absurd hirq hc
    | cons i irq =>
      cases i with
      | schedule =>
        have hbase := h.base.schedule_irq hirq
        have hsame : ∀ t, Same k ({ k with irq := irq } : Kernel τ ς) t :=
          fun _ => same_of_eq rfl rfl fun _ => Iff.rfl
        exact .quiet _ _ rfl (by simp [Checks, hirq]) hbase.rtSchedule_frame.sem
          (fun t => (hsame t).trans hbase.same_rtSchedule) (Or.inl ⟨by simp, rfl⟩)
      | timerCheck =>
        obtain ⟨ts, hnodup, hdue, hwoke, herror⟩ := h.woke_timerCheck irq
        exact .timeouts ts ⟨rfl, by rw [hirq]; rfl⟩ hnodup hdue hwoke herror

end

/-- The tick event is shown by the tick alone. -/
theorem Outcome.count_tick {c : Choice τ ς} {es : List (Event τ ς)} (h : Outcome k k' c es)
    (hne : c ≠ .tick) : es.count .tick = 0 := by
  rw [List.count_eq_zero]
  cases h with
  | quiet c es hc hcheck hsem hsame hes =>
    rcases hes with ⟨-, rfl⟩ | ⟨htick, -⟩
    · exact List.not_mem_nil
    · exact absurd htick hne
  | took s time hvalue hsem hsame => simp
  | poll s hvalue hk => simp
  | waits s time htime hvalue hsem hwaits htimer hforever => simp
  | sleeps tick hsem hwaits htimer => simp
  | gave s c hrel hlist hmax hsem hsame => simp
  | handed s c hrel t l hlist hwoke herror => simp
  | full s c hrel hlist hmax hk => simp
  | returns c hirq hpc hpc' hrunning hsem hpriority hsame =>
    cases c with
    | take s =>
      dsimp only
      split_ifs <;> simp
    | sleep => simp
    | exit => simp
    | other => simp
  | timeouts ts hcheck hnodup hdue hwoke herror => simp

/-- A choice that is not enabled does nothing. -/
theorem Inv.step_or (h : k.Inv) (c : Choice τ ς) :
    Outcome k (k.step c).1 c (k.step c).2 ∧ k.step c = k.exec c ∨ k.step c = (k, []) := by
  by_cases hc : k.Enabled c
  · have hstep : k.step c = k.exec c := if_pos hc
    rw [hstep]
    exact Or.inl ⟨h.outcome hc, rfl⟩
  · exact Or.inr (if_neg hc)

end Kernel

end Tdps
