import Tdps.Proofs.KernelProofs

/-!
# The thread that runs has the highest priority

`Inv` adds to the invariant of the lists that, wherever no call of `rt_schedule` is pending and the
scheduler is not locked, the current thread runs and no ready thread has a higher priority. Every step
keeps it (`Inv.step`), so it holds in every run (`run_inv`).
-/

namespace Tdps

open Machine

namespace Kernel

variable {τ ς : Type} [DecidableEq τ] {k k' : Kernel τ ς} {t u : τ} {transit : List τ}

/-- The invariant between two steps. Unless the scheduler is locked or about to be called, the current
thread runs and no ready thread has a higher priority. -/
structure Inv (k : Kernel τ ς) : Prop where
  base : k.Base []
  highest : k.rt_scheduler_lock_nest = 0 → .schedule ∉ k.irq →
    (∀ c, k.pc k.rt_current_thread ≠ .schedule c) →
    (k.thread k.rt_current_thread).stat = .running ∧ k.Highest k.rt_current_thread

omit [DecidableEq τ] in
/-- A thread whose code runs is running. -/
theorem Inv.running (h : k.Inv) (hirq : k.irq = [])
    (hpc : ∀ c, k.pc k.rt_current_thread ≠ .schedule c) :
    (k.thread k.rt_current_thread).stat = .running := by
  by_cases hlock : k.rt_scheduler_lock_nest = 0
  · exact (h.highest hlock (by simp [hirq]) hpc).1
  · exact h.base.lock hlock

omit [DecidableEq τ] in
theorem Inv.running_of_threadMode (h : k.Inv) (hmode : k.ThreadMode) :
    (k.thread k.rt_current_thread).stat = .running := by
  refine h.running hmode.1 ?_
  intro c hc
  rw [hmode.2] at hc
  cases hc

/-- `rt_schedule` has been called. -/
theorem Base.inv_rtSchedule (h : k.Base []) : k.rtSchedule.Inv := by
  refine ⟨h.rtSchedule, ?_⟩
  intro hlock _ _
  rw [h.rtSchedule_frame.lock] at hlock
  exact h.rtSchedule_highest hlock

/-- The current thread is about to call `rt_schedule`. -/
theorem Base.inv_of_setPc {c : Call ς} (h : (k.setPc t (.schedule c)).Base [])
    (hcurrent : k.rt_current_thread = t) : (k.setPc t (.schedule c)).Inv := by
  refine ⟨h, fun _ _ hno => absurd ?_ (hno c)⟩
  show Function.update k.pc t (.schedule c) k.rt_current_thread = .schedule c
  rw [hcurrent, Function.update_self]

omit [DecidableEq τ] in
/-- An interrupt handler is about to call `rt_schedule`. -/
theorem Base.inv_of_irq (h : k.Base []) (hirq : .schedule ∈ k.irq) : k.Inv :=
  ⟨h, fun _ hno => absurd hirq hno⟩

omit [DecidableEq τ] in
/-- A step after which threads, queues and the pending calls of `rt_schedule` are as before. -/
theorem Inv.congr (h : k.Inv) (hbase : k'.Base [])
    (hstat : ∀ t, (k'.thread t).stat = (k.thread t).stat)
    (hpriority : ∀ t, (k'.thread t).current_priority = (k.thread t).current_priority)
    (hcurrent : k'.rt_current_thread = k.rt_current_thread)
    (hlock : k'.rt_scheduler_lock_nest = 0 → k.rt_scheduler_lock_nest = 0)
    (hirq : .schedule ∉ k'.irq → .schedule ∉ k.irq)
    (hpc : (∀ c, k'.pc k'.rt_current_thread ≠ .schedule c) →
      ∀ c, k.pc k.rt_current_thread ≠ .schedule c) : k'.Inv := by
  refine ⟨hbase, ?_⟩
  intro hl hi hp
  obtain ⟨hrunning, hhighest⟩ := h.highest (hlock hl) (hirq hi) (hpc hp)
  rw [hcurrent, hstat]
  refine ⟨hrunning, ?_⟩
  intro u hu
  rw [hpriority, hpriority]
  exact hhighest u (by rw [← hstat]; exact hu)

theorem Base.threadTimeout (h : k.Base (t :: transit)) : (k.threadTimeout t).Base transit :=
  (h.modifyThread (f := fun thread => { thread with error := .RT_ETIMEOUT }) rfl rfl).wake.rtSchedule

/-- While some of them have been resumed, the others are still as before. -/
theorem Base.foldl_append {pre : List τ} (h : k.Base (pre ++ transit)) :
    (pre.foldl Kernel.threadTimeout k).Base transit := by
  induction pre generalizing k with
  | nil => exact h
  | cons t pre ih => exact ih h.threadTimeout

/-- The threads whose time is over are resumed one after the other. -/
theorem Base.foldl_threadTimeout (h : k.Base transit) (hinv : transit = [] → k.Inv) :
    (transit.foldl Kernel.threadTimeout k).Inv := by
  induction transit generalizing k with
  | nil => exact hinv rfl
  | cons t transit ih =>
    have hmodify : (k.modifyThread t fun thread => { thread with error := .RT_ETIMEOUT }).Base
        (t :: transit) := h.modifyThread rfl rfl
    have hwake := hmodify.wake
    refine ih h.threadTimeout fun hnil => ?_
    rw [hnil] at hwake
    exact hwake.inv_rtSchedule

omit [DecidableEq τ] in
/-- A call of `rt_schedule` by an interrupt handler is no longer to come. -/
theorem Base.schedule_irq (h : k.Base []) {irq : List Irq} (hirq : k.irq = .schedule :: irq) :
    ({ k with irq := irq } : Kernel τ ς).Base [] := by
  refine h.congr (fun _ => rfl) (fun _ => rfl) rfl rfl rfl h.lock rfl rfl rfl
    (fun _ _ _ => Iff.rfl) (fun _ _ => rfl) ?_
  rw [hirq]
  simp

/-- The timer check takes the threads whose timers are due off the timer list. -/
theorem Base.timerCheck (h : k.Base []) (irq : List Irq) :
    ∃ timers due, Timers.rtTimerCheck (k.timers.timer_list.length + 1) k.timers = some (timers, due) ∧
      { k with irq := irq }.rtTimerCheck =
        due.foldl Kernel.threadTimeout { k with timers := timers, irq := irq } ∧
      ({ k with timers := timers, irq := irq } : Kernel τ ς).Base due ∧
      ∀ t, t ∈ due ↔ (k.timers.timer t).activated = true ∧
        k.timers.rt_tick - (k.timers.timer t).timeout_tick < RT_TICK_MAX / 2 := by
  obtain ⟨c, hsim, -⟩ := h.timing
  obtain ⟨timers, hcheck, hsim'⟩ := hsim.check_length
  have hnodup := Alarm.Clock.nodup_due hsim.sound
  have hagain : ∀ t, c.again t = false := fun t => (hsim.periodic t).symm.trans (h.one_shot t)
  have hmem : ∀ t, t ∈ (c.due.foldl Alarm.Clock.fire c).agenda ↔ t ∈ c.agenda ∧ t ∉ c.due := by
    intro t
    by_cases hdue : t ∈ c.due
    · rw [Alarm.Clock.mem_foldl_fire hsim.sound hnodup hdue, hagain]
      simp [hdue]
    · rw [Alarm.Clock.mem_foldl_fire_of_not_mem hdue]
      exact (and_iff_left hdue).symm
  refine ⟨timers, c.due, hcheck, ?_, h.setTimers hnodup ?_ ?_ ?_ ?_, ?_⟩
  · unfold Kernel.rtTimerCheck
    dsimp only
    rw [hcheck]
  · intro t ht
    exact (hsim.activated t).2 ((Alarm.Clock.mem_due hsim.sound).1 ht).1
  · intro t
    rw [hsim'.activated, hsim.activated, hmem]
  · exact ⟨_, hsim', fun _ t ht => by
      rw [Alarm.Clock.foldl_fire_now]
      exact Timers.early_due hsim.sound t ht⟩
  · intro t
    rw [hsim'.periodic, Alarm.Clock.foldl_fire_again]
    exact hagain t
  · intro t
    rw [Alarm.Clock.mem_due hsim.sound, hsim.activated]
    exact and_congr_right fun ht => (hsim.compare ht).symm

theorem Inv.rtTimerCheck (h : k.Inv) {irq : List Irq} (hirq : k.irq = .timerCheck :: irq) :
    ({ k with irq := irq }.rtTimerCheck).Inv := by
  obtain ⟨timers, due, -, hfold, hbase, -⟩ := h.base.timerCheck irq
  rw [hfold]
  refine hbase.foldl_threadTimeout fun hnil => ?_
  rw [hnil] at hbase
  refine h.congr hbase (fun _ => rfl) (fun _ => rfl) rfl id ?_ id
  rw [hirq]
  simp

theorem rtTickIncrease_same {β : Type} (g : RtThread → β)
    (hg : ∀ thread r y, g { thread with remaining_tick := r, yield := y } = g thread) :
    g (k.rtTickIncrease.thread t) = g (k.thread t) := by
  have hslice : ∀ t, g ((k.modifyThread k.rt_current_thread fun thread =>
      { thread with remaining_tick := thread.remaining_tick - 1 }).thread t) = g (k.thread t) :=
    fun _ => modifyThread_same g (hg (k.thread k.rt_current_thread) _ _)
  unfold Kernel.rtTickIncrease
  dsimp only
  split_ifs
  · refine Eq.trans ?_ (hslice t)
    exact modifyThread_same (k := k.modifyThread k.rt_current_thread fun thread =>
        { thread with remaining_tick := thread.remaining_tick - 1 })
      (f := fun thread => { thread with remaining_tick := thread.init_tick, yield := true }) g
      (hg _ _ true)
  · exact hslice t

theorem rtTickIncrease_irq : (k.rtTickIncrease.rt_current_thread = k.rt_current_thread ∧
    k.rtTickIncrease.rt_scheduler_lock_nest = k.rt_scheduler_lock_nest ∧ k.rtTickIncrease.pc = k.pc) ∧
    ∀ i ∈ k.irq, i ∈ k.rtTickIncrease.irq := by
  unfold Kernel.rtTickIncrease
  dsimp only
  split_ifs
  · exact ⟨⟨rfl, rfl, rfl⟩, fun i hi => List.mem_cons_of_mem _ (List.mem_cons_of_mem _ hi)⟩
  · exact ⟨⟨rfl, rfl, rfl⟩, fun i hi => List.mem_cons_of_mem _ hi⟩

theorem rtThreadResume_rt_current_thread :
    (k.rtThreadResume t).rt_current_thread = k.rt_current_thread := by
  unfold Kernel.rtThreadResume
  split_ifs
  · rfl
  · exact insert_rt_current_thread

theorem rtThreadResume_of_ne (hu : u ≠ t) : (k.rtThreadResume t).thread u = k.thread u := by
  unfold Kernel.rtThreadResume
  split_ifs
  · rfl
  · exact insert_of_ne_self hu

theorem rtThreadSuspend_rt_current_thread :
    (k.rtThreadSuspend t).rt_current_thread = k.rt_current_thread := by
  unfold Kernel.rtThreadSuspend
  split_ifs <;> rfl

theorem rtSemTake_rt_current_thread [DecidableEq ς] {s : ς} {time : Int32} :
    (k.rtSemTake s time).1.rt_current_thread = k.rt_current_thread := by
  have hsuspend : ∀ (k₁ : Kernel τ ς) t, (k₁.ipcListSuspend s t).rt_current_thread =
      k₁.rt_current_thread := fun k₁ t => rtThreadSuspend_rt_current_thread (k := k₁) (t := t)
  unfold Kernel.rtSemTake
  dsimp only
  split_ifs
  · rfl
  · rfl
  · exact hsuspend _ _
  · exact hsuspend _ _

section
variable [DecidableEq ς] {s : ς} {time : Int32}

theorem rtSemTake_pos (hvalue : 0 < (k.sem s).value) : k.rtSemTake s time =
    ({ k with sem := Function.update k.sem s { k.sem s with value := (k.sem s).value - 1 } },
      some (.took k.rt_current_thread s)) := if_pos hvalue

theorem rtSemTake_poll (hvalue : ¬ 0 < (k.sem s).value) (htime : time = 0) :
    k.rtSemTake s time = (k, some (.timedOut k.rt_current_thread s)) := by
  rw [Kernel.rtSemTake, if_neg hvalue, if_pos htime]

theorem rtSemTake_wait (hvalue : ¬ 0 < (k.sem s).value) (htime : time ≠ 0) :
    (k.rtSemTake s time).2 = none := by
  rw [Kernel.rtSemTake]
  simp only [if_neg hvalue, if_neg htime]

theorem rtSemRelease_cons {l : List τ} (hlist : (k.sem s).suspend_thread = t :: l) :
    k.rtSemRelease s = (k.rtThreadResume t, true, .released s) := by
  unfold Kernel.rtSemRelease
  simp only [hlist]

theorem rtSemRelease_nil (hlist : (k.sem s).suspend_thread = [])
    (hmax : (k.sem s).value < RT_SEM_VALUE_MAX) : k.rtSemRelease s =
      ({ k with sem := Function.update k.sem s { k.sem s with value := (k.sem s).value + 1 } },
        false, .released s) := by
  unfold Kernel.rtSemRelease
  split
  · next hcons => simp [hlist] at hcons
  · exact if_pos hmax

theorem rtSemRelease_full (hlist : (k.sem s).suspend_thread = [])
    (hmax : ¬ (k.sem s).value < RT_SEM_VALUE_MAX) : k.rtSemRelease s = (k, false, .full s) := by
  unfold Kernel.rtSemRelease
  split
  · next hcons => simp [hlist] at hcons
  · exact if_neg hmax

theorem rtSemRelease_pc : (k.rtSemRelease s).1.pc = k.pc := by
  cases hlist : (k.sem s).suspend_thread with
  | nil =>
    by_cases hmax : (k.sem s).value < RT_SEM_VALUE_MAX
    · rw [rtSemRelease_nil hlist hmax]
    · rw [rtSemRelease_full hlist hmax]
  | cons t l =>
    rw [rtSemRelease_cons hlist]
    unfold Kernel.rtThreadResume
    split_ifs
    · rfl
    · exact frame_insert.pc

theorem rtSemTake_fst (hvalue : ¬ 0 < (k.sem s).value) (htime : time ≠ 0) :
    (k.rtSemTake s time).1 =
      let k₁ := (k.modifyThread k.rt_current_thread fun thread => { thread with error := .RT_EOK }
        ).ipcListSuspend s k.rt_current_thread
      if 0 < time then k₁.startTimer k.rt_current_thread time.toBitVec else k₁ := by
  rw [Kernel.rtSemTake]
  simp only [if_neg hvalue, if_neg htime]

end

section
variable [DecidableEq ς] (h : k.Inv)
include h

/-- `rt_sem_release`, called by a thread or by an interrupt handler: a thread that runs goes on running. -/
theorem Inv.rtSemRelease {s : ς} :
    (k.rtSemRelease s).1.Base [] ∧ ((k.rtSemRelease s).2.1 = false → (k.rtSemRelease s).1.Inv) ∧
      (k.rtSemRelease s).1.rt_current_thread = k.rt_current_thread ∧
      ((k.thread k.rt_current_thread).stat = .running →
        ((k.rtSemRelease s).1.thread k.rt_current_thread).stat = .running) := by
  cases hlist : (k.sem s).suspend_thread with
  | nil =>
    by_cases hmax : (k.sem s).value < RT_SEM_VALUE_MAX
    · rw [rtSemRelease_nil hlist hmax]
      have hbase := h.base.setValue (s := s) (v := (k.sem s).value + 1) fun _ => hlist
      exact ⟨hbase, fun _ => h.congr hbase (fun _ => rfl) (fun _ => rfl) rfl id id id, rfl, id⟩
    · rw [rtSemRelease_full hlist hmax]
      exact ⟨h.base, fun _ => h, rfl, id⟩
  | cons t l =>
    rw [rtSemRelease_cons hlist]
    obtain ⟨hsuspend, -⟩ := h.base.head_waits hlist
    refine ⟨h.base.rtThreadResume hsuspend List.not_mem_nil, fun hno => absurd hno Bool.noConfusion,
      rtThreadResume_rt_current_thread, ?_⟩
    intro hrunning
    show ((k.rtThreadResume t).thread k.rt_current_thread).stat = .running
    rw [rtThreadResume_of_ne, hrunning]
    rintro rfl
    rw [hsuspend] at hrunning
    cases hrunning

omit [DecidableEq ς] in
/-- The current thread's call is over. -/
theorem Inv.setPc_user (hirq : k.irq = []) {c : Call ς} (hpc : k.pc k.rt_current_thread = .back c) :
    (k.setPc k.rt_current_thread .user).Inv := by
  have hno : ∀ c, k.pc k.rt_current_thread ≠ .schedule c := by
    intro c' hc'
    rw [hpc] at hc'
    cases hc'
  exact h.congr (h.base.setPc_running (h.running hirq hno) .user) (fun _ => rfl) (fun _ => rfl) rfl id id
    fun _ => hno

omit [DecidableEq ς] in
theorem Inv.proceed (hirq : k.irq = []) : k.proceed.1.Inv := by
  unfold Kernel.proceed
  cases hpc : k.pc k.rt_current_thread with
  | user =>
    simp only [hpc]
    exact h
  | schedule c =>
    simp only [hpc]
    exact (h.base.setPc_back hpc).inv_rtSchedule
  | back c =>
    have huser := h.setPc_user hirq hpc
    cases c with
    | take s =>
      simp only [hpc]
      exact huser
    | sleep =>
      simp only [hpc]
      exact huser.congr (huser.base.modifyThread rfl rfl) (fun _ => modifyThread_same RtThread.stat rfl)
        (fun _ => modifyThread_same RtThread.current_priority rfl) rfl id id id
    | exit =>
      simp only [hpc]
      exact h
    | other =>
      simp only [hpc]
      exact huser

omit [DecidableEq ς] in
theorem Inv.tick (hirq : .timerCheck ∉ k.irq) : k.rtTickIncrease.Inv := by
  have hbase := h.base.rtTickIncrease hirq
  obtain ⟨hsame, hover⟩ := rtTickIncrease_irq (k := k)
  by_cases hmem : .schedule ∈ k.rtTickIncrease.irq
  · exact hbase.inv_of_irq hmem
  · refine h.congr hbase (fun _ => rtTickIncrease_same RtThread.stat fun _ _ _ => rfl)
      (fun _ => rtTickIncrease_same RtThread.current_priority fun _ _ _ => rfl) hsame.1 ?_ ?_ ?_
    · rw [hsame.2.1]
      exact id
    · exact fun _ hk => hmem (hover _ hk)
    · rw [hsame.1, hsame.2.2]
      exact id

theorem Inv.isrRelease {s : ς} : (k.exec (.isrRelease s)).1.Inv := by
  obtain ⟨hbase, hinv, -, -⟩ := h.rtSemRelease (s := s)
  unfold Kernel.exec
  dsimp only
  split_ifs with hneed
  · have hirq : ({ (k.rtSemRelease s).1 with irq := .schedule :: (k.rtSemRelease s).1.irq } : Kernel τ ς
        ).Base [] := by
      refine hbase.congr (fun _ => rfl) (fun _ => rfl) rfl rfl rfl hbase.lock rfl rfl rfl
        (fun _ _ _ => Iff.rfl) (fun _ _ => rfl) ?_
      exact fun hno hmem => hno (List.mem_cons_of_mem _ hmem)
    exact hirq.inv_of_irq List.mem_cons_self
  · exact hinv (Bool.not_eq_true _ ▸ hneed)

theorem Inv.irq : (k.exec .irq).1.Inv := by
  unfold Kernel.exec
  dsimp only
  cases hirq : k.irq with
  | nil => exact h
  | cons i irq =>
    cases i with
    | schedule => exact (h.base.schedule_irq hirq).inv_rtSchedule
    | timerCheck => exact h.rtTimerCheck hirq

/-! ### Calls in thread mode -/

variable (hmode : k.ThreadMode)
include hmode

theorem Inv.startup (hinit : (k.thread t).stat = .init) : (k.exec (.startup t)).1.Inv := by
  have hcurrent : (k.rtThreadStartup t).rt_current_thread = k.rt_current_thread :=
    rtThreadResume_rt_current_thread
  have hne : k.rt_current_thread ≠ t := fun e => h.base.started (e ▸ hinit)
  have hrunning : ((k.rtThreadStartup t).thread k.rt_current_thread).stat = .running := by
    rw [Kernel.rtThreadStartup, rtThreadResume_of_ne hne, modifyThread_of_ne hne]
    exact h.running_of_threadMode hmode
  have hbase := h.base.rtThreadStartup hinit
  rw [← hcurrent] at hrunning
  have hset := hbase.setPc_running hrunning (.schedule .other)
  rw [hcurrent] at hset
  exact hset.inv_of_setPc hcurrent

theorem Inv.take {s : ς} {time : Int32} (hblock : (k.sem s).value = 0 → time ≠ 0 →
      k.MayBlock ∧ (0 < time → time.toBitVec < RT_TICK_MAX / 2)) : (k.exec (.take s time)).1.Inv := by
  unfold Kernel.exec
  dsimp only
  by_cases hvalue : 0 < (k.sem s).value
  · rw [rtSemTake_pos hvalue]
    have hbase := h.base.setValue (s := s) (v := (k.sem s).value - 1) fun _ => h.base.value s hvalue
    exact h.congr hbase (fun _ => rfl) (fun _ => rfl) rfl id id id
  · by_cases htime : time = 0
    · rw [rtSemTake_poll hvalue htime]
      exact h
    · obtain ⟨hmay, hlimit⟩ := hblock (by omega) htime
      have hbase := h.base.rtSemTake (h.running_of_threadMode hmode) hmode.2 hmay hmode.1 hvalue htime
        hlimit
      rw [← Prod.mk.eta (p := k.rtSemTake s time), rtSemTake_wait hvalue htime]
      exact hbase.inv_of_setPc rtSemTake_rt_current_thread

theorem Inv.release {s : ς} : (k.exec (.release s)).1.Inv := by
  obtain ⟨hbase, hinv, hcurrent, hrunning⟩ := h.rtSemRelease (s := s)
  unfold Kernel.exec
  dsimp only
  split_ifs with hneed
  · have hrun := hrunning (h.running_of_threadMode hmode)
    rw [← hcurrent] at hrun ⊢
    exact (hbase.setPc_running hrun _).inv_of_setPc rfl
  · exact hinv (Bool.not_eq_true _ ▸ hneed)

omit [DecidableEq ς] in
/-- The current thread has given up its time slice. -/
theorem Inv.base_yield : ((k.setPc k.rt_current_thread (.back .other)).modifyThread k.rt_current_thread
    fun thread => { thread with remaining_tick := thread.init_tick, yield := true }).Base [] :=
  (h.base.setPc_running (h.running_of_threadMode hmode) (.back .other)).modifyThread rfl rfl

theorem Inv.yield : (k.exec .yield).1.Inv := (h.base_yield hmode).inv_rtSchedule

theorem Inv.sleep {tick : RtTick} (hblock : k.MayBlock) (htick : tick < RT_TICK_MAX / 2) :
    (k.exec (.sleep tick)).1.Inv := by
  have hbase := h.base.rtThreadSleep (h.running_of_threadMode hmode) hmode.2 hblock hmode.1 htick
  have hcurrent : (k.rtThreadSleep tick).rt_current_thread = k.rt_current_thread :=
    rtThreadSuspend_rt_current_thread
  exact hbase.inv_of_setPc hcurrent

theorem Inv.exit (hblock : k.MayBlock) : (k.exec .exit).1.Inv := by
  have hbase := h.base.threadExit (h.running_of_threadMode hmode) hmode.2 hblock.1 hblock.2
  exact hbase.inv_of_setPc rfl

theorem Inv.enterCritical : (k.exec .enterCritical).1.Inv := by
  have hbase : (k.exec .enterCritical).1.Base [] := h.base.congr (fun _ => rfl) (fun _ => rfl) rfl rfl rfl
    (fun _ => h.running_of_threadMode hmode) rfl rfl rfl (fun _ _ _ => Iff.rfl) (fun _ _ => rfl) id
  exact ⟨hbase, fun hlock => absurd hlock (Nat.succ_ne_zero _)⟩

theorem Inv.exitCritical : (k.exec .exitCritical).1.Inv := by
  have hrunning := h.running_of_threadMode hmode
  have hbase : ∀ n, ({ k with rt_scheduler_lock_nest := n } : Kernel τ ς).Base [] := fun n =>
    h.base.congr (fun _ => rfl) (fun _ => rfl) rfl rfl rfl (fun _ => hrunning) rfl rfl rfl
      (fun _ _ _ => Iff.rfl) (fun _ _ => rfl) id
  unfold Kernel.exec
  dsimp only
  split_ifs with hle
  · have hset := (hbase 0).setPc_running hrunning (.schedule .other)
    exact hset.inv_of_setPc rfl
  · exact ⟨hbase _, fun hlock => absurd hlock (by show k.rt_scheduler_lock_nest - 1 ≠ 0; omega)⟩

end

/-- **Every step keeps the invariant.** -/
theorem Inv.step [DecidableEq ς] (h : k.Inv) (c : Choice τ ς) : (k.step c).1.Inv := by
  unfold Kernel.step
  split_ifs with hc
  · cases c with
    | startup t => exact h.startup hc.1 hc.2
    | take s time => exact h.take hc.1 hc.2
    | release s => exact h.release hc
    | yield => exact h.yield hc
    | sleep tick => exact h.sleep hc.1 hc.2.1 hc.2.2
    | exit => exact h.exit hc.1 hc.2
    | enterCritical => exact h.enterCritical hc.1
    | exitCritical => exact h.exitCritical hc
    | proceed => exact h.proceed hc.1
    | isrRelease s => exact h.isrRelease
    | tick => exact h.tick hc
    | irq => exact h.irq
  · exact h

/-! ## Runs -/

section
variable (rt_tick : RtTick) (idle : τ) (priority : τ → Priority) (tick : τ → RtTick) (value : ς → ℕ)
variable (flag : ς → IpcFlag)

theorem base_boot : (boot rt_tick idle priority tick value flag).Base [] := by
  have hstat : ∀ t, ((boot rt_tick idle priority tick value flag).thread t).stat =
      if t = idle then .running else .init := fun _ => rfl
  have hready : ∀ t, ((boot rt_tick idle priority tick value flag).thread t).stat ≠ .ready := by
    intro t
    rw [hstat]
    split_ifs <;> decide
  have hsuspend : ∀ t, ((boot rt_tick idle priority tick value flag).thread t).stat ≠ .suspend := by
    intro t
    rw [hstat]
    split_ifs <;> decide
  have hidle : ((boot rt_tick idle priority tick value flag).thread idle).stat = .running :=
    (hstat idle).trans (if_pos rfl)
  constructor
  case queues =>
    refine ⟨fun p t => ?_, fun _ => List.nodup_nil, fun p => ?_⟩
    · exact iff_of_false List.not_mem_nil fun h => hready t h.1
    · refine iff_of_false ?_ fun h => h rfl
      show ¬ (0 : BitVec 32).getLsbD p = true
      simp
  case waiters =>
    refine ⟨fun s t => ?_, fun _ => List.nodup_nil⟩
    exact iff_of_false List.not_mem_nil fun h => hsuspend t h.1
  case running =>
    intro t ht
    rw [hstat] at ht
    split_ifs at ht with hidle
    exact hidle
  case current => exact hready idle
  case started =>
    show ((boot rt_tick idle priority tick value flag).thread idle).stat ≠ .init
    rw [hidle]
    decide
  case suspended => exact fun t ht => absurd ht (hsuspend t)
  case active =>
    intro t ht
    cases ht
  case asleep => exact fun t ht => absurd ht (hsuspend t)
  case transit_suspend => simp
  case transit_inactive => simp
  case transit_nodup => exact List.nodup_nil
  case value => exact fun _ _ => rfl
  case idle => exact Or.inr hidle
  case lock => exact fun h => absurd rfl h
  case timing =>
    have hgood : Timers.Good (Timers.init rt_tick (fun _ : τ => 0) fun _ => false) _ :=
      Timers.good_init fun _ => by decide
    exact ⟨_, hgood.toSim, fun _ => hgood.early⟩
  case one_shot => exact fun _ => rfl
  case fresh => exact fun _ _ => rfl

theorem inv_boot : (boot rt_tick idle priority tick value flag).Inv := by
  refine ⟨base_boot .., fun _ _ _ => ⟨if_pos rfl, ?_⟩⟩
  intro u hu
  have hstat : ((boot rt_tick idle priority tick value flag).thread u).stat =
      if u = idle then .running else .init := rfl
  rw [hstat] at hu
  split_ifs at hu

variable [DecidableEq ς] (cs : List (Choice τ ς))

theorem run_inv : (run step (boot rt_tick idle priority tick value flag) cs).1.Inv :=
  run_invariant step (inv_boot ..) (fun _ c h => h.step c) cs

/-- **The thread that runs has the highest priority.** In every run of threads, ticks and interrupt
handlers, wherever the scheduler is not locked and no call of `rt_schedule` is pending, the current
thread is the one that is marked as running, and no ready thread has a higher priority. -/
theorem runs_highest (hlock : (run step (boot rt_tick idle priority tick value flag) cs
      ).1.rt_scheduler_lock_nest = 0)
    (hirq : .schedule ∉ (run step (boot rt_tick idle priority tick value flag) cs).1.irq)
    (hpc : ∀ c, (run step (boot rt_tick idle priority tick value flag) cs).1.pc
      (run step (boot rt_tick idle priority tick value flag) cs).1.rt_current_thread ≠ .schedule c) :
    let k := (run step (boot rt_tick idle priority tick value flag) cs).1
    (∀ t, (k.thread t).stat = .running ↔ t = k.rt_current_thread) ∧ k.Highest k.rt_current_thread := by
  intro k
  have hinv : k.Inv := run_inv ..
  obtain ⟨hrunning, hhighest⟩ := hinv.highest hlock hirq hpc
  refine ⟨fun t => ⟨hinv.base.running t, ?_⟩, hhighest⟩
  rintro rfl
  exact hrunning

/-- A semaphore for which a thread of high priority waits is released by the idle thread. -/
theorem runs_highest_release :
    let k := (run step (boot 0 false (fun t => if t then 5 else 31) (fun _ => 10) (fun _ : Unit => 0)
      fun _ => .fifo) [.startup true, .proceed, .take () (-1), .proceed, .proceed,
        .release (), .proceed]).1
    (∀ t, (k.thread t).stat = .running ↔ t = k.rt_current_thread) ∧ k.Highest k.rt_current_thread :=
  runs_highest 0 false (fun t => if t then 5 else 31) (fun _ => 10) (fun _ => 0)
    (fun _ => .fifo) [.startup true, .proceed, .take () (-1), .proceed, .proceed,
      .release (), .proceed] (by decide) (by decide) fun _ hc =>
    nomatch hc.symm.trans (rfl : _ = Pc.back (Call.take ()))

/-- **`_thread_timeout` is called for suspended threads only.** In every run, at every timer check, the
assertion at its start holds each time it is called, after the threads before have been resumed and
`rt_schedule` has been called for them. -/
theorem timeout_assert {irq : List Irq} {timers : Timers τ} {pre post : List τ} {t : τ}
    (hcheck : Timers.rtTimerCheck
      ((run step (boot rt_tick idle priority tick value flag) cs).1.timers.timer_list.length + 1)
      (run step (boot rt_tick idle priority tick value flag) cs).1.timers =
        some (timers, pre ++ t :: post)) :
    let k := (run step (boot rt_tick idle priority tick value flag) cs).1
    ((pre.foldl Kernel.threadTimeout { k with timers := timers, irq := irq }).thread t).stat = .suspend := by
  intro k
  have hbase : k.Base [] := (run_inv ..).base
  obtain ⟨timers', due, hcheck', -, hdue, -⟩ := hbase.timerCheck irq
  cases hcheck.symm.trans hcheck'
  exact hdue.foldl_append.transit_suspend t List.mem_cons_self

/-- Two threads sleep for one tick. -/
theorem timeout_assert_two :
    let k := (run step (boot 0 (0 : Fin 3) (fun t => if t = 0 then 31 else 5) (fun _ => 10)
      (fun _ : Unit => 0) fun _ => .fifo)
      [.startup 1, .proceed, .sleep 1, .proceed, .proceed, .startup 2, .proceed, .sleep 1, .proceed,
        .tick]).1
    let timers := ((Timers.rtTimerCheck (k.timers.timer_list.length + 1) k.timers).getD (k.timers, [])).1
    (([1].foldl Kernel.threadTimeout { k with timers := timers, irq := [] }).thread 2).stat = .suspend :=
  timeout_assert 0 (0 : Fin 3) (fun t => if t = 0 then 31 else 5) (fun _ => 10) (fun _ => 0)
    (fun _ => .fifo) [.startup 1, .proceed, .sleep 1, .proceed, .proceed, .startup 2, .proceed,
      .sleep 1, .proceed, .tick] rfl

end

end Kernel

end Tdps
