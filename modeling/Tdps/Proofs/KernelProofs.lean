import Tdps.Proofs.SchedulerProofs
import Tdps.Proofs.TimerProofs

/-!
# The invariant of the kernel

`Base k transit` relates the lists, the timers and the threads' states: a thread is on the list that its
state and its call name, on no other, and its timer runs only while it is suspended. The threads of
`transit` are exempt: they are suspended, their timers are off, and the operation under way is about to
resume them or to put them to sleep.
-/

namespace Tdps

open Machine

namespace Kernel

variable {τ ς : Type} [DecidableEq τ] {k k' : Kernel τ ς} {t u : τ} {transit : List τ}

/-- The thread is in this call. -/
def InCall (k : Kernel τ ς) (t : τ) (c : Call ς) : Prop := k.pc t = .schedule c ∨ k.pc t = .back c

/-- The invariant of the kernel. -/
structure Base (k : Kernel τ ς) (transit : List τ) : Prop where
  queues : k.Queues fun t => (k.thread t).stat = .ready
  waiters : k.Waiters fun s t => (k.thread t).stat = .suspend ∧ k.InCall t (.take s)
  running : ∀ t, (k.thread t).stat = .running → t = k.rt_current_thread
  current : (k.thread k.rt_current_thread).stat ≠ .ready
  started : (k.thread k.rt_current_thread).stat ≠ .init
  suspended : ∀ t, (k.thread t).stat = .suspend →
    t ∈ transit ∨ (∃ s, k.InCall t (.take s)) ∨ k.InCall t .sleep
  active : ∀ t, (k.timers.timer t).activated = true → (k.thread t).stat = .suspend
  asleep : ∀ t, (k.thread t).stat = .suspend → k.InCall t .sleep →
    t ∈ transit ∨ (k.timers.timer t).activated = true
  transit_suspend : ∀ t ∈ transit, (k.thread t).stat = .suspend
  transit_inactive : ∀ t ∈ transit, (k.timers.timer t).activated = false
  transit_nodup : transit.Nodup
  value : ∀ s, 0 < (k.sem s).value → (k.sem s).suspend_thread = []
  idle : (k.thread k.idle).stat = .ready ∨ (k.thread k.idle).stat = .running
  lock : k.rt_scheduler_lock_nest ≠ 0 → (k.thread k.rt_current_thread).stat = .running
  timing : ∃ c, Timers.Sim k.timers c ∧
    (.timerCheck ∉ k.irq → ∀ t ∈ c.agenda, c.now ≤ c.deadline t)
  one_shot : ∀ t, (k.timers.timer t).periodic = false
  fresh : ∀ t, (k.thread t).stat = .init → k.pc t = .user

omit [DecidableEq τ] in
/-- Only what the invariant does not speak about has changed. -/
theorem Base.congr (h : k.Base transit)
    (hstat : ∀ t, (k'.thread t).stat = (k.thread t).stat)
    (hpriority : ∀ t, (k'.thread t).current_priority = (k.thread t).current_priority)
    (htable : k'.rt_thread_priority_table = k.rt_thread_priority_table)
    (hmask : k'.rt_thread_ready_priority_group = k.rt_thread_ready_priority_group)
    (hcurrent : k'.rt_current_thread = k.rt_current_thread)
    (hlock : k'.rt_scheduler_lock_nest ≠ 0 → (k.thread k.rt_current_thread).stat = .running)
    (hsem : k'.sem = k.sem) (hidle : k'.idle = k.idle) (htimers : k'.timers = k.timers)
    (hpc : ∀ t c, (k.thread t).stat = .suspend → (k'.InCall t c ↔ k.InCall t c))
    (hfresh : ∀ t, (k.thread t).stat = .init → k'.pc t = k.pc t)
    (hirq : .timerCheck ∉ k'.irq → .timerCheck ∉ k.irq) : k'.Base transit := by
  constructor
  case queues => exact h.queues.congr htable hmask hpriority fun t => by rw [hstat]
  case waiters =>
    refine h.waiters.congr (fun s => by rw [hsem]) ?_
    intro s t
    rw [hstat]
    exact and_congr_right fun hs => hpc t _ hs
  case running => simpa only [hstat, hcurrent] using h.running
  case current => simpa only [hstat, hcurrent] using h.current
  case started => simpa only [hstat, hcurrent] using h.started
  case suspended =>
    intro t ht
    rw [hstat] at ht
    simp only [hpc t _ ht]
    exact h.suspended t ht
  case active => simpa only [hstat, htimers] using h.active
  case asleep =>
    intro t ht
    rw [hstat] at ht
    rw [hpc t _ ht, htimers]
    exact h.asleep t ht
  case transit_suspend => simpa only [hstat] using h.transit_suspend
  case transit_inactive => simpa only [htimers] using h.transit_inactive
  case transit_nodup => exact h.transit_nodup
  case value => simpa only [hsem] using h.value
  case idle => simpa only [hstat, hidle] using h.idle
  case lock => simpa only [hstat, hcurrent] using hlock
  case timing =>
    obtain ⟨c, hsim, hearly⟩ := h.timing
    rw [htimers]
    exact ⟨c, hsim, fun hno => hearly (hirq hno)⟩
  case one_shot => simpa only [htimers] using h.one_shot
  case fresh =>
    intro t ht
    rw [hstat] at ht
    rw [hfresh t ht]
    exact h.fresh t ht

/-- A change of a thread's time slice, yield flag or error number. -/
theorem Base.modifyThread (h : k.Base transit) {f : RtThread → RtThread}
    (hstat : (f (k.thread t)).stat = (k.thread t).stat)
    (hpriority : (f (k.thread t)).current_priority = (k.thread t).current_priority) :
    (k.modifyThread t f).Base transit :=
  h.congr (fun _ => modifyThread_same RtThread.stat hstat)
    (fun _ => modifyThread_same RtThread.current_priority hpriority) rfl rfl rfl h.lock rfl rfl rfl
    (fun _ _ _ => Iff.rfl) (fun _ _ => rfl) id

omit [DecidableEq τ] in
/-- The timer of a thread that is not suspended is off. -/
theorem Base.inactive (h : k.Base transit) (hs : (k.thread t).stat ≠ .suspend) :
    (k.timers.timer t).activated = false := by
  rw [← Bool.not_eq_true]
  exact fun hact => hs (h.active t hact)

omit [DecidableEq τ] in
/-- The first thread on a semaphore's list waits for it. -/
theorem Base.head_waits (h : k.Base transit) {s : ς} {l : List τ}
    (hlist : (k.sem s).suspend_thread = t :: l) :
    (k.thread t).stat = .suspend ∧ k.InCall t (.take s) :=
  (h.waiters.mem s t).1 (hlist ▸ List.mem_cons_self)

omit [DecidableEq τ] in
/-- The timers change, and with them the threads in transit. -/
theorem Base.withTimers (h : k.Base transit) {timers : Timers τ} {irq : List Irq} {transit' : List τ}
    (hnodup : transit'.Nodup) (hsuspend : ∀ t ∈ transit', (k.thread t).stat = .suspend)
    (hinactive : ∀ t ∈ transit', (timers.timer t).activated = false)
    (hactive : ∀ t, (timers.timer t).activated = true → (k.thread t).stat = .suspend)
    (htransit : ∀ t ∈ transit, t ∈ transit' ∨ (∃ s, k.InCall t (.take s)) ∨ k.InCall t .sleep)
    (hasleep : ∀ t, (k.thread t).stat = .suspend → k.InCall t .sleep →
      t ∈ transit' ∨ (timers.timer t).activated = true)
    (htiming : ∃ c, Timers.Sim timers c ∧ (.timerCheck ∉ irq → ∀ t ∈ c.agenda, c.now ≤ c.deadline t))
    (hperiodic : ∀ t, (timers.timer t).periodic = false) :
    ({ k with timers := timers, irq := irq } : Kernel τ ς).Base transit' := by
  constructor
  case queues => exact h.queues.congr rfl rfl (fun _ => rfl) fun _ => Iff.rfl
  case waiters => exact h.waiters.congr (fun _ => rfl) fun _ _ => Iff.rfl
  case running => exact h.running
  case current => exact h.current
  case started => exact h.started
  case suspended => exact fun u hu => (h.suspended u hu).elim (htransit u) Or.inr
  case active => exact hactive
  case asleep => exact hasleep
  case transit_suspend => exact hsuspend
  case transit_inactive => exact hinactive
  case transit_nodup => exact hnodup
  case value => exact h.value
  case idle => exact h.idle
  case lock => exact h.lock
  case timing => exact htiming
  case one_shot => exact hperiodic
  case fresh => exact h.fresh

omit [DecidableEq τ] in
/-- The timers of the threads in transit go off, and the others stay as they are. -/
theorem Base.setTimers (h : k.Base []) {timers : Timers τ} {irq : List Irq} {transit : List τ}
    (hnodup : transit.Nodup) (hmem : ∀ t ∈ transit, (k.timers.timer t).activated = true)
    (hactivated : ∀ t, (timers.timer t).activated = true ↔
      (k.timers.timer t).activated = true ∧ t ∉ transit)
    (htiming : ∃ c, Timers.Sim timers c ∧ (.timerCheck ∉ irq → ∀ t ∈ c.agenda, c.now ≤ c.deadline t))
    (hperiodic : ∀ t, (timers.timer t).periodic = false) :
    ({ k with timers := timers, irq := irq } : Kernel τ ς).Base transit := by
  refine h.withTimers hnodup (fun u hu => h.active u (hmem u hu)) ?_
    (fun u hu => h.active u ((hactivated u).1 hu).1) (fun u hu => absurd hu List.not_mem_nil) ?_ htiming
    hperiodic
  · intro u hu
    rw [← Bool.not_eq_true]
    exact fun hact => ((hactivated u).1 hact).2 hu
  · intro u hu hsleep
    have hact := (h.asleep u hu hsleep).resolve_left List.not_mem_nil
    by_cases hut : u ∈ transit
    · exact Or.inl hut
    · exact Or.inr ((hactivated u).2 ⟨hact, hut⟩)

/-! ## The scheduler -/

/-- A switch leaves the suspended threads suspended. -/
theorem Switch.suspend_iff {next : τ} (h : Switch k k' next) (hready : (k.thread next).stat = .ready) :
    (k'.thread t).stat = .suspend ↔ (k.thread t).stat = .suspend := by
  by_cases hn : t = next
  · rw [hn, h.stat_next, hready]
    decide
  · by_cases hc : t = k.rt_current_thread
    · rw [hc, h.stat_from]
      split_ifs with hrunning
      · rw [hrunning]
        decide
      · rfl
    · rw [h.stat_other t hn hc]

theorem Base.scheduled (h : k.Base transit) : Scheduled k k.rtSchedule :=
  rtSchedule_scheduled h.queues h.waiters (fun _ _ hs => hs.1) h.current

theorem Base.switch (h : k.Base transit) {next : τ} (hlock : k.rt_scheduler_lock_nest = 0)
    (hready : (k.thread next).stat = .ready) (hs : Switch k k' next) : k'.Base transit := by
  have hsuspend : ∀ t, (k'.thread t).stat = .suspend ↔ (k.thread t).stat = .suspend := fun t =>
    hs.suspend_iff hready
  have hcall : ∀ t c, k'.InCall t c ↔ k.InCall t c := by
    intro t c
    unfold InCall
    rw [hs.pc]
  constructor
  case queues => exact hs.queues
  case waiters =>
    refine h.waiters.congr (fun s => by rw [hs.sem]) ?_
    intro s t
    rw [hsuspend, hcall]
  case running =>
    intro t ht
    rw [hs.current]
    by_contra hn
    by_cases hc : t = k.rt_current_thread
    · rw [hc, hs.stat_from] at ht
      split_ifs at ht with hrunning
      exact hrunning ht
    · rw [hs.stat_other t hn hc] at ht
      exact hc (h.running t ht)
  case current =>
    rw [hs.current, hs.stat_next]
    decide
  case started =>
    rw [hs.current, hs.stat_next]
    decide
  case suspended => simpa only [hsuspend, hcall] using h.suspended
  case active => simpa only [hsuspend, hs.timers] using h.active
  case asleep => simpa only [hsuspend, hcall, hs.timers] using h.asleep
  case transit_suspend => simpa only [hsuspend] using h.transit_suspend
  case transit_inactive => simpa only [hs.timers] using h.transit_inactive
  case transit_nodup => exact h.transit_nodup
  case value => simpa only [hs.sem] using h.value
  case idle =>
    rw [hs.idle]
    by_cases hn : k.idle = next
    · rw [hn]
      exact Or.inr hs.stat_next
    · by_cases hc : k.idle = k.rt_current_thread
      · rw [hc, hs.stat_from]
        split_ifs with hrunning
        · exact Or.inl rfl
        · rw [← hc]
          exact h.idle
      · rw [hs.stat_other _ hn hc]
        exact h.idle
  case lock =>
    intro hne
    rw [hs.lock] at hne
    exact absurd hlock hne
  case timing => simpa only [hs.timers, hs.irq] using h.timing
  case one_shot => simpa only [hs.timers] using h.one_shot
  case fresh =>
    intro t ht
    rw [hs.pc]
    refine h.fresh t ?_
    have hn : t ≠ next := by
      rintro rfl
      rw [hs.stat_next] at ht
      cases ht
    by_cases hc : t = k.rt_current_thread
    · rw [hc, hs.stat_from] at ht
      split_ifs at ht
      rw [hc]
      exact ht
    · rw [← hs.stat_other t hn hc]
      exact ht

theorem Base.rtSchedule (h : k.Base transit) : k.rtSchedule.Base transit := by
  cases h.scheduled with
  | locked hlock he =>
    rw [he]
    exact h
  | alone hlock hnone he =>
    rw [he]
    exact h
  | keep hlock hrunning hhighest he =>
    rw [he]
    exact h.modifyThread rfl rfl
  | switch next hlock hready hhighest hle hs => exact h.switch hlock hready hs

theorem Base.rtSchedule_frame (h : k.Base transit) : Frame k k.rtSchedule := by
  cases h.scheduled with
  | locked hlock he =>
    rw [he]
    exact Frame.refl
  | alone hlock hnone he =>
    rw [he]
    exact Frame.refl
  | keep hlock hrunning hhighest he =>
    rw [he]
    exact frame_modifyThread rfl rfl
  | switch next hlock hready hhighest hle hs => exact hs.toFrame

/-- After `rt_schedule`, unless the scheduler is locked, the current thread runs and no ready thread has a
higher priority. -/
theorem Base.rtSchedule_highest (h : k.Base transit) (hlock : k.rt_scheduler_lock_nest = 0) :
    (k.rtSchedule.thread k.rtSchedule.rt_current_thread).stat = .running ∧
      k.rtSchedule.Highest k.rtSchedule.rt_current_thread := by
  cases h.scheduled with
  | locked hne he => exact absurd hlock hne
  | alone _ hnone he =>
    -- the idle thread is not ready, so it runs
    have hidle := h.idle.resolve_left (hnone _)
    rw [he, ← h.running _ hidle]
    exact ⟨hidle, fun u hu => absurd hu (hnone u)⟩
  | keep _ hrunning hhighest he =>
    rw [he]
    have hstat : ∀ t, ((k.modifyThread k.rt_current_thread fun thread =>
        { thread with yield := false }).thread t).stat = (k.thread t).stat := fun t =>
      modifyThread_same RtThread.stat rfl
    have hpriority : ∀ t, ((k.modifyThread k.rt_current_thread fun thread =>
        { thread with yield := false }).thread t).current_priority = (k.thread t).current_priority :=
      fun t => modifyThread_same RtThread.current_priority rfl
    refine ⟨(hstat _).trans hrunning, ?_⟩
    intro u hu
    rw [hpriority, hpriority]
    rw [hstat] at hu
    exact hhighest u hu
  | switch next _ hready hhighest hle hs =>
    rw [hs.current]
    refine ⟨hs.stat_next, ?_⟩
    intro u hu
    rw [hs.priority, hs.priority]
    by_cases hn : u = next
    · rw [hn]
    · by_cases hc : u = k.rt_current_thread
      · rw [hc, hs.stat_from] at hu
        split_ifs at hu with hrunning
        · rw [hc]
          exact hle hrunning
        · exact absurd hu h.current
      · rw [hs.stat_other u hn hc] at hu
        exact hhighest u hu

/-! ## Resuming a thread -/

theorem Queues.listRemove_of_not {R : τ → Prop} (h : k.Queues R) (ht : ¬ R t) :
    (k.listRemove t).Queues R := by
  have htable : (k.listRemove t).rt_thread_priority_table = k.rt_thread_priority_table := by
    funext p
    exact List.erase_of_not_mem fun hmem => ht ((h.mem p t).1 hmem).1
  exact h.congr htable rfl (fun _ => rfl) fun _ => Iff.rfl

/-- A suspended thread is put in its queue, or goes on at once if it is still the current thread. -/
theorem Queues.wake (h : k.Queues fun t => (k.thread t).stat = .ready)
    (hsuspend : (k.thread t).stat = .suspend) :
    (k.rtScheduleInsertThread t).Queues fun u =>
      ((k.rtScheduleInsertThread t).thread u).stat = .ready := by
  have hready : (k.thread t).stat ≠ .ready := hsuspend ▸ nofun
  by_cases hc : t = k.rt_current_thread
  · rw [insert_current hc]
    refine h.congr rfl rfl (fun _ => modifyThread_same RtThread.current_priority rfl) ?_
    intro u
    by_cases hu : u = t
    · rw [hu, modifyThread_self]
      exact iff_of_false nofun hready
    · rw [modifyThread_of_ne hu]
  · refine (h.insert hc hready).congr rfl rfl (fun _ => rfl) ?_
    intro u
    by_cases hu : u = t
    · simp [hu, insert_stat_self, hc]
    · simp [insert_of_ne_self hu, hu]

omit [DecidableEq τ] in
theorem InCall.congr {c : Call ς} (hpc : k'.pc = k.pc) : k'.InCall t c ↔ k.InCall t c := by
  unfold InCall
  rw [hpc]

/-- The first thread in transit is taken off its list and put in its queue, or goes on at once if it is
still the current thread. -/
theorem Base.wake (h : k.Base (t :: transit)) :
    ((k.listRemove t).rtScheduleInsertThread t).Base transit := by
  have hsuspend := h.transit_suspend t List.mem_cons_self
  have hinactive := h.transit_inactive t List.mem_cons_self
  obtain ⟨htransit, hnodup⟩ := List.nodup_cons.1 h.transit_nodup
  set k₁ := k.listRemove t with hk₁
  have hframe : Frame k₁ (k₁.rtScheduleInsertThread t) := frame_insert
  have hcur : (k₁.rtScheduleInsertThread t).rt_current_thread = k.rt_current_thread :=
    insert_rt_current_thread
  have hself : ((k₁.rtScheduleInsertThread t).thread t).stat =
      if t = k.rt_current_thread then .running else .ready := insert_stat_self
  have hother : ∀ u, u ≠ t → (k₁.rtScheduleInsertThread t).thread u = k.thread u := fun u hu =>
    insert_of_ne_self hu
  have hiff : ∀ u, ((k₁.rtScheduleInsertThread t).thread u).stat = .suspend ↔
      (k.thread u).stat = .suspend ∧ u ≠ t := by
    intro u
    by_cases hu : u = t
    · rw [hu]
      exact iff_of_false insert_ne_suspend fun h => h.2 rfl
    · rw [hother u hu]
      exact (and_iff_left hu).symm
  have hcall : ∀ u c, (k₁.rtScheduleInsertThread t).InCall u c ↔ k.InCall u c := fun u c =>
    InCall.congr hframe.pc
  have hqueues : k₁.Queues fun t => (k.thread t).stat = .ready :=
    h.queues.listRemove_of_not (by rw [hsuspend]; decide)
  constructor
  case queues => exact hqueues.wake (k := k₁) hsuspend
  case waiters =>
    refine (h.waiters.listRemove t).congr (fun s => by rw [hframe.sem]) ?_
    intro s u
    rw [hiff, hcall]
    tauto
  case running =>
    intro u hu
    rw [hcur]
    by_cases hut : u = t
    · rw [hut, hself] at hu
      by_contra hc
      rw [if_neg (by rwa [← hut])] at hu
      cases hu
    · rw [hother u hut] at hu
      exact h.running u hu
  case current =>
    rw [hcur]
    by_cases hc : k.rt_current_thread = t
    · rw [hc, hself, if_pos hc.symm]
      decide
    · rw [hother _ hc]
      exact h.current
  case started =>
    rw [hcur]
    by_cases hc : k.rt_current_thread = t
    · rw [hc, hself, if_pos hc.symm]
      decide
    · rw [hother _ hc]
      exact h.started
  case suspended =>
    intro u hu
    obtain ⟨hu, hut⟩ := (hiff u).1 hu
    simp only [hcall]
    exact (h.suspended u hu).imp_left fun hmem => (List.mem_cons.1 hmem).resolve_left hut
  case active =>
    intro u hu
    rw [hframe.timers] at hu
    refine (hiff u).2 ⟨h.active u hu, ?_⟩
    rintro rfl
    have hoff : (k₁.timers.timer u).activated = false := hinactive
    rw [hoff] at hu
    cases hu
  case asleep =>
    intro u hu hsleep
    obtain ⟨hu, hut⟩ := (hiff u).1 hu
    rw [hframe.timers]
    exact (h.asleep u hu ((hcall u _).1 hsleep)).imp_left fun hmem =>
      (List.mem_cons.1 hmem).resolve_left hut
  case transit_suspend =>
    intro u hu
    exact (hiff u).2 ⟨h.transit_suspend u (List.mem_cons_of_mem t hu), ne_of_mem_of_not_mem hu htransit⟩
  case transit_inactive =>
    intro u hu
    rw [hframe.timers]
    exact h.transit_inactive u (List.mem_cons_of_mem t hu)
  case transit_nodup => exact hnodup
  case value =>
    intro s hs
    rw [hframe.sem] at hs ⊢
    show (k.sem s).suspend_thread.erase t = []
    rw [h.value s hs]
    rfl
  case idle =>
    rw [hframe.idle]
    by_cases hi : k.idle = t
    · have := h.idle
      rw [hi, hsuspend] at this
      simp at this
    · show ((k₁.rtScheduleInsertThread t).thread k.idle).stat = .ready ∨
        ((k₁.rtScheduleInsertThread t).thread k.idle).stat = .running
      rw [hother _ hi]
      exact h.idle
  case lock =>
    intro hne
    rw [hframe.lock] at hne
    rw [hcur]
    by_cases hc : k.rt_current_thread = t
    · rw [hc, hself, if_pos hc.symm]
    · rw [hother _ hc]
      exact h.lock hne
  case timing =>
    rw [hframe.timers, hframe.irq]
    exact h.timing
  case one_shot =>
    rw [hframe.timers]
    exact h.one_shot
  case fresh =>
    intro u hu
    rw [hframe.pc]
    refine h.fresh u ?_
    by_cases hut : u = t
    · rw [hut, hself] at hu
      split_ifs at hu
    · rw [hother u hut] at hu
      exact hu

theorem Base.stopTimer (h : k.Base transit) (hsuspend : (k.thread t).stat = .suspend)
    (ht : t ∉ transit) :
    ({ k with timers := (k.timers.rtTimerStop t).1 } : Kernel τ ς).Base (t :: transit) := by
  have hmem : ∀ u ∈ transit, u ∈ t :: transit := fun _ => List.mem_cons_of_mem t
  refine h.withTimers (List.nodup_cons.2 ⟨ht, h.transit_nodup⟩) ?_ ?_ ?_
    (fun u hu => Or.inl (hmem u hu)) ?_ ?_ ?_
  · intro u hu
    rcases List.mem_cons.1 hu with rfl | hu
    · exact hsuspend
    · exact h.transit_suspend u hu
  · intro u hu
    by_cases hut : u = t
    · rw [hut]
      exact Timers.rtTimerStop_self
    · rw [Timers.rtTimerStop_of_ne hut]
      exact h.transit_inactive u ((List.mem_cons.1 hu).resolve_left hut)
  · intro u hu
    by_cases hut : u = t
    · rw [hut]
      exact hsuspend
    · rw [Timers.rtTimerStop_of_ne hut] at hu
      exact h.active u hu
  · intro u hu hsleep
    by_cases hut : u = t
    · exact Or.inl (hut ▸ List.mem_cons_self)
    · rw [Timers.rtTimerStop_of_ne hut]
      exact (h.asleep u hu hsleep).imp_left (hmem u)
  · obtain ⟨c, hsim, hearly⟩ := h.timing
    refine ⟨c.disarm t, hsim.rtTimerStop t, ?_⟩
    intro hno u hu
    exact hearly hno u ((Alarm.Clock.mem_disarm hsim.sound).1 hu).2
  · intro u
    rw [Timers.rtTimerStop_same RtTimer.periodic fun _ => rfl]
    exact h.one_shot u

theorem Base.rtThreadResume (h : k.Base transit) (hsuspend : (k.thread t).stat = .suspend)
    (ht : t ∉ transit) : (k.rtThreadResume t).Base transit := by
  have hwake := (h.stopTimer hsuspend ht).wake
  rw [Kernel.rtThreadResume, if_neg (not_not.2 hsuspend)]
  exact hwake

/-! ## Suspending a thread -/

omit [DecidableEq τ] in
theorem not_inCall (hpc : k.pc t = .user) (c : Call ς) : ¬ k.InCall t c := by
  rintro (hc | hc)
  · rw [hpc] at hc
    cases hc
  · rw [hpc] at hc
    cases hc

omit [DecidableEq τ] in
/-- A thread is in one call. -/
theorem InCall.unique {c c' : Call ς} (h : k.InCall t c) (h' : k.InCall t c') : c = c' := by
  rcases h with h | h <;> rcases h' with h' | h' <;> rw [h] at h' <;> cases h' <;> rfl

omit [DecidableEq τ] in
/-- The first thread on a semaphore's list is on no other one. -/
theorem Base.head_not_mem (h : k.Base transit) {s s' : ς} {l : List τ}
    (hlist : (k.sem s).suspend_thread = t :: l) (hs : s' ≠ s) : t ∉ (k.sem s').suspend_thread := by
  intro hmem
  cases ((h.waiters.mem s' t).1 hmem).2.unique (h.head_waits hlist).2
  exact hs rfl

/-- A thread in its own code whose timer is off is marked as suspended or as closed. -/
theorem Base.setAside (h : k.Base []) {f : RtThread → RtThread}
    (hready : (f (k.thread t)).stat ≠ .ready) (hinit : (f (k.thread t)).stat ≠ .init)
    (hrunning : (f (k.thread t)).stat ≠ .running)
    (htransit : ∀ u, u ∈ transit ↔ u = t ∧ (f (k.thread t)).stat = .suspend) (hnodup : transit.Nodup)
    (hpriority : (f (k.thread t)).current_priority = (k.thread t).current_priority)
    (hout : (k.thread t).stat ≠ .ready) (hpc : k.pc t = .user)
    (hinactive : (k.timers.timer t).activated = false) (hidle : t ≠ k.idle)
    (hlock : t = k.rt_current_thread → k.rt_scheduler_lock_nest = 0) :
    (k.modifyThread t f).Base transit := by
  set k₁ := k.modifyThread t f with hk₁
  have hself : k₁.thread t = f (k.thread t) := modifyThread_self
  have hother : ∀ u, u ≠ t → k₁.thread u = k.thread u := fun u hu => modifyThread_of_ne hu
  have huser : ∀ c, ¬ k₁.InCall t c := not_inCall (k := k₁) hpc
  constructor
  case queues =>
    refine h.queues.congr rfl rfl (fun _ => modifyThread_same RtThread.current_priority hpriority) ?_
    intro u
    by_cases hu : u = t
    · rw [hu, hself]
      exact iff_of_false hready hout
    · rw [hother u hu]
  case waiters =>
    refine h.waiters.congr (fun _ => rfl) ?_
    intro s u
    by_cases hu : u = t
    · rw [hu]
      exact iff_of_false (fun hs => huser _ hs.2) (fun hs => huser _ hs.2)
    · rw [hother u hu]
      rfl
  case running =>
    intro u hu
    by_cases hut : u = t
    · rw [hut, hself] at hu
      exact absurd hu hrunning
    · rw [hother u hut] at hu
      exact h.running u hu
  case current =>
    show (k₁.thread k.rt_current_thread).stat ≠ .ready
    by_cases hc : k.rt_current_thread = t
    · rw [hc, hself]
      exact hready
    · rw [hother _ hc]
      exact h.current
  case started =>
    show (k₁.thread k.rt_current_thread).stat ≠ .init
    by_cases hc : k.rt_current_thread = t
    · rw [hc, hself]
      exact hinit
    · rw [hother _ hc]
      exact h.started
  case suspended =>
    intro u hu
    by_cases hut : u = t
    · rw [hut, hself] at hu
      exact Or.inl ((htransit u).2 ⟨hut, hu⟩)
    · rw [hother u hut] at hu
      exact Or.inr ((h.suspended u hu).resolve_left List.not_mem_nil)
  case active =>
    intro u hu
    have hu : (k.timers.timer u).activated = true := hu
    by_cases hut : u = t
    · rw [hut, hinactive] at hu
      cases hu
    · rw [hother u hut]
      exact h.active u hu
  case asleep =>
    intro u hu hsleep
    by_cases hut : u = t
    · exact absurd (hut ▸ hsleep) (huser _)
    · rw [hother u hut] at hu
      exact Or.inr ((h.asleep u hu hsleep).resolve_left List.not_mem_nil)
  case transit_suspend =>
    intro u hu
    obtain ⟨hut, hsuspend⟩ := (htransit u).1 hu
    rw [hut, hself]
    exact hsuspend
  case transit_inactive =>
    intro u hu
    rw [((htransit u).1 hu).1]
    exact hinactive
  case transit_nodup => exact hnodup
  case value => exact h.value
  case idle =>
    show (k₁.thread k.idle).stat = .ready ∨ (k₁.thread k.idle).stat = .running
    rw [hother _ hidle.symm]
    exact h.idle
  case lock =>
    intro hne
    show (k₁.thread k.rt_current_thread).stat = .running
    rw [hother _ fun e => hne (hlock e.symm)]
    exact h.lock hne
  case timing => exact h.timing
  case one_shot => exact h.one_shot
  case fresh =>
    intro u hu
    by_cases hut : u = t
    · rw [hut, hself] at hu
      exact absurd hu hinit
    · rw [hother u hut] at hu
      exact h.fresh u hu

/-- A thread in its own code whose timer is off is marked as suspended. -/
theorem Base.toTransit (h : k.Base []) {f : RtThread → RtThread}
    (hstat : (f (k.thread t)).stat = .suspend)
    (hpriority : (f (k.thread t)).current_priority = (k.thread t).current_priority)
    (hready : (k.thread t).stat ≠ .ready) (hpc : k.pc t = .user)
    (hinactive : (k.timers.timer t).activated = false) (hidle : t ≠ k.idle)
    (hlock : t = k.rt_current_thread → k.rt_scheduler_lock_nest = 0) :
    (k.modifyThread t f).Base [t] :=
  h.setAside (hstat ▸ nofun) (hstat ▸ nofun) (hstat ▸ nofun) (fun _ => by simp [hstat])
    (List.nodup_singleton t) hpriority hready hpc hinactive hidle hlock

section
variable (h : k.Base []) (hrunning : (k.thread k.rt_current_thread).stat = .running)
include h hrunning

/-- The current thread is on no list. -/
theorem Base.remove_current : k.rtScheduleRemoveThread k.rt_current_thread = k := by
  refine remove_of_not h.queues h.waiters h.current ?_
  rintro s ⟨hs, -⟩
  rw [hrunning] at hs
  cases hs

omit [DecidableEq τ] in
theorem Base.inactive_current : (k.timers.timer k.rt_current_thread).activated = false :=
  h.inactive (hrunning ▸ nofun)

theorem Base.rtThreadSuspend_eq : k.rtThreadSuspend k.rt_current_thread =
    k.modifyThread k.rt_current_thread fun thread => { thread with stat := .suspend } := by
  rw [rtThreadSuspend, if_neg (by simp [hrunning]), h.remove_current hrunning]
  dsimp only
  have htimers : (k.timers.rtTimerStop k.rt_current_thread).1 = k.timers := by
    rw [Timers.rtTimerStop, if_neg (by simp [h.inactive_current hrunning])]
  show ({ k.modifyThread k.rt_current_thread _ with
    timers := (k.timers.rtTimerStop k.rt_current_thread).1 } : Kernel τ ς) = _
  rw [htimers]
  rfl

end

theorem inCall_setPc_self {c c' : Call ς} : (k.setPc t (.schedule c)).InCall t c' ↔ c' = c := by
  unfold InCall setPc
  simp [eq_comm]

theorem inCall_setPc_of_ne {pc : Pc ς} {c : Call ς} (hu : u ≠ t) :
    (k.setPc t pc).InCall u c ↔ k.InCall u c := by
  unfold InCall setPc
  simp [hu]

theorem fresh_setPc {pc : Pc ς} (h : k.Base transit)
    (hsuspend : (k.thread t).stat = .suspend) :
    ∀ u, (k.thread u).stat = .init → (k.setPc t pc).pc u = .user := by
  intro u hu
  have hut : u ≠ t := by
    rintro rfl
    rw [hsuspend] at hu
    cases hu
  exact (Function.update_of_ne hut ..).trans (h.fresh u hu)

/-- The thread that has suspended itself is in the call in which it waits: on the list of the semaphore,
or in transit until its timer is started. -/
theorem Base.enterCall (h : k.Base [t]) {sem : ς → RtSem τ} {c : Call ς}
    (hcall : (∃ s, c = .take s) ∧ transit = [] ∨ c = .sleep ∧ transit = [t])
    (hwaiters : (({ k with sem := sem } : Kernel τ ς).setPc t (.schedule c)).Waiters fun s u =>
      (k.thread u).stat = .suspend ∧
        (({ k with sem := sem } : Kernel τ ς).setPc t (.schedule c)).InCall u (.take s))
    (hvalue : ∀ s, 0 < (sem s).value → (sem s).suspend_thread = []) :
    ({ k with sem := sem }.setPc t (.schedule c)).Base transit := by
  have hsuspend := h.transit_suspend t (List.mem_singleton_self t)
  have hinactive := h.transit_inactive t (List.mem_singleton_self t)
  have hself : ∀ c', ({ k with sem := sem }.setPc t (.schedule c)).InCall t c' ↔ c' = c := fun c' =>
    inCall_setPc_self
  have hother : ∀ u c', u ≠ t →
      (({ k with sem := sem }.setPc t (.schedule c)).InCall u c' ↔ k.InCall u c') := fun u c' hu =>
    inCall_setPc_of_ne hu
  have hout : ∀ u, u ≠ t → u ∉ [t] := fun u hu hmem => hu (List.mem_singleton.1 hmem)
  have hin : ∀ u ∈ transit, u = t := by
    rcases hcall with ⟨-, rfl⟩ | ⟨-, rfl⟩ <;> simp
  constructor
  case queues => exact h.queues.congr rfl rfl (fun _ => rfl) fun _ => Iff.rfl
  case waiters => exact hwaiters
  case running => exact h.running
  case current => exact h.current
  case started => exact h.started
  case suspended =>
    intro u hu
    by_cases hut : u = t
    · simp only [hut, hself]
      rcases hcall with ⟨⟨s, rfl⟩, -⟩ | ⟨rfl, rfl⟩
      · exact Or.inr (Or.inl ⟨s, rfl⟩)
      · exact Or.inl (List.mem_singleton_self t)
    · simp only [hother u _ hut]
      exact Or.inr ((h.suspended u hu).resolve_left (hout u hut))
  case active => exact h.active
  case asleep =>
    intro u hu hsleep
    by_cases hut : u = t
    · rw [hut, hself] at hsleep
      rcases hcall with ⟨⟨s, rfl⟩, -⟩ | ⟨-, rfl⟩
      · cases hsleep
      · exact Or.inl (hut ▸ List.mem_singleton_self t)
    · exact Or.inr ((h.asleep u hu ((hother u _ hut).1 hsleep)).resolve_left (hout u hut))
  case transit_suspend => exact fun u hu => hin u hu ▸ hsuspend
  case transit_inactive => exact fun u hu => hin u hu ▸ hinactive
  case transit_nodup =>
    rcases hcall with ⟨-, rfl⟩ | ⟨-, rfl⟩
    · exact List.nodup_nil
    · exact List.nodup_singleton t
  case value => exact hvalue
  case idle => exact h.idle
  case lock => exact h.lock
  case timing => exact h.timing
  case one_shot => exact h.one_shot
  case fresh => exact fresh_setPc h hsuspend

/-- The thread that has suspended itself goes on a semaphore's list. -/
theorem Base.enqueue [DecidableEq ς] (h : k.Base [t]) (hpc : k.pc t = .user) {s : ς} {l : List τ}
    (hvalue : ¬ 0 < (k.sem s).value) (hl : l.Perm (t :: (k.sem s).suspend_thread)) :
    ({ k with sem := Function.update k.sem s { k.sem s with suspend_thread := l } }.setPc t
      (.schedule (.take s))).Base [] := by
  set sem := Function.update k.sem s { k.sem s with suspend_thread := l } with hsem
  have hsuspend := h.transit_suspend t (List.mem_singleton_self t)
  have hself : sem s = { k.sem s with suspend_thread := l } := Function.update_self ..
  have hother : ∀ s', s' ≠ s → sem s' = k.sem s' := fun s' hs' => Function.update_of_ne hs' ..
  refine h.enterCall (Or.inl ⟨⟨s, rfl⟩, rfl⟩) ⟨?_, ?_⟩ ?_
  · intro s' u
    show u ∈ (sem s').suspend_thread ↔ (k.thread u).stat = .suspend ∧ _
    by_cases hs' : s' = s
    · rw [hs', hself, hl.mem_iff, List.mem_cons, h.waiters.mem]
      by_cases hu : u = t
      · rw [hu, inCall_setPc_self]
        simp [hsuspend]
      · rw [inCall_setPc_of_ne hu, or_iff_right hu]
        rfl
    · rw [hother s' hs', h.waiters.mem]
      by_cases hu : u = t
      · rw [hu, inCall_setPc_self]
        refine and_congr_right fun _ => iff_of_false (not_inCall hpc _) ?_
        rintro ⟨⟩
        exact hs' rfl
      · rw [inCall_setPc_of_ne hu]
        rfl
  · intro s'
    show (sem s').suspend_thread.Nodup
    by_cases hs' : s' = s
    · rw [hs', hself, hl.nodup_iff, List.nodup_cons]
      refine ⟨fun hmem => ?_, h.waiters.nodup s⟩
      exact not_inCall hpc _ ((h.waiters.mem s t).1 hmem).2
    · rw [hother s' hs']
      exact h.waiters.nodup s'
  · intro s' hpos
    by_cases hs' : s' = s
    · rw [hs', hself] at hpos
      exact absurd hpos hvalue
    · rw [hother s' hs'] at hpos ⊢
      exact h.value s' hpos

/-- The thread that has suspended itself is in `rt_thread_sleep`. -/
theorem Base.enterSleep (h : k.Base [t]) (hpc : k.pc t = .user) :
    (k.setPc t (.schedule .sleep)).Base [t] := by
  refine h.enterCall (Or.inr ⟨rfl, rfl⟩) ?_ h.value
  refine h.waiters.congr (fun _ => rfl) ?_
  intro s u
  refine and_congr_right fun _ => ?_
  by_cases hu : u = t
  · rw [hu]
    exact iff_of_false (fun hs => nomatch inCall_setPc_self.1 hs) (not_inCall hpc _)
  · exact inCall_setPc_of_ne hu

/-- The timer of a suspended thread is started. -/
theorem Base.startTimer (h : k.Base transit) (hsuspend : (k.thread t).stat = .suspend)
    (hcall : (∃ s, k.InCall t (.take s)) ∨ k.InCall t .sleep) (hirq : .timerCheck ∉ k.irq)
    {time : RtTick} (htime : time < RT_TICK_MAX / 2) :
    (k.startTimer t time).Base (transit.erase t) := by
  set timers := k.timers.rtTimerControl t (.RT_TIMER_CTRL_SET_TIME time) with htimers
  have hother : ∀ u, u ≠ t → (timers.rtTimerStart t).timer u = k.timers.timer u := by
    intro u hu
    rw [Timers.rtTimerStart_of_ne hu, htimers, Timers.rtTimerControl, Timers.modify_of_ne hu]
  have hmem : ∀ u ∈ transit.erase t, u ∈ transit ∧ u ≠ t := fun u hu =>
    (h.transit_nodup.mem_erase_iff.1 hu).symm
  have hout : ∀ u, u ≠ t → u ∈ transit → u ∈ transit.erase t := fun u hu hmem =>
    h.transit_nodup.mem_erase_iff.2 ⟨hu, hmem⟩
  show ({ k with timers := timers.rtTimerStart t } : Kernel τ ς).Base (transit.erase t)
  refine h.withTimers (h.transit_nodup.erase t) (fun u hu => h.transit_suspend u (hmem u hu).1) ?_ ?_ ?_ ?_
    ?_ ?_
  · intro u hu
    rw [hother u (hmem u hu).2]
    exact h.transit_inactive u (hmem u hu).1
  · intro u hu
    by_cases hut : u = t
    · rw [hut]
      exact hsuspend
    · rw [hother u hut] at hu
      exact h.active u hu
  · intro u hu
    by_cases hut : u = t
    · exact Or.inr (hut ▸ hcall)
    · exact Or.inl (hout u hut hu)
  · intro u hu hsleep
    by_cases hut : u = t
    · rw [hut, Timers.rtTimerStart_self]
      exact Or.inr rfl
    · rw [hother u hut]
      exact (h.asleep u hu hsleep).imp_left (hout u hut)
  · obtain ⟨c, hsim, hearly⟩ := h.timing
    have hgood : Timers.Good k.timers c := ⟨hsim, hearly hirq⟩
    have hallowed : Timers.Allowed k.timers (.control t (.RT_TIMER_CTRL_SET_TIME time)) := by
      refine ⟨htime, fun hp => ?_⟩
      rw [h.one_shot t] at hp
      cases hp
    obtain ⟨hset, -⟩ := hgood.step hallowed
    obtain ⟨hstart, -⟩ := hset.step (b := .start t) trivial
    exact ⟨_, hstart.toSim, fun _ => hstart.early⟩
  · intro u
    rw [Timers.rtTimerStart_periodic, htimers, Timers.rtTimerControl,
      Timers.modify_same (f := fun timer => { timer with init_tick := time }) RtTimer.periodic rfl]
    exact h.one_shot u

/-! ## Further steps -/

/-- A thread that is not suspended goes on to another point of its code. -/
theorem Base.setPc_awake (h : k.Base transit) (hsuspend : (k.thread t).stat ≠ .suspend)
    (hinit : (k.thread t).stat ≠ .init) (pc : Pc ς) : (k.setPc t pc).Base transit := by
  refine h.congr (fun _ => rfl) (fun _ => rfl) rfl rfl rfl h.lock rfl rfl rfl ?_ ?_ id
  · intro u c hu
    refine inCall_setPc_of_ne ?_
    rintro rfl
    exact hsuspend hu
  · intro u hu
    refine Function.update_of_ne ?_ ..
    rintro rfl
    exact hinit hu

/-- A call that leaves the current thread running, and comes to `rt_schedule` or back from it. -/
theorem Base.setPc_running (h : k.Base transit)
    (hrunning : (k.thread k.rt_current_thread).stat = .running) (pc : Pc ς) :
    (k.setPc k.rt_current_thread pc).Base transit :=
  h.setPc_awake (hrunning ▸ nofun) (hrunning ▸ nofun) pc

/-- `rt_schedule` is called. -/
theorem Base.setPc_back (h : k.Base transit) {c : Call ς}
    (hpc : k.pc k.rt_current_thread = .schedule c) :
    (k.setPc k.rt_current_thread (.back c)).Base transit := by
  refine h.congr (fun _ => rfl) (fun _ => rfl) rfl rfl rfl h.lock rfl rfl rfl ?_ ?_ id
  · intro u c' _
    by_cases hu : u = k.rt_current_thread
    · unfold InCall setPc
      simp [hu, hpc]
    · exact inCall_setPc_of_ne hu
  · intro u hu
    refine Function.update_of_ne ?_ ..
    rintro rfl
    exact h.started hu

/-- A new thread is marked as suspended for a moment. -/
theorem Base.transit_startup (h : k.Base []) (hinit : (k.thread t).stat = .init) :
    (k.modifyThread t fun thread => { thread with stat := .suspend, yield := false }).Base [t] := by
  have hinactive : (k.timers.timer t).activated = false := h.inactive (hinit ▸ nofun)
  have hidle : t ≠ k.idle := by
    rintro rfl
    have := h.idle
    rw [hinit] at this
    simp at this
  exact h.toTransit rfl rfl (hinit ▸ nofun) (h.fresh t hinit) hinactive hidle
    fun e => absurd (e ▸ hinit) h.started

/-- It is then put in its queue. -/
theorem Base.rtThreadStartup_eq (h : k.Base []) (hinit : (k.thread t).stat = .init) :
    k.rtThreadStartup t =
      ((k.modifyThread t fun thread => { thread with stat := .suspend, yield := false }).listRemove t
        ).rtScheduleInsertThread t := by
  have hbase := h.transit_startup hinit
  have hsuspend := hbase.transit_suspend t (List.mem_singleton_self t)
  have hinactive := hbase.transit_inactive t (List.mem_singleton_self t)
  set k₁ := k.modifyThread t fun thread => { thread with stat := .suspend, yield := false } with hk₁
  have htimers : (k₁.timers.rtTimerStop t).1 = k₁.timers := by
    rw [Timers.rtTimerStop, if_neg (by simp [hinactive])]
  rw [Kernel.rtThreadStartup, ← hk₁, Kernel.rtThreadResume, if_neg (not_not.2 hsuspend)]
  show (({ k₁.listRemove t with timers := (k₁.timers.rtTimerStop t).1 } : Kernel τ ς
    ).rtScheduleInsertThread t) = _
  rw [htimers]
  rfl

theorem Base.rtThreadStartup (h : k.Base []) (hinit : (k.thread t).stat = .init) :
    (k.rtThreadStartup t).Base [] := by
  rw [h.rtThreadStartup_eq hinit]
  exact (h.transit_startup hinit).wake

theorem Base.threadExit_eq (h : k.Base []) (hrunning : (k.thread k.rt_current_thread).stat = .running) :
    k.threadExit = ({ k with timers := k.timers.rtTimerDetach k.rt_current_thread }
      ).modifyThread k.rt_current_thread fun thread => { thread with stat := .close, yield := false } := by
  rw [Kernel.threadExit, h.remove_current hrunning]

theorem Base.threadExit (h : k.Base []) (hrunning : (k.thread k.rt_current_thread).stat = .running)
    (hpc : k.pc k.rt_current_thread = .user) (hidle : k.rt_current_thread ≠ k.idle)
    (hlock : k.rt_scheduler_lock_nest = 0) :
    (k.threadExit.setPc k.rt_current_thread (.schedule .exit)).Base [] := by
  rw [h.threadExit_eq hrunning]
  set t := k.rt_current_thread with htdef
  set k₁ : Kernel τ ς := { k with timers := k.timers.rtTimerDetach t } with hk₁
  set k₂ := (k₁.modifyThread t fun thread => { thread with stat := .close, yield := false }) with hk₂
  have hactivated : ∀ u, ((k.timers.rtTimerDetach t).timer u).activated =
      (k.timers.timer u).activated := by
    intro u
    by_cases hu : u = t
    · rw [hu, Timers.rtTimerDetach, Timers.modify_self, h.inactive_current hrunning]
    · rw [Timers.rtTimerDetach, Timers.modify_of_ne hu]
      rfl
  have hdetach : k₁.Base [] := by
    refine h.setTimers List.nodup_nil (by simp) (by simp [hactivated]) ?_ ?_
    · obtain ⟨c, hsim, hearly⟩ := h.timing
      refine ⟨c.disarm t, hsim.stop t, ?_⟩
      intro hno u hu
      exact hearly hno u ((Alarm.Clock.mem_disarm hsim.sound).1 hu).2
    · intro u
      refine (Timers.modify_same (s := k.timers.remove t)
        (f := fun timer => { timer with activated := false }) RtTimer.periodic rfl u).trans ?_
      exact h.one_shot u
  have hclose : k₂.Base [] := hdetach.setAside nofun nofun nofun (by simp) List.nodup_nil rfl h.current hpc
    ((hactivated t).trans (h.inactive_current hrunning)) hidle fun _ => hlock
  have hstat : (k₂.thread t).stat = .close := by rw [hk₂, modifyThread_self]
  exact hclose.setPc_awake (hstat ▸ nofun) (hstat ▸ nofun) (.schedule .exit)

omit [DecidableEq τ] in
theorem Base.setValue [DecidableEq ς] (h : k.Base transit) {s : ς} {v : ℕ}
    (hv : 0 < v → (k.sem s).suspend_thread = []) :
    ({ k with sem := Function.update k.sem s { k.sem s with value := v } } : Kernel τ ς).Base
      transit := by
  have hlist : ∀ s', (Function.update k.sem s { k.sem s with value := v } s').suspend_thread =
      (k.sem s').suspend_thread := by
    intro s'
    by_cases hs' : s' = s
    · rw [hs', Function.update_self]
    · rw [Function.update_of_ne hs']
  constructor
  case queues => exact h.queues.congr rfl rfl (fun _ => rfl) fun _ => Iff.rfl
  case waiters => exact h.waiters.congr hlist fun _ _ => Iff.rfl
  case running => exact h.running
  case current => exact h.current
  case started => exact h.started
  case suspended => exact h.suspended
  case active => exact h.active
  case asleep => exact h.asleep
  case transit_suspend => exact h.transit_suspend
  case transit_inactive => exact h.transit_inactive
  case transit_nodup => exact h.transit_nodup
  case value =>
    intro s' hpos
    refine (hlist s').trans ?_
    by_cases hs' : s' = s
    · subst hs'
      refine hv ?_
      simpa using hpos
    · refine h.value s' ?_
      simpa [hs'] using hpos
  case idle => exact h.idle
  case lock => exact h.lock
  case timing => exact h.timing
  case one_shot => exact h.one_shot
  case fresh => exact h.fresh

/-! ## The tick -/

theorem Base.rtTickIncrease (h : k.Base []) (hirq : .timerCheck ∉ k.irq) :
    k.rtTickIncrease.Base [] := by
  obtain ⟨c, hsim, hearly⟩ := h.timing
  have hgood : Timers.Good k.timers c := ⟨hsim, hearly hirq⟩
  have hadvance : ({ k with timers := k.timers.advance, irq := .timerCheck :: k.irq } : Kernel τ ς
      ).Base [] := by
    refine h.setTimers List.nodup_nil (by simp) (by simp [Timers.advance]) ?_ h.one_shot
    exact ⟨_, hgood.advance, fun hno => absurd List.mem_cons_self hno⟩
  have hslice := hadvance.modifyThread (t := k.rt_current_thread)
    (f := fun thread => { thread with remaining_tick := thread.remaining_tick - 1 }) rfl rfl
  unfold Kernel.rtTickIncrease
  dsimp only
  split_ifs with hover
  · have hreload := hslice.modifyThread (t := k.rt_current_thread)
      (f := fun thread => { thread with remaining_tick := thread.init_tick, yield := true }) rfl rfl
    refine hreload.congr (fun _ => rfl) (fun _ => rfl) rfl rfl rfl hreload.lock rfl rfl rfl
      (fun _ _ _ => Iff.rfl) (fun _ _ => rfl) ?_
    exact fun hno hmem => hno (List.mem_cons_of_mem _ hmem)
  · exact hslice

/-! ## The calls of the current thread -/

omit [DecidableEq τ] in
theorem ipcListInsert_perm {l : List τ} {flag : IpcFlag} : (k.ipcListInsert t l flag).Perm (t :: l) := by
  cases flag with
  | fifo => exact List.perm_append_singleton _ _
  | prio => exact List.perm_orderedInsert _ _ _

section
variable [DecidableEq ς] (h : k.Base [])
variable (hrunning : (k.thread k.rt_current_thread).stat = .running)
variable (hpc : k.pc k.rt_current_thread = .user) (hblock : k.MayBlock)
include h hrunning hpc hblock

omit [DecidableEq ς] in
theorem Base.rtThreadSuspend : (k.rtThreadSuspend k.rt_current_thread).Base [k.rt_current_thread] := by
  rw [h.rtThreadSuspend_eq hrunning]
  exact h.toTransit rfl rfl h.current hpc (h.inactive_current hrunning) hblock.1 fun _ => hblock.2

/-- The current thread waits for the semaphore. -/
theorem Base.ipcListSuspend {s : ς} (hvalue : ¬ 0 < (k.sem s).value) :
    ((k.ipcListSuspend s k.rt_current_thread).setPc k.rt_current_thread (.schedule (.take s))).Base [] := by
  have htransit := h.rtThreadSuspend hrunning hpc hblock
  have hsame : (k.rtThreadSuspend k.rt_current_thread).sem = k.sem ∧
      (k.rtThreadSuspend k.rt_current_thread).pc = k.pc := by
    rw [h.rtThreadSuspend_eq hrunning]
    exact ⟨rfl, rfl⟩
  refine htransit.enqueue (by rw [hsame.2]; exact hpc) (by rw [hsame.1]; exact hvalue) ?_
  exact ipcListInsert_perm

omit [DecidableEq ς] in
theorem Base.rtThreadSleep {tick : RtTick} (hirq : k.irq = []) (htick : tick < RT_TICK_MAX / 2) :
    ((k.rtThreadSleep tick).setPc k.rt_current_thread (.schedule .sleep)).Base [] := by
  set t := k.rt_current_thread with ht
  set k₁ := k.modifyThread t fun thread => { thread with error := .RT_EOK } with hk₁
  have hbase₁ : k₁.Base [] := h.modifyThread rfl rfl
  have hrunning₁ : (k₁.thread t).stat = .running := by rw [hk₁, modifyThread_self, hrunning]
  have heq : k₁.rtThreadSuspend t = k₁.modifyThread t fun thread => { thread with stat := .suspend } :=
    hbase₁.rtThreadSuspend_eq hrunning₁
  have htransit : (k₁.rtThreadSuspend t).Base [t] := hbase₁.rtThreadSuspend hrunning₁ hpc hblock
  have hpc₂ : (k₁.rtThreadSuspend t).pc t = .user := by
    rw [heq]
    exact hpc
  have hirq₂ : .timerCheck ∉ (k₁.rtThreadSuspend t).irq := by
    rw [heq]
    show .timerCheck ∉ k.irq
    rw [hirq]
    exact List.not_mem_nil
  have hsleep := htransit.enterSleep hpc₂
  have hstart := hsleep.startTimer (htransit.transit_suspend t (List.mem_singleton_self t))
    (Or.inr (inCall_setPc_self.2 rfl)) hirq₂ htick
  rw [List.erase_cons_head] at hstart
  exact hstart

/-- The current thread waits for the semaphore, with or without a time limit. -/
theorem Base.rtSemTake {s : ς} {time : Int32} (hirq : k.irq = [])
    (hvalue : ¬ 0 < (k.sem s).value) (htime : time ≠ 0)
    (hlimit : 0 < time → time.toBitVec < RT_TICK_MAX / 2) :
    (((k.rtSemTake s time).1).setPc k.rt_current_thread (.schedule (.take s))).Base [] := by
  set t := k.rt_current_thread with ht
  set k₁ := k.modifyThread t fun thread => { thread with error := .RT_EOK } with hk₁
  have hbase₁ : k₁.Base [] := h.modifyThread rfl rfl
  have hrunning₁ : (k₁.thread t).stat = .running := by rw [hk₁, modifyThread_self, hrunning]
  have hwait : ((k₁.ipcListSuspend s t).setPc t (.schedule (.take s))).Base [] :=
    hbase₁.ipcListSuspend hrunning₁ hpc hblock hvalue
  have heq : k₁.rtThreadSuspend t = k₁.modifyThread t fun thread => { thread with stat := .suspend } :=
    hbase₁.rtThreadSuspend_eq hrunning₁
  have htake : (k.rtSemTake s time).1 = if 0 < time then (k₁.ipcListSuspend s t).startTimer t time.toBitVec
      else k₁.ipcListSuspend s t := by
    rw [Kernel.rtSemTake]
    simp only [if_neg hvalue, if_neg htime]
    rfl
  rw [htake]
  split_ifs with hpos
  · have hsuspend : ((k₁.ipcListSuspend s t).thread t).stat = .suspend := by
      show ((k₁.rtThreadSuspend t).thread t).stat = .suspend
      rw [heq, modifyThread_self]
    have hirq₂ : .timerCheck ∉ (k₁.ipcListSuspend s t).irq := by
      show .timerCheck ∉ (k₁.rtThreadSuspend t).irq
      rw [heq]
      show .timerCheck ∉ k.irq
      rw [hirq]
      exact List.not_mem_nil
    exact hwait.startTimer hsuspend (Or.inl ⟨s, inCall_setPc_self.2 rfl⟩) hirq₂ (hlimit hpos)
  · exact hwait

end

end Kernel

end Tdps
