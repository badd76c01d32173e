import Tdps.Proofs.SemaphoreProofs

/-!
# Waiting with a time limit

A thread that sleeps, or waits for a semaphore with a time limit, is resumed by the timer check of the
tick at which its time is over, not one earlier or later (`sleep_exact`, `take_in_time`), whatever the
other threads and the interrupt handlers do and wherever the tick count wraps around.
-/

namespace Tdps

open Machine Serial

namespace Kernel

variable {τ ς : Type} [DecidableEq τ] {k k' : Kernel τ ς} {t u : τ}

/-! ## The tick count -/

/-- The tick count and the timer checks to come are as they were. -/
structure Still (k k' : Kernel τ ς) : Prop where
  rt_tick : k'.timers.rt_tick = k.timers.rt_tick
  checks : k'.irq.count .timerCheck = k.irq.count .timerCheck

omit [DecidableEq τ] in
theorem Still.trans {k'' : Kernel τ ς} (h : Still k k') (h' : Still k' k'') : Still k k'' :=
  ⟨h'.rt_tick.trans h.rt_tick, h'.checks.trans h.checks⟩

omit [DecidableEq τ] in
theorem Still.refl : Still k k := ⟨rfl, rfl⟩

omit [DecidableEq τ] in
theorem Frame.still (h : Frame k k') : Still k k' := ⟨by rw [h.timers], by rw [h.irq]⟩

theorem still_setPc {pc : Pc ς} : Still k (k.setPc t pc) := ⟨rfl, rfl⟩

theorem rtTimerStop_rt_tick {timers : Timers τ} : (timers.rtTimerStop t).1.rt_tick = timers.rt_tick := by
  unfold Timers.rtTimerStop
  split_ifs <;> rfl

theorem still_rtThreadResume : Still k (k.rtThreadResume t) := by
  unfold Kernel.rtThreadResume
  split_ifs
  · exact Still.refl
  · have hstop : Still k ({ k.listRemove t with timers := (k.timers.rtTimerStop t).1 } : Kernel τ ς) :=
      ⟨rtTimerStop_rt_tick, rfl⟩
    exact hstop.trans frame_insert.still

theorem still_rtThreadSuspend : Still k (k.rtThreadSuspend t) := by
  unfold Kernel.rtThreadSuspend
  split_ifs
  · exact Still.refl
  · exact ⟨rtTimerStop_rt_tick, rfl⟩

theorem still_foldl {ts : List τ} (h : k.Base ts) : Still k (ts.foldl Kernel.threadTimeout k) := by
  induction ts generalizing k with
  | nil => exact Still.refl
  | cons t ts ih =>
    have hmodify : Still k ((k.modifyThread t fun thread => { thread with error := .RT_ETIMEOUT }
        ).listRemove t) := ⟨rfl, rfl⟩
    have hbase : (k.modifyThread t fun thread => { thread with error := .RT_ETIMEOUT }).Base (t :: ts) :=
      h.modifyThread rfl rfl
    have hinsert := hmodify.trans (frame_insert (t := t)).still
    exact (hinsert.trans hbase.wake.rtSchedule_frame.still).trans (ih h.threadTimeout)

variable [DecidableEq ς] {c : Choice τ ς}

theorem still_rtSemRelease {s : ς} : Still k (k.rtSemRelease s).1 := by
  cases hlist : (k.sem s).suspend_thread with
  | nil =>
    by_cases hmax : (k.sem s).value < RT_SEM_VALUE_MAX
    · rw [rtSemRelease_nil hlist hmax]
      exact ⟨rfl, rfl⟩
    · rw [rtSemRelease_full hlist hmax]
      exact Still.refl
  | cons t l =>
    rw [rtSemRelease_cons hlist]
    exact still_rtThreadResume

theorem still_rtSemTake (k : Kernel τ ς) (s : ς) (time : Int32) : Still k (k.rtSemTake s time).1 := by
  by_cases hvalue : 0 < (k.sem s).value
  · rw [rtSemTake_pos hvalue]
    exact ⟨rfl, rfl⟩
  · by_cases htime : time = 0
    · rw [rtSemTake_poll hvalue htime]
      exact Still.refl
    · have hsuspend := still_rtThreadSuspend (t := k.rt_current_thread)
        (k := k.modifyThread k.rt_current_thread fun thread => { thread with error := .RT_EOK })
      rw [rtSemTake_fst hvalue htime]
      dsimp only
      split_ifs
      · exact ⟨hsuspend.rt_tick, hsuspend.checks⟩
      · exact ⟨hsuspend.rt_tick, hsuspend.checks⟩

/-- What a step does to the tick count and to the timer checks to come. -/
inductive Ticking (k k' : Kernel τ ς) (c : Choice τ ς) (es : List (Event τ ς)) : Prop
  | still (h : Still k k') (hc : ¬ Checks k c) (hes : es.count .tick = 0)
  | tick (hno : k.irq.count .timerCheck = 0) (hrt_tick : k'.timers.rt_tick = k.timers.rt_tick + 1)
      (hchecks : k'.irq.count .timerCheck = 1) (hc : c = .tick) (hes : es.count .tick = 1)
  | check (hc : Checks k c) (hrt_tick : k'.timers.rt_tick = k.timers.rt_tick)
      (hchecks : k.irq.count .timerCheck = k'.irq.count .timerCheck + 1) (hes : es.count .tick = 0)

theorem Inv.ticking (h : k.Inv) (hc : k.Enabled c) : Ticking k (k.exec c).1 c (k.exec c).2 := by
  have hstill : c ≠ .irq → c ≠ .tick → Still k (k.exec c).1 → Ticking k (k.exec c).1 c (k.exec c).2 :=
    fun hirq htick hk => .still hk (fun hch => hirq hch.1) ((h.outcome hc).count_tick htick)
  cases c with
  | startup t =>
    have hstart : Still k (k.modifyThread t fun thread => { thread with stat := .suspend, yield := false }) :=
      ⟨rfl, rfl⟩
    have hresume : Still k (k.rtThreadStartup t) := hstart.trans still_rtThreadResume
    exact hstill (by simp) (by simp) (hresume.trans still_setPc)
  | take s time =>
    have htake := still_rtSemTake k s time
    refine hstill (by simp) (by simp) ?_
    unfold Kernel.exec
    dsimp only
    split
    · next hr =>
      rw [hr] at htake
      exact htake
    · next hr =>
      rw [hr] at htake
      exact htake.trans still_setPc
  | release s =>
    have hrelease := still_rtSemRelease (k := k) (s := s)
    refine hstill (by simp) (by simp) ?_
    unfold Kernel.exec
    dsimp only
    split_ifs
    · exact hrelease.trans still_setPc
    · exact hrelease
  | yield =>
    have hsched := (h.base_yield hc).rtSchedule_frame.still
    exact hstill (by simp) (by simp) ⟨hsched.rt_tick, hsched.checks⟩
  | sleep tick =>
    have hsuspend := still_rtThreadSuspend (t := k.rt_current_thread)
      (k := k.modifyThread k.rt_current_thread fun thread => { thread with error := .RT_EOK })
    exact hstill (by simp) (by simp) ⟨hsuspend.rt_tick, hsuspend.checks⟩
  | exit => exact hstill (by simp) (by simp) ⟨rfl, rfl⟩
  | enterCritical => exact hstill (by simp) (by simp) ⟨rfl, rfl⟩
  | exitCritical =>
    refine hstill (by simp) (by simp) ?_
    unfold Kernel.exec
    dsimp only
    split_ifs
    · exact ⟨rfl, rfl⟩
    · exact ⟨rfl, rfl⟩
  | proceed =>
    refine hstill (by simp) (by simp) ?_
    unfold Kernel.exec Kernel.proceed
    dsimp only
    split
    · exact Still.refl
    · next c hpc =>
      have hsched := (h.base.setPc_back hpc).rtSchedule_frame.still
      exact ⟨hsched.rt_tick, hsched.checks⟩
    · exact still_setPc
    · exact ⟨rfl, rfl⟩
    · exact Still.refl
    · exact still_setPc
  | isrRelease s =>
    have hrelease := still_rtSemRelease (k := k) (s := s)
    refine hstill (by simp) (by simp) ?_
    unfold Kernel.exec
    dsimp only
    split_ifs
    · refine ⟨hrelease.rt_tick, ?_⟩
      rw [List.count_cons_of_ne (by decide)]
      exact hrelease.checks
    · exact hrelease
  | tick =>
    have hcount : k.irq.count .timerCheck = 0 := List.count_eq_zero.2 hc
    have hchecks : (Irq.timerCheck :: k.irq).count .timerCheck = 1 := by
      rw [List.count_cons_self, hcount]
    unfold Kernel.exec Kernel.rtTickIncrease
    dsimp only
    split_ifs
    · refine .tick hcount rfl ?_ rfl rfl
      rw [List.count_cons_of_ne (by decide)]
      exact hchecks
    · exact .tick hcount rfl hchecks rfl rfl
  | irq =>
    unfold Kernel.exec
    dsimp only
    cases hirq : k.irq with
    | nil => exact absurd hirq hc
    | cons i irq =>
      cases i with
      | schedule =>
        have hsched := (h.base.schedule_irq hirq).rtSchedule_frame.still
        refine .still ⟨hsched.rt_tick, ?_⟩ ?_ rfl
        · rw [hirq, List.count_cons_of_ne (by decide)]
          exact hsched.checks
        · rintro ⟨-, hhead⟩
          rw [hirq] at hhead
          cases hhead
      | timerCheck =>
        obtain ⟨timers, due, hcheck, hfold, hbase, -⟩ := h.base.timerCheck irq
        have hstill := still_foldl hbase
        dsimp only
        rw [hfold]
        refine .check ⟨rfl, by rw [hirq]; rfl⟩ ?_ ?_ rfl
        · exact hstill.rt_tick.trans (Timers.rtTimerCheck_of_not_mem hcheck).1
        · rw [hirq, List.count_cons_self]
          exact congrArg (· + 1) hstill.checks.symm

/-! ## A thread that waits -/

/-- What a step does to a thread that is in a call in which it waits, before and after. -/
inductive Fate (k k' : Kernel τ ς) (t : τ) (c : Choice τ ς) : Prop
  | same (h : Same k k' t) (hdue : k.Checks c → ¬ k.Due t)
  | handed (s : ς) (hcall : k.InCall t (.take s)) (hwas : (k.thread t).stat = .suspend)
      (hawake : (k'.thread t).stat ≠ .suspend) (herror : (k'.thread t).error = (k.thread t).error)
  | timedOut (hcheck : k.Checks c) (hdue : k.Due t) (hawake : (k'.thread t).stat ≠ .suspend)
      (herror : (k'.thread t).error = .RT_ETIMEOUT)

theorem Outcome.fate {es : List (Event τ ς)} {c' : Call ς} (h : Outcome k k' c es) (hbase : k.Base [])
    (hin : k.InCall t c') (hin' : k'.InCall t c') : Fate k k' t c := by
  have hrelease : ∀ s : ς, c = .release s ∨ c = .isrRelease s → ¬ k.Checks c := by
    rintro s (rfl | rfl) ⟨hc, -⟩
    · cases hc
    · cases hc
  have hwaits : ∀ c'', Waits k k' c'' → Same k k' t := by
    intro c'' hw
    refine hw.same t ?_
    rintro rfl
    exact not_inCall hw.user _ hin
  cases h with
  | quiet c es hc hcheck hsem hsame hes => exact .same (hsame t) fun hch => absurd hch hcheck
  | took s time hvalue hsem hsame => exact .same (hsame t) fun hch => by cases hch.1
  | poll s hvalue hk =>
    rw [hk]
    exact .same Same.refl fun hch => by cases hch.1
  | waits s time htime hvalue hsem hw htimer hforever =>
    exact .same (hwaits _ hw) fun hch => by cases hch.1
  | sleeps tick hsem hw htimer => exact .same (hwaits _ hw) fun hch => by cases hch.1
  | gave s c hrel hlist hmax hsem hsame => exact .same (hsame t) fun hch => absurd hch (hrelease s hrel)
  | handed s c hrel v l hlist hwoke herror =>
    by_cases ht : t ∈ [v]
    · obtain ⟨-, hcall⟩ := hbase.head_waits hlist
      have htv := List.mem_singleton.1 ht
      rw [← htv] at hcall herror
      exact .handed s hcall (hwoke.was t ht) (hwoke.awake t ht) herror
    · exact .same (hwoke.same t ht) fun hch => absurd hch (hrelease s hrel)
  | full s c hrel hlist hmax hk =>
    rw [hk]
    exact .same Same.refl fun hch => absurd hch (hrelease s hrel)
  | returns c hirq hpc hpc' hrunning hsem hpriority hsame =>
    refine .same (hsame t ?_) fun hch => by cases hch.1
    rintro rfl
    exact not_inCall hpc' _ hin'
  | timeouts ts hcheck hnodup hdue hwoke herror =>
    by_cases ht : t ∈ ts
    · exact .timedOut hcheck ((hdue t).1 ht) (hwoke.awake t ht) (herror t ht)
    · exact .same (hwoke.same t ht) fun _ hk => ht ((hdue t).2 hk)

/-- The thread has been in the call `c` for `n` ticks; it was to wait for `tick` ticks at most from the
tick count `start` on. Its time is over at the check of tick `max tick 1`. -/
structure Timed (k : Kernel τ ς) (t : τ) (c : Call ς) (start tick : RtTick) (n : ℕ) : Prop where
  call : k.InCall t c
  rt_tick : k.timers.rt_tick = start + BitVec.ofNat 32 n
  checks_le : k.irq.count .timerCheck ≤ 1
  pending : k.irq.count .timerCheck ≤ n
  asleep : (k.thread t).stat = .suspend → (k.timers.timer t).activated = true ∧
    (k.timers.timer t).timeout_tick = start + tick ∧ (k.thread t).error = .RT_EOK ∧
    n < max tick.toNat 1 + k.irq.count .timerCheck
  awake : (k.thread t).stat ≠ .suspend → (k.thread t).error = .RT_ETIMEOUT →
    max tick.toNat 1 + k.irq.count .timerCheck ≤ n
  error : (k.thread t).error = .RT_EOK ∨ (k.thread t).error = .RT_ETIMEOUT
  sleeper : c = .sleep → (k.thread t).stat ≠ .suspend → (k.thread t).error = .RT_ETIMEOUT

variable {c' : Call ς} {start time : RtTick} {n : ℕ}

omit [DecidableEq τ] [DecidableEq ς] in
/-- At a check that finds the thread suspended, its timer is due if its time is over. -/
theorem Timed.due_iff (h : Timed k t c' start time n) (htime : time < RT_TICK_MAX / 2)
    (hsuspend : (k.thread t).stat = .suspend) (hcheck : k.irq.count .timerCheck = 1) :
    k.Due t ↔ max time.toNat 1 ≤ n := by
  obtain ⟨hact, htimeout, -, hlt⟩ := h.asleep hsuspend
  have hpending := h.pending
  have hhalf : time.toNat < Timers.half := htime
  have hnow : start + BitVec.ofNat 32 n = shown 32 (start.toNat + n) := by
    rw [shown_add, shown_toNat]
  have hdeadline : start + time = shown 32 (start.toNat + time.toNat) := by
    rw [shown_add, shown_toNat, shown_toNat]
  have hbound : 1 < Timers.half := by decide
  unfold Due
  rw [and_iff_right hact, h.rt_tick, htimeout, hnow, hdeadline, Timers.shown_half,
    sub_lt_half_iff Timers.half_le (by omega) (by omega)]
  omega

theorem Timed.step {es : List (Event τ ς)} (h : Timed k t c' start time n)
    (htime : time < RT_TICK_MAX / 2) (hbase : k.Base []) (ho : Outcome k k' c es)
    (ht : Ticking k k' c es) (hcall : k'.InCall t c') :
    Timed k' t c' start time (n + es.count .tick) := by
  have hle := h.checks_le
  have hpending := h.pending
  -- the tick count and the checks to come
  have hclock : k'.timers.rt_tick = start + BitVec.ofNat 32 (n + es.count .tick) ∧
      k'.irq.count .timerCheck ≤ 1 ∧ k'.irq.count .timerCheck ≤ n + es.count .tick := by
    cases ht with
    | still hs hc hes =>
      rw [hs.rt_tick, hs.checks, hes]
      exact ⟨h.rt_tick, hle, hpending⟩
    | tick hno hrt_tick hchecks hc hes =>
      rw [hrt_tick, hchecks, hes, h.rt_tick, BitVec.add_assoc]
      exact ⟨congrArg (start + ·) (shown_add n 1).symm, le_rfl, Nat.le_add_left 1 n⟩
    | check hc hrt_tick hchecks hes =>
      rw [hrt_tick, hes]
      exact ⟨h.rt_tick, by omega, by omega⟩
  have hfate := ho.fate hbase h.call hcall
  refine ⟨hcall, hclock.1, hclock.2.1, hclock.2.2, ?_, ?_, ?_, ?_⟩
  · intro hsuspend
    cases hfate with
    | same hsame hdue =>
      have hwas := hsame.suspend.1 hsuspend
      obtain ⟨hact, htimeout, herror, hlt⟩ := h.asleep hwas
      rw [hsame.timer, hsame.error]
      refine ⟨hact, htimeout, herror, ?_⟩
      cases ht with
      | still hs hc hes =>
        rw [hs.checks, hes]
        exact hlt
      | tick hno hrt_tick hchecks hc hes =>
        rw [hchecks, hes]
        omega
      | check hc hrt_tick hchecks hes =>
        have hnot := hdue hc
        rw [h.due_iff htime hwas (by omega)] at hnot
        omega
    | handed s hcall hwas hawake herror => exact absurd hsuspend hawake
    | timedOut hcheck hdue hawake herror => exact absurd hsuspend hawake
  · intro hawake herror
    cases hfate with
    | same hsame hdue =>
      rw [hsame.error] at herror
      have hge := h.awake (fun hs => hawake (hsame.suspend.2 hs)) herror
      cases ht with
      | still hs hc hes =>
        rw [hs.checks, hes]
        exact hge
      | tick hno hrt_tick hchecks hc hes =>
        rw [hchecks, hes]
        omega
      | check hc hrt_tick hchecks hes => omega
    | handed s hcall hwas hawake herror' =>
      rw [herror', (h.asleep hwas).2.2.1] at herror
      cases herror
    | timedOut hcheck hdue hawake herror =>
      cases ht with
      | still hs hc hes => exact absurd hcheck hc
      | tick hno hrt_tick hchecks hc hes => cases hc.symm.trans hcheck.1
      | check hc hrt_tick hchecks hes =>
        have hge := (h.due_iff htime (hbase.active t hdue.1) (by omega)).1 hdue
        omega
  · cases hfate with
    | same hsame hdue =>
      rw [hsame.error]
      exact h.error
    | handed s hcall hwas hawake herror =>
      rw [herror]
      exact h.error
    | timedOut hcheck hdue hawake herror => exact Or.inr herror
  · intro hsleep hawake
    cases hfate with
    | same hsame hdue =>
      rw [hsame.error]
      exact h.sleeper hsleep fun hs => hawake (hsame.suspend.2 hs)
    | handed s hcall hwas hawake herror =>
      cases (hsleep ▸ h.call : k.InCall t .sleep).unique hcall
    | timedOut hcheck hdue hawake herror => exact herror

/-- **Run lemma.** -/
theorem Timed.run (h : Timed k t c' start time 0) (hinv : k.Inv) (htime : time < RT_TICK_MAX / 2)
    {ds : List (Choice τ ς)} (hds : Along Kernel.step (fun k d => (k.step d).1.InCall t c') k ds) :
    Timed (Machine.run Kernel.step k ds).1 t c' start time
      ((Machine.run Kernel.step k ds).2.count Event.tick) := by
  refine (run_history_along Kernel.step (I := fun tr k => k.Inv ∧ Timed k t c' start time (tr.count .tick))
    ⟨hinv, h⟩ ?_ hds).2
  rintro tr k c hcall ⟨hk, htimed⟩
  refine ⟨hk.step c, ?_⟩
  rw [List.count_append]
  by_cases hc : k.Enabled c
  · have hstep : k.step c = k.exec c := if_pos hc
    rw [hstep] at hcall ⊢
    exact htimed.step htime hk.base (hk.outcome hc) (hk.ticking hc) hcall
  · have hstep : k.step c = (k, []) := if_neg hc
    rw [hstep]
    exact htimed

omit [DecidableEq τ] [DecidableEq ς] in
theorem Timed.in_time (h : Timed k t c' start time n) (hsuspend : (k.thread t).stat = .suspend) :
    n < max time.toNat 1 ∨ n = max time.toNat 1 ∧ .timerCheck ∈ k.irq := by
  have hle := h.checks_le
  have hlt := (h.asleep hsuspend).2.2.2
  rw [← List.count_pos_iff]
  omega

omit [DecidableEq τ] [DecidableEq ς] in
theorem Timed.not_early (h : Timed k t c' start time n) (hawake : (k.thread t).stat ≠ .suspend)
    (herror : (k.thread t).error = .RT_ETIMEOUT) :
    ¬ (n < max time.toNat 1 ∨ n = max time.toNat 1 ∧ .timerCheck ∈ k.irq) := by
  have hge := h.awake hawake herror
  rw [← List.count_pos_iff]
  omega

/-- The current thread starts to wait. -/
theorem Waits.timed {es : List (Event τ ς)} (h : Waits k k' c') (hmode : k.ThreadMode)
    (htimer : Started k k' k.rt_current_thread time) (ht : Ticking k k' c es) (hc : c ≠ .tick)
    (hirq : c ≠ .irq) : Timed k' k.rt_current_thread c' k.timers.rt_tick time 0 := by
  have hstill : Still k k' := by
    cases ht with
    | still hs hc hes => exact hs
    | tick hno hrt_tick hchecks hc' hes => exact absurd hc' hc
    | check hc' hrt_tick hchecks hes => exact absurd hc'.1 hirq
  have hchecks : k'.irq.count .timerCheck = 0 := by
    rw [hstill.checks, hmode.1]
    rfl
  refine ⟨(h.call _).2 rfl, ?_, ?_, ?_, ?_, ?_, Or.inl h.error, ?_⟩
  · rw [hstill.rt_tick]
    exact (BitVec.add_zero _).symm
  · omega
  · omega
  · intro _
    exact ⟨htimer.1, htimer.2, h.error, by omega⟩
  · exact fun hawake => absurd h.suspend hawake
  · exact fun _ hawake => absurd h.suspend hawake

section
variable (rt_tick : RtTick) (idle : τ) (priority : τ → Priority) (tick : τ → RtTick) (value : ς → ℕ)
variable (flag : ς → IpcFlag) (cs : List (Choice τ ς))

instance (k : Kernel τ ς) (t : τ) (c : Call ς) : Decidable (k.InCall t c) :=
  inferInstanceAs (Decidable (_ ∨ _))

/-- **A thread sleeps for as long as it was told.** When the current thread calls `rt_thread_sleep` in any
run, then from there on, until that call returns, it is suspended exactly as long as fewer than
`max tick 1` ticks have come, or that many and the timer check of the last one is still to come. -/
theorem sleep_exact {time : RtTick} {ds : List (Choice τ ς)}
    (hc : (run step (boot rt_tick idle priority tick value flag) cs).1.Enabled (.sleep time))
    (hds : let k := (run step (boot rt_tick idle priority tick value flag) cs).1
      Along step (fun k' d => (k'.step d).1.InCall k.rt_current_thread .sleep)
        (k.step (.sleep time)).1 ds) :
    let k := (run step (boot rt_tick idle priority tick value flag) cs).1
    let r := run step (k.step (.sleep time)).1 ds
    (r.1.thread k.rt_current_thread).stat = .suspend ↔
      r.2.count .tick < max time.toNat 1 ∨
        r.2.count .tick = max time.toNat 1 ∧ .timerCheck ∈ r.1.irq := by
  intro k r
  have hk : k.Inv := run_inv ..
  have hstep : k.step (.sleep time) = k.exec (.sleep time) := if_pos hc
  have hstart : Timed (k.step (.sleep time)).1 k.rt_current_thread .sleep k.timers.rt_tick time 0 := by
    obtain ⟨hwaits, hstarted⟩ := hk.waits_sleep time hc.1
    rw [hstep]
    exact hwaits.timed hc.1 hstarted (hk.ticking hc) (by simp) (by simp)
  have htimed : Timed r.1 k.rt_current_thread .sleep k.timers.rt_tick time (r.2.count .tick) :=
    hstart.run (hk.step _) hc.2.2 hds
  refine ⟨htimed.in_time, fun hn => ?_⟩
  by_contra hawake
  exact htimed.not_early hawake (htimed.sleeper rfl hawake) hn

/-- A sleep of two ticks; the second one has come, its timer check has not. -/
theorem sleep_exact_two :
    let k := (run step (boot 0xffffffff false (fun t => if t then 5 else 31) (fun _ => 10)
      (fun _ : Unit => 0) fun _ => .fifo) [.startup true, .proceed]).1
    let r := run step (k.step (.sleep 2)).1 [.proceed, .tick, .irq, .tick]
    (r.1.thread k.rt_current_thread).stat = .suspend ↔
      r.2.count .tick < max (2 : RtTick).toNat 1 ∨
        r.2.count .tick = max (2 : RtTick).toNat 1 ∧ .timerCheck ∈ r.1.irq :=
  sleep_exact 0xffffffff false (fun t => if t then 5 else 31) (fun _ => 10) (fun _ => 0)
    (fun _ => .fifo) [.startup true, .proceed] (by decide) (by decide)

/-- **A wait for a semaphore ends in time.** When the current thread calls `rt_sem_take` with a time limit
in any run and finds no unit, then from there on, until that call returns, it is suspended no longer than
until the timer check of tick `time`; and if it is resumed without having been handed a unit, that check
has been made. -/
theorem take_in_time {s : ς} {time : Int32} {ds : List (Choice τ ς)}
    (hc : (run step (boot rt_tick idle priority tick value flag) cs).1.Enabled (.take s time))
    (hvalue : ((run step (boot rt_tick idle priority tick value flag) cs).1.sem s).value = 0)
    (htime : 0 < time)
    (hds : let k := (run step (boot rt_tick idle priority tick value flag) cs).1
      Along step (fun k' d => (k'.step d).1.InCall k.rt_current_thread (.take s))
        (k.step (.take s time)).1 ds) :
    let k := (run step (boot rt_tick idle priority tick value flag) cs).1
    let r := run step (k.step (.take s time)).1 ds
    let waiting := r.2.count .tick < max time.toBitVec.toNat 1 ∨
      r.2.count .tick = max time.toBitVec.toNat 1 ∧ .timerCheck ∈ r.1.irq
    ((r.1.thread k.rt_current_thread).stat = .suspend → waiting) ∧
      ((r.1.thread k.rt_current_thread).stat ≠ .suspend →
        r.1.Granted s k.rt_current_thread ∨
          (r.1.thread k.rt_current_thread).error = .RT_ETIMEOUT ∧ ¬ waiting) := by
  intro k r waiting
  have hk : k.Inv := run_inv ..
  have hstep : k.step (.take s time) = k.exec (.take s time) := if_pos hc
  have hne : time ≠ 0 := by
    rintro rfl
    exact Int32.lt_irrefl htime
  have hstart : Timed (k.step (.take s time)).1 k.rt_current_thread (.take s) k.timers.rt_tick
      time.toBitVec 0 := by
    have hno : ¬ 0 < (k.sem s).value := fun hpos => hpos.ne' hvalue
    obtain ⟨-, -, hwaits, htimer, -⟩ := hk.waits_take hc.1 hno hne
    rw [hstep]
    exact hwaits.timed hc.1 (htimer htime) (hk.ticking hc) (by simp) (by simp)
  have hlimit := (hc.2 hvalue hne).2 htime
  have htimed : Timed r.1 k.rt_current_thread (.take s) k.timers.rt_tick time.toBitVec
      (r.2.count .tick) := hstart.run (hk.step _) hlimit hds
  refine ⟨htimed.in_time, fun hawake => ?_⟩
  rcases htimed.error with herror | herror
  · exact Or.inl ⟨htimed.call, hawake, herror⟩
  · exact Or.inr ⟨herror, htimed.not_early hawake herror⟩

/-- A wait for one tick at most. -/
theorem take_in_time_one :
    let k := (run step (boot 0xffffffff false (fun t => if t then 5 else 31) (fun _ => 10)
      (fun _ : Unit => 0) fun _ => .fifo) [.startup true, .proceed]).1
    let r := run step (k.step (.take () 1)).1 [.proceed, .tick, .irq]
    let waiting := r.2.count .tick < max (1 : Int32).toBitVec.toNat 1 ∨
      r.2.count .tick = max (1 : Int32).toBitVec.toNat 1 ∧ .timerCheck ∈ r.1.irq
    ((r.1.thread k.rt_current_thread).stat = .suspend → waiting) ∧
      ((r.1.thread k.rt_current_thread).stat ≠ .suspend →
        r.1.Granted () k.rt_current_thread ∨
          (r.1.thread k.rt_current_thread).error = .RT_ETIMEOUT ∧ ¬ waiting) :=
  take_in_time 0xffffffff false (fun t => if t then 5 else 31) (fun _ => 10) (fun _ => 0)
    (fun _ => .fifo) [.startup true, .proceed] (by decide) (by decide) (by decide) (by decide)

end

end Kernel

end Tdps
