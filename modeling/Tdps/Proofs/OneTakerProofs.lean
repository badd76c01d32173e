import Tdps.Proofs.SemaphoreProofs

/-!
# A semaphore that one thread takes

The threads of the board take their semaphores alone and without a time limit. `Sem` is such a semaphore
without the rest of the kernel; `one_taker_refines` is that the kernel, with its lists, timers and
scheduler, does to it what `Sem.take` and `Sem.release` say.
-/

namespace Tdps

open Machine

namespace Kernel

variable {τ ς : Type} [DecidableEq τ] [DecidableEq ς] {k k' : Kernel τ ς} {t u : τ} {s : ς}
variable {c : Choice τ ς} {es : List (Event τ ς)}

/-- The semaphore as its only taker has it. -/
def toSem (k : Kernel τ ς) (s : ς) (t : τ) : Sem :=
  ⟨(k.sem s).value, decide (t ∈ (k.sem s).suspend_thread)⟩

/-- What a step that is enabled does to it. -/
def semStep (s : ς) (x : Sem) : Choice τ ς → Sem
  | .take s' _ => if s' = s then x.take.1 else x
  | .release s' => if s' = s then x.release else x
  | .isrRelease s' => if s' = s then x.release else x
  | _ => x

omit [DecidableEq τ] in
theorem semStep_none {x : Sem} (hc : c.sem = none) : semStep s x c = x := by
  cases c <;> first | rfl | cases hc

omit [DecidableEq τ] in
theorem semStep_release {s' : ς} {x : Sem} (hc : c = .release s' ∨ c = .isrRelease s') :
    semStep s x c = if s' = s then x.release else x := by
  rcases hc with rfl | rfl <;> rfl

/-- Only the thread `t` takes the semaphore, and with `RT_WAITING_FOREVER`. -/
def OnlyTaker (s : ς) (t : τ) (k : Kernel τ ς) : Choice τ ς → Prop
  | .take s' time => s' = s → k.Enabled (.take s' time) → k.rt_current_thread = t ∧ time < 0
  | _ => True

instance (k : Kernel τ ς) : (c : Choice τ ς) → Decidable (OnlyTaker s t k c)
  | .take _ _ => inferInstanceAs (Decidable (_ → _ → _ ∧ _))
  | .startup _ | .release _ | .yield | .sleep _ | .exit | .enterCritical | .exitCritical | .proceed
  | .isrRelease _ | .tick | .irq => isTrue trivial

/-- Only `t` is in a call for the semaphore, and it waits without a time limit. -/
structure Alone (s : ς) (t : τ) (k : Kernel τ ς) : Prop where
  taker : ∀ u, k.InCall u (.take s) → u = t
  error : k.InCall t (.take s) → (k.thread t).error = .RT_EOK
  inactive : k.InCall t (.take s) → (k.timers.timer t).activated = false

omit [DecidableEq τ] [DecidableEq ς] in
theorem Alone.same (h : Alone s t k) (hsame : ∀ u, Same k k' u) : Alone s t k' where
  taker u hu := h.taker u (((hsame u).take s).1 hu)
  error ht := by
    rw [(hsame t).error]
    exact h.error (((hsame t).take s).1 ht)
  inactive ht := by
    rw [(hsame t).timer]
    exact h.inactive (((hsame t).take s).1 ht)

omit [DecidableEq τ] [DecidableEq ς] in
/-- The current thread is in another call afterwards, or in the same one. -/
theorem Alone.of_current (h : Alone s t k)
    (hsame : ∀ u, u ≠ k.rt_current_thread → Same k k' u)
    (hself : k'.InCall k.rt_current_thread (.take s) → k.rt_current_thread = t ∧
      (k'.thread k.rt_current_thread).error = .RT_EOK ∧
      (k'.timers.timer k.rt_current_thread).activated = false) : Alone s t k' where
  taker u hu := by
    by_cases hc : u = k.rt_current_thread
    · rw [hc] at hu ⊢
      exact (hself hu).1
    · exact h.taker u (((hsame u hc).take s).1 hu)
  error ht := by
    by_cases hc : t = k.rt_current_thread
    · rw [hc] at ht ⊢
      exact (hself ht).2.1
    · rw [(hsame t hc).error]
      exact h.error (((hsame t hc).take s).1 ht)
  inactive ht := by
    by_cases hc : t = k.rt_current_thread
    · rw [hc] at ht ⊢
      exact (hself ht).2.2
    · rw [(hsame t hc).timer]
      exact h.inactive (((hsame t hc).take s).1 ht)

omit [DecidableEq τ] [DecidableEq ς] in
theorem Alone.not_due (h : Alone s t k) (ht : k.InCall u (.take s)) : ¬ k.Due u := by
  rintro ⟨hact, -⟩
  rw [h.taker u ht] at hact ht
  rw [h.inactive ht] at hact
  cases hact

theorem Alone.step (h : Alone s t k) (hk' : k'.Inv) (hc : k.Enabled c) (honly : OnlyTaker s t k c)
    (ho : Outcome k k' c es) : Alone s t k' := by
  cases ho with
  | quiet c es hc hcheck hsem hsame hes => exact h.same hsame
  | took s' time hvalue hsem hsame => exact h.same hsame
  | poll s' hvalue hk => exact hk ▸ h
  | waits s' time htime hvalue hsem hwaits htimer hforever =>
    refine h.of_current hwaits.same fun hcall => ?_
    cases (hwaits.call _).1 hcall
    obtain ⟨hcur, hneg⟩ := honly rfl hc
    exact ⟨hcur, hwaits.error, hforever (Int32.lt_asymm hneg)⟩
  | sleeps tick hsem hwaits htimer =>
    refine h.of_current hwaits.same fun hcall => ?_
    cases (hwaits.call _).1 hcall
  | gave s' c hc hlist hmax hsem hsame => exact h.same hsame
  | handed s' c hc v l hlist hwoke herror =>
    have hv : v ∈ [v] := List.mem_singleton_self v
    have hcall : ∀ u, k'.InCall u (.take s) → k.InCall u (.take s) := by
      intro u hu
      by_cases huv : u ∈ [v]
      · exact ((hwoke.call u huv).take s).1 hu
      · exact ((hwoke.same u huv).take s).1 hu
    refine ⟨fun u hu => h.taker u (hcall u hu), fun ht => ?_, fun ht => ?_⟩
    · by_cases htv : t = v
      · rw [htv] at ht ⊢
        rw [herror]
        exact htv ▸ h.error (htv ▸ hcall v ht)
      · rw [(hwoke.same t (by simpa using htv)).error]
        exact h.error (hcall t ht)
    · by_cases htv : t = v
      · rw [htv, ← Bool.not_eq_true]
        exact fun hact => hwoke.awake v hv (hk'.base.active v hact)
      · rw [(hwoke.same t (by simpa using htv)).timer]
        exact h.inactive (hcall t ht)
  | full s' c hc hlist hmax hk => exact hk ▸ h
  | returns c hirq hpc hpc' hrunning hsem hpriority hsame =>
    exact h.of_current hsame fun hcall => absurd hcall (not_inCall hpc' _)
  | timeouts ts hcheck hnodup hdue hwoke herror =>
    -- the taker has no timer
    have hcall : ∀ u, k'.InCall u (.take s) → k.InCall u (.take s) ∧ u ∉ ts := by
      intro u hu
      by_cases hut : u ∈ ts
      · exact absurd ((hdue u).1 hut) (h.not_due (((hwoke.call u hut).take s).1 hu))
      · exact ⟨((hwoke.same u hut).take s).1 hu, hut⟩
    refine ⟨fun u hu => h.taker u (hcall u hu).1, fun ht => ?_, fun ht => ?_⟩
    · rw [(hwoke.same t (hcall t ht).2).error]
      exact h.error (hcall t ht).1
    · rw [(hwoke.same t (hcall t ht).2).timer]
      exact h.inactive (hcall t ht).1

omit [DecidableEq ς] in
theorem toSem_congr (hvalue : (k'.sem s).value = (k.sem s).value)
    (hlist : t ∈ (k'.sem s).suspend_thread ↔ t ∈ (k.sem s).suspend_thread) :
    k'.toSem s t = k.toSem s t := by
  unfold toSem
  rw [hvalue]
  simp only [hlist]

/-- A change of the value. -/
theorem toSem_update {s' : ς} {v : ℕ} {x : Sem}
    (hsem : k'.sem = Function.update k.sem s' { k.sem s' with value := v })
    (hx : s' = s → x = ⟨v, (k.toSem s t).suspended⟩) :
    k'.toSem s t = if s' = s then x else k.toSem s t := by
  split_ifs with hs
  · rw [hx hs]
    subst hs
    unfold toSem
    rw [hsem, Function.update_self]
  · refine toSem_congr ?_ ?_
    · rw [hsem, Function.update_of_ne (Ne.symm hs)]
    · rw [hsem, Function.update_of_ne (Ne.symm hs)]

theorem Alone.toSem (h : Alone s t k) (hbase : k.Base []) (hc : k.Enabled c)
    (honly : OnlyTaker s t k c) (ho : Outcome k k' c es) : k'.toSem s t = semStep s (k.toSem s t) c := by
  cases ho with
  | quiet c es hc hcheck hsem hsame hes =>
    rw [semStep_none hc]
    exact toSem_congr (by rw [hsem]) (by rw [hsem])
  | took s' time hvalue hsem hsame =>
    refine toSem_update (x := (k.toSem s t).take.1) hsem ?_
    rintro rfl
    have hpos : 0 < (k.toSem s' t).value := hvalue
    rw [Sem.take, if_pos hpos]
    rfl
  | poll s' hvalue hk =>
    have hs : s' ≠ s := by
      intro hs
      exact absurd (honly hs hc).2 (by decide)
    rw [semStep, if_neg hs, hk]
  | waits s' time htime hvalue hsem hwaits htimer hforever =>
    rw [semStep]
    split_ifs with hs
    · subst hs
      have hpos : ¬ 0 < (k.toSem s' t).value := hvalue
      have hmem : t ∈ k.ipcListInsert k.rt_current_thread (k.sem s').suspend_thread (k.sem s').flag := by
        rw [ipcListInsert_perm.mem_iff, (honly rfl hc).1]
        exact List.mem_cons_self
      rw [Sem.take, if_neg hpos]
      unfold Kernel.toSem
      rw [hsem, Function.update_self]
      simp [hmem]
    · refine toSem_congr ?_ ?_
      · rw [hsem, Function.update_of_ne (Ne.symm hs)]
      · rw [hsem, Function.update_of_ne (Ne.symm hs)]
  | sleeps tick hsem hwaits htimer =>
    rw [semStep_none rfl]
    exact toSem_congr (by rw [hsem]) (by rw [hsem])
  | gave s' c hrel hlist hmax hsem hsame =>
    rw [semStep_release hrel]
    refine toSem_update hsem ?_
    rintro rfl
    have hno : (k.toSem s' t).suspended = false := by simp [Kernel.toSem, hlist]
    have hlt : (k.toSem s' t).value < RT_SEM_VALUE_MAX := hmax
    rw [Sem.release, if_neg (by simp [hno]), if_pos hlt]
    rfl
  | handed s' c hrel v l hlist hwoke herror =>
    have hv : v ∈ (k.sem s').suspend_thread := by rw [hlist]; exact List.mem_cons_self
    obtain ⟨-, hcall⟩ := hbase.head_waits hlist
    rw [semStep_release hrel]
    split_ifs with hs
    · subst hs
      have hvt := h.taker v hcall
      rw [hvt] at hv hwoke
      have hyes : (k.toSem s' t).suspended = true := by simp [Kernel.toSem, hv]
      rw [Sem.release, if_pos hyes]
      unfold Kernel.toSem
      rw [hwoke.sem]
      simp
    · refine toSem_congr (by rw [hwoke.sem]) ?_
      rw [hwoke.sem, List.mem_filter]
      refine and_iff_left_of_imp fun hmem => ?_
      have hne : t ≠ v := ne_of_mem_of_not_mem hmem (hbase.head_not_mem hlist (Ne.symm hs))
      simpa using hne
  | full s' c hrel hlist hmax hk =>
    rw [semStep_release hrel, hk]
    split_ifs with hs
    · subst hs
      have hno : (k.toSem s' t).suspended = false := by simp [Kernel.toSem, hlist]
      have hge : ¬ (k.toSem s' t).value < RT_SEM_VALUE_MAX := hmax
      rw [Sem.release, if_neg (by simp [hno]), if_neg hge]
    · rfl
  | returns c hirq hpc hpc' hrunning hsem hpriority hsame =>
    rw [semStep_none rfl]
    exact toSem_congr (by rw [hsem]) (by rw [hsem])
  | timeouts ts hcheck hnodup hdue hwoke herror =>
    rw [semStep_none rfl]
    refine toSem_congr (by rw [hwoke.sem]) ?_
    rw [hwoke.sem, List.mem_filter]
    refine and_iff_left_of_imp fun hmem => ?_
    have hcall := ((hbase.waiters.mem s t).1 hmem).2
    simpa using fun hts => h.not_due hcall ((hdue t).1 hts)

/-- The taker's time is never over. -/
theorem Alone.not_timedOut (h : Alone s t k) (hc : k.Enabled c) (honly : OnlyTaker s t k c)
    (ho : Outcome k k' c es) : .timedOut u s ∉ es := by
  cases ho with
  | quiet c es hc hcheck hsem hsame hes => rcases hes with ⟨-, rfl⟩ | ⟨-, rfl⟩ <;> simp
  | took s' time hvalue hsem hsame => simp
  | poll s' hvalue hk =>
    intro hu
    simp only [List.mem_singleton, Event.timedOut.injEq] at hu
    exact absurd (honly hu.2.symm hc).2 (by decide)
  | waits s' time htime hvalue hsem hwaits htimer hforever => simp
  | sleeps tick hsem hwaits htimer => simp
  | gave s' c hrel hlist hmax hsem hsame => simp
  | handed s' c hrel v l hlist hwoke herror => simp
  | full s' c hrel hlist hmax hk => simp
  | returns c hirq hpc hpc' hrunning hsem hpriority hsame =>
    intro hu
    cases c with
    | take s' =>
      dsimp only at hu
      split_ifs at hu with he
      · simp at hu
      · obtain ⟨rfl, rfl⟩ : u = k.rt_current_thread ∧ s = s' := by simpa using hu
        have hcall : k.InCall k.rt_current_thread (.take s) := Or.inr hpc
        have ht := h.taker _ hcall
        rw [ht] at hcall he
        exact he (h.error hcall)
    | sleep => cases hu
    | exit => cases hu
    | other => cases hu
  | timeouts ts hcheck hnodup hdue hwoke herror => simp

section
variable (rt_tick : RtTick) (idle : τ) (priority : τ → Priority) (tick : τ → RtTick) (value : ς → ℕ)
variable (flag : ς → IpcFlag) (cs : List (Choice τ ς))

/-- The steps of a run that were enabled. -/
def taken (k : Kernel τ ς) (cs : List (Choice τ ς)) : List (Choice τ ς) :=
  ((Machine.visits Kernel.step k cs).filter fun v => v.1.Enabled v.2).map Prod.snd

omit [DecidableEq ς] in
theorem Alone.granted (h : Alone s t k) (hbase : k.Base []) (hcall : k.InCall t (.take s)) :
    k.Granted s t ↔ (k.toSem s t).suspended = false := by
  unfold Granted Kernel.toSem
  rw [decide_eq_false_iff_not, hbase.waiters.mem]
  simp [hcall, h.error hcall]

/-- **The kernel's semaphores are those of the board's threads.** In every run in which only the thread
`t` takes the semaphore, and without a time limit, whatever else happens, the semaphore is what `Sem.take`
and `Sem.release` make of it, call by call; the thread is held in `rt_sem_take` exactly as long as it is
`suspended` there; and no call for the semaphore ends with `-RT_ETIMEOUT`. -/
theorem one_taker_refines (s : ς) (t : τ)
    (honly : Along step (OnlyTaker s t) (boot rt_tick idle priority tick value flag) cs) :
    let k := boot rt_tick idle priority tick value flag
    (run step k cs).1.toSem s t = (taken k cs).foldl (semStep s) ⟨value s, false⟩ ∧
      ((run step k cs).1.InCall t (.take s) →
        ((run step k cs).1.Granted s t ↔ ((run step k cs).1.toSem s t).suspended = false)) ∧
      ∀ u, .timedOut u s ∉ (run step k cs).2 := by
  intro k
  have key : Alone s t (run step k cs).1 ∧
      (run step k cs).1.toSem s t = (taken k cs).foldl (semStep s) ⟨value s, false⟩ ∧
      ∀ u, .timedOut u s ∉ (run step k cs).2 := by
    induction cs using List.reverseRecOn with
    | nil =>
      have hno : ∀ u, ¬ k.InCall u (.take s) := fun u => not_inCall rfl _
      exact ⟨⟨fun u hu => absurd hu (hno u), fun ht => absurd ht (hno t), fun ht => absurd ht (hno t)⟩,
        rfl, by simp⟩
    | append_singleton cs c ih =>
      obtain ⟨hcs, honly, -⟩ := (along_append step).1 honly
      obtain ⟨halone, hsem, htimeout⟩ := ih hcs
      have hinv : (run step k cs).1.Inv := run_inv ..
      unfold taken
      rw [run_snoc, Machine.visits_snoc, List.filter_append, List.map_append, List.foldl_append]
      by_cases hc : (run step k cs).1.Enabled c
      · have hstep : (run step k cs).1.step c = (run step k cs).1.exec c := if_pos hc
        have ho := hinv.outcome hc
        have hinv' := hinv.step c
        rw [hstep] at hinv' ⊢
        refine ⟨halone.step hinv' hc honly ho, ?_, ?_⟩
        · rw [List.filter_cons_of_pos (by simpa using hc)]
          exact (halone.toSem hinv.base hc honly ho).trans (congrArg (semStep s · c) hsem)
        · intro u hu
          rcases List.mem_append.1 hu with hu | hu
          · exact htimeout u hu
          · exact halone.not_timedOut hc honly ho hu
      · have hstep : (run step k cs).1.step c = ((run step k cs).1, []) := if_neg hc
        rw [hstep, List.filter_cons_of_neg (by simpa using hc)]
        exact ⟨halone, hsem, by simpa using htimeout⟩
  exact ⟨key.2.1, key.1.granted (run_inv ..).base, key.2.2⟩

/-- The taker waits, is released by an interrupt handler and comes back. -/
theorem one_taker_refines_woken :
    let k := boot 0 false (fun t => if t then 5 else 31) (fun _ => 10) (fun _ : Unit => 0)
      fun _ => .fifo
    let cs := [.startup true, .proceed, .take () (-1), .proceed, .isrRelease (), .irq, .proceed]
    (run step k cs).1.toSem () true = (taken k cs).foldl (semStep ()) ⟨0, false⟩ ∧
      ((run step k cs).1.InCall true (.take ()) →
        ((run step k cs).1.Granted () true ↔ ((run step k cs).1.toSem () true).suspended = false)) ∧
      ∀ u, .timedOut u () ∉ (run step k cs).2 :=
  one_taker_refines 0 false (fun t => if t then 5 else 31) (fun _ => 10) (fun _ => 0)
    (fun _ => .fifo)
    [.startup true, .proceed, .take () (-1), .proceed, .isrRelease (), .irq, .proceed] () true (by decide)

end

end Kernel

end Tdps
