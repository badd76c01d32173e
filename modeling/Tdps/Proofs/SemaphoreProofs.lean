import Tdps.Lib.Line
import Tdps.Proofs.WaitingProofs

/-!
# The semaphores of the kernel

No unit of a semaphore is lost or made (`units_conserved`), and the threads that wait for one are served
in turn (`no_overtaking`), however threads, ticks and interrupt handlers follow each other.
-/

namespace Tdps

open Machine

namespace Kernel

variable {τ ς : Type} [DecidableEq τ] [DecidableEq ς] {k k' : Kernel τ ς} {t u : τ} {s : ς}
variable {c : Choice τ ς} {es tr : List (Event τ ς)}

/-! ## Units -/

/-- A thread has got a unit: `rt_sem_take` has returned `RT_EOK`. -/
def Event.takes (s : ς) : Event τ ς → Bool
  | took _ s' => s' = s
  | _ => false

/-- The thread has been handed a unit for which it waited, and `rt_sem_take` has not returned yet. -/
def Granted (k : Kernel τ ς) (s : ς) (t : τ) : Prop :=
  k.InCall t (.take s) ∧ (k.thread t).stat ≠ .suspend ∧ (k.thread t).error = .RT_EOK

omit [DecidableEq τ] [DecidableEq ς] in
theorem Same.granted (h : Same k k' t) : k'.Granted s t ↔ k.Granted s t := by
  unfold Granted
  rw [h.take, h.error, ne_eq, ne_eq, h.suspend]

omit [DecidableEq τ] [DecidableEq ς] in
theorem Waits.granted {c : Call ς} (h : Waits k k' c) : k'.Granted s t ↔ k.Granted s t := by
  by_cases ht : t = k.rt_current_thread
  · refine iff_of_false ?_ ?_
    · rintro ⟨-, hs, -⟩
      rw [ht] at hs
      exact hs h.suspend
    · rintro ⟨hcall, -⟩
      rw [ht] at hcall
      exact not_inCall h.user _ hcall
  · exact (h.same t ht).granted

/-- A thread on the semaphore's list has no error number. -/
def NoError (k : Kernel τ ς) (s : ς) (t : τ) : Prop :=
  (k.thread t).stat = .suspend → k.InCall t (.take s) → (k.thread t).error = .RT_EOK

omit [DecidableEq τ] [DecidableEq ς] in
theorem Same.noError (h : Same k k' t) (hk : k.NoError s t) : k'.NoError s t := by
  unfold NoError
  rw [h.suspend, h.take, h.error]
  exact hk

theorem Outcome.noError (h : Outcome k k' c es) (hk : ∀ t, k.NoError s t) : k'.NoError s t := by
  have hwoke : ∀ ts, Woke k k' ts → k'.NoError s t := by
    intro ts hwoke
    by_cases ht : t ∈ ts
    · exact fun hs => absurd hs (hwoke.awake t ht)
    · exact (hwoke.same t ht).noError (hk t)
  have hwaits : ∀ c, Waits k k' c → k'.NoError s t := by
    intro c hwaits
    by_cases ht : t = k.rt_current_thread
    · rw [ht]
      exact fun _ _ => hwaits.error
    · exact (hwaits.same t ht).noError (hk t)
  cases h with
  | quiet c es hc hcheck hsem hsame hes => exact (hsame t).noError (hk t)
  | took s' time hvalue hsem hsame => exact (hsame t).noError (hk t)
  | poll s' hvalue hk' => exact hk' ▸ hk t
  | waits s' time htime hvalue hsem hw htimer hforever => exact hwaits _ hw
  | sleeps tick hsem hw htimer => exact hwaits _ hw
  | gave s' c hc hlist hmax hsem hsame => exact (hsame t).noError (hk t)
  | handed s' c hc t' l hlist hw herror => exact hwoke _ hw
  | full s' c hc hlist hmax hk' => exact hk' ▸ hk t
  | returns c hirq hpc hpc' hrunning hsem hpriority hsame =>
    by_cases ht : t = k.rt_current_thread
    · rw [ht]
      exact fun _ hcall => absurd hcall (not_inCall hpc' _)
    · exact (hsame t ht).noError (hk t)
  | timeouts ts hcheck hnodup hdue hw herror => exact hwoke _ hw

/-- The units of the semaphore, `value` at first, are accounted for: those given by releases are its value,
the units that threads have got, and one for each thread that was handed one and is to return with it. -/
structure Account (value : ℕ) (s : ς) (tr : List (Event τ ς)) (k : Kernel τ ς) : Prop where
  error : ∀ t, k.NoError s t
  units : ∃ granted : Finset τ, (∀ t, t ∈ granted ↔ k.Granted s t) ∧
    (k.sem s).value + tr.countP (Event.takes s) + granted.card = value + tr.count (.released s)

/-- What happens to the value and to the granted threads shows in the events. -/
theorem Account.of_granted {value : ℕ} (h : Account value s tr k) (ho : Outcome k k' c es)
    (hgranted : ∀ t, k'.Granted s t ↔ k.Granted s t)
    (hunits : (k'.sem s).value + es.countP (Event.takes s) = (k.sem s).value + es.count (.released s)) :
    Account value s (tr ++ es) k' := by
  obtain ⟨granted, hmem, hsum⟩ := h.units
  refine ⟨fun t => ho.noError h.error, granted, fun t => (hmem t).trans (hgranted t).symm, ?_⟩
  rw [List.countP_append, List.count_append]
  omega

omit [DecidableEq τ] in
/-- A change of the value of a semaphore. -/
theorem value_update {s' : ς} {v : ℕ}
    (hsem : k'.sem = Function.update k.sem s' { k.sem s' with value := v }) :
    (k'.sem s).value = if s' = s then v else (k.sem s).value := by
  rw [hsem]
  by_cases hs : s' = s
  · rw [hs, Function.update_self, if_pos rfl]
  · rw [Function.update_of_ne (Ne.symm hs), if_neg hs]

/-- A thread that was handed a unit comes back with it. -/
theorem Account.returns {value : ℕ} (h : Account value s tr k) (ho : Outcome k k' c es)
    (hgranted : k.Granted s k.rt_current_thread) (hpc' : k'.pc k.rt_current_thread = .user)
    (hsame : ∀ t, t ≠ k.rt_current_thread → Same k k' t) (hsem : k'.sem = k.sem)
    (hes : es = [.took k.rt_current_thread s]) : Account value s (tr ++ es) k' := by
  obtain ⟨granted, hmem, hsum⟩ := h.units
  have hcur : k.rt_current_thread ∈ granted := (hmem _).2 hgranted
  refine ⟨fun t => ho.noError h.error, granted.erase k.rt_current_thread, ?_, ?_⟩
  · intro t
    rw [Finset.mem_erase]
    by_cases ht : t = k.rt_current_thread
    · rw [ht]
      exact iff_of_false (fun hno => hno.1 rfl) fun hg => not_inCall hpc' _ hg.1
    · rw [(hsame t ht).granted, ← hmem]
      exact and_iff_right ht
  · have hcard := Finset.card_erase_add_one hcur
    rw [hes, hsem, List.countP_append, List.count_append]
    simp [Event.takes]
    omega

/-- A thread that waits is handed a unit. -/
theorem Account.handed {value : ℕ} (h : Account value s tr k) (ho : Outcome k k' c es)
    (hcall : k.InCall t (.take s)) (hwoke : Woke k k' [t])
    (herror : (k'.thread t).error = (k.thread t).error) (hes : es = [.released s]) :
    Account value s (tr ++ es) k' := by
  obtain ⟨granted, hmem, hsum⟩ := h.units
  have ht : t ∈ [t] := List.mem_singleton_self t
  have hnot : t ∉ granted := fun hg => ((hmem t).1 hg).2.1 (hwoke.was t ht)
  refine ⟨fun t => ho.noError h.error, insert t granted, ?_, ?_⟩
  · intro u
    rw [Finset.mem_insert]
    by_cases hu : u = t
    · rw [hu]
      refine iff_of_true (Or.inl rfl) ⟨((hwoke.call t ht).take s).2 hcall, hwoke.awake t ht, ?_⟩
      rw [herror]
      exact h.error t (hwoke.was t ht) hcall
    · rw [(hwoke.same u (by simpa using hu)).granted, ← hmem]
      exact or_iff_right hu
  · rw [Finset.card_insert_of_notMem hnot, hwoke.sem, hes, List.countP_append, List.count_append]
    simp [Event.takes]
    omega

/-- **Step lemma.** -/
theorem Account.step {value : ℕ} (hbase : k.Base []) (h : Account value s tr k)
    (ho : Outcome k k' c es) : Account value s (tr ++ es) k' := by
  have hout := ho
  cases ho with
  | quiet c es hc hcheck hsem hsame hes =>
    refine h.of_granted hout (fun t => (hsame t).granted) ?_
    rw [hsem]
    rcases hes with ⟨-, rfl⟩ | ⟨-, rfl⟩ <;> rfl
  | took s' time hvalue hsem hsame =>
    refine h.of_granted hout (fun t => (hsame t).granted) ?_
    rw [value_update hsem]
    split_ifs with hs
    · subst hs
      simp [Event.takes]
      omega
    · simp [Event.takes, hs]
  | poll s' hvalue hk =>
    rw [hk] at hout ⊢
    exact h.of_granted hout (fun t => Iff.rfl) (by simp [Event.takes])
  | waits s' time htime hvalue hsem hwaits htimer hforever =>
    refine h.of_granted hout (fun t => hwaits.granted) ?_
    rw [hsem]
    by_cases hs : s = s'
    · rw [hs, Function.update_self]
      rfl
    · rw [Function.update_of_ne hs]
      rfl
  | sleeps tick hsem hwaits htimer =>
    refine h.of_granted hout (fun t => hwaits.granted) ?_
    rw [hsem]
    rfl
  | gave s' c hc hlist hmax hsem hsame =>
    refine h.of_granted hout (fun t => (hsame t).granted) ?_
    rw [value_update hsem]
    split_ifs with hs
    · subst hs
      simp [Event.takes]
    · simp [Event.takes, hs]
  | handed s' c hc t l hlist hwoke herror =>
    obtain ⟨-, hcall⟩ := hbase.head_waits hlist
    by_cases hs : s' = s
    · subst hs
      exact h.handed hout hcall hwoke herror rfl
    · refine h.of_granted hout ?_ ?_
      · intro u
        by_cases hu : u = t
        · have hno : ¬ k.InCall t (.take s) := fun hc => by
            cases hcall.unique hc
            exact hs rfl
          rw [hu]
          refine iff_of_false (fun hg => hno ?_) fun hg => hno hg.1
          exact ((hwoke.call t (List.mem_singleton_self t)).take s).1 hg.1
        · exact (hwoke.same u (by simpa using hu)).granted
      · rw [hwoke.sem]
        simp [Event.takes, hs]
  | full s' c hc hlist hmax hk =>
    rw [hk] at hout ⊢
    exact h.of_granted hout (fun t => Iff.rfl) (by simp [Event.takes])
  | returns c hirq hpc hpc' hrunning hsem hpriority hsame =>
    by_cases hgranted : k.Granted s k.rt_current_thread
    · cases (InCall.unique (Or.inr hpc) hgranted.1 : c = .take s)
      exact h.returns hout hgranted hpc' hsame hsem (if_pos hgranted.2.2)
    · refine h.of_granted hout ?_ ?_
      · intro t
        by_cases ht : t = k.rt_current_thread
        · rw [ht]
          exact iff_of_false (fun hg => not_inCall hpc' _ hg.1) hgranted
        · exact (hsame t ht).granted
      · rw [hsem]
        cases c with
        | take s' =>
          dsimp only
          split_ifs with he
          · have hs : s' ≠ s := by
              rintro rfl
              exact hgranted ⟨Or.inr hpc, by rw [hrunning]; decide, he⟩
            simp [Event.takes, hs]
          · simp [Event.takes]
        | sleep => rfl
        | exit => rfl
        | other => rfl
  | timeouts ts hcheck hnodup hdue hwoke herror =>
    refine h.of_granted hout ?_ ?_
    · intro t
      by_cases ht : t ∈ ts
      · refine iff_of_false ?_ fun hg => hg.2.1 (hwoke.was t ht)
        rintro ⟨-, -, he⟩
        rw [herror t ht] at he
        cases he
      · exact (hwoke.same t ht).granted
    · rw [hwoke.sem]
      rfl

section
variable (rt_tick : RtTick) (idle : τ) (priority : τ → Priority) (tick : τ → RtTick) (value : ς → ℕ)
variable (flag : ς → IpcFlag) (cs : List (Choice τ ς))

/-- **No unit of a semaphore is lost or made.** In every run of threads, ticks and interrupt handlers, the
units a semaphore had at first and those released since are its value, the units that calls of
`rt_sem_take` have returned with, and one for each thread that was handed a unit and has not returned yet;
a call that fails with `-RT_ETIMEOUT` has none. And no thread waits while there is a unit to take. -/
theorem units_conserved (s : ς) :
    Account (value s) s (run step (boot rt_tick idle priority tick value flag) cs).2
        (run step (boot rt_tick idle priority tick value flag) cs).1 ∧
      (0 < ((run step (boot rt_tick idle priority tick value flag) cs).1.sem s).value →
        ((run step (boot rt_tick idle priority tick value flag) cs).1.sem s).suspend_thread = []) := by
  have key := run_history step (s := boot rt_tick idle priority tick value flag)
    (I := fun tr k => k.Inv ∧ Account (value s) s tr k) ⟨inv_boot .., ?_⟩ ?_ cs
  · exact ⟨key.2, key.1.base.value s⟩
  · refine ⟨fun t _ hcall => absurd hcall (not_inCall rfl _), ∅, ?_, rfl⟩
    intro t
    refine iff_of_false (Finset.notMem_empty t) fun hg => not_inCall ?_ _ hg.1
    rfl
  · rintro tr k c ⟨hk, haccount⟩
    refine ⟨hk.step c, ?_⟩
    rcases hk.step_or c with ⟨ho, -⟩ | hno
    · exact haccount.step hk.base ho
    · rw [hno, List.append_nil]
      exact haccount

end

/-! ## Waiting in turn -/

theorem Outcome.priority (h : Outcome k k' c es) (t : τ) :
    (k'.thread t).current_priority = (k.thread t).current_priority := by
  have hwoke : ∀ ts, Woke k k' ts → (k'.thread t).current_priority = (k.thread t).current_priority := by
    intro ts hwoke
    by_cases ht : t ∈ ts
    · exact (hwoke.call t ht).priority
    · exact (hwoke.same t ht).priority
  have hwaits : ∀ c, Waits k k' c →
      (k'.thread t).current_priority = (k.thread t).current_priority := by
    intro c hwaits
    by_cases ht : t = k.rt_current_thread
    · rw [ht]
      exact hwaits.priority
    · exact (hwaits.same t ht).priority
  cases h with
  | quiet c es hc hcheck hsem hsame hes => exact (hsame t).priority
  | took s' time hvalue hsem hsame => exact (hsame t).priority
  | poll s' hvalue hk => rw [hk]
  | waits s' time htime hvalue hsem hw htimer hforever => exact hwaits _ hw
  | sleeps tick hsem hw htimer => exact hwaits _ hw
  | gave s' c hc hlist hmax hsem hsame => exact (hsame t).priority
  | handed s' c hc t' l hlist hw herror => exact hwoke _ hw
  | full s' c hc hlist hmax hk => rw [hk]
  | returns c hirq hpc hpc' hrunning hsem hpriority hsame =>
    by_cases ht : t = k.rt_current_thread
    · rw [ht]
      exact hpriority
    · exact (hsame t ht).priority
  | timeouts ts hcheck hnodup hdue hw herror => exact hwoke _ hw

/-- What a step does to a semaphore's list: it stays, the current thread joins it, the first thread is
handed a unit, or threads leave it because their time is over. -/
inductive ListStep (k k' : Kernel τ ς) (s : ς) : Prop
  | stays (h : (k'.sem s).suspend_thread = (k.sem s).suspend_thread)
  | joins (h : (k'.sem s).suspend_thread =
      k.ipcListInsert k.rt_current_thread (k.sem s).suspend_thread (k.sem s).flag)
  | handed (t : τ) (h : (k.sem s).suspend_thread = t :: (k'.sem s).suspend_thread)
  | timeouts (ts : List τ) (h : (k'.sem s).suspend_thread = (k.sem s).suspend_thread.filter (· ∉ ts))
      (herror : ∀ t ∈ ts, (k'.thread t).error = .RT_ETIMEOUT)

theorem Outcome.list (h : Outcome k k' c es) (hbase : k.Base []) (s : ς) :
    ListStep k k' s ∧ (k'.sem s).flag = (k.sem s).flag := by
  have hsame : k'.sem s = k.sem s → ListStep k k' s ∧ (k'.sem s).flag = (k.sem s).flag := fun hsem =>
    ⟨.stays (by rw [hsem]), by rw [hsem]⟩
  have hupdate : ∀ s' v, k'.sem = Function.update k.sem s' { k.sem s' with value := v } →
      ListStep k k' s ∧ (k'.sem s).flag = (k.sem s).flag := by
    intro s' v hsem
    by_cases hs : s = s'
    · subst hs
      exact ⟨.stays (by rw [hsem, Function.update_self]), by rw [hsem, Function.update_self]⟩
    · exact hsame (by rw [hsem, Function.update_of_ne hs])
  cases h with
  | quiet c es hc hcheck hsem hsame' hes => exact hsame (by rw [hsem])
  | took s' time hvalue hsem hsame' => exact hupdate s' _ hsem
  | poll s' hvalue hk => exact hsame (by rw [hk])
  | waits s' time htime hvalue hsem hw htimer hforever =>
    by_cases hs : s = s'
    · subst hs
      exact ⟨.joins (by rw [hsem, Function.update_self]), by rw [hsem, Function.update_self]⟩
    · exact hsame (by rw [hsem, Function.update_of_ne hs])
  | sleeps tick hsem hw htimer => exact hsame (by rw [hsem])
  | gave s' c hc hlist hmax hsem hsame' => exact hupdate s' _ hsem
  | handed s' c hc t l hlist hw herror =>
    by_cases hs : s = s'
    · subst hs
      have hnodup := hbase.waiters.nodup s
      rw [hlist] at hnodup
      refine ⟨.handed t ?_, by rw [hw.sem]⟩
      have hrest : l.filter (· ∉ [t]) = l := by
        refine List.filter_eq_self.2 fun u hu => ?_
        simpa using ne_of_mem_of_not_mem hu (List.nodup_cons.1 hnodup).1
      rw [hw.sem, hlist]
      dsimp only
      rw [List.filter_cons_of_neg (by simp), hrest]
    · refine hsame (hw.sem_of_not_mem fun u hu => ?_)
      simpa using ne_of_mem_of_not_mem hu (hbase.head_not_mem hlist hs)
  | full s' c hc hlist hmax hk => exact hsame (by rw [hk])
  | returns c hirq hpc hpc' hrunning hsem hpriority hsame' => exact hsame (by rw [hsem])
  | timeouts ts hcheck hnodup hdue hw herror => exact ⟨.timeouts ts (by rw [hw.sem]) herror, by rw [hw.sem]⟩

/-- The list of a semaphore with `RT_IPC_FLAG_PRIO` is in the order of the priorities. -/
def InOrder (k : Kernel τ ς) (s : ς) : Prop :=
  (k.sem s).flag = .prio → (k.sem s).suspend_thread.Pairwise fun t u =>
    (k.thread t).current_priority ≤ (k.thread u).current_priority

theorem InOrder.step (h : k.InOrder s) (hbase : k.Base []) (ho : Outcome k k' c es) : k'.InOrder s := by
  obtain ⟨hlist, hflag⟩ := ho.list hbase s
  unfold InOrder
  simp only [ho.priority, hflag]
  intro hprio
  cases hlist with
  | stays hl =>
    rw [hl]
    exact h hprio
  | joins hl =>
    rw [hl, hprio]
    exact Line.pairwise_orderedInsert (d := fun t => (k.thread t).current_priority) (h hprio)
  | handed t hl =>
    have hk := h hprio
    rw [hl] at hk
    exact (List.pairwise_cons.1 hk).2
  | timeouts ts hl herror =>
    rw [hl]
    exact (h hprio).filter _

omit [DecidableEq τ] [DecidableEq ς] in
/-- A thread joins the list behind those that wait already, or in the order of the priorities behind
those that have no lower one. -/
theorem InOrder.behind (h : k.InOrder s) (ht : t ∈ (k.sem s).suspend_thread)
    (hle : (k.sem s).flag = .fifo ∨
      (k.thread t).current_priority ≤ (k.thread u).current_priority) :
    [t, u].Sublist (k.ipcListInsert u (k.sem s).suspend_thread (k.sem s).flag) := by
  cases hflag : (k.sem s).flag with
  | fifo => exact Line.sublist_append ht
  | prio =>
    refine Line.sublist_orderedInsert (d := fun t => (k.thread t).current_priority) (h hflag) ht ?_
    refine hle.resolve_left ?_
    rw [hflag]
    decide

/-- Two threads that go on waiting keep their order, and the second one is not handed a unit. -/
theorem Outcome.keeps_order (h : Outcome k k' c es) (hbase : k.Base [])
    (horder : [t, u].Sublist (k.sem s).suspend_thread) :
    (t ∈ (k'.sem s).suspend_thread → u ∈ (k'.sem s).suspend_thread →
      [t, u].Sublist (k'.sem s).suspend_thread) ∧
    (u ∈ (k'.sem s).suspend_thread ∨ (k'.thread u).error = .RT_ETIMEOUT) := by
  have hu : u ∈ (k.sem s).suspend_thread := horder.subset (by simp)
  cases (h.list hbase s).1 with
  | stays hl =>
    rw [hl]
    exact ⟨fun _ _ => horder, Or.inl hu⟩
  | joins hl =>
    rw [hl]
    cases (k.sem s).flag with
    | fifo =>
      exact ⟨fun _ _ => horder.trans (List.sublist_append_left _ _), Or.inl (List.mem_append_left _ hu)⟩
    | prio =>
      exact ⟨fun _ _ => horder.trans (List.sublist_orderedInsert ..),
        Or.inl ((List.mem_orderedInsert _).2 (Or.inr hu))⟩
  | handed v hl =>
    have hnodup := hbase.waiters.nodup s
    rw [hl] at horder hu hnodup
    refine ⟨fun ht _ => ?_, Or.inl ?_⟩
    · have hne : t ≠ v := ne_of_mem_of_not_mem ht (List.nodup_cons.1 hnodup).1
      exact horder.of_cons_of_ne hne
    · exact (List.mem_cons.1 hu).resolve_left (Line.ne_head horder hnodup).symm
  | timeouts ts hl herror =>
    rw [hl]
    refine ⟨fun ht hu => Line.sublist_filter horder ht hu, ?_⟩
    by_cases hts : u ∈ ts
    · exact Or.inr (herror u hts)
    · exact Or.inl (List.mem_filter.2 ⟨hu, by simpa using hts⟩)

section
variable (rt_tick : RtTick) (idle : τ) (priority : τ → Priority) (tick : τ → RtTick) (value : ς → ℕ)
variable (flag : ς → IpcFlag) (cs : List (Choice τ ς))

theorem run_inOrder (s : ς) : (run step (boot rt_tick idle priority tick value flag) cs).1.InOrder s := by
  refine (run_invariant step (I := fun k => k.Inv ∧ k.InOrder s) ⟨inv_boot .., ?_⟩ ?_ cs).2
  · exact fun _ => List.Pairwise.nil
  · rintro k c ⟨hk, horder⟩
    refine ⟨hk.step c, ?_⟩
    rcases hk.step_or c with ⟨ho, -⟩ | hno
    · exact horder.step hk.base ho
    · rw [hno]
      exact horder

/-- **Threads are served in turn.** When the current thread starts to wait for a semaphore for which `t`
waits, and the semaphore serves first come first served or `t` has no lower priority, then as long as `t`
waits, the current thread waits too, unless its own time is over: it never gets a unit before `t`. -/
theorem no_overtaking {s : ς} {time : Int32} {t : τ} {ds : List (Choice τ ς)}
    (hc : (run step (boot rt_tick idle priority tick value flag) cs).1.Enabled (.take s time))
    (htime : time ≠ 0)
    (ht : t ∈ ((run step (boot rt_tick idle priority tick value flag) cs).1.sem s).suspend_thread)
    (hle : let k := (run step (boot rt_tick idle priority tick value flag) cs).1
      (k.sem s).flag = .fifo ∨
        (k.thread t).current_priority ≤ (k.thread k.rt_current_thread).current_priority)
    (hds : let k := (run step (boot rt_tick idle priority tick value flag) cs).1
      Along step (fun k' _ => t ∈ (k'.sem s).suspend_thread ∧
        k.rt_current_thread ∈ (k'.sem s).suspend_thread) (k.step (.take s time)).1 ds) :
    let k := (run step (boot rt_tick idle priority tick value flag) cs).1
    let k' := (run step (k.step (.take s time)).1 ds).1
    k.rt_current_thread ∈ (k'.sem s).suspend_thread ∨
      (k'.thread k.rt_current_thread).error = .RT_ETIMEOUT := by
  intro k k'
  have hk : k.Inv := run_inv ..
  have hvalue : ¬ 0 < (k.sem s).value := by
    intro hpos
    have ht : t ∈ (k.sem s).suspend_thread := ht
    rw [hk.base.value s hpos] at ht
    cases ht
  have hjoin : [t, k.rt_current_thread].Sublist ((k.step (.take s time)).1.sem s).suspend_thread := by
    have hstep : k.step (.take s time) = k.exec (.take s time) := if_pos hc
    obtain ⟨-, hsem, -⟩ := hk.waits_take hc.1 hvalue htime
    rw [hstep, hsem, Function.update_self]
    exact (run_inOrder rt_tick idle priority tick value flag cs s).behind ht hle
  have key : k'.Inv ∧ (t ∈ (k'.sem s).suspend_thread → k.rt_current_thread ∈ (k'.sem s).suspend_thread →
        [t, k.rt_current_thread].Sublist (k'.sem s).suspend_thread) ∧
      (k.rt_current_thread ∈ (k'.sem s).suspend_thread ∨
        (k'.thread k.rt_current_thread).error = .RT_ETIMEOUT) := by
    refine run_history_along step (I := fun _ k' => k'.Inv ∧
      (t ∈ (k'.sem s).suspend_thread → k.rt_current_thread ∈ (k'.sem s).suspend_thread →
        [t, k.rt_current_thread].Sublist (k'.sem s).suspend_thread) ∧
      (k.rt_current_thread ∈ (k'.sem s).suspend_thread ∨
        (k'.thread k.rt_current_thread).error = .RT_ETIMEOUT)) ?_ ?_ hds
    · exact ⟨hk.step _, fun _ _ => hjoin, Or.inl (hjoin.subset (by simp))⟩
    · rintro - k₁ c ⟨ht₁, hu₁⟩ ⟨hk₁, horder, -⟩
      refine ⟨hk₁.step c, ?_⟩
      rcases hk₁.step_or c with ⟨ho, -⟩ | hno
      · exact ho.keeps_order hk₁.base (horder ht₁ hu₁)
      · rw [hno]
        exact ⟨horder, Or.inl hu₁⟩
  exact key.2.2

/-- Two threads wait for one semaphore, and an interrupt handler releases it. -/
theorem no_overtaking_two :
    let k := (run step (boot 0 (0 : Fin 3) (fun t => if t = 0 then 31 else 5) (fun _ => 10) (fun _ : Unit => 0)
        fun _ => .fifo)
      [.startup 1, .proceed, .take () (-1), .proceed, .proceed, .startup 2, .proceed]).1
    let k' := (run step (k.step (.take () 3)).1 [.proceed, .isrRelease ()]).1
    k.rt_current_thread ∈ (k'.sem ()).suspend_thread ∨
      (k'.thread k.rt_current_thread).error = .RT_ETIMEOUT :=
  no_overtaking 0 0 (fun t => if t = 0 then 31 else 5) (fun _ => 10) (fun _ => 0) (fun _ => .fifo)
    [.startup 1, .proceed, .take () (-1), .proceed, .proceed, .startup 2, .proceed] (t := 1)
    (by decide) (by decide) (by decide) (by decide) (by decide)

end

end Kernel

end Tdps
