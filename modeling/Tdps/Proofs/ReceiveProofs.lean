import Tdps.Receive

/-!
# Proofs: no byte and no wake-up is lost

Whenever no interrupt is in progress and the ring buffer holds a byte, the thread is on its way to the
next read: `sem_decoder` counts a release if it is about to wait, and it has been resumed if it did
(`Awake`). So the thread waits only when it has processed everything.
-/

namespace Tdps.Receive

open Machine

theorem length_eq_zero {f : RxFifo} : f.rxLength = 0 ↔ f.contents = [] := by
  rw [RxFifo.rxLength_eq, Ring.distance_eq_zero, RxFifo.contents_eq_nil]

/-! ## The steps one by one -/

theorem step_irq_cases (s : Receive) :
    s.step .irq = (s, []) ∨ s.step .irq = ({ s with isr := .getc }, []) := by
  unfold step
  dsimp only
  split_ifs
  · exact Or.inr rfl
  · exact Or.inl rfl

theorem step_getc_some {s : Receive} (hi : s.isr = .getc) (ch : UInt8) :
    s.step (.getc (some ch)) = ({ s with rx_fifo := s.rx_fifo.put ch }, [.received ch]) := by
  unfold step
  dsimp only
  rw [if_pos hi]

theorem step_getc_none {s : Receive} (hi : s.isr = .getc) :
    s.step (.getc none) = ({ s with isr := if s.rx_indicate then .length else .idle }, []) := by
  unfold step
  dsimp only
  rw [if_pos hi]

theorem step_getc_disabled {s : Receive} (hi : s.isr ≠ .getc) (ch : Option UInt8) :
    s.step (.getc ch) = (s, []) := by
  unfold step
  dsimp only
  rw [if_neg hi]

section Thread

variable {s : Receive}

theorem thread_set_rx_indicate (hpc : s.pc = .set_rx_indicate) :
    s.stepThread = ({ s with rx_indicate := true, pc := .read }, []) := by
  unfold stepThread
  rw [hpc]

theorem thread_read_none (hpc : s.pc = .read) (h : s.rx_fifo.intRx = none) :
    s.stepThread = ({ s with pc := .take }, []) := by
  unfold stepThread
  rw [hpc]
  dsimp only
  rw [h]

theorem thread_read_some (hpc : s.pc = .read) {buffer : UInt8} {rx_fifo : RxFifo}
    (h : s.rx_fifo.intRx = some (buffer, rx_fifo)) :
    s.stepThread = ({ s with rx_fifo := rx_fifo, pc := .switch buffer }, []) := by
  unfold stepThread
  rw [hpc]
  dsimp only
  rw [h]

theorem thread_take (hpc : s.pc = .take) (hv : 0 < s.sem_decoder.value) :
    s.stepThread =
      ({ s with
          sem_decoder := { s.sem_decoder with value := s.sem_decoder.value - 1 }
          pc := .read }, []) := by
  unfold stepThread Sem.take
  rw [hpc]
  dsimp only
  rw [if_pos hv]
  rfl

theorem thread_take_suspends (hpc : s.pc = .take) (hv : ¬ 0 < s.sem_decoder.value) :
    s.stepThread =
      ({ s with
          sem_decoder := { s.sem_decoder with suspended := true }
          pc := .suspended }, []) := by
  unfold stepThread Sem.take
  rw [hpc]
  dsimp only
  rw [if_neg hv]
  rfl

theorem thread_suspended (hpc : s.pc = .suspended) (h : s.sem_decoder.suspended = true) :
    s.stepThread = (s, []) := by
  unfold stepThread
  rw [hpc]
  dsimp only
  rw [if_pos h]

theorem thread_resumed (hpc : s.pc = .suspended) (h : ¬ s.sem_decoder.suspended = true) :
    s.stepThread = ({ s with pc := .read }, []) := by
  unfold stepThread
  rw [hpc]
  dsimp only
  rw [if_neg h]

theorem thread_switch {buffer : UInt8} (hpc : s.pc = .switch buffer) :
    s.stepThread =
      ({ s with dec := (s.dec.feed buffer).1, pc := .read },
        [.processed buffer (s.dec.feed buffer).2]) := by
  unfold stepThread
  rw [hpc]

end Thread

/-! ## The wake-up -/

/-- What holds in every reachable state. -/
structure Awake (s : Receive) : Prop where
  registered : s.pc ≠ .set_rx_indicate → s.rx_indicate = true
  waiting : s.sem_decoder.suspended = true → s.pc = .suspended
  take : s.isr = .idle → s.rx_fifo.contents ≠ [] → s.pc = .take → 0 < s.sem_decoder.value
  resumed : s.isr = .idle → s.rx_fifo.contents ≠ [] → s.pc = .suspended →
    s.sem_decoder.suspended = false

theorem awake_init : init.Awake where
  registered := fun h => absurd rfl h
  waiting := by
    intro h
    cases h
  take := by
    intro _ _ h
    cases h
  resumed := by
    intro _ _ h
    cases h

/-- Nothing has to be known about the semaphore while a handler runs, while nothing is there to be
read, or while the thread neither waits nor is about to. -/
theorem awake_of_busy {s : Receive} (hr : s.pc ≠ .set_rx_indicate → s.rx_indicate = true)
    (hw : s.sem_decoder.suspended = true → s.pc = .suspended)
    (h : s.isr ≠ .idle ∨ s.rx_fifo.contents = [] ∨ s.pc ≠ .take ∧ s.pc ≠ .suspended) : s.Awake := by
  refine ⟨hr, hw, ?_, ?_⟩
  · intro hidle hne hpc
    rcases h with h | h | h
    · exact absurd hidle h
    · exact absurd h hne
    · exact absurd hpc h.1
  · intro hidle hne hpc
    rcases h with h | h | h
    · exact absurd hidle h
    · exact absurd h hne
    · exact absurd hpc h.2

theorem awake_getc {s : Receive} (h : s.Awake) (ch : Option UInt8) :
    (s.step (.getc ch)).1.Awake := by
  by_cases hi : s.isr = .getc
  · cases ch with
    | some ch =>
      rw [step_getc_some hi]
      exact awake_of_busy h.registered h.waiting (Or.inl (by rw [hi]; decide))
    | none =>
      rw [step_getc_none hi]
      refine awake_of_busy h.registered h.waiting ?_
      -- the handler returns without a release only while no callback is registered
      by_cases hr : s.rx_indicate = true
      · left
        show (if s.rx_indicate then Isr.length else Isr.idle) ≠ .idle
        rw [if_pos hr]
        decide
      · right
        right
        have hpc : s.pc = .set_rx_indicate := by
          by_contra hne
          exact hr (h.registered hne)
        show s.pc ≠ .take ∧ s.pc ≠ .suspended
        rw [hpc]
        decide
  · rw [step_getc_disabled hi]
    exact h

/-- A release while the thread waits or is about to wait. -/
theorem awake_release {s : Receive} (h : s.Awake) :
    ({ s with sem_decoder := s.sem_decoder.release, isr := .idle } : Receive).Awake := by
  refine ⟨h.registered, ?_, ?_, ?_⟩
  · intro hs
    refine h.waiting ?_
    by_contra hns
    have hfalse : s.sem_decoder.release.suspended = false := s.sem_decoder.release_suspended
    rw [show s.sem_decoder.release.suspended = true from hs] at hfalse
    cases hfalse
  · intro _ _ hpc
    apply s.sem_decoder.release_value_pos
    intro hs
    have hpc' := h.waiting hs
    rw [show s.pc = .take from hpc] at hpc'
    cases hpc'
  · intro _ _ _
    exact s.sem_decoder.release_suspended

theorem awake_isr {s : Receive} (h : s.Awake) : s.stepIsr.Awake := by
  unfold stepIsr
  split
  · split_ifs with hlen
    · exact awake_of_busy h.registered h.waiting (Or.inl (by simp))
    · exact awake_of_busy h.registered h.waiting (Or.inr (Or.inl (length_eq_zero.1 (not_not.1 hlen))))
  · exact awake_release h
  · exact h

/-- Unless the thread is suspended its semaphore does not list it. -/
theorem not_suspended {s : Receive} (h : s.Awake) (hpc : s.pc ≠ .suspended) :
    s.sem_decoder.suspended = true → False :=
  fun hs => hpc (h.waiting hs)

theorem awake_thread {s : Receive} (h : s.Awake) : s.stepThread.1.Awake := by
  cases hpc : s.pc with
  | set_rx_indicate =>
    have hns := not_suspended h (by simp [hpc])
    rw [thread_set_rx_indicate hpc]
    exact awake_of_busy (fun _ => rfl) (fun hs => (hns hs).elim) (Or.inr (Or.inr (by simp)))
  | read =>
    have hns := not_suspended h (by simp [hpc])
    have hr := h.registered (by simp [hpc])
    cases hrx : s.rx_fifo.intRx with
    | none =>
      rw [thread_read_none hpc hrx]
      exact awake_of_busy (fun _ => hr) (fun hs => (hns hs).elim)
        (Or.inr (Or.inl (RxFifo.intRx_eq_none.1 hrx)))
    | some p =>
      rw [thread_read_some hpc hrx]
      exact awake_of_busy (fun _ => hr) (fun hs => (hns hs).elim) (Or.inr (Or.inr (by simp)))
  | take =>
    have hns := not_suspended h (by simp [hpc])
    have hr := h.registered (by simp [hpc])
    by_cases hv : 0 < s.sem_decoder.value
    · rw [thread_take hpc hv]
      exact awake_of_busy (fun _ => hr) (fun hs => (hns hs).elim) (Or.inr (Or.inr (by simp)))
    · -- the thread is suspended only when there is nothing to read
      rw [thread_take_suspends hpc hv]
      refine ⟨fun _ => hr, fun _ => rfl, ?_, ?_⟩
      · intro _ _ hpc'
        cases hpc'
      · intro hidle hne _
        exact absurd (h.take hidle hne hpc) hv
  | suspended =>
    have hr := h.registered (by simp [hpc])
    by_cases hs : s.sem_decoder.suspended = true
    · rw [thread_suspended hpc hs]
      exact h
    · rw [thread_resumed hpc hs]
      exact awake_of_busy (fun _ => hr) (fun hs' => absurd hs' hs) (Or.inr (Or.inr (by simp)))
  | switch buffer =>
    have hns := not_suspended h (by simp [hpc])
    have hr := h.registered (by simp [hpc])
    rw [thread_switch hpc]
    exact awake_of_busy (fun _ => hr) (fun hs => (hns hs).elim) (Or.inr (Or.inr (by simp)))

theorem awake_step {s : Receive} (c : Choice) (h : s.Awake) : (s.step c).1.Awake := by
  cases c with
  | irq =>
    rcases step_irq_cases s with e | e <;> rw [e]
    · exact h
    · exact awake_of_busy h.registered h.waiting (Or.inl (by simp))
  | getc ch => exact awake_getc h ch
  | isr => exact awake_isr h
  | thread => exact awake_thread h

theorem awake_run (cs : List Choice) : (run step init cs).1.Awake :=
  run_invariant step awake_init (fun _ c h => awake_step c h) cs

/-! ## The order of the bytes -/

theorem received_append (tr tr' : List Act) : received (tr ++ tr') = received tr ++ received tr' :=
  List.filterMap_append

theorem processed_append (tr tr' : List Act) : processed (tr ++ tr') = processed tr ++ processed tr' :=
  List.filterMap_append

theorem events_append (tr tr' : List Act) : events (tr ++ tr') = events tr ++ events tr' :=
  List.flatMap_append

/-- What a step can do to the thread's byte and the ring buffer: the thread processes the first pending
byte, or the handler stores one behind the others, or nothing happens to them. -/
theorem step_bytes (s : Receive) (c : Choice) :
    (∃ ch, c = .getc (some ch) ∧ s.isr = .getc ∧
        s.step c = ({ s with rx_fifo := s.rx_fifo.put ch }, [.received ch])) ∨
      (∃ buffer, s.pc = .switch buffer ∧ (s.step c).1.pending = s.rx_fifo.contents ∧
        (s.step c).1.dec = (s.dec.feed buffer).1 ∧
        (s.step c).2 = [.processed buffer (s.dec.feed buffer).2]) ∨
      ((s.step c).1.pending = s.pending ∧ (s.step c).1.dec = s.dec ∧ (s.step c).2 = []) := by
  cases c with
  | irq =>
    right
    right
    rcases step_irq_cases s with e | e <;> rw [e] <;> exact ⟨rfl, rfl, rfl⟩
  | getc ch =>
    by_cases hi : s.isr = .getc
    · cases ch with
      | some ch => exact Or.inl ⟨ch, rfl, hi, step_getc_some hi ch⟩
      | none =>
        rw [step_getc_none hi]
        exact Or.inr (Or.inr ⟨rfl, rfl, rfl⟩)
    · rw [step_getc_disabled hi]
      exact Or.inr (Or.inr ⟨rfl, rfl, rfl⟩)
  | isr =>
    right
    right
    show s.stepIsr.pending = s.pending ∧ s.stepIsr.dec = s.dec ∧ ([] : List Act) = []
    unfold stepIsr
    split
    · split_ifs <;> exact ⟨rfl, rfl, rfl⟩
    · exact ⟨rfl, rfl, rfl⟩
    · exact ⟨rfl, rfl, rfl⟩
  | thread =>
    right
    show (∃ buffer, s.pc = .switch buffer ∧ s.stepThread.1.pending = s.rx_fifo.contents ∧
        s.stepThread.1.dec = (s.dec.feed buffer).1 ∧
        s.stepThread.2 = [.processed buffer (s.dec.feed buffer).2]) ∨
      (s.stepThread.1.pending = s.pending ∧ s.stepThread.1.dec = s.dec ∧ s.stepThread.2 = [])
    cases hpc : s.pc with
    | set_rx_indicate =>
      rw [thread_set_rx_indicate hpc]
      exact Or.inr ⟨by simp [pending, inHand, hpc], rfl, rfl⟩
    | read =>
      cases hrx : s.rx_fifo.intRx with
      | none =>
        rw [thread_read_none hpc hrx]
        exact Or.inr ⟨by simp [pending, inHand, hpc], rfl, rfl⟩
      | some p =>
        rw [thread_read_some hpc hrx]
        exact Or.inr ⟨by simp [pending, inHand, hpc, RxFifo.contents_of_intRx hrx], rfl, rfl⟩
    | take =>
      by_cases hv : 0 < s.sem_decoder.value
      · rw [thread_take hpc hv]
        exact Or.inr ⟨by simp [pending, inHand, hpc], rfl, rfl⟩
      · rw [thread_take_suspends hpc hv]
        exact Or.inr ⟨by simp [pending, inHand, hpc], rfl, rfl⟩
    | suspended =>
      by_cases hs : s.sem_decoder.suspended = true
      · rw [thread_suspended hpc hs]
        exact Or.inr ⟨rfl, rfl, rfl⟩
      · rw [thread_resumed hpc hs]
        exact Or.inr ⟨by simp [pending, inHand, hpc], rfl, rfl⟩
    | switch buffer =>
      rw [thread_switch hpc]
      exact Or.inl ⟨buffer, rfl, by simp [pending, inHand], rfl, rfl⟩

/-- No step loses, adds or reorders a byte unless the ring buffer overflows. -/
theorem step_conserves {s : Receive} {c : Choice} (hC : s.NoOverflow c) :
    s.pending ++ received (s.step c).2 = processed (s.step c).2 ++ (s.step c).1.pending := by
  rcases step_bytes s c with ⟨ch, rfl, hi, e⟩ | ⟨buffer, hpc, hpend, -, hout⟩ | ⟨hpend, -, hout⟩
  · rw [e]
    show s.inHand ++ s.rx_fifo.contents ++ [ch] = [] ++ (s.inHand ++ (s.rx_fifo.put ch).contents)
    rw [RxFifo.contents_put (hC hi), List.nil_append, List.append_assoc]
  · rw [hout, hpend]
    simp [pending, inHand, hpc, received, processed]
  · rw [hout, hpend]
    simp [received, processed]

theorem run_conserves {cs : List Choice} (hC : Along step NoOverflow init cs) :
    received (run step init cs).2 =
      processed (run step init cs).2 ++ (run step init cs).1.pending := by
  refine run_history_along step
    (I := fun tr s => received tr = processed tr ++ s.pending) rfl ?_ hC
  intro tr s c hc hI
  rw [received_append, processed_append, hI, List.append_assoc, step_conserves hc, List.append_assoc]

/-- The decoder has run over the processed bytes. -/
theorem run_decoded (cs : List Choice) :
    Decoder.decode (Decoder.start Bytes4.zero) (processed (run step init cs).2) =
      ((run step init cs).1.dec, events (run step init cs).2) := by
  refine run_history step
    (I := fun tr s => Decoder.decode (Decoder.start Bytes4.zero) (processed tr) = (s.dec, events tr))
    rfl ?_ cs
  intro tr s c hI
  rw [processed_append, events_append]
  rcases step_bytes s c with ⟨ch, rfl, -, e⟩ | ⟨buffer, -, -, hdec, hout⟩ | ⟨-, hdec, hout⟩
  · rw [e]
    simpa [processed, events] using hI
  · rw [hdec, hout]
    show Decoder.decode _ (processed tr ++ [buffer]) = (_, events tr ++ ((s.dec.feed buffer).2 ++ []))
    unfold Decoder.decode at hI ⊢
    rw [run_snoc, hI, List.append_nil]
  · rw [hdec, hout]
    simpa [processed, events] using hI

/-! ## The thread alone -/

/-- From the top of its loop the thread processes what is in the ring buffer. -/
theorem drain {s : Receive} (hpc : s.pc = .read) :
    ∃ n, processed (run step s (List.replicate n .thread)).2 = s.rx_fifo.contents := by
  induction hbytes : s.rx_fifo.contents generalizing s with
  | nil => exact ⟨0, rfl⟩
  | cons b bytes ih =>
    cases hrx : s.rx_fifo.intRx with
    | none =>
      rw [RxFifo.intRx_eq_none.1 hrx] at hbytes
      cases hbytes
    | some p =>
      have hcons : s.rx_fifo.contents = p.1 :: p.2.contents := RxFifo.contents_of_intRx hrx
      rw [hbytes] at hcons
      obtain ⟨rfl, rfl⟩ := List.cons.inj hcons
      -- one step reads the byte, the next one processes it
      have h1 : s.step .thread = ({ s with rx_fifo := p.2, pc := .switch p.1 }, []) :=
        thread_read_some hpc hrx
      have h2 := thread_switch (s := { s with rx_fifo := p.2, pc := .switch p.1 }) rfl
      obtain ⟨n, hn⟩ := ih
        (s := { s with rx_fifo := p.2, dec := (s.dec.feed p.1).1, pc := .read }) rfl rfl
      refine ⟨n + 2, ?_⟩
      rw [List.replicate_succ, List.replicate_succ, run_cons, h1, run_cons]
      show processed ([] ++ ((stepThread _).2 ++ (run step (stepThread _).1 _).2)) = _
      rw [h2, List.nil_append, processed_append, hn]
      rfl

/-- With no interrupt in progress the thread alone processes everything that is pending. -/
theorem thread_finishes {s : Receive} (h : s.Awake) (hidle : s.isr = .idle) :
    ∃ n, processed (run step s (List.replicate n .thread)).2 = s.pending := by
  -- one step leads to the top of the loop, or there is nothing to do
  have hone : ∀ {t : Receive} {out : List Act}, s.stepThread = (t, out) → t.pc = .read →
      processed out ++ t.rx_fifo.contents = s.pending →
      ∃ n, processed (run step s (List.replicate n .thread)).2 = s.pending := by
    intro t out hstep hpc hbytes
    obtain ⟨n, hn⟩ := drain hpc
    refine ⟨n + 1, ?_⟩
    have h1 : s.step .thread = (t, out) := hstep
    rw [List.replicate_succ, run_cons, h1, processed_append, hn, hbytes]
  cases hpc : s.pc with
  | set_rx_indicate =>
    exact hone (thread_set_rx_indicate hpc) rfl (by simp [pending, inHand, hpc, processed])
  | read =>
    obtain ⟨n, hn⟩ := drain hpc
    exact ⟨n, by simpa [pending, inHand, hpc] using hn⟩
  | take =>
    by_cases hnil : s.rx_fifo.contents = []
    · exact ⟨0, by simp [pending, inHand, hpc, hnil, processed]⟩
    · exact hone (thread_take hpc (h.take hidle hnil hpc)) rfl
        (by simp [pending, inHand, hpc, processed])
  | suspended =>
    by_cases hnil : s.rx_fifo.contents = []
    · exact ⟨0, by simp [pending, inHand, hpc, hnil, processed]⟩
    · have hs := h.resumed hidle hnil hpc
      exact hone (thread_resumed hpc (by simp [hs])) rfl (by simp [pending, inHand, hpc, processed])
  | switch buffer =>
    exact hone (thread_switch hpc) rfl (by simp [pending, inHand, hpc, processed])

/-- **No lost wake-up.** In every run in which the ring buffer does not overflow the decoder processes
the received bytes in order, each one once. It never waits for `sem_decoder` with a byte in the ring
buffer and no interrupt in progress, and whenever no interrupt is in progress its own steps suffice to
process all that was received. -/
theorem no_lost_wakeup (cs : List Choice) (hC : Along step NoOverflow init cs) :
    received (run step init cs).2 =
        processed (run step init cs).2 ++ (run step init cs).1.inHand ++
          (run step init cs).1.rx_fifo.contents ∧
      Decoder.decode (Decoder.start Bytes4.zero) (processed (run step init cs).2) =
        ((run step init cs).1.dec, events (run step init cs).2) ∧
      ((run step init cs).1.Blocked → (run step init cs).1.isr = .idle →
        (run step init cs).1.rx_fifo.contents = []) ∧
      ((run step init cs).1.isr = .idle →
        ∃ n, processed (run step init (cs ++ List.replicate n .thread)).2 =
          received (run step init cs).2) := by
  have hcons := run_conserves hC
  have hawake := awake_run cs
  refine ⟨?_, run_decoded cs, ?_, ?_⟩
  · rw [hcons, pending, List.append_assoc]
  · rintro ⟨hpc, hs⟩ hidle
    by_contra hne
    rw [hawake.resumed hidle hne hpc] at hs
    cases hs
  · intro hidle
    obtain ⟨n, hn⟩ := thread_finishes hawake hidle
    refine ⟨n, ?_⟩
    rw [run_append, processed_append, hn, hcons]

/-- A byte arrives before the callback is registered, the second one while the thread waits. -/
def twoBytes : List Choice :=
  [.irq, .getc (some 0xAA), .getc none, .thread, .thread, .thread, .thread, .thread, .thread, .irq,
    .getc (some 0x01), .getc none, .isr, .isr]

theorem no_lost_wakeup_two_bytes :
    ∃ n, processed (run step init (twoBytes ++ List.replicate n .thread)).2 =
      received (run step init twoBytes).2 :=
  (no_lost_wakeup twoBytes (by decide)).2.2.2 (by decide)

end Tdps.Receive
