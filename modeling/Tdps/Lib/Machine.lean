import Mathlib.Data.List.Induction

/-!
# Runs of deterministic machines with output

A machine is a function `f : σ → α → σ × List β`: in state `s` it takes the input `a`, moves to
`(f s a).1` and emits the outputs `(f s a).2`. A nondeterministic system is a machine whose inputs
are the choices of its environment and scheduler; a choice that is not enabled leaves the state as
it is and emits nothing, so every list of choices is a run.

`run` is the run over a list of inputs. The rules below carry a relation between the outputs so far
and the state along a run (`run_history`), also for runs all of whose steps meet a condition
(`run_history_along`), and speak about the place where an output was emitted (`run_emitted_along`).
-/

namespace Machine

variable {σ α β : Type*} (f : σ → α → σ × List β)

/-- The run of `f` from `s` over a list of inputs: the last state and all outputs in order. -/
def run (s : σ) : List α → σ × List β
  | [] => (s, [])
  | a :: as => ((run (f s a).1 as).1, (f s a).2 ++ (run (f s a).1 as).2)

@[simp] theorem run_nil (s : σ) : run f s [] = (s, []) := rfl

theorem run_cons (s : σ) (a : α) (as : List α) :
    run f s (a :: as) = ((run f (f s a).1 as).1, (f s a).2 ++ (run f (f s a).1 as).2) := rfl

@[simp] theorem run_singleton (s : σ) (a : α) : run f s [a] = f s a := by
  simp [run_cons]

theorem run_append (s : σ) (as bs : List α) :
    run f s (as ++ bs) =
      ((run f (run f s as).1 bs).1, (run f s as).2 ++ (run f (run f s as).1 bs).2) := by
  induction as generalizing s with
  | nil => simp
  | cons a as ih => simp [run_cons, ih]

theorem run_snoc (s : σ) (as : List α) (a : α) :
    run f s (as ++ [a]) =
      ((f (run f s as).1 a).1, (run f s as).2 ++ (f (run f s as).1 a).2) := by
  rw [run_append, run_singleton]

/-- Every step of the run over the inputs is taken in a state, and on an input, that meet `C`. -/
def Along (C : σ → α → Prop) (s : σ) : List α → Prop
  | [] => True
  | a :: as => C s a ∧ Along C (f s a).1 as

instance decidableAlong {C : σ → α → Prop} [∀ s a, Decidable (C s a)] (s : σ) :
    (as : List α) → Decidable (Along f C s as)
  | [] => isTrue trivial
  | a :: as =>
    @instDecidableAnd (C s a) (Along f C (f s a).1 as) inferInstance (decidableAlong (f s a).1 as)

theorem along_append {C : σ → α → Prop} {s : σ} {as bs : List α} :
    Along f C s (as ++ bs) ↔ Along f C s as ∧ Along f C (run f s as).1 bs := by
  induction as generalizing s with
  | nil => simp [Along]
  | cons a as ih => simp [Along, ih, run_cons, and_assoc]

theorem along_of_forall {C : α → Prop} {as : List α} (h : ∀ a ∈ as, C a) (s : σ) :
    Along f (fun _ => C) s as := by
  induction as generalizing s with
  | nil => trivial
  | cons a as ih => exact ⟨h a List.mem_cons_self, ih (fun b hb => h b (List.mem_cons_of_mem a hb)) _⟩

theorem along_true (s : σ) (as : List α) : Along f (fun _ _ => True) s as :=
  along_of_forall f (C := fun _ => True) (fun _ _ => trivial) s

/-- **History rule.** A relation between the outputs so far and the state that holds at the start
and is kept by every step that meets `C` holds after every run along `C`. -/
theorem run_history_along {C : σ → α → Prop} {I : List β → σ → Prop} {s : σ} (h0 : I [] s)
    (hstep : ∀ tr t a, C t a → I tr t → I (tr ++ (f t a).2) (f t a).1) {as : List α}
    (hC : Along f C s as) : I (run f s as).2 (run f s as).1 := by
  induction as using List.reverseRecOn with
  | nil => exact h0
  | append_singleton as a ih =>
    obtain ⟨has, ha⟩ := (along_append f).1 hC
    rw [run_snoc]
    exact hstep _ _ _ ha.1 (ih has)

/-- The history rule for all runs. -/
theorem run_history {I : List β → σ → Prop} {s : σ} (h0 : I [] s)
    (hstep : ∀ tr t a, I tr t → I (tr ++ (f t a).2) (f t a).1) (as : List α) :
    I (run f s as).2 (run f s as).1 :=
  run_history_along f h0 (fun tr t a _ h => hstep tr t a h) (along_true f s as)

/-- A property of states kept by every step that meets `C` holds after every run along `C`. -/
theorem run_invariant_along {C : σ → α → Prop} {I : σ → Prop} {s : σ} (h0 : I s)
    (hstep : ∀ t a, C t a → I t → I (f t a).1) {as : List α} (hC : Along f C s as) :
    I (run f s as).1 :=
  run_history_along f (I := fun _ t => I t) h0 (fun _ t a hc h => hstep t a hc h) hC

/-- A property of states kept by every step holds after every run. -/
theorem run_invariant {I : σ → Prop} {s : σ} (h0 : I s) (hstep : ∀ t a, I t → I (f t a).1)
    (as : List α) : I (run f s as).1 :=
  run_invariant_along f h0 (fun t a _ h => hstep t a h) (along_true f s as)

/-- An invariant under which every step emits only outputs that satisfy `P`. -/
theorem run_outputs {I : σ → Prop} {P : β → Prop} {s : σ} (h0 : I s)
    (hstep : ∀ t a, I t → I (f t a).1 ∧ ∀ b ∈ (f t a).2, P b) (as : List α) :
    ∀ b ∈ (run f s as).2, P b := by
  refine (run_history f (I := fun tr t => I t ∧ ∀ b ∈ tr, P b) ⟨h0, by simp⟩ ?_ as).2
  rintro tr t a ⟨hI, hP⟩
  obtain ⟨hI', hP'⟩ := hstep t a hI
  refine ⟨hI', ?_⟩
  intro b hb
  rcases List.mem_append.1 hb with hb | hb
  · exact hP b hb
  · exact hP' b hb

/-- **Emission rule.** If `I` relates the outputs so far and the state along every run whose steps meet
`C`, and every output `b` emitted from there, with `u` emitted before it in the same step, satisfies
`P (tr ++ u) b`, then every output of such a run satisfies `P` of all the outputs before it. -/
theorem run_emitted_along {C : σ → α → Prop} {I : List β → σ → Prop} {P : List β → β → Prop} {s : σ}
    (h0 : I [] s) (hstep : ∀ tr t a, C t a → I tr t → I (tr ++ (f t a).2) (f t a).1)
    (hemit : ∀ tr t a u b v, I tr t → (f t a).2 = u ++ b :: v → P (tr ++ u) b)
    {as : List α} (hC : Along f C s as) {pre : List β} {b : β} {post : List β}
    (h : (run f s as).2 = pre ++ b :: post) : P pre b := by
  have key : I (run f s as).2 (run f s as).1 ∧
      ∀ pre b post, (run f s as).2 = pre ++ b :: post → P pre b := by
    refine run_history_along f
      (I := fun tr t => I tr t ∧ ∀ pre b post, tr = pre ++ b :: post → P pre b) ⟨h0, by simp⟩ ?_ hC
    rintro tr t a hc ⟨hI, hP⟩
    refine ⟨hstep tr t a hc hI, ?_⟩
    intro pre b post e
    rcases List.append_eq_append_iff.1 e with ⟨u, rfl, hu⟩ | ⟨u, rfl, hu⟩
    · exact hemit tr t a u b post hI hu
    · cases u with
      | nil => simpa using hemit pre t a [] b post (by simpa using hI) hu.symm
      | cons c u =>
        obtain ⟨rfl, -⟩ := List.cons.inj hu
        exact hP pre b u rfl
  exact key.2 pre b post h

/-- The emission rule for all runs. -/
theorem run_emitted {I : List β → σ → Prop} {P : List β → β → Prop} {s : σ} (h0 : I [] s)
    (hstep : ∀ tr t a, I tr t → I (tr ++ (f t a).2) (f t a).1)
    (hemit : ∀ tr t a u b v, I tr t → (f t a).2 = u ++ b :: v → P (tr ++ u) b)
    (as : List α) {pre : List β} {b : β} {post : List β}
    (h : (run f s as).2 = pre ++ b :: post) : P pre b :=
  run_emitted_along f h0 (fun tr t a _ hI => hstep tr t a hI) hemit (along_true f s as) h

/-! ## The steps of a run -/

/-- The machine that emits each state together with the input it got there. -/
def logged (s : σ) (a : α) : σ × List (σ × α) := ((f s a).1, [(s, a)])

/-- The states of a run, each with the input it got there, in order. -/
def visits (s : σ) (as : List α) : List (σ × α) := (run (logged f) s as).2

theorem run_logged (s : σ) (as : List α) : (run (logged f) s as).1 = (run f s as).1 := by
  induction as generalizing s with
  | nil => rfl
  | cons a as ih =>
    rw [run_cons, run_cons]
    exact ih (f s a).1

theorem visits_snoc (s : σ) (as : List α) (a : α) :
    visits f s (as ++ [a]) = visits f s as ++ [((run f s as).1, a)] := by
  unfold visits
  rw [run_snoc, run_logged]
  rfl

theorem forall_visits_snoc {P : σ × α → Prop} (s : σ) (as : List α) (a : α) :
    (∀ v ∈ visits f s (as ++ [a]), P v) ↔ (∀ v ∈ visits f s as, P v) ∧ P ((run f s as).1, a) := by
  rw [visits_snoc, List.forall_mem_append, List.forall_mem_singleton]

theorem exists_visits_snoc {P : σ × α → Prop} (s : σ) (as : List α) (a : α) :
    (∃ v ∈ visits f s (as ++ [a]), P v) ↔ (∃ v ∈ visits f s as, P v) ∨ P ((run f s as).1, a) := by
  rw [visits_snoc]
  simp [or_and_right, exists_or]

/-- The visits of a run begin with those of its beginning. -/
theorem visits_mono (s : σ) {as bs : List α} (h : as <+: bs) : visits f s as <+: visits f s bs := by
  obtain ⟨cs, rfl⟩ := h
  unfold visits
  rw [run_append]
  exact List.prefix_append _ _

/-- **Visit rule.** A relation between the visits so far and the state that holds at the start and is
kept by every step holds at every visit of a run. -/
theorem visits_emitted {I : List (σ × α) → σ → Prop} {s : σ} (h0 : I [] s)
    (hstep : ∀ tr t a, I tr t → I (tr ++ [(t, a)]) (f t a).1) (as : List α)
    {pre post : List (σ × α)} {v : σ × α} (h : visits f s as = pre ++ v :: post) : I pre v.1 := by
  refine run_emitted (logged f) (I := I) (P := fun tr v => I tr v.1) h0 hstep ?_ as h
  intro tr t a u b w hI e
  rcases List.append_eq_singleton_iff.1 e.symm with ⟨rfl, e'⟩ | ⟨-, e'⟩
  · obtain ⟨rfl, -⟩ := List.cons.inj e'
    simpa using hI
  · cases e'

end Machine
