import Mathlib.Algebra.BigOperators.Group.List.Basic

/-!
# Loops that can fail

A loop in the `Except` monad that never fails does what a loop without failure does: `foldlM_simulates`
and `mapM_ok` give its result.
-/

namespace Loop

variable {ε σ τ ι β : Type}

/-- **Simulation.** A loop body that succeeds on related states and keeps them related makes a loop that
succeeds. -/
theorem foldlM_simulates {R : σ → τ → Prop} {f : σ → ι → Except ε σ} {g : τ → ι → τ} {l : List ι}
    (hstep : ∀ i ∈ l, ∀ s t, R s t → ∃ s', f s i = .ok s' ∧ R s' (g t i)) {s : σ} {t : τ}
    (h : R s t) : ∃ s', l.foldlM f s = .ok s' ∧ R s' (l.foldl g t) := by
  induction l generalizing s t with
  | nil => exact ⟨s, rfl, h⟩
  | cons i l ih =>
    obtain ⟨s', e, h'⟩ := hstep i List.mem_cons_self s t h
    obtain ⟨s'', e', h''⟩ := ih (fun i hi => hstep i (List.mem_cons_of_mem _ hi)) h'
    refine ⟨s'', ?_, h''⟩
    rw [List.foldlM_cons, e]
    exact e'

theorem foldlM_ok {f : σ → ι → Except ε σ} {g : σ → ι → σ} {l : List ι}
    (h : ∀ i ∈ l, ∀ s, f s i = .ok (g s i)) (s : σ) : l.foldlM f s = .ok (l.foldl g s) := by
  obtain ⟨s', e, rfl⟩ := foldlM_simulates (R := Eq) (g := g)
    (by rintro i hi s t rfl; exact ⟨_, h i hi s, rfl⟩) (rfl : s = s)
  exact e

theorem foldlM_concat {f : σ → ι → Except ε σ} {l : List ι} {s s' : σ}
    (h : l.foldlM f s = .ok s') (i : ι) : (l ++ [i]).foldlM f s = f s' i := by
  rw [List.foldlM_append, h]
  show (f s' i >>= fun s'' => [].foldlM f s'') = f s' i
  simp

theorem mapM_ok {f : ι → Except ε β} {g : ι → β} {l : List ι} (h : ∀ i ∈ l, f i = .ok (g i)) :
    l.mapM f = .ok (l.map g) := by
  induction l with
  | nil => rfl
  | cons i l ih =>
    rw [List.mapM_cons, h i List.mem_cons_self, ih fun i hi => h i (List.mem_cons_of_mem _ hi)]
    rfl

/-- A loop that adds up. -/
theorem foldl_add {M : Type} [AddMonoid M] (f : ι → M) (l : List ι) (n : M) :
    l.foldl (fun n i => n + f i) n = n + (l.map f).sum := by
  induction l generalizing n with
  | nil => simp
  | cons i l ih => rw [List.foldl_cons, ih, List.map_cons, List.sum_cons, add_assoc]

end Loop
