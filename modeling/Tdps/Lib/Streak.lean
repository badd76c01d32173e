import Mathlib.Data.List.DropRight

/-!
# Counting consecutive hits

A counter that a hit increases and a miss resets. Started at 0 it is the length of the run of hits at
the end (`le_count_zero_iff`). Started at another value it counts hits that never happened, until the
first miss; `first_pass_iff` says when a counter that has just passed a threshold tells the truth.
-/

namespace Streak

variable {α : Type*} (p : α → Bool)

/-- The counter after the list `l`, from the value `n`. -/
def count (n : ℕ) (l : List α) : ℕ := l.foldl (fun n b => if p b then n + 1 else 0) n

@[simp] theorem count_nil (n : ℕ) : count p n [] = n := rfl

theorem count_cons (n : ℕ) (b : α) (l : List α) :
    count p n (b :: l) = count p (if p b then n + 1 else 0) l := rfl

theorem count_append (n : ℕ) (l l' : List α) : count p n (l ++ l') = count p (count p n l) l' :=
  List.foldl_append

theorem count_concat (n : ℕ) (l : List α) (b : α) :
    count p n (l ++ [b]) = if p b then count p n l + 1 else 0 :=
  count_append p n l [b]

theorem count_of_forall {n : ℕ} {l : List α} (h : ∀ b ∈ l, p b = true) :
    count p n l = n + l.length := by
  induction l generalizing n with
  | nil => rfl
  | cons b l ih =>
    rw [count_cons, if_pos (h b List.mem_cons_self), ih fun b' hb' => h b' (List.mem_cons_of_mem b hb')]
    rw [List.length_cons]
    omega

/-- A miss forgets the initial value. -/
theorem count_of_exists {n : ℕ} {l : List α} (h : ∃ b ∈ l, p b = false) :
    count p n l = count p 0 l := by
  induction l generalizing n with
  | nil => simp at h
  | cons b l ih =>
    rw [count_cons, count_cons]
    by_cases hb : p b = true
    · have hl : ∃ b ∈ l, p b = false := by
        obtain ⟨b', hb', hp⟩ := h
        rcases List.mem_cons.1 hb' with rfl | hb'
        · rw [hb] at hp
          cases hp
        · exact ⟨b', hb', hp⟩
      rw [ih hl]
      exact (ih hl).symm
    · rw [if_neg hb, if_neg hb]

theorem le_count_zero_iff (k : ℕ) (l : List α) :
    k ≤ count p 0 l ↔ k ≤ l.length ∧ ∀ b ∈ l.rtake k, p b = true := by
  induction l using List.reverseRecOn generalizing k with
  | nil => simp
  | append_singleton l b ih =>
    rw [count_concat]
    cases k with
    | zero => simp
    | succ k =>
      rw [List.rtake_concat_succ, List.length_append, List.length_singleton]
      by_cases hb : p b = true
      · rw [if_pos hb, Nat.succ_le_succ_iff, Nat.succ_le_succ_iff, ih]
        simp [or_imp, forall_and, hb]
      · rw [if_neg hb]
        constructor
        · intro h
          omega
        · intro h
          exact absurd (h.2 b (by simp)) hb

/-- A counter that started at `n` and passes `k > 0` with the last element of `l`, but not before:
the last `k + 1` elements are hits if and only if it started at 0 or there was a miss. -/
theorem first_pass_iff {n k : ℕ} {l : List α} (hk : 0 < k) (hnow : k < count p n l)
    (hbefore : l.dropLast = [] ∨ count p n l.dropLast ≤ k) :
    (k + 1 ≤ l.length ∧ ∀ b ∈ l.rtake (k + 1), p b = true) ↔ n = 0 ∨ ∃ b ∈ l, p b = false := by
  by_cases hmiss : ∃ b ∈ l, p b = false
  · rw [← le_count_zero_iff, ← count_of_exists p hmiss]
    exact iff_of_true hnow (Or.inr hmiss)
  · have hall : ∀ b ∈ l, p b = true := fun b hb => by
      by_contra hp
      exact hmiss ⟨b, hb, by simpa using hp⟩
    constructor
    · rintro ⟨hlen, -⟩
      have hlast : l.dropLast.length = l.length - 1 := List.length_dropLast
      rcases hbefore with h | h
      · rw [h, List.length_nil] at hlast
        omega
      · rw [count_of_forall p fun b hb => hall b (List.dropLast_subset l hb)] at h
        left
        omega
    · rintro (rfl | h)
      · rw [← le_count_zero_iff]
        exact hnow
      · exact absurd h hmiss

end Streak
