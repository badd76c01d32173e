import Mathlib.Data.List.Forall2

/-!
# Events in order

`InOrder ps tr`: the trace `tr` has, in this order but with anything between them, an event that meets
each of the predicates `ps`.
-/

/-- Events that meet these predicates come in this order. -/
def InOrder {β : Type*} (ps : List (β → Prop)) (tr : List β) : Prop :=
  ∃ bs, bs.Sublist tr ∧ List.Forall₂ (fun p b => p b) ps bs

namespace InOrder

variable {β : Type*} {ps : List (β → Prop)} {tr : List β}

theorem nil (tr : List β) : InOrder [] tr := ⟨[], List.nil_sublist tr, .nil⟩

/-- More events do not disturb the order. -/
theorem mono (h : InOrder ps tr) {tr' : List β} (hsub : tr.Sublist tr') : InOrder ps tr' := by
  obtain ⟨bs, hbs, hps⟩ := h
  exact ⟨bs, hbs.trans hsub, hps⟩

theorem append (h : InOrder ps tr) (out : List β) : InOrder ps (tr ++ out) :=
  h.mono (List.sublist_append_left tr out)

/-- The next event of the order comes last. -/
theorem snoc (h : InOrder ps tr) {p : β → Prop} {b : β} (hb : p b) :
    InOrder (ps ++ [p]) (tr ++ [b]) := by
  obtain ⟨bs, hbs, hps⟩ := h
  exact ⟨bs ++ [b], hbs.append (List.Sublist.refl [b]), List.rel_append hps (.cons hb .nil)⟩

end InOrder
