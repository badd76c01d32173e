import Mathlib.Data.List.Sort
import Mathlib.Order.Defs.LinearOrder

/-!
# Waiting lines

A line is a list. Who joins it goes to its end, or, if the line is ordered by a key, behind all whose key
is no larger, which is what `List.orderedInsert` does with the strict order of the keys. `[x, y] <+ l` says
that `x` stands before `y`; who joins, and who leaves, does not change that.
-/

namespace Line

variable {α β : Type*} [LinearOrder β] {d : α → β} [DecidableRel fun x y => d x < d y] {x y z : α}
variable {l : List α}

/-- Joining an ordered line keeps it ordered. -/
theorem pairwise_orderedInsert (h : l.Pairwise fun x y => d x ≤ d y) :
    (l.orderedInsert (fun x y => d x < d y) x).Pairwise fun x y => d x ≤ d y := by
  induction l with
  | nil => simp
  | cons y l ih =>
    obtain ⟨hy, hl⟩ := List.pairwise_cons.1 h
    by_cases hxy : d x < d y
    · rw [List.orderedInsert_cons, if_pos hxy, List.pairwise_cons]
      refine ⟨?_, h⟩
      intro z hz
      rcases List.mem_cons.1 hz with rfl | hz
      · exact hxy.le
      · exact hxy.le.trans (hy z hz)
    · rw [List.orderedInsert_cons, if_neg hxy, List.pairwise_cons]
      refine ⟨?_, ih hl⟩
      intro z hz
      rcases (List.mem_orderedInsert _).1 hz with rfl | hz
      · exact le_of_not_gt hxy
      · exact hy z hz

/-- Who joins an ordered line stands behind all whose key is no larger. -/
theorem sublist_orderedInsert (h : l.Pairwise fun x y => d x ≤ d y) (hx : x ∈ l) (hxy : d x ≤ d y) :
    [x, y].Sublist (l.orderedInsert (fun x y => d x < d y) y) := by
  induction l with
  | nil => cases hx
  | cons z l ih =>
    obtain ⟨hz, hl⟩ := List.pairwise_cons.1 h
    have hzy : ¬ d y < d z := by
      rcases List.mem_cons.1 hx with rfl | hx
      · exact not_lt_of_ge hxy
      · exact not_lt_of_ge ((hz x hx).trans hxy)
    rw [List.orderedInsert_cons, if_neg hzy]
    rcases List.mem_cons.1 hx with rfl | hx
    · exact (List.singleton_sublist.2 ((List.mem_orderedInsert _).2 (Or.inl rfl))).cons_cons x
    · exact (ih hl hx).cons z

omit [DecidableRel fun x y => d x < d y] [LinearOrder β] in
theorem sublist_append (hx : x ∈ l) : [x, y].Sublist (l ++ [y]) :=
  (List.singleton_sublist.2 hx).append (List.Sublist.refl [y])

omit [DecidableRel fun x y => d x < d y] [LinearOrder β] in
theorem sublist_filter {p : α → Bool} (h : [x, y].Sublist l) (hx : x ∈ l.filter p)
    (hy : y ∈ l.filter p) : [x, y].Sublist (l.filter p) := by
  have hkeep : [x, y].filter p = [x, y] := by
    rw [List.filter_cons_of_pos (List.mem_filter.1 hx).2, List.filter_cons_of_pos (List.mem_filter.1 hy).2]
    rfl
  rw [← hkeep]
  exact h.filter p

omit [DecidableRel fun x y => d x < d y] [LinearOrder β] in
/-- Who stands behind somebody is not the first. -/
theorem ne_head (h : [x, y].Sublist (z :: l)) (hnodup : (z :: l).Nodup) : z ≠ y := by
  rintro rfl
  have hz : z ∉ l := (List.nodup_cons.1 hnodup).1
  have hy : z ∈ (z :: l).tail := by
    have htail := h.tail
    exact htail.subset List.mem_cons_self
  exact hz hy

end Line
