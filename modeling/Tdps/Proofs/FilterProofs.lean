import Mathlib.Tactic.FieldSimp
import Mathlib.Tactic.Positivity
import Mathlib.Tactic.Ring
import Tdps.Lib.Machine
import Tdps.Steering

/-!
# Proofs: the filter and the scaling of the edge error

`get_error_filtered` assigns the scaled error to `old_output` before it calls `low_pass_filter`, so the
filter mixes the error with itself and returns it as it is (`getErrorFiltered_edge`). `low_pass_iff` says
when that cannot be noticed, and `edge_order_iff` which edge positions the scaling keeps apart.
-/

namespace Tdps

open Machine

/-! ## The edge -/

/-- The histogram shows the line. -/
def HasEdge (his : List ℕ) : Prop := ∃ value ∈ his, edge_threshold < value

instance : DecidablePred HasEdge := fun his =>
  inferInstanceAs (Decidable (∃ value ∈ his, edge_threshold < value))

/-- A histogram of 80 columns that shows the line in this one only. -/
def lineAt (k : ℕ) : List ℕ := List.replicate k 0 ++ [6] ++ List.replicate (79 - k) 0

theorem edgeIndex_ne_none {d : Direction} (hd : d = .left ∨ d = .right) {his : List ℕ}
    (h : HasEdge his) : edgeIndex d his ≠ none := by
  obtain ⟨value, hmem, hval⟩ := h
  obtain ⟨i, hi, rfl⟩ := List.getElem_of_mem hmem
  have hpair : (his[i], i) ∈ his.zipIdx := List.mk_mem_zipIdx_iff_getElem?.2 (List.getElem?_eq_getElem hi)
  rcases hd with rfl | rfl
  · simp only [edgeIndex, ne_eq, Option.map_eq_none_iff, List.find?_eq_none, not_forall]
    exact ⟨_, List.mem_reverse.2 hpair, by simpa using hval⟩
  · simp only [edgeIndex, ne_eq, Option.map_eq_none_iff, List.find?_eq_none, not_forall]
    exact ⟨_, hpair, by simpa using hval⟩

theorem edgeIndex_eq_none {d : Direction} {his : List ℕ} (h : ¬ HasEdge his) :
    edgeIndex d his = none := by
  have key : ∀ p ∈ his.zipIdx, ¬ edge_threshold < p.1 := by
    intro p hp hval
    exact h ⟨p.1, List.fst_mem_of_mem_zipIdx hp, hval⟩
  unfold edgeIndex
  split
  · rw [Option.map_eq_none_iff, List.find?_eq_none]
    intro p hp
    simpa using key p hp
  · rw [Option.map_eq_none_iff, List.find?_eq_none]
    intro p hp
    simpa using key p (List.mem_reverse.1 hp)
  · rfl

theorem edgeIndex_lt {d : Direction} {his : List ℕ} {k : ℕ} (h : edgeIndex d his = some k) :
    k < his.length := by
  have key : ∀ p ∈ his.zipIdx, p.2 < his.length := fun p hp => List.snd_lt_of_mem_zipIdx hp
  unfold edgeIndex at h
  split at h
  · obtain ⟨p, hp, rfl⟩ := Option.map_eq_some_iff.1 h
    exact key p (List.mem_of_find?_eq_some hp)
  · obtain ⟨p, hp, rfl⟩ := Option.map_eq_some_iff.1 h
    exact key p (List.mem_reverse.1 (List.mem_of_find?_eq_some hp))
  · cases h

theorem getErrorFiltered_edge {w alpha : ℚ} {g : Tracker} {his : List ℕ} {k : ℕ}
    (h : edgeIndex g.direction his = some k) :
    getErrorFiltered w his alpha g =
      ({ g with old_error := edgeError w g.direction k, old_output := edgeError w g.direction k },
        limitError (edgeError w g.direction k)) := by
  have hmix : ∀ e : ℚ, alpha * e + (1 - alpha) * e = e := fun e => by ring
  unfold getErrorFiltered lowPassFilter
  rw [h]
  simp only [hmix]

theorem getErrorFiltered_lost {w alpha : ℚ} {g : Tracker} {his : List ℕ}
    (h : edgeIndex g.direction his = none) :
    getErrorFiltered w his alpha g = (g, limitError g.old_output) := by
  unfold getErrorFiltered
  rw [h]

/-! ## `limit_error` -/

theorem limitError_lt_iff {a b : ℚ} :
    limitError a < limitError b ↔ a < b ∧ a < 40 ∧ -40 < b := by
  unfold limitError
  constructor
  · intro h
    split_ifs at h <;> refine ⟨?_, ?_, ?_⟩ <;> linarith
  · rintro ⟨hab, ha, hb⟩
    split_ifs <;> linarith

theorem limitError_eq_iff {a b : ℚ} :
    limitError a = limitError b ↔ a = b ∨ (40 ≤ a ∧ 40 ≤ b) ∨ (a ≤ -40 ∧ b ≤ -40) := by
  have hlt := limitError_lt_iff (a := a) (b := b)
  have hgt := limitError_lt_iff (a := b) (b := a)
  constructor
  · intro h
    rcases lt_trichotomy a b with hab | hab | hab
    · have hn : ¬ (a < 40 ∧ -40 < b) := by
        intro hc
        exact (hlt.2 ⟨hab, hc⟩).ne h
      by_cases ha : a < 40
      · right
        right
        have hb : b ≤ -40 := not_lt.1 fun hb => hn ⟨ha, hb⟩
        exact ⟨by linarith, hb⟩
      · right
        left
        exact ⟨not_lt.1 ha, by linarith⟩
    · exact Or.inl hab
    · have hn : ¬ (b < 40 ∧ -40 < a) := by
        intro hc
        exact (hgt.2 ⟨hab, hc⟩).ne h.symm
      by_cases hb : b < 40
      · right
        right
        have ha : a ≤ -40 := not_lt.1 fun ha => hn ⟨hb, ha⟩
        exact ⟨ha, by linarith⟩
      · right
        left
        exact ⟨by linarith, not_lt.1 hb⟩
  · intro h
    refine le_antisymm (not_lt.1 ?_) (not_lt.1 ?_)
    · intro hc
      obtain ⟨hba, hb, ha⟩ := hgt.1 hc
      rcases h with rfl | ⟨h1, h2⟩ | ⟨h1, h2⟩ <;> linarith
    · intro hc
      obtain ⟨hab, ha, hb⟩ := hlt.1 hc
      rcases h with rfl | ⟨h1, h2⟩ | ⟨h1, h2⟩ <;> linarith

/-! ## The filter -/

/-- The scaled error of the edge in a histogram. -/
def scaledEdge (w : ℚ) (d : Direction) (his : List ℕ) : ℚ :=
  match edgeIndex d his with
  | some k => edgeError w d k
  | none => 0

/-- One call of `get_error_filtered`, which returns the output. -/
def filterStep (w alpha : ℚ) (g : Tracker) (his : List ℕ) : Tracker × List ℚ :=
  let r := getErrorFiltered w his alpha g
  (r.1, [r.2])

/-- A first-order low-pass filter with previous output `y` over the inputs `es`. -/
def lowPass (alpha : ℚ) (y : ℚ) : List ℚ → List ℚ
  | [] => []
  | e :: es => (alpha * e + (1 - alpha) * y) :: lowPass alpha (alpha * e + (1 - alpha) * y) es

/-- The filter makes no visible difference: at each input it does not filter, or the input is its
previous output, or input and output are beyond the same limit. -/
def Invisible (alpha : ℚ) (y : ℚ) : List ℚ → Prop
  | [] => True
  | e :: es =>
    (alpha = 1 ∨ e = y ∨ (40 ≤ e ∧ 40 ≤ alpha * e + (1 - alpha) * y) ∨
        (e ≤ -40 ∧ alpha * e + (1 - alpha) * y ≤ -40)) ∧
      Invisible alpha (alpha * e + (1 - alpha) * y) es

instance decidableInvisible (alpha : ℚ) : (y : ℚ) → DecidablePred (Invisible alpha y)
  | _, [] => isTrue trivial
  | _, _ :: es => @instDecidableAnd _ _ inferInstance (decidableInvisible alpha _ es)

theorem lowPass_limit_iff (alpha y : ℚ) (es : List ℚ) :
    es.map limitError = (lowPass alpha y es).map limitError ↔ Invisible alpha y es := by
  induction es generalizing y with
  | nil => simp [lowPass, Invisible]
  | cons e es ih =>
    have hmix : e = alpha * e + (1 - alpha) * y ↔ alpha = 1 ∨ e = y := by
      have hfactor : e - (alpha * e + (1 - alpha) * y) = (1 - alpha) * (e - y) := by ring
      rw [← sub_eq_zero, hfactor, mul_eq_zero, sub_eq_zero, sub_eq_zero, eq_comm (a := (1 : ℚ))]
    show limitError e :: es.map limitError =
      limitError (alpha * e + (1 - alpha) * y) :: (lowPass alpha _ es).map limitError ↔ _ ∧ _
    rw [List.cons.injEq, ih, limitError_eq_iff, hmix, or_assoc]

/-- What a sequence of calls returns. -/
theorem run_filterStep (w alpha : ℚ) {g : Tracker} (hd : g.direction = .left ∨ g.direction = .right)
    {hs : List (List ℕ)} (hedge : ∀ his ∈ hs, HasEdge his) :
    (run (filterStep w alpha) g hs).2 = (hs.map (scaledEdge w g.direction)).map limitError := by
  induction hs generalizing g with
  | nil => rfl
  | cons his hs ih =>
    obtain ⟨k, hk⟩ := Option.ne_none_iff_exists'.1
      (edgeIndex_ne_none hd (hedge his List.mem_cons_self))
    have hstep : getErrorFiltered w his alpha g = _ := getErrorFiltered_edge hk
    have hscaled : scaledEdge w g.direction his = edgeError w g.direction k := by
      unfold scaledEdge
      rw [hk]
    rw [run_cons]
    unfold filterStep at ih ⊢
    rw [hstep, ih (g := { g with
        old_error := edgeError w g.direction k
        old_output := edgeError w g.direction k }) hd
      fun h hh => hedge h (List.mem_cons_of_mem _ hh)]
    simp only [List.map_cons, hscaled, List.cons_append, List.nil_append]

/-- **The low-pass filter.** Over histograms that all show the line, in direction 1 or 3, the calls
return the limited outputs of a low-pass filter if and only if that makes no visible difference to the
limited errors themselves. -/
theorem low_pass_iff (w alpha : ℚ) (g : Tracker) (hd : g.direction = .left ∨ g.direction = .right)
    (hs : List (List ℕ)) (hedge : ∀ his ∈ hs, HasEdge his) :
    (run (filterStep w alpha) g hs).2 =
        (lowPass alpha g.old_output (hs.map (scaledEdge w g.direction))).map limitError ↔
      Invisible alpha g.old_output (hs.map (scaledEdge w g.direction)) := by
  rw [run_filterStep w alpha hd hedge]
  exact lowPass_limit_iff alpha g.old_output _

theorem low_pass_steady :
    (run (filterStep 50 (1 / 5)) { Tracker.init with old_output := 40 / 3 } [lineAt 40, lineAt 40]).2 =
      (lowPass (1 / 5) (40 / 3) ([lineAt 40, lineAt 40].map (scaledEdge 50 .right))).map limitError :=
  (low_pass_iff 50 (1 / 5) { Tracker.init with old_output := 40 / 3 } (Or.inr rfl)
    [lineAt 40, lineAt 40] (by decide)).2 (by decide +kernel)

/-- From the initial state an edge at column 40 is reported as 40/3, and not as a fifth of it. -/
theorem unfiltered_error :
    (run (filterStep 50 (1 / 5)) Tracker.init [lineAt 40]).2 = [40 / 3] ∧
      (lowPass (1 / 5) Tracker.init.old_output
        ([lineAt 40].map (scaledEdge 50 .right))).map limitError = [8 / 3] := by
  decide +kernel

/-! ## The scaling -/

/-- A number scaled by `40 / c` below 0 and by `40 / d` from 0 on. -/
def scaled (c d error : ℚ) : ℚ := if error < 0 then error * (40 / c) else error * (40 / d)

section Scaled

variable {c d : ℚ}

theorem scaled_strictMono (hc : 0 < c) (hd : 0 < d) : StrictMono (scaled c d) := by
  have hc' : 0 < 40 / c := by positivity
  have hd' : 0 < 40 / d := by positivity
  intro x y hxy
  unfold scaled
  split_ifs with hx hy hy
  · exact mul_lt_mul_of_pos_right hxy hc'
  · have h1 : x * (40 / c) < 0 := mul_neg_of_neg_of_pos hx hc'
    have h2 : 0 ≤ y * (40 / d) := mul_nonneg (not_lt.1 hy) hd'.le
    linarith
  · linarith
  · exact mul_lt_mul_of_pos_right hxy hd'

theorem scaled_neg_iff (hc : 0 < c) (hd : 0 < d) {x : ℚ} : -40 < scaled c d x ↔ -c < x := by
  have h40 : scaled c d (-c) = -40 := by
    unfold scaled
    rw [if_pos (by linarith)]
    field_simp
  rw [← h40]
  exact (scaled_strictMono hc hd).lt_iff_lt

theorem scaled_pos_iff (hc : 0 < c) (hd : 0 < d) {x : ℚ} : scaled c d x < 40 ↔ x < d := by
  have h40 : scaled c d d = 40 := by
    unfold scaled
    rw [if_neg (by linarith)]
    field_simp
  rw [← h40]
  exact (scaled_strictMono hc hd).lt_iff_lt

/-- The limited scaled error tells two numbers apart unless both are beyond the same limit. -/
theorem limitError_scaled_lt_iff (hc : 0 < c) (hd : 0 < d) {x y : ℚ} (hxy : x < y) :
    limitError (scaled c d x) < limitError (scaled c d y) ↔ x < d ∧ -c < y := by
  rw [limitError_lt_iff, scaled_pos_iff hc hd, scaled_neg_iff hc hd]
  exact and_iff_right (scaled_strictMono hc hd hxy)

end Scaled

theorem edgeError_left (w : ℚ) (k : ℕ) : edgeError w .left k = scaled (80 - w) w (w - k) := rfl

/-- For direction 3 the two factors are the other way round. -/
theorem edgeError_right (w : ℚ) (k : ℕ) : edgeError w .right k = scaled w (80 - w) (w - k) := rfl

/-- **The order of the edges.** In direction 1 an edge further left gives a greater error. In direction
3 this holds exactly for positions `k < k'` that are not both at or below `2 * w - 80` and not both at
or above `2 * w`, where the error is limited. -/
theorem edge_order_iff {w : ℚ} (hw0 : 0 < w) (hw : w < 80) (alpha : ℚ) (g : Tracker)
    (hd : g.direction = .left ∨ g.direction = .right) {h h' : List ℕ} (hlen' : h'.length = 80)
    {k k' : ℕ} (hk : edgeIndex g.direction h = some k)
    (hk' : edgeIndex g.direction h' = some k') (hlt : k < k') :
    (getErrorFiltered w h' alpha g).2 < (getErrorFiltered w h alpha g).2 ↔
      g.direction = .left ∨ (2 * w - 80 < k' ∧ (k : ℚ) < 2 * w) := by
  have hlast : (k' : ℚ) ≤ 79 := by
    have := edgeIndex_lt hk'
    exact_mod_cast (by omega : k' ≤ 79)
  have hlt' : (k : ℚ) < k' := by exact_mod_cast hlt
  have hk0 : (0 : ℚ) ≤ k := Nat.cast_nonneg k
  rw [getErrorFiltered_edge hk, getErrorFiltered_edge hk']
  rcases hd with hd | hd
  · rw [hd, edgeError_left, edgeError_left,
      limitError_scaled_lt_iff (by linarith) hw0 (by linarith)]
    exact iff_of_true ⟨by linarith, by linarith⟩ (Or.inl rfl)
  · rw [hd, edgeError_right, edgeError_right,
      limitError_scaled_lt_iff hw0 (by linarith) (by linarith)]
    constructor
    · rintro ⟨h1, h2⟩
      exact Or.inr ⟨by linarith, by linarith⟩
    · rintro (h | ⟨h1, h2⟩)
      · cases h
      · exact ⟨by linarith, by linarith⟩

theorem edge_order_around_width_const :
    (getErrorFiltered 50 (lineAt 60) (1 / 5) Tracker.init).2 <
        (getErrorFiltered 50 (lineAt 40) (1 / 5) Tracker.init).2 ↔
      Tracker.init.direction = .left ∨ (2 * 50 - 80 < ((60 : ℕ) : ℚ) ∧ ((40 : ℕ) : ℚ) < 2 * 50) :=
  edge_order_iff (by norm_num) (by norm_num) (1 / 5) Tracker.init (Or.inr rfl) (by decide) (by decide)
    (by decide) (by decide)

/-- With `width_const` 50 the first 21 columns all give 40 in direction 3. -/
theorem merged_edges :
    (getErrorFiltered 50 (lineAt 0) (1 / 5) Tracker.init).2 = 40 ∧
      (getErrorFiltered 50 (lineAt 20) (1 / 5) Tracker.init).2 = 40 := by
  decide +kernel

end Tdps
