import Mathlib.Tactic.SplitIfs
import Tdps.Encoder

/-!
# Proofs: the sampled counts

`encoder_th` reads a count and clears it two operations later. What comes in between is lost:
`balance_run` accounts for every edge of a run, and `conserved_iff` says when the sampled counts add up.
-/

namespace Tdps.Sampler

open Machine

/-- What a trace shows of one wheel. -/
structure Tally where
  /-- The up edges minus the down edges. -/
  net : ℤ
  /-- The sum of the values read. -/
  reads : ℤ
  /-- The net number of edges between a read and the clear after it. -/
  slipped : ℤ
  /-- The count has been read and not cleared since. -/
  reading : Bool
deriving DecidableEq, Repr

def Tally.add (w : Wheel) (t : Tally) : Act → Tally
  | .edge w' e =>
    if w' = w then
      { t with net := t.net + e.delta, slipped := if t.reading then t.slipped + e.delta else t.slipped }
    else t
  | .read w' count => if w' = w then { t with reads := t.reads + count, reading := true } else t
  | .clear w' => if w' = w then { t with reading := false } else t
  | .printf _ _ => t

def tally (w : Wheel) (tr : List Act) : Tally := tr.foldl (Tally.add w) ⟨0, 0, 0, false⟩

theorem tally_append (w : Wheel) (tr tr' : List Act) :
    tally w (tr ++ tr') = tr'.foldl (Tally.add w) (tally w tr) := List.foldl_append

/-- The sum of the values read and the current count make up the edges of every wheel. -/
def Conserved (tr : List Act) (s : Sampler) : Prop :=
  ∀ w, (tally w tr).reads + s.pulse_encoder w = (tally w tr).net

/-- Whether the loop is between the read and the clear of a wheel. -/
def reading (pc : EncoderPc) : Wheel → Bool
  | .l => pc = .read .r ∨ pc = .clear .l
  | .r => pc = .clear .l ∨ pc = .clear .r

theorem reading_read (w : Wheel) : reading (.read w) w = false := by
  cases w <;> rfl

theorem reading_read_next (w : Wheel) : reading (EncoderPc.next (.read w)) w = true := by
  cases w <;> rfl

theorem reading_clear_next (w : Wheel) : reading (EncoderPc.next (.clear w)) w = false := by
  cases w <;> rfl

/-- The operations on the other wheel, and those on neither. -/
theorem reading_next {pc : EncoderPc} {w : Wheel} (hread : pc ≠ .read w) (hclear : pc ≠ .clear w) :
    reading pc.next w = reading pc w := by
  cases pc with
  | mdelay => cases w <;> rfl
  | read w' => cases w <;> cases w' <;> first | rfl | exact absurd rfl hread
  | clear w' => cases w <;> cases w' <;> first | rfl | exact absurd rfl hclear
  | test => cases w <;> rfl

/-- The account of a wheel. While its count has been read and not cleared, the edges go to `slipped`. -/
structure Balance (w : Wheel) (tr : List Act) (s : Sampler) : Prop where
  reading : (tally w tr).reading = reading s.pc w
  sum : (tally w tr).net = (tally w tr).reads + (tally w tr).slipped +
    if Sampler.reading s.pc w then 0 else s.pulse_encoder w

/-- A step that does nothing to the wheel. -/
theorem balance_other {w : Wheel} {tr acts : List Act} {s s' : Sampler} (h : Balance w tr s)
    (htally : acts.foldl (Tally.add w) (tally w tr) = tally w tr)
    (hreading : Sampler.reading s'.pc w = Sampler.reading s.pc w)
    (hcount : s'.pulse_encoder w = s.pulse_encoder w) : Balance w (tr ++ acts) s' := by
  refine ⟨?_, ?_⟩
  · rw [tally_append, htally, hreading]
    exact h.reading
  · rw [tally_append, htally, hreading, hcount]
    exact h.sum

theorem balance_edge (w w' : Wheel) (e : Edge) {tr : List Act} {s : Sampler}
    (h : Balance w tr s) : Balance w (tr ++ (step s (.edge w' e)).2) (step s (.edge w' e)).1 := by
  unfold step
  dsimp only
  by_cases hw : w' = w
  · subst hw
    obtain ⟨hreading, hsum⟩ := h
    have htally : tally w' (tr ++ [.edge w' e]) = { tally w' tr with
        net := (tally w' tr).net + e.delta
        slipped := if Sampler.reading s.pc w' then (tally w' tr).slipped + e.delta
          else (tally w' tr).slipped } := by
      rw [tally_append, ← hreading]
      exact if_pos rfl
    refine ⟨by rw [htally, hreading], ?_⟩
    rw [htally]
    dsimp only
    rw [hsum, Function.update_self]
    split_ifs <;> omega
  · exact balance_other h (if_neg hw) rfl (Function.update_of_ne (Ne.symm hw) _ _)

theorem balance_thread (w : Wheel) {tr : List Act} {s : Sampler} (h : Balance w tr s) :
    Balance w (tr ++ s.stepThread.2) s.stepThread.1 := by
  unfold stepThread
  cases hpc : s.pc with
  | mdelay =>
    refine balance_other h rfl ?_ rfl
    rw [hpc]
    cases w <;> rfl
  | read w' =>
    by_cases hw : w' = w
    · subst hw
      obtain ⟨hreading, hsum⟩ := h
      have htally : tally w' (tr ++ [.read w' (s.pulse_encoder w')]) = { tally w' tr with
          reads := (tally w' tr).reads + s.pulse_encoder w', reading := true } := by
        rw [tally_append]
        exact if_pos rfl
      rw [hpc, reading_read] at hsum
      refine ⟨by rw [htally, reading_read_next], ?_⟩
      rw [htally, reading_read_next]
      dsimp only
      simp only [Bool.false_eq_true, if_false, if_true] at hsum ⊢
      omega
    · refine balance_other h (if_neg hw) ?_ rfl
      rw [hpc]
      exact reading_next (by simpa using hw) (by simp)
  | clear w' =>
    by_cases hw : w' = w
    · subst hw
      obtain ⟨hreading, hsum⟩ := h
      have htally : tally w' (tr ++ [.clear w']) = { tally w' tr with reading := false } := by
        rw [tally_append]
        exact if_pos rfl
      have hclear : Sampler.reading (.clear w') w' = true := by cases w' <;> rfl
      rw [hpc, hclear] at hsum
      refine ⟨by rw [htally, reading_clear_next], ?_⟩
      rw [htally, reading_clear_next]
      show (tally w' tr).net = (tally w' tr).reads + (tally w' tr).slipped +
        Function.update s.pulse_encoder w' 0 w'
      rw [Function.update_self]
      exact hsum
    · refine balance_other h (if_neg hw) ?_ (Function.update_of_ne (Ne.symm hw) _ _)
      rw [hpc]
      exact reading_next (by simp) (by simpa using hw)
  | test =>
    have htest : Sampler.reading (EncoderPc.next .test) w = Sampler.reading s.pc w := by
      rw [hpc]
      exact reading_next (by simp) (by simp)
    dsimp only
    split_ifs
    · exact balance_other h rfl htest rfl
    · exact balance_other h rfl htest rfl
    · exact balance_other h rfl htest rfl

theorem balance_step (w : Wheel) {tr : List Act} {s : Sampler} (c : Choice) (h : Balance w tr s) :
    Balance w (tr ++ (step s c).2) (step s c).1 := by
  cases c with
  | edge w' e => exact balance_edge w w' e h
  | thread => exact balance_thread w h

/-- **Accounting.** In every run every edge has been read, is still in the counter, or has slipped
through between a read and the clear after it. -/
theorem balance_run (w : Wheel) (choices : List Choice) :
    Balance w (run step init choices).2 (run step init choices).1 :=
  run_history step (I := Balance w) (by cases w <;> exact ⟨rfl, rfl⟩)
    (fun _ _ c h => balance_step w c h) choices

/-- **Sampling.** In every run, the sampled counts add up at all points between two iterations if and
only if at all these points the edges that came between a read and the clear after it cancel out. -/
theorem conserved_iff (choices : List Choice) :
    (∀ pre, pre <+: choices → (run step init pre).1.pc = .mdelay →
        Conserved (run step init pre).2 (run step init pre).1) ↔
      ∀ pre, pre <+: choices → (run step init pre).1.pc = .mdelay →
        ∀ w, (tally w (run step init pre).2).slipped = 0 := by
  have key : ∀ pre w, (run step init pre).1.pc = .mdelay →
      (tally w (run step init pre).2).net = (tally w (run step init pre).2).reads +
        (tally w (run step init pre).2).slipped + (run step init pre).1.pulse_encoder w := by
    intro pre w hpc
    have hsum := (balance_run w pre).sum
    rw [hpc] at hsum
    cases w with
    | l => exact hsum
    | r => exact hsum
  constructor
  · intro h pre hpre hpc w
    have hw := h pre hpre hpc w
    have := key pre w hpc
    omega
  · intro h pre hpre hpc w
    have hw := h pre hpre hpc w
    have := key pre w hpc
    omega

/-- An edge of the left wheel right after its read is lost. -/
theorem edge_lost :
    (run step init [.thread, .thread, .edge .l .up, .thread, .thread, .thread, .thread]).1.pc =
        .mdelay ∧
      ¬ Conserved (run step init [.thread, .thread, .edge .l .up, .thread, .thread, .thread,
          .thread]).2
        (run step init [.thread, .thread, .edge .l .up, .thread, .thread, .thread, .thread]).1 := by
  refine ⟨by decide, ?_⟩
  intro h
  have := h .l
  revert this
  decide

end Tdps.Sampler
