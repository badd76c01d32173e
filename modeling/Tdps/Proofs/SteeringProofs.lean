import Tdps.Proofs.CourseProofs
import Tdps.Proofs.LinkProofs

/-!
# Proofs: every speed command is in range

The state functions send a few fixed pairs of speeds; all other commands carry the pair that `track`
returned, whose two speeds move in opposite directions. Both kinds fit the frame, and the pulses of a
tracked pair have a constant sum up to the rounding of `send_sp`.
-/

namespace Tdps

open Machine Rounding

/-- A pair that `track` can return. -/
def Tracked (s : ℚ × ℚ) : Prop := ∃ d : ℚ, -16 ≤ d ∧ d ≤ 16 ∧ s = (SP_L - d, SP_R + d)

/-- The pairs that are written in `main.py`. -/
def fixedSpeeds : List (ℚ × ℚ) :=
  [(0, SP_R + 30), (SP_L, SP_R), (SP_L + 30, 0), (SP_L + 10, 0), (SP_L, SP_R + 10), (0, 0)]

/-! ## What is sent -/

theorem awaitZero_speeds (g : Globals) (uart : List UInt8) :
    (awaitZero g uart).effects.filterMap Effect.speed = [] := by
  rcases awaitZero_cases g uart with ⟨-, e⟩ | ⟨used, rest, -, -, e⟩ <;> rw [e] <;>
    exact speeds_map _

theorem mem_fixedSpeeds {es : List Effect} (h : es.filterMap Effect.speed = []) :
    ∀ s ∈ es.filterMap Effect.speed, s ∈ fixedSpeeds := by
  rw [h]
  intro s hs
  cases hs

/-- The state functions send fixed speeds only. -/
theorem call_speeds {n : ℕ} {f : Snapshot → Globals → Call} (hf : stateFunctions n = some f)
    (img : Snapshot) (g : Globals) :
    ∀ s ∈ (f img g).effects.filterMap Effect.speed, s ∈ fixedSpeeds := by
  unfold stateFunctions at hf
  split at hf <;> cases hf
  case h_1 =>
    obtain ⟨d, k, n, e, -⟩ := checkArrow_cases img g
    rw [e]
    exact mem_fixedSpeeds rfl
  case h_2 =>
    obtain ⟨d, n, e, -⟩ := trafficLight_cases img g
    rw [e]
    exact mem_fixedSpeeds rfl
  case h_3 =>
    obtain ⟨k, used, rest, n, -, e, -⟩ := pedestrianLoop_cases g g.uart
    unfold pedestrian
    rw [e]
    exact mem_fixedSpeeds (speeds_map used)
  case h_4 =>
    rcases getAround_cases img g with ⟨-, e⟩ | ⟨-, n, e, -⟩
    · rw [e]
      intro s hs
      simp only [manoeuvre, Effect.speed, List.filterMap_cons, List.filterMap_nil] at hs
      simp only [fixedSpeeds, List.mem_cons] at hs ⊢
      tauto
    · rw [e]
      exact mem_fixedSpeeds rfl
  case h_5 =>
    rcases state5_cases img g with ⟨-, e⟩ | ⟨-, d, used, rest, n, -, e, -⟩
    · rw [e]
      intro s hs
      have hawait := awaitZero_speeds { g with delay_flag := true } g.uart
      simp only [Call.after, List.cons_append, List.nil_append, List.filterMap_cons, Effect.speed,
        hawait, List.mem_singleton] at hs
      simp [fixedSpeeds, hs]
    · rw [e]
      exact mem_fixedSpeeds (speeds_map used)
  case h_6 =>
    intro s hs
    simp only [state6, Effect.speed, List.filterMap_cons, List.filterMap_nil,
      List.mem_singleton] at hs
    simp [fixedSpeeds, hs]
  case h_7 => exact mem_fixedSpeeds rfl

/-- The command at the end of a pass sends the tracked pair when the direction is left or right, and a
fixed pair otherwise. -/
theorem command_speeds (sp_l sp_r : ℚ) (g : Globals) :
    ∀ s ∈ (command sp_l sp_r g).2.filterMap Effect.speed,
      if g.direction = .left ∨ g.direction = .right then s = (sp_l, sp_r) else s ∈ fixedSpeeds := by
  intro s hs
  rcases command_cases sp_l sp_r g with ⟨hd, e⟩ | ⟨hd, e⟩ | ⟨hd, e⟩
  · rw [e] at hs
    rw [if_neg (by simp [hd])]
    simp only [Effect.speed, List.filterMap_cons, List.filterMap_nil, List.mem_singleton] at hs
    simp [fixedSpeeds, hs]
  · rw [e] at hs
    rw [if_neg (by simp [hd])]
    simp only [Effect.speed, List.filterMap_cons, List.filterMap_nil, List.mem_singleton] at hs
    simp [fixedSpeeds, hs]
  · rw [e] at hs
    rw [if_pos hd]
    exact List.mem_singleton.1 hs

/-- What a step records about the speeds. -/
structure Iter.Steers (it : Iter) : Prop where
  work : ∀ s ∈ it.work.filterMap Effect.speed, s ∈ fixedSpeeds
  command : ∀ s ∈ it.command.filterMap Effect.speed,
    if it.direction = .left ∨ it.direction = .right then Tracked s else s ∈ fixedSpeeds

/-- The speeds a waiting pass will send are tracked ones. -/
def Camera.Aimed (c : Camera) : Prop := ∀ sp_l sp_r, c.pc = .wait sp_l sp_r → Tracked (sp_l, sp_r)

theorem finish_steers (start : Globals) {sp_l sp_r : ℚ} (ht : Tracked (sp_l, sp_r)) {c : Call}
    (hwork : ∀ s ∈ c.effects.filterMap Effect.speed, s ∈ fixedSpeeds) :
    (finish start sp_l sp_r c).1.Aimed ∧ (finish start sp_l sp_r c).2.Steers := by
  unfold finish
  cases hret : c.ret with
  | none =>
    refine ⟨?_, hwork, by simp⟩
    intro l r h
    obtain ⟨rfl, rfl⟩ := LoopPc.wait.inj h
    exact ht
  | some n =>
    refine ⟨?_, hwork, ?_⟩
    · intro l r h
      cases h
    · intro s hs
      have hcmd := command_speeds sp_l sp_r { c.globals with current_state := n } s hs
      dsimp only at hcmd ⊢
      split_ifs at hcmd ⊢
      · rw [hcmd]
        exact ht
      · exact hcmd

theorem step_steers (c : Camera) (img : Snapshot) (h : c.Aimed) :
    (c.step img).1.Aimed ∧ ∀ it ∈ (c.step img).2, it.Steers := by
  rcases hpc : c.pc with _ | ⟨sp_l, sp_r⟩ | _
  · cases hf : stateFunctions c.globals.current_state with
    | none =>
      rw [Camera.step_lookup_fails hpc hf]
      constructor
      · intro l r hw
        cases hw
      · intro it hit
        obtain rfl := List.mem_singleton.1 hit
        exact ⟨by simp, by simp⟩
    | some f =>
      rw [Camera.step_top hpc hf]
      have ht := track_speeds img.img_blue img.tnow c.globals.toTracker
      obtain ⟨haim, hsteers⟩ := finish_steers c.globals ht (call_speeds hf img _)
      refine ⟨haim, ?_⟩
      intro it hit
      obtain rfl := List.mem_singleton.1 hit
      exact hsteers
  · rw [Camera.step_wait hpc]
    obtain ⟨haim, hsteers⟩ := finish_steers c.globals (h sp_l sp_r hpc)
      (mem_fixedSpeeds (awaitZero_speeds _ _))
    refine ⟨haim, ?_⟩
    intro it hit
    obtain rfl := List.mem_singleton.1 hit
    exact hsteers
  · rw [Camera.step_raised hpc]
    exact ⟨h, by simp⟩

/-! ## Bytes and pulses -/

/-- The payload of a frame for two percentages. -/
theorem sendSp_payload_mem {l r : ℚ} (hl : 0 ≤ l) (hr : 0 ≤ r) :
    ∀ n ∈ (sendSp l r).drop 2, 0 ≤ n ∧ n ≤ 100 := by
  intro n hn
  simp only [sendSp_eq, List.drop_succ_cons, List.drop_zero, List.mem_cons, List.not_mem_nil,
    or_false] at hn
  rcases hn with rfl | rfl | rfl | rfl
  · exact speedInt_mem hl
  · exact speedDec_mem hl
  · exact speedInt_mem hr
  · exact speedDec_mem hr

theorem fixedSpeeds_nonneg {s : ℚ × ℚ} (h : s ∈ fixedSpeeds) : 0 ≤ s.1 ∧ 0 ≤ s.2 := by
  simp only [fixedSpeeds, SP_L, SP_R, List.mem_cons, List.not_mem_nil, or_false] at h
  rcases h with rfl | rfl | rfl | rfl | rfl | rfl <;> constructor <;> norm_num

theorem tracked_bounds {s : ℚ × ℚ} (h : Tracked s) :
    74 / 5 ≤ s.1 ∧ s.1 ≤ 234 / 5 ∧ 19 ≤ s.2 ∧ s.2 ≤ 51 := by
  obtain ⟨d, hlo, hhi, rfl⟩ := h
  simp only [SP_L, SP_R]
  refine ⟨?_, ?_, ?_, ?_⟩ <;> linarith

theorem decode_sendSp (l r : Percent) :
    ∃ q, (Decoder.decode (Decoder.start Bytes4.zero) (frameBytes (sendSp l.1 r.1))).2 = [.motor q] ∧
      ((motorCtrl Arith.exact q).pulse3.toNat : ℤ) = 100 * roundHalfEven (100 * l.1) ∧
      ((motorCtrl Arith.exact q).pulse2.toNat : ℤ) = 100 * roundHalfEven (100 * r.1) := by
  obtain ⟨Rx, hdec⟩ := Decoder.decode_frame Bytes4.zero (LinkCall.send_sp l r).frame
  exact ⟨_, congrArg Prod.snd hdec, pulse_sendSp l, pulse_sendSp r⟩

/-- The pulses of a tracked pair, after `send_sp`, the decoder and `motor_ctrl_th`. -/
theorem tracked_pulses {s : ℚ × ℚ} (h : Tracked s) :
    ∃ q, (Decoder.decode (Decoder.start Bytes4.zero) (frameBytes (sendSp s.1 s.2))).2 = [.motor q] ∧
      148000 ≤ (motorCtrl Arith.exact q).pulse3.toNat ∧
      (motorCtrl Arith.exact q).pulse3.toNat ≤ 468000 ∧
      190000 ≤ (motorCtrl Arith.exact q).pulse2.toNat ∧
      (motorCtrl Arith.exact q).pulse2.toNat ≤ 510000 ∧
      |((motorCtrl Arith.exact q).pulse3.toNat + (motorCtrl Arith.exact q).pulse2.toNat : ℤ) - 658000|
        ≤ 100 := by
  obtain ⟨hl0, hl1, hr0, hr1⟩ := tracked_bounds h
  obtain ⟨q, hdec, h3, h2⟩ :=
    decode_sendSp ⟨s.1, by linarith, by linarith⟩ ⟨s.2, by linarith, by linarith⟩
  dsimp only at h3 h2
  have hL0 : 1480 ≤ roundHalfEven (100 * s.1) := le_roundHalfEven (by push_cast; linarith)
  have hL1 : roundHalfEven (100 * s.1) ≤ 4680 := roundHalfEven_le (by push_cast; linarith)
  have hR0 : 1900 ≤ roundHalfEven (100 * s.2) := le_roundHalfEven (by push_cast; linarith)
  have hR1 : roundHalfEven (100 * s.2) ≤ 5100 := roundHalfEven_le (by push_cast; linarith)
  -- the errors of the two roundings are at most one half each
  have hsum : |roundHalfEven (100 * s.1) + roundHalfEven (100 * s.2) - 6580| ≤ 1 := by
    obtain ⟨d, -, -, rfl⟩ := h
    have hel := abs_le.1 (abs_roundHalfEven_sub_le (100 * (SP_L - d)))
    have her := abs_le.1 (abs_roundHalfEven_sub_le (100 * (SP_R + d)))
    simp only [SP_L, SP_R] at hel her ⊢
    have hq : |((roundHalfEven (100 * (154 / 5 - d)) + roundHalfEven (100 * (35 + d)) - 6580 : ℤ) : ℚ)|
        ≤ ((1 : ℤ) : ℚ) := by
      push_cast
      rw [abs_le]
      constructor <;> linarith
    exact_mod_cast hq
  rw [abs_le] at hsum
  refine ⟨q, hdec, ?_, ?_, ?_, ?_, abs_le.2 ⟨?_, ?_⟩⟩ <;> omega

/-- **Steering bounds.** In every run of the main loop every call of `send_sp` writes payload bytes in
0..100, and every pair that the tracking branch sends keeps the two pulses within their bounds and
their sum within 100 ns of 658000. -/
theorem steering_bounds (g : Globals) (imgs : List Snapshot) :
    ∀ it ∈ (run Camera.step ⟨g, .top⟩ imgs).2,
      (∀ s ∈ it.speeds, ∀ n ∈ (sendSp s.1 s.2).drop 2, 0 ≤ n ∧ n ≤ 100) ∧
      (it.direction = .left ∨ it.direction = .right → ∀ s ∈ it.command.filterMap Effect.speed,
        ∃ q, (Decoder.decode (Decoder.start Bytes4.zero) (frameBytes (sendSp s.1 s.2))).2 = [.motor q] ∧
          148000 ≤ (motorCtrl Arith.exact q).pulse3.toNat ∧
          (motorCtrl Arith.exact q).pulse3.toNat ≤ 468000 ∧
          190000 ≤ (motorCtrl Arith.exact q).pulse2.toNat ∧
          (motorCtrl Arith.exact q).pulse2.toNat ≤ 510000 ∧
          |((motorCtrl Arith.exact q).pulse3.toNat + (motorCtrl Arith.exact q).pulse2.toNat : ℤ)
            - 658000| ≤ 100) := by
  intro it hit
  have hsteers : it.Steers := by
    refine run_outputs Camera.step (I := Camera.Aimed) ?_ ?_ imgs it hit
    · intro l r h
      cases h
    · intro c img hc
      exact step_steers c img hc
  constructor
  · intro s hs
    have hnonneg : 0 ≤ s.1 ∧ 0 ≤ s.2 := by
      simp only [Iter.speeds, Iter.effects, List.filterMap_append, List.mem_append] at hs
      rcases hs with hs | hs
      · exact fixedSpeeds_nonneg (hsteers.work s hs)
      · have hcmd := hsteers.command s hs
        split_ifs at hcmd
        · obtain ⟨hl, -, hr, -⟩ := tracked_bounds hcmd
          constructor <;> linarith
        · exact fixedSpeeds_nonneg hcmd
    exact sendSp_payload_mem hnonneg.1 hnonneg.2
  · intro hdir s hs
    have hcmd := hsteers.command s hs
    rw [if_pos hdir] at hcmd
    exact tracked_pulses hcmd

/-- Nothing is seen in the first pass, so the rover drives straight ahead. -/
theorem steering_bounds_straight :
    ∃ it ∈ (run Camera.step ⟨Globals.init 3, .top⟩ [Snapshot.blank]).2,
      (SP_L, SP_R) ∈ it.command.filterMap Effect.speed ∧
      ∃ q, (Decoder.decode (Decoder.start Bytes4.zero) (frameBytes (sendSp SP_L SP_R))).2 =
          [.motor q] ∧ 148000 ≤ (motorCtrl Arith.exact q).pulse3.toNat := by
  obtain ⟨it, hmem, hdir, hs⟩ : ∃ it ∈ (run Camera.step ⟨Globals.init 3, .top⟩ [Snapshot.blank]).2,
      it.direction = .right ∧ (SP_L, SP_R) ∈ it.command.filterMap Effect.speed := by decide +kernel
  obtain ⟨q, hq, hlo, -⟩ :=
    (steering_bounds (Globals.init 3) [Snapshot.blank] it hmem).2 (Or.inr hdir) _ hs
  exact ⟨it, hmem, hs, q, hq, hlo⟩

end Tdps
