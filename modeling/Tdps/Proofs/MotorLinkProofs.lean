import Mathlib.Tactic.IntervalCases
import Tdps.MotorLink
import Tdps.Proofs.LinkProofs

/-!
# Proofs: the decoder thread and the motor thread

`Fed` says how far the decoder has handed the received frames over to `sp_data`, `Fresh` that the motor
thread will still act on the present contents of `sp_data` or has already done so. Both hold in every
interleaving, which gives `last_command_wins`.
-/

namespace Tdps

open Machine

namespace MotorLink

/-! ## The received frames -/

theorem received_append (tr out : List Act) : received (tr ++ out) = received tr ++ received out :=
  List.filterMap_append

theorem payloads_append {tr out : List Act} (h : received out = []) :
    payloads (tr ++ out) = payloads tr := by
  unfold payloads
  rw [received_append, h, List.append_nil]

/-- Complete frames stay complete. -/
theorem payloads_subset (tr out : List Act) : payloads tr ⊆ payloads (tr ++ out) := by
  unfold payloads
  rw [received_append]
  show _ ⊆ List.filterMap _ (run Decoder.feed _ (received tr ++ received out)).2
  rw [run_append, List.filterMap_append]
  exact List.subset_append_left _ _

theorem payloads_recv (tr : List Act) (b : UInt8) :
    payloads (tr ++ [.recv b]) = payloads tr ++
      ((Decoder.decode (Decoder.start Bytes4.zero) (received tr)).1.feed b).2.filterMap
        Event.payload := by
  unfold payloads
  rw [received_append]
  show List.filterMap _ (run Decoder.feed _ (received tr ++ [b])).2 = _
  rw [run_snoc, List.filterMap_append]

/-! ## Frame lemmas of the motor thread -/

theorem stepMotor_decoder (A : Arith) (s : MotorLink) : (s.stepMotor A).1.decoder = s.decoder := by
  unfold stepMotor
  split <;> dsimp only <;> split_ifs <;> rfl

theorem stepMotor_sp_data (A : Arith) (s : MotorLink) :
    (s.stepMotor A).1.shared.sp_data = s.shared.sp_data := by
  unfold stepMotor
  split <;> dsimp only <;> split_ifs <;> rfl

theorem stepMotor_received (A : Arith) (s : MotorLink) : received (s.stepMotor A).2 = [] := by
  unfold stepMotor
  split <;> dsimp only <;> (try split_ifs) <;> simp [received]

/-! ## How far the decoder has got -/

/-- The payload last copied to `sp_data`, or the initial zeros. -/
abbrev lastOf (F : List Bytes4) : Bytes4 := F.getLastD Bytes4.zero

/-- The accesses that are left, given the frames `F` that are complete and the contents of
`sp_data`. -/
inductive Handover (F : List Bytes4) (sp_data : Bytes4) : List Op → Prop where
  /-- No motor frame is being handed over. -/
  | quiet {ops : List Op} (hops : ops <:+ Event.gate.ops) (hsp : sp_data = lastOf F) :
      Handover F sp_data ops
  /-- `k` bytes of the last frame `q` are stored. -/
  | copy {F' : List Bytes4} {q : Bytes4} (k : ℕ) (hk : k ≤ 4) (hF : F = F' ++ [q])
      (h0 : k = 0 → sp_data = lastOf F') (hag : Bytes4.AgreeBelow k sp_data q) :
      Handover F sp_data ((Event.motor q).ops.drop k)

/-- The decoder is in the state that the received bytes lead to, and its accesses are those of the
last event. -/
structure Fed (tr : List Act) (s : MotorLink) : Prop where
  dec : (Decoder.decode (Decoder.start Bytes4.zero) (received tr)).1 = s.decoder.dec
  hand : Handover (payloads tr) s.shared.sp_data s.decoder.todo

/-! ### What is left of an event -/

theorem release_mem_drop (q : Bytes4) {k : ℕ} (hk : k ≤ 4) :
    Op.release_motorctrl ∈ (Event.motor q).ops.drop k := by
  interval_cases k <;> simp [Event.ops]

theorem startsCopy_drop (q : Bytes4) (k : ℕ) :
    (∃ op ∈ (Event.motor q).ops.drop k, op.startsCopy = true) ↔ k = 0 := by
  rcases k with _ | _ | _ | _ | _ | k <;> simp [Event.ops, Op.startsCopy]

theorem isStore_drop (q : Bytes4) (k : ℕ) :
    (∃ op ∈ (Event.motor q).ops.drop k, op.isStore = true) ↔ k < 4 := by
  rcases k with _ | _ | _ | _ | _ | k <;> simp [Event.ops, Op.isStore]

/-- The accesses of a gate event are none of those of a motor event. -/
theorem not_motor_of_gate {ops : List Op} (h : ops <:+ Event.gate.ops) :
    Op.release_motorctrl ∉ ops ∧ ∀ op ∈ ops, op.isStore = false ∧ op.startsCopy = false := by
  constructor
  · intro hm
    simpa [Event.ops] using h.subset hm
  · intro op hop
    have hmem := h.subset hop
    simp only [Event.ops, List.mem_cons, List.not_mem_nil, or_false] at hmem
    rcases hmem with rfl | rfl <;> exact ⟨rfl, rfl⟩

theorem fed_init : Fed [] init :=
  ⟨rfl, .quiet (List.nil_suffix) rfl⟩

/-- A byte emits at most one event. -/
theorem feed_events (d : Decoder) (b : UInt8) :
    (d.feed b).2 = [] ∨ (d.feed b).2 = [.gate] ∨ ∃ q, (d.feed b).2 = [.motor q] := by
  unfold Decoder.feed
  split
  · split_ifs <;> simp
  · split_ifs <;> simp
  · dsimp only
    split_ifs <;> simp
  · simp

theorem handover_nil {F : List Bytes4} {sp : Bytes4} (h : Handover F sp []) : sp = lastOf F := by
  generalize hops : ([] : List Op) = ops at h
  cases h with
  | quiet _ hsp => exact hsp
  | copy k hk _ _ _ =>
    have := congrArg List.length hops
    simp [Event.ops] at this
    omega

theorem fed_uart {tr : List Act} {s : MotorLink} (h : Fed tr s) (ht : s.decoder.todo = []) (b : UInt8) :
    Fed (tr ++ [.recv b])
      { s with decoder := ⟨(s.decoder.dec.feed b).1, (s.decoder.dec.feed b).2.flatMap Event.ops⟩ } := by
  have hsp : s.shared.sp_data = lastOf (payloads tr) := handover_nil (ht ▸ h.hand)
  refine ⟨?_, ?_⟩
  · rw [received_append]
    show (run Decoder.feed _ (received tr ++ [b])).1 = _
    rw [run_snoc]
    show (Decoder.feed (Decoder.decode _ (received tr)).1 b).1 = _
    rw [h.dec]
  · rw [payloads_recv, h.dec]
    rcases feed_events s.decoder.dec b with e | e | ⟨q, e⟩
    · rw [e]
      exact .quiet (List.nil_suffix) (by simpa using hsp)
    · rw [e]
      exact .quiet (List.suffix_refl _) (by simpa [Event.payload] using hsp)
    · rw [e]
      exact .copy 0 (by omega) rfl (fun _ => hsp) (Bytes4.agreeBelow_zero _ _)

/-- The next access keeps the hand-over; it is the release exactly when all four bytes are stored. -/
theorem handover_exec {F : List Bytes4} {m : Shared} {op : Op} {ops : List Op}
    (h : Handover F m.sp_data (op :: ops)) : Handover F (op.exec m).sp_data ops := by
  generalize htodo : op :: ops = todo at h
  cases h with
  | quiet hops hsp =>
    subst htodo
    have hmem : op ∈ Event.gate.ops := hops.subset (by simp)
    have hsp' : (op.exec m).sp_data = m.sp_data := by
      simp only [Event.ops, List.mem_cons, List.not_mem_nil, or_false] at hmem
      rcases hmem with rfl | rfl <;> rfl
    exact .quiet ((List.suffix_cons op ops).trans hops) (hsp'.trans hsp)
  | @copy F' q k hk hF h0 hag =>
    obtain rfl | hk := Nat.eq_or_lt_of_le hk
    · -- all four bytes are stored and only the release is left
      obtain ⟨rfl, rfl⟩ : op = .release_motorctrl ∧ ops = [] := by simpa [Event.ops] using htodo
      refine .quiet (List.nil_suffix) ?_
      show m.sp_data = lastOf F
      simpa [hF] using Bytes4.agreeBelow_four hag
    · obtain ⟨hop, hops⟩ : op = .store ⟨k, hk⟩ (q.get ⟨k, hk⟩) ∧
          ops = (Event.motor q).ops.drop (k + 1) := by
        interval_cases k <;> simpa [Event.ops, Bytes4.get] using htodo
      rw [hop, hops]
      exact .copy (k + 1) hk hF (fun e => absurd e (Nat.succ_ne_zero k))
        (Bytes4.AgreeBelow.set (i := ⟨k, hk⟩) hag)

/-- After a store the release is pending and byte 0 is stored. -/
theorem store_copying {F : List Bytes4} {sp : Bytes4} {i : Fin 4} {b : UInt8} {ops : List Op}
    (h : Handover F sp (.store i b :: ops)) :
    Op.release_motorctrl ∈ ops ∧ ¬ ∃ op ∈ ops, op.startsCopy = true := by
  generalize htodo : Op.store i b :: ops = todo at h
  cases h with
  | quiet hops _ =>
    subst htodo
    have := ((not_motor_of_gate hops).2 (.store i b) (by simp)).1
    simp [Op.isStore] at this
  | @copy F' q k hk hF h0 hag =>
    have hops : ops = (Event.motor q).ops.drop (k + 1) := by
      rw [← List.tail_drop, ← htodo]
      rfl
    have hk4 : k < 4 := (isStore_drop q k).1 ⟨.store i b, htodo ▸ by simp, rfl⟩
    rw [hops]
    exact ⟨release_mem_drop q hk4, fun h => absurd ((startsCopy_drop q _).1 h) (Nat.succ_ne_zero k)⟩

/-- The accesses of a gate event are not mixed with those of a motor event. -/
theorem gate_not_motor {F : List Bytes4} {sp : Bytes4} {op : Op} {ops : List Op}
    (h : Handover F sp (op :: ops)) (hop : op ∈ Event.gate.ops) :
    Op.release_motorctrl ∉ op :: ops := by
  generalize htodo : op :: ops = todo at h
  cases h with
  | quiet hops _ => exact (not_motor_of_gate hops).1
  | @copy F' q k hk hF h0 hag =>
    have hin : op ∈ (Event.motor q).ops := List.drop_subset k _ (htodo ▸ by simp)
    simp only [Event.ops, List.mem_cons, List.not_mem_nil, or_false] at hop hin
    rcases hop with rfl | rfl <;> simp at hin

theorem fed_step (A : Arith) {tr : List Act} {s : MotorLink} (h : Fed tr s) (c : Choice) :
    Fed (tr ++ (step A s c).2) (step A s c).1 := by
  cases c with
  | uart b =>
    unfold step
    by_cases ht : s.decoder.todo = []
    · simp only [ht, if_true]
      exact fed_uart h ht b
    · simp only [ht, if_false, List.append_nil]
      exact h
  | decoder =>
    have hdec := h.dec
    have hhand := h.hand
    unfold step
    rcases ht : s.decoder.todo with _ | ⟨op, ops⟩
    · simpa only [ht, List.append_nil] using h
    · rw [ht] at hhand
      simp only [List.append_nil]
      exact ⟨hdec, handover_exec hhand⟩
  | motor =>
    have hrec := stepMotor_received A s
    refine ⟨?_, ?_⟩
    · show (Decoder.decode _ (received (tr ++ (s.stepMotor A).2))).1 = (s.stepMotor A).1.decoder.dec
      rw [received_append, hrec, List.append_nil, stepMotor_decoder]
      exact h.dec
    · show Handover (payloads (tr ++ (s.stepMotor A).2)) (s.stepMotor A).1.shared.sp_data
        (s.stepMotor A).1.decoder.todo
      rw [payloads_append hrec, stepMotor_decoder, stepMotor_sp_data]
      exact h.hand

/-! ## The motor thread catches up -/

/-- The semaphore holds the motor thread only inside `rt_sem_take` and with a count of 0. -/
def SemOk (s : MotorLink) : Prop :=
  s.shared.sem_motorctrl.suspended = true →
    s.motor.pc = .suspended ∧ s.shared.sem_motorctrl.value = 0

/-- The motor thread will still load `sp_data` as it is now, or computes from it, or has programmed
its pulses. -/
def Fresh (A : Arith) (s : MotorLink) : Prop :=
  0 < s.shared.sem_motorctrl.value ∨
  match s.motor.pc with
  | .pwm_set ch => s.motor.pulses = motorCtrl A s.shared.sp_data ∧
      ∀ j < ch, s.programmed j = (motorCtrl A s.shared.sp_data).arg j
  | .take => ∀ j, s.programmed j = (motorCtrl A s.shared.sp_data).arg j
  | .suspended => s.shared.sem_motorctrl.suspended = false ∨
      ∀ j, s.programmed j = (motorCtrl A s.shared.sp_data).arg j
  | .load i => Bytes4.AgreeBelow i s.motor.loaded s.shared.sp_data

theorem motorCtrl_zero (A : Arith) : motorCtrl A Bytes4.zero = ⟨0, 0⟩ := by
  have h : pulse A (speed A 0 0) = 0 := UInt32.toNat_inj.1 (pulse_integer A 0)
  exact congrArg₂ Pulses.mk h h

theorem fresh_init (A : Arith) : Fresh A init := by
  right
  exact ⟨(motorCtrl_zero A).symm, fun j hj => absurd hj (Fin.not_lt_zero j)⟩

/-- A release wakes the motor thread or leaves a positive count. -/
theorem fresh_release (A : Arith) {s : MotorLink} (hs : SemOk s) (d : DecoderThread) :
    Fresh A { s with
      decoder := d
      shared := { s.shared with sem_motorctrl := s.shared.sem_motorctrl.release } } := by
  unfold Fresh Sem.release
  by_cases hsus : s.shared.sem_motorctrl.suspended = true
  · right
    simp [hsus, (hs hsus).1]
  · left
    rw [if_neg hsus]
    split_ifs with hmax
    · simp
    · simp only [not_lt, RT_SEM_VALUE_MAX] at hmax ⊢
      omega

theorem semOk_release (s : MotorLink) (d : DecoderThread) :
    SemOk { s with
      decoder := d
      shared := { s.shared with sem_motorctrl := s.shared.sem_motorctrl.release } } := by
  unfold SemOk Sem.release
  by_cases hsus : s.shared.sem_motorctrl.suspended = true
  · simp [hsus]
  · rw [if_neg hsus]
    split_ifs <;> simp [hsus]

theorem semOk_motor (A : Arith) {s : MotorLink} (hs : SemOk s) : SemOk (s.stepMotor A).1 := by
  unfold SemOk at hs ⊢
  unfold stepMotor
  split
  case h_1 ch hpc =>
    intro hsus
    exact absurd (hs hsus).1 (by simp [hpc])
  case h_2 hpc =>
    unfold Sem.take
    by_cases hv : 0 < s.shared.sem_motorctrl.value
    · simp only [hv, if_true]
      intro hsus
      exact absurd (hs hsus).1 (by simp [hpc])
    · simp only [hv, if_false]
      intro _
      exact ⟨rfl, by simpa using hv⟩
  case h_3 hpc =>
    split_ifs with hsus
    · exact fun _ => hs hsus
    · exact fun h => absurd h hsus
  case h_4 i hpc =>
    split_ifs
    all_goals
      intro hsus
      exact absurd (hs hsus).1 (by simp [hpc])

/-- The motor thread keeps up with an `sp_data` that does not change. -/
theorem fresh_motor (A : Arith) {s : MotorLink} (h : Fresh A s) : Fresh A (s.stepMotor A).1 := by
  unfold stepMotor
  split
  case h_1 ch hpc =>
    rcases h with h | h
    · exact Or.inl h
    · right
      rw [hpc] at h
      obtain ⟨hpulses, hprog⟩ := h
      have hnext : ∀ j, j ≤ ch → Function.update s.programmed ch (s.motor.pulses.arg ch) j =
          (motorCtrl A s.shared.sp_data).arg j := by
        intro j hj
        rcases hj.lt_or_eq with hlt | rfl
        · rw [Function.update_of_ne hlt.ne]
          exact hprog j hlt
        · rw [Function.update_self, hpulses]
      dsimp only
      split_ifs with h4
      · exact ⟨hpulses, fun j hj => hnext j (Fin.le_def.2 (Nat.lt_succ_iff.1 hj))⟩
      · exact fun j => hnext j (Fin.le_def.2 (by have := j.isLt; omega))
  case h_2 hpc =>
    unfold Sem.take
    by_cases hv : 0 < s.shared.sem_motorctrl.value
    · right
      simp only [hv, if_true]
      exact Bytes4.agreeBelow_zero _ _
    · right
      simp only [hv, if_false]
      rcases h with h | h
      · exact absurd h hv
      · rw [hpc] at h
        exact Or.inr h
  case h_3 hpc =>
    split_ifs with hsus
    · exact h
    · right
      exact Bytes4.agreeBelow_zero _ _
  case h_4 i hpc =>
    rcases h with h | h
    · left
      split_ifs <;> exact h
    · right
      rw [hpc] at h
      have hset := Bytes4.AgreeBelow.set h
      split_ifs with h4
      · exact hset
      · refine ⟨?_, fun j hj => absurd hj (Fin.not_lt_zero j)⟩
        have hi : i.val + 1 = 4 := by have := i.isLt; omega
        rw [hi] at hset
        exact congrArg (motorCtrl A) (Bytes4.agreeBelow_four hset)

/-! ## Last command wins -/

/-- The invariant of a run. -/
structure Inv (A : Arith) (tr : List Act) (s : MotorLink) : Prop where
  fed : Fed tr s
  sem : SemOk s
  fresh : ¬ s.Copying → Fresh A s

theorem inv_init (A : Arith) : Inv A [] init :=
  ⟨fed_init, fun h => by simp [init, Shared.init, Sem.create] at h, fun _ => fresh_init A⟩

/-- A step that stores nothing keeps `Fresh`; the first store makes the decoder `Copying`, and the
release that ends it makes the new contents fresh. -/
theorem inv_step (A : Arith) {tr : List Act} {s : MotorLink} (h : Inv A tr s) (c : Choice) :
    Inv A (tr ++ (step A s c).2) (step A s c).1 := by
  have hfed := fed_step A h.fed c
  obtain ⟨hf, hsem, hfresh⟩ := h
  cases c with
  | uart b =>
    refine ⟨hfed, ?_, ?_⟩ <;> unfold step <;> by_cases ht : s.decoder.todo = []
    · simp only [ht, if_true]
      exact hsem
    · simp only [ht, if_false]
      exact hsem
    · simp only [ht, if_true]
      exact fun _ => hfresh (by simp [Copying, ht])
    · simp only [ht, if_false]
      exact hfresh
  | decoder =>
    have hhand := hf.hand
    rcases ht : s.decoder.todo with _ | ⟨op, ops⟩
    · have hstep : step A s .decoder = (s, []) := by simp [step, ht]
      rw [hstep] at hfed ⊢
      exact ⟨hfed, hsem, hfresh⟩
    · have hstep : step A s .decoder =
          ({ s with decoder := { s.decoder with todo := ops }, shared := op.exec s.shared }, []) := by
        simp [step, ht]
      rw [hstep] at hfed ⊢
      cases op with
      | store i b => exact ⟨hfed, hsem, fun hnc => absurd (store_copying (ht ▸ hhand)) hnc⟩
      | release_motorctrl =>
        exact ⟨hfed, semOk_release s _, fun _ => fresh_release A hsem _⟩
      | release_infrared | set_stop_flag =>
        have hnc : ¬ s.Copying := fun hc =>
          gate_not_motor (ht ▸ hhand) (by simp [Event.ops]) (ht ▸ hc.1)
        exact ⟨hfed, hsem, fun _ => hfresh hnc⟩
  | motor =>
    refine ⟨hfed, semOk_motor A hsem, ?_⟩
    intro hnc
    apply fresh_motor A
    apply hfresh
    intro hc
    apply hnc
    unfold Copying CopyPending at hc ⊢
    show _ ∈ (s.stepMotor A).1.decoder.todo ∧ ¬ ∃ op ∈ (s.stepMotor A).1.decoder.todo, _
    rw [stepMotor_decoder]
    exact hc

theorem inv_run (A : Arith) (cs : List Choice) :
    Inv A (run (step A) init cs).2 (run (step A) init cs).1 :=
  run_history (step A) (inv_init A) (fun _ _ c h => inv_step A h c) cs

theorem lastPulses_eq (A : Arith) (F : List Bytes4) : lastPulses A F = motorCtrl A (lastOf F) := by
  unfold lastPulses
  rcases List.eq_nil_or_concat F with rfl | ⟨F', q, rfl⟩
  · exact (motorCtrl_zero A).symm
  · simp

/-- Unless a copy is in progress, `sp_data` is the last frame handed over. -/
theorem sp_data_eq {tr : List Act} {s : MotorLink} (h : Fed tr s) (hnc : ¬ s.Copying) :
    s.shared.sp_data = lastOf (handedOver tr s) := by
  have hhand := h.hand
  unfold handedOver
  generalize htodo : s.decoder.todo = todo at hhand
  cases hhand with
  | quiet hops hsp =>
    have hnp : ¬ s.CopyPending := by
      rintro ⟨op, hop, hst⟩
      rw [((not_motor_of_gate hops).2 op (htodo ▸ hop)).2] at hst
      cases hst
    rw [if_neg hnp, hsp]
  | @copy F' q k hk hF h0 hag =>
    have hcp : s.CopyPending ↔ k = 0 := by
      unfold CopyPending
      rw [htodo]
      exact startsCopy_drop q k
    by_cases hk0 : k = 0
    · rw [if_pos (hcp.2 hk0), hF, List.dropLast_concat]
      exact h0 hk0
    · exact absurd ⟨htodo ▸ release_mem_drop q hk, fun h => hk0 (hcp.1 h)⟩ hnc

/-- **Last command wins.** In every interleaving: when the motor thread is blocked in `rt_sem_take`
with no release pending and the decoder is not between its first stored byte and its release, the
programmed pulses are the conversion of the last frame whose copy to `sp_data` has begun, or 0 if there
was none. -/
theorem last_command_wins (A : Arith) (cs : List Choice) :
    (run (step A) init cs).1.MotorBlocked → ¬ (run (step A) init cs).1.Copying →
      (run (step A) init cs).1.programmed 1 =
          (lastPulses A (handedOver (run (step A) init cs).2 (run (step A) init cs).1)).pulse2 ∧
      (run (step A) init cs).1.programmed 2 =
          (lastPulses A (handedOver (run (step A) init cs).2 (run (step A) init cs).1)).pulse3 := by
  obtain ⟨hfed, hsem, hfresh⟩ := inv_run A cs
  generalize run (step A) init cs = r at hfed hsem hfresh ⊢
  rintro ⟨hpc, hsus⟩ hnc
  have hprog : ∀ j, r.1.programmed j = (motorCtrl A r.1.shared.sp_data).arg j := by
    rcases hfresh hnc with h | h
    · have := (hsem hsus).2
      omega
    · rw [hpc] at h
      rcases h with h | h
      · rw [hsus] at h
        cases h
      · exact h
  rw [lastPulses_eq, ← sp_data_eq hfed hnc]
  exact ⟨hprog 1, hprog 2⟩

/-- The second of two frames is read and handed over while the motor thread loads the first one. -/
def twoFrameSchedule : List Choice :=
  List.replicate 5 .motor ++ frameSchedule ⟨10, 0, 20, 0⟩ ++ List.replicate 3 .motor ++
    frameSchedule ⟨20, 0, 30, 0⟩ ++ List.replicate 16 .motor

theorem last_command_wins_second :
    (run (step Arith.exact) init twoFrameSchedule).1.MotorBlocked ∧
      (run (step Arith.exact) init twoFrameSchedule).1.programmed 1 = 300000 := by
  have hb : (run (step Arith.exact) init twoFrameSchedule).1.MotorBlocked := by decide +kernel
  have hnc : ¬ (run (step Arith.exact) init twoFrameSchedule).1.Copying := by decide +kernel
  refine ⟨hb, ?_⟩
  rw [(last_command_wins Arith.exact twoFrameSchedule hb hnc).1]
  decide +kernel

/-- The decoder has read a whole frame and has not stored its first byte. -/
def unstoredSchedule : List Choice :=
  List.replicate 5 .motor ++ (Frame.speed ⟨10, 0, 20, 0⟩).bytes.map .uart

/-- The last frame that is complete is not the command of the wheels until its copy begins. -/
theorem complete_frame_not_programmed :
    ¬ ∀ cs, (run (step Arith.ieee) init cs).1.MotorBlocked → ¬ (run (step Arith.ieee) init cs).1.Copying →
      (run (step Arith.ieee) init cs).1.programmed 1 =
          (lastPulses Arith.ieee (payloads (run (step Arith.ieee) init cs).2)).pulse2 ∧
        (run (step Arith.ieee) init cs).1.programmed 2 =
          (lastPulses Arith.ieee (payloads (run (step Arith.ieee) init cs).2)).pulse3 := by
  intro h
  obtain ⟨hpulse, -⟩ := h unstoredSchedule (by decide +kernel) (by decide +kernel)
  have hprog : (run (step Arith.ieee) init unstoredSchedule).1.programmed 1 = 0 := by rfl
  have hpay : payloads (run (step Arith.ieee) init unstoredSchedule).2 = [⟨10, 0, 20, 0⟩] := by
    decide +kernel
  rw [hprog, hpay] at hpulse
  have h20 := pulse_integer Arith.ieee 20
  have hzero : pulse Arith.ieee (speed Arith.ieee 20 0) = 0 := hpulse.symm
  rw [hzero] at h20
  revert h20
  decide

end MotorLink

end Tdps
