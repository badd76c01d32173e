import Tdps.Proofs.MotorLinkProofs
import Tdps.Pwm

/-!
# Proofs: the duty cycle

The decoder does not validate a payload, so after a lost byte header bytes count as speeds and
`motor_ctrl_th` passes a pulse above the period to `rt_pwm_set` (`pulse_above_period`). It is the
driver that limits the duty cycle. What `motor_ctrl_th` passes stays within the period when the bytes
it can combine make at most 100 percent (`duty_cycle`).
-/

namespace Tdps

open Machine

namespace MotorLink

/-- Each byte is that of some received payload, or 0. -/
def Sourced (tr : List Act) (q : Bytes4) : Prop :=
  ∀ i, q.get i = 0 ∨ ∃ p ∈ payloads tr, q.get i = p.get i

/-- The pulse of a wheel for four such bytes. -/
def SourcedPulse (A : Arith) (tr : List Act) (pulse : UInt32) : Prop :=
  ∃ q, Sourced tr q ∧ (pulse = (motorCtrl A q).pulse2 ∨ pulse = (motorCtrl A q).pulse3)

/-- Where the bytes and pulses of a run come from. -/
structure Origin (A : Arith) (tr : List Act) (s : MotorLink) : Prop where
  fed : Fed tr s
  sp_data : Sourced tr s.shared.sp_data
  loaded : Sourced tr s.motor.loaded
  pulses : ∃ q, Sourced tr q ∧ s.motor.pulses = motorCtrl A q
  passed : ∀ ch p pulse, Act.pwm_set ch p pulse ∈ tr → p = period ∧ SourcedPulse A tr pulse

theorem sourced_zero (tr : List Act) : Sourced tr Bytes4.zero := by
  intro i
  left
  fin_cases i <;> rfl

theorem sourced_of_mem {tr : List Act} {q : Bytes4} (h : q ∈ payloads tr) : Sourced tr q :=
  fun _ => Or.inr ⟨q, h, rfl⟩

theorem sourced_append {tr : List Act} {q : Bytes4} (h : Sourced tr q) (out : List Act) :
    Sourced (tr ++ out) q := by
  intro i
  rcases h i with h0 | ⟨p, hp, e⟩
  · exact Or.inl h0
  · exact Or.inr ⟨p, payloads_subset tr out hp, e⟩

theorem sourced_set {tr : List Act} {q p : Bytes4} (hq : Sourced tr q) (hp : Sourced tr p)
    (i : Fin 4) : Sourced tr (q.set i (p.get i)) := by
  intro j
  by_cases hij : i = j
  · subst hij
    rw [Bytes4.get_set_self]
    exact hp i
  · rw [Bytes4.get_set_ne q hij]
    exact hq j

theorem sourcedPulse_append {A : Arith} {tr : List Act} {pulse : UInt32}
    (h : SourcedPulse A tr pulse) (out : List Act) : SourcedPulse A (tr ++ out) pulse := by
  obtain ⟨q, hq, e⟩ := h
  exact ⟨q, sourced_append hq out, e⟩

/-- The channels that are never driven get the pulse of the initial zeros. -/
theorem sourcedPulse_arg {A : Arith} {tr : List Act} {q : Bytes4} (h : Sourced tr q) (ch : Fin 4) :
    SourcedPulse A tr ((motorCtrl A q).arg ch) := by
  have hzero : SourcedPulse A tr 0 := ⟨_, sourced_zero tr, Or.inl (by rw [motorCtrl_zero])⟩
  fin_cases ch
  · exact hzero
  · exact ⟨q, h, Or.inl rfl⟩
  · exact ⟨q, h, Or.inr rfl⟩
  · exact hzero

/-! ## The steps -/

theorem origin_init (A : Arith) : Origin A [] init := by
  refine ⟨fed_init, sourced_zero _, sourced_zero _, ⟨_, sourced_zero _, (motorCtrl_zero A).symm⟩, ?_⟩
  intro ch p pulse h
  cases h

/-- The stores that are left are those of a complete frame. -/
theorem store_mem_payloads {tr : List Act} {s : MotorLink} (h : Fed tr s) {i : Fin 4} {b : UInt8}
    (hmem : Op.store i b ∈ s.decoder.todo) : ∃ q ∈ payloads tr, b = q.get i := by
  have hhand := h.hand
  generalize s.decoder.todo = todo at hhand hmem
  cases hhand with
  | quiet hops _ =>
    have := ((not_motor_of_gate hops).2 _ hmem).1
    cases this
  | @copy F' q k hk hF h0 hag =>
    refine ⟨q, by rw [hF]; simp, ?_⟩
    have hin : Op.store i b ∈ (Event.motor q).ops := List.drop_subset k _ hmem
    simp only [Event.ops, List.mem_cons, List.not_mem_nil, or_false, Op.store.injEq,
      reduceCtorEq] at hin
    rcases hin with ⟨rfl, rfl⟩ | ⟨rfl, rfl⟩ | ⟨rfl, rfl⟩ | ⟨rfl, rfl⟩ <;> rfl

theorem exec_sp_data {tr : List Act} {s : MotorLink} (h : Fed tr s) {op : Op}
    (hop : op ∈ s.decoder.todo) (hsp : Sourced tr s.shared.sp_data) :
    Sourced tr (op.exec s.shared).sp_data := by
  cases op with
  | store i b =>
    obtain ⟨q, hq, rfl⟩ := store_mem_payloads h hop
    exact sourced_set hsp (sourced_of_mem hq) i
  | release_motorctrl | release_infrared | set_stop_flag => exact hsp

/-- A step that passes nothing to `rt_pwm_set` keeps what was passed before. -/
theorem passed_append {A : Arith} {tr out : List Act}
    (h : ∀ ch p pulse, Act.pwm_set ch p pulse ∈ tr → p = period ∧ SourcedPulse A tr pulse)
    (hout : ∀ ch p pulse, Act.pwm_set ch p pulse ∈ out → p = period ∧ SourcedPulse A tr pulse) :
    ∀ ch p pulse, Act.pwm_set ch p pulse ∈ tr ++ out →
      p = period ∧ SourcedPulse A (tr ++ out) pulse := by
  intro ch p pulse hmem
  have := (List.mem_append.1 hmem).elim (h ch p pulse) (hout ch p pulse)
  exact ⟨this.1, sourcedPulse_append this.2 out⟩

theorem origin_motor (A : Arith) {tr : List Act} {s : MotorLink} (h : Origin A tr s) :
    Origin A (tr ++ (s.stepMotor A).2) (s.stepMotor A).1 := by
  have hfed : Fed (tr ++ (s.stepMotor A).2) (s.stepMotor A).1 := fed_step A h.fed .motor
  have hsp : Sourced tr (s.stepMotor A).1.shared.sp_data := by
    rw [stepMotor_sp_data]
    exact h.sp_data
  have hload : ∀ i : Fin 4, Sourced tr (s.motor.loaded.set i (s.shared.sp_data.get i)) :=
    fun i => sourced_set h.loaded h.sp_data i
  obtain ⟨q, hq, hpulses⟩ := h.pulses
  have hloaded : Sourced tr (s.stepMotor A).1.motor.loaded := by
    unfold stepMotor
    split <;> dsimp only <;> (try split_ifs) <;> first
      | exact h.loaded
      | exact hload _
  have hnew : ∃ q, Sourced tr q ∧ (s.stepMotor A).1.motor.pulses = motorCtrl A q := by
    unfold stepMotor
    split <;> dsimp only <;> (try split_ifs) <;> first
      | exact ⟨q, hq, hpulses⟩
      | exact ⟨_, hload _, rfl⟩
  have hout : ∀ ch p pulse, Act.pwm_set ch p pulse ∈ (s.stepMotor A).2 →
      p = period ∧ SourcedPulse A tr pulse := by
    intro ch p pulse hmem
    unfold stepMotor at hmem
    split at hmem
    · simp only [List.mem_singleton, Act.pwm_set.injEq] at hmem
      obtain ⟨-, rfl, rfl⟩ := hmem
      rw [hpulses]
      exact ⟨rfl, sourcedPulse_arg hq _⟩
    · dsimp only at hmem
      split_ifs at hmem <;> simp at hmem
    · split_ifs at hmem <;> simp at hmem
    · dsimp only at hmem
      split_ifs at hmem <;> simp at hmem
  obtain ⟨q', hq', e⟩ := hnew
  exact ⟨hfed, sourced_append hsp _, sourced_append hloaded _, ⟨q', sourced_append hq' _, e⟩,
    passed_append h.passed hout⟩

theorem origin_step (A : Arith) {tr : List Act} {s : MotorLink} (c : Choice) (h : Origin A tr s) :
    Origin A (tr ++ (step A s c).2) (step A s c).1 := by
  cases c with
  | motor => exact origin_motor A h
  | uart b =>
    have hfed := fed_step A h.fed (.uart b)
    obtain ⟨q, hq, hpulses⟩ := h.pulses
    unfold step at hfed ⊢
    by_cases ht : s.decoder.todo = []
    · simp only [ht, if_true] at hfed ⊢
      exact ⟨hfed, sourced_append h.sp_data _, sourced_append h.loaded _,
        ⟨q, sourced_append hq _, hpulses⟩, passed_append h.passed (by simp)⟩
    · simp only [ht, if_false, List.append_nil]
      exact h
  | decoder =>
    have hfed := fed_step A h.fed .decoder
    unfold step at hfed ⊢
    dsimp only at hfed ⊢
    rcases ht : s.decoder.todo with _ | ⟨op, ops⟩
    · simp only [List.append_nil]
      exact h
    · simp only [ht, List.append_nil] at hfed ⊢
      exact ⟨hfed, exec_sp_data h.fed (ht ▸ List.mem_cons_self) h.sp_data, h.loaded, h.pulses,
        h.passed⟩

/-! ## The bound -/

/-- The two bytes of each wheel make at most 100 percent, the integer part taken from the first
payload and the fraction from the second. -/
def AtMostFull (p q : Bytes4) : Prop :=
  100 * p.b0.toNat + q.b1.toNat ≤ 10000 ∧ 100 * p.b2.toNat + q.b3.toNat ≤ 10000

instance (p q : Bytes4) : Decidable (AtMostFull p q) := by
  unfold AtMostFull
  infer_instance

theorem sourced_atMostFull {tr : List Act} {q : Bytes4} (h : Sourced tr q)
    (hfull : ∀ p ∈ payloads tr, ∀ p' ∈ payloads tr, AtMostFull p p') : AtMostFull q q := by
  have key : ∀ i j : Fin 4,
      (∀ p ∈ payloads tr, ∀ p' ∈ payloads tr,
        100 * (p.get i).toNat + (p'.get j).toNat ≤ 10000) →
      100 * (q.get i).toNat + (q.get j).toNat ≤ 10000 := by
    intro i j hij
    have hj := (q.get j).toNat_lt
    rcases h i with hi0 | ⟨p, hp, hi⟩
    · rw [hi0]
      simp only [UInt8.toNat_zero]
      omega
    · rcases h j with hj0 | ⟨p', hp', hj⟩
      · have := hij p hp p hp
        rw [hi, hj0]
        simp only [UInt8.toNat_zero]
        omega
      · rw [hi, hj]
        exact hij p hp p' hp'
  exact ⟨key 0 1 fun p hp p' hp' => (hfull p hp p' hp').1,
    key 2 3 fun p hp p' hp' => (hfull p hp p' hp').2⟩

/-- **Duty cycle.** Whatever arrives on the command UART and however the threads are scheduled, a
pulse passed to `rt_pwm_set` is at most that of 258 percent and the driver programs less than the
period. While the integer parts and fractions received make at most 100 percent, in every combination
that a torn read can form, the pulse is at most the period. -/
theorem duty_cycle (A : Arith) (cs : List Choice) :
    ∀ ch p pulse, Act.pwm_set ch p pulse ∈ (run (step A) init cs).2 →
      p = period ∧ pulse ≤ 2580000 ∧
      (∀ tim_clock,
        (drvPwmSet tim_clock p pulse).compare ≤ (drvPwmSet tim_clock p pulse).autoreload) ∧
      ((∀ q ∈ payloads (run (step A) init cs).2, ∀ q' ∈ payloads (run (step A) init cs).2,
        AtMostFull q q') → pulse ≤ period) := by
  have h : Origin A (run (step A) init cs).2 (run (step A) init cs).1 :=
    run_history (step A) (origin_init A) (fun _ _ c ho => origin_step A c ho) cs
  intro ch p pulse hmem
  obtain ⟨rfl, q, hq, hpulse⟩ := h.passed ch p pulse hmem
  refine ⟨rfl, ?_, fun tim_clock => drvPwmSet_compare_le tim_clock period pulse, ?_⟩
  · rw [UInt32.le_iff_toNat_le]
    rcases hpulse with rfl | rfl <;> exact pulse_speed_le A _ _
  · intro hfull
    obtain ⟨hl, hr⟩ := sourced_atMostFull hq hfull
    rw [UInt32.le_iff_toNat_le]
    rcases hpulse with rfl | rfl
    · exact pulse_le A (n := 100) (by norm_num) (speed_nonneg A _ _) (speed_le A (by norm_num) hr)
    · exact pulse_le A (n := 100) (by norm_num) (speed_nonneg A _ _) (speed_le A (by norm_num) hl)

/-- The motor thread blocks, a frame arrives, and the motor thread programs it and blocks again. -/
def oneFrameSchedule : List Choice :=
  List.replicate 5 .motor ++ frameSchedule ⟨10, 0, 20, 0⟩ ++ List.replicate 10 .motor

theorem duty_cycle_one_frame :
    Act.pwm_set 2 period ((run (step Arith.exact) init oneFrameSchedule).1.programmed 1) ∈
        (run (step Arith.exact) init oneFrameSchedule).2 ∧
      (run (step Arith.exact) init oneFrameSchedule).1.programmed 1 ≤ period := by
  have hmem : Act.pwm_set 2 period ((run (step Arith.exact) init oneFrameSchedule).1.programmed 1) ∈
      (run (step Arith.exact) init oneFrameSchedule).2 := by decide +kernel
  exact ⟨hmem, (duty_cycle Arith.exact oneFrameSchedule _ _ _ hmem).2.2.2 (by decide +kernel)⟩

/-- Two frames `AA 55 01 00 01 00`, the payload of the first lost; the run ends inside the second. -/
def slippedSchedule : List Choice :=
  List.replicate 5 .motor ++
    ([0xAA, 0x55, 0xAA, 0x55, 0x01, 0x00].map .uart ++ List.replicate 5 .decoder) ++
    List.replicate 8 .motor

/-- **A pulse above the period.** The header of the second frame counts as the speed of the left
wheel. -/
theorem pulse_above_period :
    ¬ ∀ cs ch p pulse, Act.pwm_set ch p pulse ∈ (run (step Arith.ieee) init cs).2 →
      pulse ≤ period := by
  intro h
  have hmem : Act.pwm_set 3 period (pulse Arith.ieee (speed Arith.ieee 0xAA 0x55)) ∈
      (run (step Arith.ieee) init slippedSchedule).2 :=
    List.mem_of_getElem? (i := 13) rfl
  have hle := UInt32.le_iff_toNat_le.1 (h _ _ _ _ hmem)
  have hge := le_pulse Arith.ieee (n := 170) (by norm_num)
    (le_speed Arith.ieee (i := 0xAA) (j := 0x55) (by decide))
    ((speed_le Arith.ieee (n := 171) (by norm_num) (by decide)).trans (by norm_num))
  exact absurd (hge.trans hle) (by decide)

end MotorLink

end Tdps
