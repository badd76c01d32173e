import Mathlib.Algebra.Order.Group.Abs
import Mathlib.Data.List.Induction
import Mathlib.Tactic.Linarith
import Tdps.Lib.Loop
import Tdps.PID

/-!
# Proofs: the state of the PID controller

`get_pid` keeps the error of an earlier call and the time of the last one. `Inv` says how they belong
together; it holds after every sequence of calls, and `pid_discipline` is read off it.
-/

namespace Tdps.PID

open Loop

/-- A call of `get_pid` at the time `tnow`. -/
structure Call where
  tnow : ℤ
  error : ℚ
  scaler : ℚ
deriving DecidableEq, Repr

/-- The attributes after these calls. -/
def afterCalls (RC : ℚ) (p : PID) (calls : List Call) : Except PyError Vars :=
  calls.foldlM (fun v c => do
    let r ← p.getPidChecked RC v c.tnow c.error c.scaler
    return r.vars) Vars.init

/-- The first call, or one more than a second after the call before. -/
def Restart (v : Vars) (tnow : ℤ) : Prop := v.last_t = 0 ∨ 1000 < tnow - v.last_t

instance (v : Vars) (tnow : ℤ) : Decidable (Restart v tnow) :=
  inferInstanceAs (Decidable (v.last_t = 0 ∨ 1000 < tnow - v.last_t))

/-! ## One call -/

/-- The block of the integrator writes to nothing but the integrator and the output. -/
theorem integrate_spec (p : PID) (r : Reply) (dt : ℤ) (error scaler delta_time : ℚ) :
    ∃ integrator output, p.integrate r dt error scaler delta_time =
        ⟨{ r.vars with integrator := integrator }, output, r.difference⟩ ∧
      (integrator = r.vars.integrator ∨ ∃ q, integrator = p.clampI q) := by
  unfold integrate
  split_ifs
  · exact ⟨_, _, rfl, Or.inr ⟨_, rfl⟩⟩
  · exact ⟨_, _, rfl, Or.inl rfl⟩

theorem getPidChecked_restart {v : Vars} {tnow : ℤ} (h : Restart v tnow) (RC : ℚ) (p : PID)
    (error scaler : ℚ) :
    p.getPidChecked RC v tnow error scaler =
      .ok ⟨{ v.resetI with last_t := tnow }, error * p.kp * scaler, none⟩ := by
  unfold Restart at h
  unfold getPidChecked integrate
  simp [if_pos h, pure, Except.pure, bind, Except.bind]

/-- What a call does that is no restart. -/
structure Running (p : PID) (v : Vars) (c : Call) (r : Reply) : Prop where
  last_t : r.vars.last_t = c.tnow
  integrator : r.vars.integrator = v.integrator ∨ ∃ q, r.vars.integrator = p.clampI q
  /-- The block of the derivative is skipped, or it has stored the error. -/
  derivative :
    (r.vars.last_error = v.last_error ∧ r.vars.last_derivative = v.last_derivative ∧
      r.difference = none ∧ (p.kd = 0 ∨ c.tnow ≤ v.last_t)) ∨
    (r.vars.last_error = c.error ∧ p.kd ≠ 0 ∧ ∀ q ∈ r.difference,
      v.last_derivative ≠ none ∧ q = ⟨v.last_error, ((c.tnow - v.last_t : ℤ) : ℚ) / 1000⟩)

theorem getPidChecked_running {RC : ℚ} (hRC : 0 < RC) (p : PID) {v : Vars} {c : Call}
    (h : ¬ Restart v c.tnow) :
    ∃ r, p.getPidChecked RC v c.tnow c.error c.scaler = .ok r ∧ Running p v c r := by
  unfold Restart at h
  unfold getPidChecked
  simp only [if_neg h]
  by_cases hd : 0 < |p.kd| ∧ 0 < c.tnow - v.last_t
  · have hdelta : (0 : ℚ) < ((c.tnow - v.last_t : ℤ) : ℚ) / 1000 :=
      div_pos (by exact_mod_cast hd.2) (by norm_num)
    have hkd : p.kd ≠ 0 := abs_pos.1 hd.1
    rw [if_pos hd, derivativeChecked_eq hRC _ _ hdelta]
    cases hv : v.last_derivative with
    | none =>
      dsimp only [bind, Except.bind, pure, Except.pure]
      obtain ⟨integrator, output, e, hint⟩ := integrate_spec p _ _ _ _ _
      refine ⟨_, congrArg Except.ok e, rfl, hint, Or.inr ⟨rfl, hkd, ?_⟩⟩
      rintro q ⟨⟩
    | some last_derivative =>
      dsimp only [bind, Except.bind, pure, Except.pure]
      obtain ⟨integrator, output, e, hint⟩ := integrate_spec p _ _ _ _ _
      refine ⟨_, congrArg Except.ok e, rfl, hint, Or.inr ⟨rfl, hkd, ?_⟩⟩
      rintro q ⟨⟩
      exact ⟨by simp [hv], rfl⟩
  · have hskip : p.kd = 0 ∨ c.tnow ≤ v.last_t := by
      by_cases hkd : p.kd = 0
      · exact Or.inl hkd
      · have : ¬ 0 < c.tnow - v.last_t := fun hdt => hd ⟨abs_pos.2 hkd, hdt⟩
        exact Or.inr (by omega)
    rw [if_neg hd]
    dsimp only [bind, Except.bind, pure, Except.pure]
    obtain ⟨integrator, output, e, hint⟩ := integrate_spec p _ _ _ _ _
    exact ⟨_, congrArg Except.ok e, rfl, hint, Or.inl ⟨rfl, rfl, rfl, hskip⟩⟩

/-- With the filter constant of the source the divisions do not fail, and this is `getPid`. -/
theorem getPidChecked_getPid (p : PID) (v : Vars) (tnow : ℤ) (error scaler : ℚ) :
    ∃ difference, p.getPidChecked PID.RC v tnow error scaler =
      .ok ⟨(p.getPid v tnow error scaler).1, (p.getPid v tnow error scaler).2, difference⟩ := by
  have hRC : 0 < PID.RC := by norm_num [PID.RC, PID.pi]
  by_cases hr : Restart v tnow
  · refine ⟨none, ?_⟩
    rw [getPidChecked_restart hr]
    unfold Restart at hr
    unfold getPid
    simp [if_pos hr]
  · unfold Restart at hr
    unfold getPidChecked getPid integrate
    simp only [if_neg hr]
    by_cases hd : 0 < |p.kd| ∧ 0 < tnow - v.last_t
    · have hdelta : (0 : ℚ) < ((tnow - v.last_t : ℤ) : ℚ) / 1000 :=
        div_pos (by exact_mod_cast hd.2) (by norm_num)
      rw [if_pos hd, if_pos hd, derivativeChecked_eq hRC _ _ hdelta]
      unfold derivative
      cases v.last_derivative with
      | none => split_ifs <;> exact ⟨_, rfl⟩
      | some last_derivative => split_ifs <;> exact ⟨_, rfl⟩
    · rw [if_neg hd, if_neg hd]
      split_ifs <;> exact ⟨_, rfl⟩

/-! ## Sequences of calls -/

theorem abs_clampI_le {p : PID} (h : 0 ≤ p.imax) (q : ℚ) : |p.clampI q| ≤ p.imax := by
  unfold clampI
  rw [abs_le]
  split_ifs with hlow hhigh
  · constructor <;> linarith
  · constructor <;> linarith
  · exact ⟨not_lt.1 hlow, not_lt.1 hhigh⟩

/-- The time of the last call, or the 0 that stands for none. -/
def lastTime (calls : List Call) : ℤ := (calls.getLast?.map Call.tnow).getD 0

/-- The attributes after these calls. -/
structure Inv (p : PID) (calls : List Call) (v : Vars) : Prop where
  last_t : v.last_t = lastTime calls
  integrator : |v.integrator| ≤ p.imax
  /-- With a derivative from before, the stored error belongs to the stored time. -/
  last_error : v.last_derivative ≠ none → p.kd ≠ 0 ∧
    ∃ c ∈ calls, c.error = v.last_error ∧ c.tnow = v.last_t

theorem lastTime_concat (calls : List Call) (c : Call) : lastTime (calls ++ [c]) = c.tnow := by
  simp [lastTime]

theorem inv_init {p : PID} (h : 0 ≤ p.imax) : Inv p [] Vars.init where
  last_t := rfl
  integrator := by simpa [Vars.init] using h
  last_error := fun hne => absurd rfl hne

theorem inv_restart {p : PID} (h : 0 ≤ p.imax) (calls : List Call) (v : Vars) (c : Call) :
    Inv p (calls ++ [c]) { v.resetI with last_t := c.tnow } where
  last_t := (lastTime_concat calls c).symm
  integrator := by simpa [Vars.resetI] using h
  last_error := fun hne => absurd rfl hne

theorem inv_running {p : PID} (h : 0 ≤ p.imax) {calls : List Call} {v : Vars} {c : Call} {r : Reply}
    (hi : Inv p calls v) (hle : v.last_t ≤ c.tnow) (hr : Running p v c r) :
    Inv p (calls ++ [c]) r.vars where
  last_t := by rw [hr.last_t, lastTime_concat]
  integrator := by
    rcases hr.integrator with e | ⟨q, e⟩
    · rw [e]
      exact hi.integrator
    · rw [e]
      exact abs_clampI_le h q
  last_error := by
    intro hne
    rw [hr.last_t]
    rcases hr.derivative with ⟨herr, hder, -, hskip⟩ | ⟨herr, hkd, -⟩
    · rw [hder] at hne
      obtain ⟨hkd, c', hc', herr', ht⟩ := hi.last_error hne
      -- no time has passed, so the error that is kept still belongs to the time
      have htnow := hskip.resolve_left hkd
      exact ⟨hkd, c', List.mem_append_left _ hc', herr'.trans herr.symm, by omega⟩
    · exact ⟨hkd, c, by simp, herr.symm, rfl⟩

/-- The values of `millis()` are positive and do not decrease. -/
def Clocked (calls : List Call) : Prop :=
  (∀ c ∈ calls, 0 < c.tnow) ∧ calls.Pairwise fun c c' => c.tnow ≤ c'.tnow

instance : DecidablePred Clocked := fun calls =>
  inferInstanceAs (Decidable ((∀ c ∈ calls, 0 < c.tnow) ∧
    calls.Pairwise fun c c' => c.tnow ≤ c'.tnow))

theorem Clocked.init {calls : List Call} {c : Call} (h : Clocked (calls ++ [c])) : Clocked calls :=
  ⟨fun c' hc' => h.1 c' (List.mem_append_left _ hc'), (List.pairwise_append.1 h.2).1⟩

theorem Clocked.lastTime_le {calls : List Call} {c : Call} (h : Clocked (calls ++ [c])) :
    lastTime calls ≤ c.tnow := by
  unfold lastTime
  cases hlast : calls.getLast? with
  | none => exact (h.1 c (by simp)).le
  | some c' =>
    exact (List.pairwise_append.1 h.2).2.2 c' (List.mem_of_getLast? hlast) c List.mem_cons_self

/-- In terms of the calls: a restart is the first call or one after more than a second. -/
theorem restart_iff {p : PID} {calls : List Call} {v : Vars} {c : Call} (hi : Inv p calls v)
    (h : Clocked (calls ++ [c])) :
    Restart v c.tnow ↔ ∀ c' ∈ calls.getLast?, 1000 < c.tnow - c'.tnow := by
  unfold Restart
  rw [hi.last_t]
  unfold lastTime
  cases hlast : calls.getLast? with
  | none => simp
  | some c' =>
    have hpos := h.init.1 c' (List.mem_of_getLast? hlast)
    simp [hpos.ne']

/-- A call succeeds and keeps the invariant. -/
theorem inv_step {RC : ℚ} (hRC : 0 < RC) {p : PID} (hmax : 0 ≤ p.imax) {calls : List Call} {v : Vars}
    {c : Call} (hi : Inv p calls v) (h : Clocked (calls ++ [c])) :
    ∃ r, p.getPidChecked RC v c.tnow c.error c.scaler = .ok r ∧ Inv p (calls ++ [c]) r.vars := by
  by_cases hr : Restart v c.tnow
  · exact ⟨_, getPidChecked_restart hr RC p c.error c.scaler, inv_restart hmax calls v c⟩
  · obtain ⟨r, e, hrun⟩ := getPidChecked_running hRC p hr
    refine ⟨r, e, inv_running hmax hi ?_ hrun⟩
    rw [hi.last_t]
    exact h.lastTime_le

theorem afterCalls_inv {RC : ℚ} (hRC : 0 < RC) {p : PID} (hmax : 0 ≤ p.imax) {calls : List Call}
    (h : Clocked calls) : ∃ v, afterCalls RC p calls = .ok v ∧ Inv p calls v := by
  induction calls using List.reverseRecOn with
  | nil => exact ⟨Vars.init, rfl, inv_init hmax⟩
  | append_singleton calls c ih =>
    obtain ⟨v, e, hi⟩ := ih h.init
    obtain ⟨r, er, hi'⟩ := inv_step hRC hmax hi h
    refine ⟨r.vars, ?_, hi'⟩
    unfold afterCalls at e ⊢
    rw [foldlM_concat e, er]
    rfl

/-- What is asked of a call `c` after other calls. -/
structure Disciplined (p d imax : ℚ) (calls : List Call) (c : Call) (r : Reply) : Prop where
  integrator : |r.vars.integrator| ≤ |imax|
  restart : (∀ c' ∈ calls.getLast?, 1000 < c.tnow - c'.tnow) →
    r.output = p * c.error * c.scaler ∧ r.vars.integrator = 0
  /-- A finite difference is one between this call and a call that is `delta_time` seconds older. -/
  difference : d ≠ 0 → ∀ q ∈ r.difference, ∃ c' ∈ calls, q.last_error = c'.error ∧
    q.delta_time = ((c.tnow - c'.tnow : ℤ) : ℚ) / 1000 ∧ c.tnow - c'.tnow ≤ 1000

/-- **State discipline.** With any positive filter constant and any gains, no sequence of calls at times
that are positive and do not decrease divides by zero, and every call is as it should be. -/
theorem pid_discipline (RC : ℚ) (hRC : 0 < RC) (p i d imax : ℚ) (calls : List Call) (c : Call)
    (h : Clocked (calls ++ [c])) :
    ∃ v r, afterCalls RC (PID.new p i d imax) calls = .ok v ∧
      (PID.new p i d imax).getPidChecked RC v c.tnow c.error c.scaler = .ok r ∧
      Disciplined p d imax calls c r := by
  have hmax : 0 ≤ (PID.new p i d imax).imax := abs_nonneg imax
  obtain ⟨v, e, hi⟩ := afterCalls_inv hRC hmax h.init
  by_cases hr : Restart v c.tnow
  · refine ⟨v, _, e, getPidChecked_restart hr RC _ c.error c.scaler, ?_, ?_, ?_⟩
    · simp [Vars.resetI]
    · exact fun _ => ⟨by rw [mul_comm p]; rfl, rfl⟩
    · rintro - q ⟨⟩
  · obtain ⟨r, er, hrun⟩ := getPidChecked_running hRC _ hr
    have hle : v.last_t ≤ c.tnow := by
      rw [hi.last_t]
      exact h.lastTime_le
    refine ⟨v, r, e, er, (inv_running hmax hi hle hrun).integrator, ?_, ?_⟩
    · exact fun hlong => absurd ((restart_iff hi h).2 hlong) hr
    · intro _ q hq
      rcases hrun.derivative with ⟨-, -, hnone, -⟩ | ⟨-, -, hdiff⟩
      · rw [hnone] at hq
        cases hq
      · obtain ⟨hne, rfl⟩ := hdiff q hq
        obtain ⟨-, c', hc', herr, ht⟩ := hi.last_error hne
        refine ⟨c', hc', herr.symm, by rw [ht], ?_⟩
        rw [ht]
        exact not_lt.1 (not_or.1 hr).2

/-- The third call forms a finite difference. -/
theorem pid_discipline_third :
    ∃ v r, afterCalls 1 (PID.new 2 1 3 10) [⟨5, 1, 1⟩, ⟨15, 2, 1⟩] = .ok v ∧
      (PID.new 2 1 3 10).getPidChecked 1 v 25 4 1 = .ok r ∧
      Disciplined 2 3 10 [⟨5, 1, 1⟩, ⟨15, 2, 1⟩] ⟨25, 4, 1⟩ r :=
  pid_discipline 1 one_pos 2 1 3 10 [⟨5, 1, 1⟩, ⟨15, 2, 1⟩] ⟨25, 4, 1⟩ (by decide)

end Tdps.PID
