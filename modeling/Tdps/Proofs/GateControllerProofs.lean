import Mathlib.Data.List.Count
import Tdps.GateController

/-!
# Proofs: the requests to the gate controller

The main loop clears `send_flag` after it has sent the go code. A request that comes between the two is
lost (`quiet_main`); all others are served (`sent_of_rank`).
-/

namespace Tdps.GateController

open Machine

/-- A byte 0x44 has been received since the last `send_go` began, or at all if there was none. -/
def pending (tr : List Act) : Bool :=
  tr.foldl (fun p a => match a with
    | .received c => p || c == 0x44
    | .send_go => false
    | _ => p) false

/-- A go code is sent from the beginning of `send_go` on. -/
def Sent (tr : List Act) : Prop := ∃ a b, tr = a ++ .send_go :: b ∧ .write send_code ∈ b

/-- A go code will be sent after enough statements of `main`, whatever is received meanwhile. -/
def Served (s : GateController) : Prop :=
  ∃ n, ∀ cont : List Choice, n ≤ cont.count .main → Sent (run step s cont).2

/-- A request that is pending is in the flag and will be served. -/
def Safe (tr : List Act) (s : GateController) : Prop :=
  pending tr = true → s.send_flag = true ∧ Served s

/-- `send_go` has begun and the flag is not cleared yet. -/
def Sending (pc : GatePc) : Prop := pc = .write ∨ pc = .clear

instance : DecidablePred Sending := fun pc => inferInstanceAs (Decidable (pc = .write ∨ pc = .clear))

/-- A request comes while the go code for an earlier one is being sent. -/
def Crosses (v : GateController × Choice) : Prop := v.2 = .rx_irp2 0x44 ∧ Sending v.1.pc

theorem pending_append (tr acts : List Act) :
    pending (tr ++ acts) = acts.foldl (fun p a => match a with
      | .received c => p || c == 0x44
      | .send_go => false
      | _ => p) (pending tr) := List.foldl_append

/-! ## A request in the flag is served -/

/-- The number of statements of `main` up to the next `send_go`, when the flag is set. -/
def rank : GatePc → ℕ
  | .send_go => 1
  | .sleep => 2
  | .opens => 3
  | .test => 4
  | .closes => 5
  | .sleep' => 6
  | .clear => 7
  | .write => 8

theorem rxIrp2_pc (s : GateController) (c : UInt8) : (s.rxIrp2 c).1.pc = s.pc := by
  unfold rxIrp2
  dsimp only
  split_ifs <;> rfl

theorem rxIrp2_send_flag {s : GateController} (h : s.send_flag = true) (c : UInt8) :
    (s.rxIrp2 c).1.send_flag = true := by
  unfold rxIrp2
  dsimp only
  split_ifs
  · rfl
  · exact h

theorem Sent.append_left {tr : List Act} (h : Sent tr) (acts : List Act) : Sent (acts ++ tr) := by
  obtain ⟨a, b, rfl, hb⟩ := h
  exact ⟨acts ++ a, b, (List.append_assoc _ _ _).symm, hb⟩

/-- `send_go` writes the go code with its next statement. -/
theorem write_of_pc {s : GateController} (hpc : s.pc = .write) {cont : List Choice}
    (h : 1 ≤ cont.count .main) : .write send_code ∈ (run step s cont).2 := by
  induction cont generalizing s with
  | nil => cases h
  | cons c cont ih =>
    rw [run_cons, List.mem_append]
    cases c with
    | main =>
      left
      show _ ∈ s.stepMain.2
      unfold stepMain
      rw [hpc]
      exact List.mem_singleton_self _
    | rx_irp2 c =>
      right
      refine ih ((s.rxIrp2_pc c).trans hpc) ?_
      rwa [List.count_cons_of_ne (by simp)] at h

/-- A statement of `main` on the way to `send_go`. -/
theorem rank_stepMain {s : GateController} (hflag : s.send_flag = true) (hpc : ¬ Sending s.pc)
    (hne : s.pc ≠ .send_go) :
    s.stepMain.1.send_flag = true ∧ ¬ Sending s.stepMain.1.pc ∧
      rank s.stepMain.1.pc + 1 = rank s.pc := by
  obtain ⟨send_flag, pc⟩ := s
  obtain rfl : send_flag = true := hflag
  cases pc with
  | test => exact ⟨rfl, by decide, rfl⟩
  | opens => exact ⟨rfl, by decide, rfl⟩
  | sleep => exact ⟨rfl, by decide, rfl⟩
  | send_go => exact absurd rfl hne
  | write => exact absurd (Or.inl rfl) hpc
  | clear => exact absurd (Or.inr rfl) hpc
  | sleep' => exact ⟨rfl, by decide, rfl⟩
  | closes => exact ⟨rfl, by decide, rfl⟩

theorem sent_of_rank {s : GateController} (hflag : s.send_flag = true) (hpc : ¬ Sending s.pc)
    {cont : List Choice} (h : rank s.pc + 1 ≤ cont.count .main) : Sent (run step s cont).2 := by
  induction cont generalizing s with
  | nil => cases h
  | cons c cont ih =>
    rw [run_cons]
    cases c with
    | main =>
      rw [List.count_cons_self] at h
      by_cases hgo : s.pc = .send_go
      · have hstep : step s .main = ({ s with pc := .write }, [.send_go]) := by
          show s.stepMain = _
          unfold stepMain
          rw [hgo]
        rw [hgo] at h
        rw [hstep]
        exact ⟨[], _, rfl, write_of_pc rfl (Nat.le_of_succ_le_succ h)⟩
      · obtain ⟨hflag', hpc', hrank⟩ := rank_stepMain hflag hpc hgo
        refine Sent.append_left (ih hflag' hpc' ?_) _
        show rank s.stepMain.1.pc + 1 ≤ _
        omega
    | rx_irp2 c =>
      rw [List.count_cons_of_ne (by simp)] at h
      refine Sent.append_left (ih (rxIrp2_send_flag hflag c) ?_ ?_) _
      · show ¬ Sending (s.rxIrp2 c).1.pc
        rwa [rxIrp2_pc]
      · show rank (s.rxIrp2 c).1.pc + 1 ≤ _
        rwa [rxIrp2_pc]

/-! ## A request that crosses a go code is lost -/

/-- `main` alone sends no go code from here. -/
def Quiet (s : GateController) : Prop :=
  Sending s.pc ∨ s.send_flag = false ∧ (s.pc = .sleep' ∨ s.pc = .closes ∨ s.pc = .test)

theorem quiet_step {s : GateController} (h : Quiet s) :
    Quiet s.stepMain.1 ∧ Act.send_go ∉ s.stepMain.2 := by
  obtain ⟨send_flag, pc⟩ := s
  rcases h with (rfl | rfl) | ⟨rfl, rfl | rfl | rfl⟩
  · exact ⟨Or.inl (Or.inr rfl), by simp [stepMain]⟩
  · exact ⟨Or.inr ⟨rfl, Or.inl rfl⟩, by simp [stepMain]⟩
  · exact ⟨Or.inr ⟨rfl, Or.inr (Or.inl rfl)⟩, by simp [stepMain]⟩
  · exact ⟨Or.inr ⟨rfl, Or.inr (Or.inr rfl)⟩, by simp [stepMain]⟩
  · exact ⟨Or.inr ⟨rfl, Or.inr (Or.inr rfl)⟩, by simp [stepMain]⟩

theorem quiet_main {s : GateController} (h : Quiet s) (n : ℕ) :
    Act.send_go ∉ (run step s (List.replicate n .main)).2 := by
  induction n generalizing s with
  | zero => exact List.not_mem_nil
  | succ n ih =>
    obtain ⟨hquiet, hnone⟩ := quiet_step h
    rw [List.replicate_succ, run_cons, List.mem_append, not_or]
    exact ⟨hnone, ih hquiet⟩

theorem not_served {s : GateController} (h : Quiet s) : ¬ Served s := by
  rintro ⟨n, hn⟩
  obtain ⟨a, b, e, -⟩ := hn (List.replicate n .main) (Nat.le_of_eq List.count_replicate_self.symm)
  exact quiet_main h n (by rw [e]; simp)

/-! ## Runs -/

/-- A request that is pending is in the flag, and no go code is being sent. -/
def Ready (tr : List Act) (s : GateController) : Prop :=
  pending tr = true → s.send_flag = true ∧ ¬ Sending s.pc

theorem ready_main {tr : List Act} {s : GateController} (h : Ready tr s) :
    Ready (tr ++ s.stepMain.2) s.stepMain.1 := by
  intro hpending
  rw [pending_append] at hpending
  obtain ⟨send_flag, pc⟩ := s
  cases pc with
  | test =>
    cases send_flag with
    | true => exact ⟨rfl, by decide⟩
    | false => exact absurd (h hpending).1 (by simp)
  | opens => exact ⟨(h hpending).1, (by decide : ¬ Sending .sleep)⟩
  | sleep => exact ⟨(h hpending).1, (by decide : ¬ Sending .send_go)⟩
  | send_go => cases hpending
  | write => exact absurd (Or.inl rfl) (h hpending).2
  | clear => exact absurd (Or.inr rfl) (h hpending).2
  | sleep' => exact ⟨(h hpending).1, (by decide : ¬ Sending .closes)⟩
  | closes => exact ⟨(h hpending).1, (by decide : ¬ Sending .test)⟩

theorem ready_rxIrp2 {tr : List Act} {s : GateController} {c : UInt8} (h : Ready tr s)
    (hcross : ¬ Crosses (s, .rx_irp2 c)) : Ready (tr ++ (s.rxIrp2 c).2) (s.rxIrp2 c).1 := by
  intro hpending
  rw [pending_append] at hpending
  rw [rxIrp2_pc]
  by_cases hc : c = 0x44
  · subst hc
    exact ⟨rfl, fun hsending => hcross ⟨rfl, hsending⟩⟩
  · have hbefore : pending tr = true := by
      rcases (Bool.or_eq_true_iff).1 hpending with hp | hp
      · exact hp
      · exact absurd (eq_of_beq hp) hc
    exact ⟨rxIrp2_send_flag (h hbefore).1 c, (h hbefore).2⟩

theorem ready_run {choices : List Choice} (h : ∀ v ∈ visits step init choices, ¬ Crosses v) :
    Ready (run step init choices).2 (run step init choices).1 := by
  induction choices using List.reverseRecOn with
  | nil => exact fun hpending => absurd hpending (by decide)
  | append_singleton choices c ih =>
    obtain ⟨hbefore, hlast⟩ := (forall_visits_snoc step init choices c).1 h
    rw [run_snoc]
    cases c with
    | main => exact ready_main (ih hbefore)
    | rx_irp2 c => exact ready_rxIrp2 (ih hbefore) hlast

/-- **Requests.** In a run no request is lost if and only if none comes while a go code is being sent. -/
theorem safe_iff (choices : List Choice) :
    (∀ pre, pre <+: choices → Safe (run step init pre).2 (run step init pre).1) ↔
      ∀ v ∈ visits step init choices, ¬ Crosses v := by
  constructor
  · intro h
    induction choices using List.reverseRecOn with
    | nil => exact fun v hv => absurd hv List.not_mem_nil
    | append_singleton choices c ih =>
      rw [forall_visits_snoc]
      refine ⟨ih fun pre hpre => h pre (hpre.trans (List.prefix_append _ _)), ?_⟩
      rintro ⟨rfl, hsending⟩
      have hsafe := h _ (List.prefix_refl _)
      rw [run_snoc] at hsafe
      have hserved := (hsafe (by rw [pending_append]; exact Bool.or_true _)).2
      refine not_served (Or.inl ?_) hserved
      show Sending (rxIrp2 _ 0x44).1.pc
      rwa [rxIrp2_pc]
  · intro h pre hpre hpending
    obtain ⟨hflag, hpc⟩ := ready_run (fun v hv => h v ((visits_mono step init hpre).subset hv))
      hpending
    exact ⟨hflag, rank (run step init pre).1.pc + 1, fun cont hcont => sent_of_rank hflag hpc hcont⟩

/-- A second request while the go code for the first one is being sent. -/
def crossing : List Choice :=
  [.rx_irp2 0x44, .main, .main, .main, .main, .main, .rx_irp2 0x44, .main]

/-- It is still pending when the flag has been cleared. -/
theorem crossing_lost :
    ¬ Safe (run step init crossing).2 (run step init crossing).1 := by
  intro h
  exact absurd (h (by decide)).1 (by decide)

end Tdps.GateController
