import Tdps.Proofs.CourseProofs
import Tdps.Proofs.SteeringProofs

/-!
# Proofs: the order of the course

Started in one of the states 1 to 4 with both one-shot flags clear, the course goes up one state at a
time, sends the avoidance manoeuvre at most once, the gate request at most once and only after the
manoeuvre, and ends in state 7 with nothing but stop commands. The invariant `Ordered` relates what
has been sent to the state and the two flags.
-/

namespace Tdps

open Machine

/-- All effects of a run in order. -/
def sent (tr : List Iter) : List Effect := tr.flatMap Iter.effects

/-- The first command of the avoidance manoeuvre, which nothing else sends. -/
def firstCommand : Effect := .send_sp 0 (SP_R + 30)

/-- What has been sent, for the current state, `get_around_flag` and `delay_flag`. -/
structure Ordered (es : List Effect) (n : ℕ) (around delay : Bool) : Prop where
  range : 1 ≤ n ∧ n ≤ 7
  before : around = false → n ≤ 4 ∧ firstCommand ∉ es
  after : around = true → 4 ≤ n ∧ es.count firstCommand = 1 ∧ manoeuvre <:+: es
  requesting : delay = false → n ≤ 5 ∧ Effect.send_gate ∉ es
  requested : delay = true → 5 ≤ n ∧ around = true ∧ es.count .send_gate = 1
  gate_after : ∀ pre post, es = pre ++ .send_gate :: post → manoeuvre <:+: pre

/-- Neither a manoeuvre nor a gate request. -/
def Quiet (es : List Effect) : Prop := firstCommand ∉ es ∧ Effect.send_gate ∉ es

theorem quiet_reads (used : List UInt8) : Quiet (used.map .read) := by
  constructor <;> simp [firstCommand]

theorem quiet_nil : Quiet [] := ⟨List.not_mem_nil, List.not_mem_nil⟩

/-- A tracked command drives the left wheel, which the manoeuvre's first command does not. -/
theorem quiet_command {sp_l sp_r : ℚ} (ht : Tracked (sp_l, sp_r)) (g : Globals) :
    Quiet (command sp_l sp_r g).2 := by
  have hl : (0 : ℚ) ≠ sp_l := by
    have := (tracked_bounds ht).1
    dsimp only at this
    intro h
    rw [← h] at this
    norm_num at this
  have hr : SP_R + 30 ≠ 0 := by norm_num [SP_R]
  have hSP : (0 : ℚ) ≠ SP_L := by norm_num [SP_L]
  rcases command_cases sp_l sp_r g with ⟨-, e⟩ | ⟨-, e⟩ | ⟨-, e⟩ <;> rw [e] <;> constructor <;>
    simp [firstCommand, hSP, hr, hl]

/-- A gate request keeps its place when more is sent, and a new one comes after the manoeuvre. -/
theorem gate_after_append {es out : List Effect}
    (h : ∀ pre post, es = pre ++ .send_gate :: post → manoeuvre <:+: pre)
    (hout : Effect.send_gate ∈ out → manoeuvre <:+: es) :
    ∀ pre post, es ++ out = pre ++ .send_gate :: post → manoeuvre <:+: pre := by
  intro pre post e
  rcases List.append_eq_append_iff.1 e with ⟨u, rfl, hu⟩ | ⟨u, rfl, hu⟩
  · have hmem : Effect.send_gate ∈ out := by
      rw [hu]
      simp
    exact (hout hmem).trans (List.prefix_append es u).isInfix
  · cases u with
    | nil =>
      have hmem : Effect.send_gate ∈ out := by
        rw [List.nil_append] at hu
        rw [← hu]
        simp
      simpa using hout hmem
    | cons x u =>
      obtain ⟨rfl, -⟩ := List.cons.inj hu
      exact h pre u rfl

/-! ## What each state function sends -/

/-- Quiet effects keep the order as long as the new state fits the flags. -/
theorem ordered_quiet {es out : List Effect} {n n' : ℕ} {around delay : Bool}
    (h : Ordered es n around delay) (hq : Quiet out) (hup : n ≤ n') (h7 : n' ≤ 7)
    (ha : around = false → n' ≤ 4) (hd : delay = false → n' ≤ 5) :
    Ordered (es ++ out) n' around delay := by
  have hcount : ∀ e, e ∉ out → (es ++ out).count e = es.count e := by
    intro e he
    rw [List.count_append, List.count_eq_zero.2 he, add_zero]
  refine ⟨⟨h.range.1.trans hup, h7⟩, ?_, ?_, ?_, ?_, ?_⟩
  · intro hf
    refine ⟨ha hf, ?_⟩
    intro hm
    rcases List.mem_append.1 hm with hm | hm
    · exact (h.before hf).2 hm
    · exact hq.1 hm
  · intro hf
    obtain ⟨h4, hone, hinf⟩ := h.after hf
    exact ⟨h4.trans hup, (hcount _ hq.1).trans hone, hinf.trans (List.prefix_append es out).isInfix⟩
  · intro hf
    refine ⟨hd hf, ?_⟩
    intro hm
    rcases List.mem_append.1 hm with hm | hm
    · exact (h.requesting hf).2 hm
    · exact hq.2 hm
  · intro hf
    obtain ⟨h5, haround, hone⟩ := h.requested hf
    exact ⟨h5.trans hup, haround, (hcount _ hq.2).trans hone⟩
  · apply gate_after_append h.gate_after
    intro hm
    exact absurd hm hq.2

/-- The manoeuvre is sent from state 4 with the flag clear. -/
theorem ordered_manoeuvre {es : List Effect} {delay : Bool} (h : Ordered es 4 false delay) :
    Ordered (es ++ manoeuvre) 4 true delay := by
  have hone : manoeuvre.count firstCommand = 1 := by decide +kernel
  have hgate : Effect.send_gate ∉ manoeuvre := by decide +kernel
  refine ⟨by norm_num, ?_, ?_, ?_, ?_, ?_⟩
  · intro hf
    cases hf
  · intro _
    refine ⟨le_rfl, ?_, (List.suffix_append es manoeuvre).isInfix⟩
    rw [List.count_append, List.count_eq_zero.2 (h.before rfl).2, hone]
  · intro hf
    refine ⟨by norm_num, ?_⟩
    intro hm
    rcases List.mem_append.1 hm with hm | hm
    · exact (h.requesting hf).2 hm
    · exact hgate hm
  · intro hf
    exact absurd (h.requested hf).1 (by norm_num)
  · apply gate_after_append h.gate_after
    intro hm
    exact absurd hm hgate

/-- The gate request is sent from state 5 with the flag clear. -/
theorem ordered_request {es : List Effect} {around : Bool} (h : Ordered es 5 around false) :
    Ordered (es ++ [.send_sp SP_L (SP_R + 10), .delay 2000, .send_gate]) 5 around true := by
  have haround : around = true := by
    by_contra hf
    have := (h.before (by simpa using hf)).1
    omega
  obtain ⟨h4, hone, hinf⟩ := h.after haround
  have hfirst : firstCommand ∉
      [Effect.send_sp SP_L (SP_R + 10), .delay 2000, .send_gate] := by decide +kernel
  refine ⟨by norm_num, ?_, ?_, ?_, ?_, gate_after_append h.gate_after fun _ => hinf⟩
  · intro hf
    cases hf.symm.trans haround
  · intro _
    refine ⟨h4, ?_, hinf.trans (List.prefix_append _ _).isInfix⟩
    rw [List.count_append, hone, List.count_eq_zero.2 hfirst]
  · intro hf
    cases hf
  · intro _
    refine ⟨le_rfl, haround, ?_⟩
    rw [List.count_append, List.count_eq_zero.2 (h.requesting rfl).2]
    simp

theorem ordered_awaitZero {es : List Effect} (g : Globals) (uart : List UInt8)
    (h : Ordered es 5 g.get_around_flag g.delay_flag) :
    Ordered (es ++ (awaitZero g uart).effects) 5 (awaitZero g uart).globals.get_around_flag
        (awaitZero g uart).globals.delay_flag ∧
      ∀ n, (awaitZero g uart).ret = some n → n = 5 := by
  have hd : g.delay_flag = false → 5 ≤ 5 := fun _ => le_rfl
  have ha : g.get_around_flag = false → 5 ≤ 4 := fun hf => (h.before hf).1
  rcases awaitZero_cases g uart with ⟨-, e⟩ | ⟨used, rest, -, -, e⟩
  · rw [e]
    refine ⟨ordered_quiet h (quiet_reads _) le_rfl (by norm_num) ha hd, ?_⟩
    intro n hn
    cases hn
  · rw [e]
    refine ⟨ordered_quiet h (quiet_reads _) le_rfl (by norm_num) ha hd, ?_⟩
    intro n hn
    exact (Option.some.inj hn).symm

/-- A call that returns. -/
theorem ordered_returns {es : List Effect} {n n' : ℕ} {c : Call} (hret : c.ret = some n')
    (hn : n' = n ∨ n' = n + 1)
    (h : Ordered (es ++ c.effects) n' c.globals.get_around_flag c.globals.delay_flag) :
    ∃ n', (n' = n ∨ n' = n + 1) ∧ (∀ m, c.ret = some m → m = n') ∧
      (c.ret = none → n' = n ∧ c.globals.delay_flag = true) ∧
      Ordered (es ++ c.effects) n' c.globals.get_around_flag c.globals.delay_flag := by
  refine ⟨n', hn, ?_, ?_, h⟩
  · intro m hm
    exact Option.some.inj (hm.symm.trans hret)
  · intro hnone
    cases hnone.symm.trans hret

/-- A call of a state function keeps the order; the state it returns is the same or the next. -/
theorem ordered_call {es : List Effect} {n : ℕ} {f : Snapshot → Globals → Call} {g : Globals}
    (h : Ordered es n g.get_around_flag g.delay_flag) (hf : stateFunctions n = some f)
    (img : Snapshot) :
    ∃ n', (n' = n ∨ n' = n + 1) ∧ (∀ m, (f img g).ret = some m → m = n') ∧
      ((f img g).ret = none → n' = n ∧ (f img g).globals.delay_flag = true) ∧
      Ordered (es ++ (f img g).effects) n' (f img g).globals.get_around_flag
        (f img g).globals.delay_flag := by
  unfold stateFunctions at hf
  split at hf <;> cases hf
  case h_1 =>
    obtain ⟨d, k, n, e, hn⟩ := checkArrow_cases img g
    rw [e]
    apply ordered_returns rfl (by omega)
    exact ordered_quiet h quiet_nil (by omega) (by omega) (fun _ => by omega) (fun _ => by omega)
  case h_2 =>
    obtain ⟨d, n, e, hn⟩ := trafficLight_cases img g
    rw [e]
    apply ordered_returns rfl (by omega)
    exact ordered_quiet h quiet_nil (by omega) (by omega) (fun _ => by omega) (fun _ => by omega)
  case h_3 =>
    obtain ⟨k, used, rest, n, -, e, hn⟩ := pedestrianLoop_cases g g.uart
    unfold pedestrian
    rw [e]
    have hn' : n = 3 ∨ n = 4 := hn.imp And.left And.left
    apply ordered_returns rfl (by omega)
    exact ordered_quiet h (quiet_reads used) (by omega) (by omega) (fun _ => by omega)
      (fun _ => by omega)
  case h_4 =>
    rcases getAround_cases img g with ⟨hflag, e⟩ | ⟨hflag, n, e, hn⟩
    · rw [e]
      apply ordered_returns rfl (by omega)
      rw [hflag] at h
      exact ordered_manoeuvre h
    · rw [e]
      apply ordered_returns rfl (by omega)
      refine ordered_quiet h quiet_nil (by omega) (by omega) ?_ (fun _ => by omega)
      intro hf
      rw [hflag] at hf
      cases hf
  case h_5 =>
    rcases state5_cases img g with ⟨hflag, e⟩ | ⟨hflag, d, used, rest, n, -, e, hn⟩
    · rw [hflag] at h
      obtain ⟨hord, hret⟩ := ordered_awaitZero { g with delay_flag := true } g.uart
        (ordered_request h)
      rw [e]
      refine ⟨5, Or.inl rfl, hret, fun _ => ⟨rfl, (awaitZero_keeps _ _).2⟩, ?_⟩
      rw [List.append_assoc] at hord
      exact hord
    · rw [e]
      have hn' : n = 5 ∨ n = 6 := hn.imp And.left And.left
      apply ordered_returns rfl (by omega)
      refine ordered_quiet h (quiet_reads used) (by omega) (by omega) ?_ ?_
      · intro hf
        have := (h.before hf).1
        omega
      · intro hf
        rw [hflag] at hf
        cases hf
  case h_6 =>
    have hdelay : g.delay_flag = true := by
      by_contra hf
      have := (h.requesting (by simpa using hf)).1
      omega
    have haround := (h.requested hdelay).2.1
    apply ordered_returns rfl (Or.inr rfl)
    refine ordered_quiet h ⟨?_, ?_⟩ (by norm_num) le_rfl ?_ ?_
    · simp [state6, firstCommand, SP_L]
    · simp [state6]
    · intro hf
      cases hf.symm.trans haround
    · intro hf
      cases hf.symm.trans hdelay
  case h_7 =>
    apply ordered_returns rfl (Or.inl rfl)
    refine ordered_quiet h quiet_nil le_rfl le_rfl ?_ ?_
    · intro hf
      exact absurd (h.before hf).1 (by norm_num)
    · intro hf
      exact absurd (h.requesting hf).1 (by norm_num)

/-! ## The run -/

/-- The invariant of a run. -/
structure OnCourse (tr : List Iter) (c : Camera) : Prop where
  ordered : Ordered (sent tr) c.globals.current_state c.globals.get_around_flag c.globals.delay_flag
  aimed : c.Aimed
  waiting : ∀ sp_l sp_r, c.pc = .wait sp_l sp_r →
    c.globals.current_state = 5 ∧ c.globals.delay_flag = true
  running : c.pc ≠ .raised

theorem sent_concat (tr : List Iter) (it : Iter) : sent (tr ++ [it]) = sent tr ++ it.effects := by
  unfold sent
  rw [List.flatMap_append, List.flatMap_singleton]

/-- The command at the end of a pass keeps the order. -/
theorem onCourse_finish (tr : List Iter) (start : Globals) {sp_l sp_r : ℚ} {call : Call} {n : ℕ}
    (ht : Tracked (sp_l, sp_r))
    (h : Ordered (sent tr ++ call.effects) n call.globals.get_around_flag call.globals.delay_flag)
    (hret : ∀ m, call.ret = some m → m = n)
    (hwait : call.ret = none →
      n = 5 ∧ call.globals.delay_flag = true ∧ call.globals.current_state = 5) :
    OnCourse (tr ++ [(finish start sp_l sp_r call).2]) (finish start sp_l sp_r call).1 ∧
      (finish start sp_l sp_r call).1.globals.current_state = n := by
  unfold finish
  cases hcall : call.ret with
  | none =>
    obtain ⟨rfl, hdelay, hcs⟩ := hwait hcall
    refine ⟨⟨?_, ?_, fun _ _ _ => ⟨hcs, hdelay⟩, by simp⟩, hcs⟩
    · rw [sent_concat]
      dsimp only [Iter.effects]
      rw [List.append_nil, hcs]
      exact h
    · intro l r hw
      obtain ⟨rfl, rfl⟩ := LoopPc.wait.inj hw
      exact ht
  | some m =>
    obtain rfl := hret m hcall
    obtain ⟨haround, hdelay, -⟩ := command_keeps sp_l sp_r { call.globals with current_state := m }
    have hcs := command_current_state sp_l sp_r { call.globals with current_state := m }
    refine ⟨⟨?_, fun l r hw => (by cases hw), fun l r hw => (by cases hw), by simp⟩, hcs⟩
    rw [sent_concat]
    dsimp only [Iter.effects]
    rw [hcs, haround, hdelay, ← List.append_assoc]
    exact ordered_quiet h (quiet_command ht _) le_rfl h.range.2 (fun hf => (h.before hf).1)
      fun hf => (h.requesting hf).1

theorem stateFunctions_isSome {n : ℕ} (h1 : 1 ≤ n) (h7 : n ≤ 7) :
    ∃ f, stateFunctions n = some f := by
  obtain rfl | rfl | rfl | rfl | rfl | rfl | rfl :
      n = 1 ∨ n = 2 ∨ n = 3 ∨ n = 4 ∨ n = 5 ∨ n = 6 ∨ n = 7 := by omega
  all_goals exact ⟨_, rfl⟩

/-- A step keeps the invariant and leaves the current state as it is or moves it up by one. -/
theorem onCourse_step {tr : List Iter} {c : Camera} (h : OnCourse tr c) (img : Snapshot) :
    OnCourse (tr ++ (c.step img).2) (c.step img).1 ∧
      ((c.step img).1.globals.current_state = c.globals.current_state ∨
        (c.step img).1.globals.current_state = c.globals.current_state + 1) := by
  rcases hpc : c.pc with _ | ⟨sp_l, sp_r⟩ | _
  · obtain ⟨f, hf⟩ := stateFunctions_isSome h.ordered.range.1 h.ordered.range.2
    rw [Camera.step_top hpc hf]
    have ht : Tracked ((track img.img_blue img.tnow c.globals.toTracker).2.1,
        (track img.img_blue img.tnow c.globals.toTracker).2.2) :=
      track_speeds img.img_blue img.tnow c.globals.toTracker
    obtain ⟨n', hn', hret, hwait, hord⟩ := ordered_call (g := c.globals.tracked img) h.ordered hf img
    obtain ⟨hcourse, hcs⟩ := onCourse_finish tr c.globals ht hord hret
      fun hnone => by
        obtain ⟨h5, hcs⟩ := call_waits hf img _ hnone
        obtain ⟨e, hdelay⟩ := hwait hnone
        exact ⟨e.trans h5, hdelay, hcs.trans h5⟩
    exact ⟨hcourse, hn'.imp hcs.trans hcs.trans⟩
  · rw [Camera.step_wait hpc]
    obtain ⟨h5, hdelay⟩ := h.waiting sp_l sp_r hpc
    have hord := h.ordered
    rw [h5] at hord
    obtain ⟨hord', hret⟩ := ordered_awaitZero (c.globals.receive img)
      (c.globals.receive img).uart hord
    obtain ⟨hcourse, hcs⟩ := onCourse_finish tr c.globals (h.aimed sp_l sp_r hpc)
      hord' hret fun _ => ⟨rfl, (awaitZero_keeps _ _).2.trans hdelay, (awaitZero_keeps _ _).1.trans h5⟩
    exact ⟨hcourse, Or.inl (hcs.trans h5.symm)⟩
  · exact absurd hpc h.running

/-- A pass in state 7 sends a stop command, stays in state 7 and does nothing else. -/
theorem step_seven {c : Camera} (hpc : c.pc = .top) (h7 : c.globals.current_state = 7)
    (img : Snapshot) :
    ∃ it, (c.step img).2 = [it] ∧ it.outcome = .next 7 ∧ it.effects = [.send_sp 0 0] ∧
      (c.step img).1.pc = .top ∧ (c.step img).1.globals.current_state = 7 := by
  have hf : stateFunctions c.globals.current_state = some state7 := by rw [h7]; rfl
  rw [Camera.step_top hpc hf]
  exact ⟨_, rfl, rfl, rfl, rfl, rfl⟩

/-- Once a pass has been made in state 7 the camera is in state 7. -/
def Arrived (tr : List Iter) (c : Camera) : Prop :=
  (∃ it ∈ tr, it.start.current_state = 7) → c.pc = .top ∧ c.globals.current_state = 7

/-- A record with a pass in state 7 behind it, or made in it, comes from state 7. -/
theorem arrived_start {tr : List Iter} {c : Camera} {img : Snapshot} {it : Iter}
    (hc : OnCourse tr c) (ha : Arrived tr c) (hout : (c.step img).2 = [it])
    (hst : it.start = c.globals) (h : ∃ it0 ∈ tr ++ [it], it0.start.current_state = 7) :
    c.pc = .top ∧ c.globals.current_state = 7 := by
  obtain ⟨it0, hmem, h7⟩ := h
  rcases List.mem_append.1 hmem with hmem | hmem
  · exact ha ⟨it0, hmem, h7⟩
  · obtain rfl := List.mem_singleton.1 hmem
    rw [hst] at h7
    refine ⟨?_, h7⟩
    rcases hpc : c.pc with _ | ⟨sp_l, sp_r⟩ | _
    · rfl
    · have := (hc.waiting sp_l sp_r hpc).1
      omega
    · exact absurd hpc hc.running

theorem arrived_step {tr : List Iter} {c : Camera} (hc : OnCourse tr c) (ha : Arrived tr c)
    (img : Snapshot) : Arrived (tr ++ (c.step img).2) (c.step img).1 := by
  intro h
  rcases step_out c img with ⟨hpc, -⟩ | ⟨it, -, hout, hst⟩
  · exact absurd hpc hc.running
  · rw [hout] at h
    obtain ⟨hpc, h7⟩ := arrived_start hc ha hout hst h
    obtain ⟨-, -, -, -, htop, h7'⟩ := step_seven hpc h7 img
    exact ⟨htop, h7'⟩

theorem onCourse_init {g : Globals} (h : 1 ≤ g.current_state ∧ g.current_state ≤ 4)
    (ha : g.get_around_flag = false) (hd : g.delay_flag = false) : OnCourse [] ⟨g, .top⟩ := by
  refine ⟨?_, fun _ _ hw => (by cases hw), fun _ _ hw => (by cases hw), by simp⟩
  dsimp only
  rw [ha, hd]
  refine ⟨⟨h.1, by omega⟩, fun _ => ⟨h.2, List.not_mem_nil⟩, ?_,
    fun _ => ⟨by omega, List.not_mem_nil⟩, ?_, ?_⟩
  · intro hf
    cases hf
  · intro hf
    cases hf
  · intro pre post e
    simp [sent] at e

theorem ordered_counts {es : List Effect} {n : ℕ} {around delay : Bool}
    (h : Ordered es n around delay) :
    es.count firstCommand ≤ 1 ∧ es.count .send_gate ≤ 1 := by
  constructor
  · cases around with
    | false => simp [List.count_eq_zero.2 (h.before rfl).2]
    | true => exact (h.after rfl).2.1.le
  · cases delay with
    | false => simp [List.count_eq_zero.2 (h.requesting rfl).2]
    | true => exact (h.requested rfl).2.2.le

/-- **Course order.** For every run from one of the states 1 to 4 with both flags clear: the state
never goes down and goes up by at most one in a step, the manoeuvre and the gate request are sent at
most once, the request after the manoeuvre, the lookup succeeds, and from the first pass in state 7 on
the course stays there and sends stop commands only. -/
theorem course_order (g : Globals) (h : 1 ≤ g.current_state ∧ g.current_state ≤ 4)
    (ha : g.get_around_flag = false) (hd : g.delay_flag = false) (imgs : List Snapshot) :
    (∀ img, (run Camera.step ⟨g, .top⟩ imgs).1.globals.current_state ≤
          ((run Camera.step ⟨g, .top⟩ imgs).1.step img).1.globals.current_state ∧
        ((run Camera.step ⟨g, .top⟩ imgs).1.step img).1.globals.current_state ≤
          (run Camera.step ⟨g, .top⟩ imgs).1.globals.current_state + 1) ∧
      (sent (run Camera.step ⟨g, .top⟩ imgs).2).count firstCommand ≤ 1 ∧
      (sent (run Camera.step ⟨g, .top⟩ imgs).2).count .send_gate ≤ 1 ∧
      (∀ pre post, sent (run Camera.step ⟨g, .top⟩ imgs).2 = pre ++ .send_gate :: post →
        manoeuvre <:+: pre) ∧
      (run Camera.step ⟨g, .top⟩ imgs).1.pc ≠ .raised ∧
      ∀ pre it post, (run Camera.step ⟨g, .top⟩ imgs).2 = pre ++ it :: post →
        (∃ it0 ∈ pre ++ [it], it0.start.current_state = 7) →
        it.start.current_state = 7 ∧ it.outcome = .next 7 ∧ it.effects = [.send_sp 0 0] := by
  have hinit := onCourse_init h ha hd
  have hrun : OnCourse (run Camera.step ⟨g, .top⟩ imgs).2 (run Camera.step ⟨g, .top⟩ imgs).1 :=
    run_history Camera.step hinit (fun _ _ img hc => (onCourse_step hc img).1) imgs
  obtain ⟨hfirst, hgate⟩ := ordered_counts hrun.ordered
  refine ⟨?_, hfirst, hgate, hrun.ordered.gate_after, hrun.running, ?_⟩
  · intro img
    rcases (onCourse_step hrun img).2 with e | e <;> rw [e] <;> omega
  · intro pre it post e
    refine run_emitted Camera.step (I := fun tr c => OnCourse tr c ∧ Arrived tr c)
      (P := fun pre it => (∃ it0 ∈ pre ++ [it], it0.start.current_state = 7) →
        it.start.current_state = 7 ∧ it.outcome = .next 7 ∧ it.effects = [.send_sp 0 0])
      ⟨hinit, by rintro ⟨it, hit, -⟩; cases hit⟩
      (fun _ _ img hc => ⟨(onCourse_step hc.1 img).1, arrived_step hc.1 hc.2 img⟩) ?_ imgs e
    rintro tr c img u it v ⟨hc, harr⟩ hout h7
    obtain ⟨rfl, hsingle, hst, -⟩ := emitted_start hout
    rw [List.append_nil] at h7
    obtain ⟨hpc, hcs⟩ := arrived_start hc harr hsingle hst h7
    obtain ⟨it', hout', hnext, heff, -⟩ := step_seven hpc hcs img
    obtain ⟨rfl, -⟩ := List.cons.inj (hsingle.symm.trans hout')
    exact ⟨by rw [hst]; exact hcs, hnext, heff⟩

/-- From the manoeuvre through the gate to the end of the course. -/
def lastStretch : List Snapshot :=
  [.blank, { Snapshot.blank with green_blob := true }, .readings [0], .readings [50], .blank, .blank]

theorem course_order_last_stretch :
    ∃ pre it, (run Camera.step ⟨Globals.init 4, .top⟩ lastStretch).2 = pre ++ it :: [] ∧
      it.start.current_state = 7 ∧ it.effects = [.send_sp 0 0] := by
  obtain ⟨pre, it, hrun, h7⟩ : ∃ pre it,
      (run Camera.step ⟨Globals.init 4, .top⟩ lastStretch).2 = pre ++ it :: [] ∧
      it.start.current_state = 7 :=
    ⟨_, _, (List.dropLast_concat_getLast (by decide +kernel)).symm, by decide +kernel⟩
  obtain ⟨-, -, -, -, -, hend⟩ := course_order (Globals.init 4) (by decide) rfl rfl lastStretch
  exact ⟨pre, it, hrun, hend pre it [] hrun ⟨it, by simp, h7⟩ |>.imp_right And.right⟩

end Tdps
