import Tdps.Course
import Tdps.Lib.Streak

/-!
# Proofs: what each state function can do

One lemma for each function of `state_functions` gives the call's result in all its branches. The
whole-run results use these and never open the functions again.
-/

namespace Tdps

theorem checkArrow_cases (img : Snapshot) (g : Globals) :
    ∃ d k n, checkArrow img g = ⟨{ g with direction := d, state_cnt := k }, [], some n⟩ ∧
      (n = 1 ∨ n = 2) := by
  unfold checkArrow
  split_ifs
  · exact ⟨.forward, g.state_cnt, 2, rfl, Or.inr rfl⟩
  · exact ⟨.left, g.state_cnt, 2, rfl, Or.inr rfl⟩
  · dsimp only
    split_ifs
    · exact ⟨g.direction, 0, 2, rfl, Or.inr rfl⟩
    · exact ⟨g.direction, g.state_cnt + 1, 1, rfl, Or.inl rfl⟩

theorem trafficLight_cases (img : Snapshot) (g : Globals) :
    ∃ d n, trafficLight img g = ⟨{ g with direction := d }, [], some n⟩ ∧ (n = 2 ∨ n = 3) := by
  unfold trafficLight
  dsimp only
  split_ifs
  · exact ⟨.right, 3, rfl, Or.inr rfl⟩
  · exact ⟨.stop, 2, rfl, Or.inl rfl⟩
  · exact ⟨.right, 3, rfl, Or.inr rfl⟩
  · exact ⟨g.direction, 2, rfl, Or.inl rfl⟩

/-- Green is obeyed only by a car that stood at the start of the pass; otherwise red stops it. -/
theorem trafficLight_eq (img : Snapshot) (g : Globals) :
    trafficLight img g =
      if img.green_circle = true ∧ g.old_direction = .stop then
        ⟨{ g with direction := .right }, [], some 3⟩
      else ⟨{ g with direction := if img.red_circle then .stop else g.direction }, [], some 2⟩ := by
  unfold trafficLight
  cases img.red_circle <;> rfl

/-- A reading below `DIS_CONST`. -/
def close (distance : UInt8) : Bool := distance < DIS_CONST

/-- The direction after `pedestrian` has read these bytes. -/
def heading (d : Direction) (used : List UInt8) : Direction :=
  used.foldl (fun _ distance => if close distance then .stop else .right) d

theorem heading_append (d : Direction) (used used' : List UInt8) :
    heading d (used ++ used') = heading (heading d used) used' := List.foldl_append

theorem heading_of_getLast? {d : Direction} {used : List UInt8} {distance : UInt8}
    (h : used.getLast? = some distance) :
    heading d used = if close distance then .stop else .right := by
  obtain ⟨used, rfl⟩ := List.getLast?_eq_some_iff.1 h
  exact heading_append d used [distance]

/-- `pedestrian` reads all bytes and stays in state 3, or stops at the byte with which the counter
passes 160. -/
theorem pedestrianLoop_cases (g : Globals) (uart : List UInt8) :
    ∃ (k : ℕ) (used rest : List UInt8) (n : ℕ), uart = used ++ rest ∧
      pedestrianLoop g uart =
        ⟨{ g with direction := heading g.direction used, state_cnt := k, uart := rest },
          used.map .read, some n⟩ ∧
      ((n = 3 ∧ k = Streak.count close g.state_cnt used ∧ (used = [] ∨ k ≤ 160)) ∨
        (n = 4 ∧ used ≠ [] ∧ 160 < Streak.count close g.state_cnt used ∧
          (used.dropLast = [] ∨ Streak.count close g.state_cnt used.dropLast ≤ 160))) := by
  induction uart generalizing g with
  | nil => exact ⟨g.state_cnt, [], [], 3, rfl, rfl, Or.inl ⟨rfl, rfl, Or.inl rfl⟩⟩
  | cons distance uart ih =>
    -- the loop goes on after this byte, with this direction and count
    have hgo : ∀ d m, (if close distance then g.state_cnt + 1 else 0) = m → m ≤ 160 →
        (if close distance then Direction.stop else Direction.right) = d →
        pedestrianLoop g (distance :: uart) =
          (pedestrianLoop { g with direction := d, state_cnt := m } uart).after [.read distance] →
        ∃ (k : ℕ) (used rest : List UInt8) (n : ℕ), distance :: uart = used ++ rest ∧
          pedestrianLoop g (distance :: uart) =
            ⟨{ g with direction := heading g.direction used, state_cnt := k, uart := rest },
              used.map .read, some n⟩ ∧
          ((n = 3 ∧ k = Streak.count close g.state_cnt used ∧ (used = [] ∨ k ≤ 160)) ∨
            (n = 4 ∧ used ≠ [] ∧ 160 < Streak.count close g.state_cnt used ∧
              (used.dropLast = [] ∨ Streak.count close g.state_cnt used.dropLast ≤ 160))) := by
      intro d m hm hle hd hloop
      obtain ⟨k, used, rest, n, rfl, e, hn⟩ := ih { g with direction := d, state_cnt := m }
      rw [e] at hloop
      refine ⟨k, distance :: used, rest, n, rfl, ?_, ?_⟩
      · rw [hloop, ← hd]
        rfl
      · have hcount : ∀ l, Streak.count close g.state_cnt (distance :: l) = Streak.count close m l :=
          fun l => by rw [Streak.count_cons, hm]
        rcases hn with ⟨rfl, hk, hlow⟩ | ⟨rfl, hne, hpass, hbefore⟩
        · refine Or.inl ⟨rfl, by rw [hcount]; exact hk, Or.inr ?_⟩
          rcases hlow with rfl | hlow
          · rw [hk]
            exact hle
          · exact hlow
        · refine Or.inr ⟨rfl, by simp, by rw [hcount]; exact hpass, Or.inr ?_⟩
          rw [List.dropLast_cons_of_ne_nil hne, hcount]
          rcases hbefore with h | h
          · rw [h]
            exact hle
          · exact h
    by_cases hclose : distance < DIS_CONST
    · have hc : close distance = true := by simpa [close] using hclose
      by_cases hpass : 160 < g.state_cnt + 1
      · refine ⟨0, [distance], uart, 4, rfl, ?_, Or.inr ⟨rfl, by simp, ?_, Or.inl rfl⟩⟩
        · unfold pedestrianLoop
          rw [if_pos hclose]
          dsimp only
          rw [if_pos hpass]
          simp [heading, hc]
        · simpa [Streak.count, hc] using hpass
      · refine hgo .stop (g.state_cnt + 1) (by simp [hc]) (not_lt.1 hpass) (by simp [hc]) ?_
        conv_lhs => unfold pedestrianLoop
        rw [if_pos hclose]
        dsimp only
        rw [if_neg hpass]
    · have hc : close distance = false := by simpa [close] using hclose
      refine hgo .right 0 (by simp [hc]) (Nat.zero_le _) (by simp [hc]) ?_
      conv_lhs => unfold pedestrianLoop
      rw [if_neg hclose]

theorem getAround_cases (img : Snapshot) (g : Globals) :
    (g.get_around_flag = false ∧
        getAround img g =
          ⟨{ g with get_around_flag := true, direction := .right }, manoeuvre, some 4⟩) ∨
      (g.get_around_flag = true ∧ ∃ n, getAround img g = ⟨g, [], some n⟩ ∧ (n = 4 ∨ n = 5)) := by
  unfold getAround
  cases hflag : g.get_around_flag with
  | false =>
    left
    exact ⟨rfl, if_pos (by simp)⟩
  | true =>
    right
    rw [if_neg (by simp)]
    cases img.green_blob with
    | false => exact ⟨rfl, 4, rfl, Or.inl rfl⟩
    | true => exact ⟨rfl, 5, rfl, Or.inr rfl⟩

/-- The wait of `state_5` reads bytes up to the first zero byte, or all of them. -/
theorem awaitZero_cases (g : Globals) (uart : List UInt8) :
    (0 ∉ uart ∧ awaitZero g uart = ⟨{ g with uart := [] }, uart.map .read, none⟩) ∨
      ∃ used rest, uart = used ++ 0 :: rest ∧ 0 ∉ used ∧
        awaitZero g uart =
          ⟨{ g with uart := rest, direction := .stop }, (used ++ [0]).map .read, some 5⟩ := by
  induction uart with
  | nil => exact Or.inl ⟨List.not_mem_nil, rfl⟩
  | cons distance uart ih =>
    unfold awaitZero
    by_cases h0 : distance = 0
    · subst h0
      exact Or.inr ⟨[], uart, rfl, List.not_mem_nil, if_pos rfl⟩
    · rw [if_neg h0]
      rcases ih with ⟨hmem, e⟩ | ⟨used, rest, rfl, hmem, e⟩
      · left
        rw [e]
        refine ⟨?_, rfl⟩
        intro h
        rcases List.mem_cons.1 h with h | h
        · exact h0 h.symm
        · exact hmem h
      · right
        rw [e]
        refine ⟨distance :: used, rest, rfl, ?_, rfl⟩
        intro h
        rcases List.mem_cons.1 h with h | h
        · exact h0 h.symm
        · exact hmem h

theorem awaitZero_ret {g : Globals} {uart : List UInt8} {n : ℕ}
    (h : (awaitZero g uart).ret = some n) : n = 5 := by
  rcases awaitZero_cases g uart with ⟨-, e⟩ | ⟨used, rest, -, -, e⟩
  · rw [e] at h
    cases h
  · rw [e] at h
    exact (Option.some.inj h).symm

theorem awaitZero_keeps (g : Globals) (uart : List UInt8) :
    (awaitZero g uart).globals.current_state = g.current_state ∧
      (awaitZero g uart).globals.delay_flag = g.delay_flag := by
  rcases awaitZero_cases g uart with ⟨-, e⟩ | ⟨used, rest, -, -, e⟩ <;> rw [e] <;> exact ⟨rfl, rfl⟩

theorem awaitZero_old_output (g : Globals) (uart : List UInt8) :
    (awaitZero g uart).globals.old_output = g.old_output := by
  rcases awaitZero_cases g uart with ⟨-, e⟩ | ⟨used, rest, -, -, e⟩ <;> rw [e]

/-- The first call of `state_5` sends the gate request and waits; a later one reads at most one
byte. -/
theorem state5_cases (img : Snapshot) (g : Globals) :
    (g.delay_flag = false ∧ state5 img g =
        (awaitZero { g with delay_flag := true } g.uart).after
          [.send_sp SP_L (SP_R + 10), .delay 2000, .send_gate]) ∨
      (g.delay_flag = true ∧ ∃ (d : Direction) (used rest : List UInt8) (n : ℕ),
        g.uart = used ++ rest ∧
        state5 img g = ⟨{ g with direction := d, uart := rest }, used.map .read, some n⟩ ∧
        ((n = 5 ∧ ((used = [] ∧ d = g.direction) ∨ d = .stop)) ∨
          (n = 6 ∧ ∃ distance, used = [distance] ∧ DIS_CONST ≤ distance))) := by
  unfold state5
  by_cases hflag : g.delay_flag = true
  · right
    rw [if_neg (not_not.2 hflag)]
    refine ⟨hflag, ?_⟩
    obtain ⟨t, cs, k, around, delay, uart⟩ := g
    cases uart with
    | nil => exact ⟨t.direction, [], [], 5, rfl, rfl, Or.inl ⟨rfl, Or.inl ⟨rfl, rfl⟩⟩⟩
    | cons distance uart =>
      dsimp only
      split_ifs with hclose
      · exact ⟨.stop, [distance], uart, 5, rfl, rfl, Or.inl ⟨rfl, Or.inr rfl⟩⟩
      · exact ⟨.right, [distance], uart, 6, rfl, rfl,
          Or.inr ⟨rfl, distance, rfl, UInt8.not_lt.1 hclose⟩⟩
  · exact Or.inl ⟨by simpa using hflag, if_pos hflag⟩

/-! ## The end of a pass -/

/-- The command at the end of a pass reads nothing and assigns `direction` and `old_error` only. -/
theorem command_cases (sp_l sp_r : ℚ) (g : Globals) :
    (g.direction = .forward ∧ command sp_l sp_r g =
        ({ g with direction := .right, old_error := -30 }, [.send_sp SP_L SP_R, .delay FOR_DELAY])) ∨
      (g.direction = .stop ∧ command sp_l sp_r g = (g, [.send_sp 0 0])) ∨
      ((g.direction = .left ∨ g.direction = .right) ∧
        command sp_l sp_r g = (g, [.send_sp sp_l sp_r])) := by
  unfold command
  cases hd : g.direction <;> simp

theorem command_direction (sp_l sp_r : ℚ) (g : Globals) :
    (command sp_l sp_r g).1.direction = if g.direction = .forward then .right else g.direction := by
  rcases command_cases sp_l sp_r g with ⟨hd, e⟩ | ⟨hd, e⟩ | ⟨hd | hd, e⟩ <;> rw [e] <;> simp [hd]

theorem command_current_state (sp_l sp_r : ℚ) (g : Globals) :
    (command sp_l sp_r g).1.current_state = g.current_state := by
  rcases command_cases sp_l sp_r g with ⟨-, e⟩ | ⟨-, e⟩ | ⟨-, e⟩ <;> rw [e]

theorem command_keeps (sp_l sp_r : ℚ) (g : Globals) :
    (command sp_l sp_r g).1.get_around_flag = g.get_around_flag ∧
      (command sp_l sp_r g).1.delay_flag = g.delay_flag ∧ (command sp_l sp_r g).1.uart = g.uart := by
  rcases command_cases sp_l sp_r g with ⟨-, e⟩ | ⟨-, e⟩ | ⟨-, e⟩ <;> rw [e] <;> exact ⟨rfl, rfl, rfl⟩

theorem command_reads (sp_l sp_r : ℚ) (g : Globals) :
    (command sp_l sp_r g).2.filterMap Effect.distance = [] := by
  rcases command_cases sp_l sp_r g with ⟨-, e⟩ | ⟨-, e⟩ | ⟨-, e⟩ <;> rw [e] <;> rfl

theorem reads_map (used : List UInt8) :
    (used.map Effect.read).filterMap Effect.distance = used := by
  rw [List.filterMap_map]
  exact List.filterMap_some

theorem speeds_map (used : List UInt8) : (used.map Effect.read).filterMap Effect.speed = [] := by
  rw [List.filterMap_map]
  exact List.filterMap_eq_nil_iff.2 fun _ _ => rfl

/-! ## The record of a step -/

theorem finish_start (start : Globals) (sp_l sp_r : ℚ) (c : Call) :
    (finish start sp_l sp_r c).2.start = start := by
  unfold finish
  cases c.ret <;> rfl

theorem step_out (c : Camera) (img : Snapshot) :
    (c.pc = .raised ∧ c.step img = (c, [])) ∨
      ∃ it, c.pc ≠ .raised ∧ (c.step img).2 = [it] ∧ it.start = c.globals := by
  rcases hpc : c.pc with _ | ⟨sp_l, sp_r⟩ | _
  · right
    cases hf : stateFunctions c.globals.current_state with
    | none =>
      rw [Camera.step_lookup_fails hpc hf]
      exact ⟨_, by simp, rfl, rfl⟩
    | some f =>
      rw [Camera.step_top hpc hf]
      exact ⟨_, by simp, rfl, finish_start _ _ _ _⟩
  · right
    rw [Camera.step_wait hpc]
    exact ⟨_, by simp, rfl, finish_start _ _ _ _⟩
  · exact Or.inl ⟨rfl, Camera.step_raised hpc⟩

theorem emitted_start {c : Camera} {img : Snapshot} {u v : List Iter} {it : Iter}
    (h : (c.step img).2 = u ++ it :: v) :
    u = [] ∧ (c.step img).2 = [it] ∧ it.start = c.globals ∧ c.pc ≠ .raised := by
  rcases step_out c img with ⟨-, e⟩ | ⟨it', hpc, e, hst⟩
  · rw [e] at h
    simp at h
  · rw [e] at h ⊢
    rcases List.append_eq_singleton_iff.1 h.symm with ⟨rfl, e'⟩ | ⟨-, e'⟩
    · obtain ⟨rfl, rfl⟩ := List.cons.inj e'
      exact ⟨rfl, rfl, hst, hpc⟩
    · cases e'

/-! ## Only `state_5` waits -/

/-- A waiting pass is in state 5. -/
def Camera.WaitsInFive (c : Camera) : Prop :=
  ∀ sp_l sp_r, c.pc = .wait sp_l sp_r → c.globals.current_state = 5

theorem call_waits {n : ℕ} {f : Snapshot → Globals → Call} (hf : stateFunctions n = some f)
    (img : Snapshot) (g : Globals) (h : (f img g).ret = none) :
    n = 5 ∧ (f img g).globals.current_state = g.current_state := by
  unfold stateFunctions at hf
  split at hf <;> cases hf
  case h_1 =>
    obtain ⟨d, k, n, e, -⟩ := checkArrow_cases img g
    rw [e] at h
    cases h
  case h_2 =>
    obtain ⟨d, n, e, -⟩ := trafficLight_cases img g
    rw [e] at h
    cases h
  case h_3 =>
    obtain ⟨k, used, rest, n, -, e, -⟩ := pedestrianLoop_cases g g.uart
    unfold pedestrian at h
    rw [e] at h
    cases h
  case h_4 =>
    rcases getAround_cases img g with ⟨-, e⟩ | ⟨-, n, e, -⟩ <;> rw [e] at h <;> cases h
  case h_5 =>
    refine ⟨rfl, ?_⟩
    rcases state5_cases img g with ⟨-, e⟩ | ⟨-, d, used, rest, n, -, e, -⟩
    · rw [e]
      exact (awaitZero_keeps _ _).1
    · rw [e]
  case h_6 | h_7 => cases h

theorem finish_pc (start : Globals) (sp_l sp_r : ℚ) (c : Call) :
    (c.ret = none ∧ (finish start sp_l sp_r c).1 = ⟨c.globals, .wait sp_l sp_r⟩) ∨
      ∃ n, c.ret = some n ∧ (finish start sp_l sp_r c).1.pc = .top ∧
        (finish start sp_l sp_r c).1.globals.current_state = n := by
  unfold finish
  cases c.ret with
  | none => exact Or.inl ⟨rfl, rfl⟩
  | some n => exact Or.inr ⟨n, rfl, rfl, command_current_state _ _ _⟩

theorem waitsInFive_step (c : Camera) (img : Snapshot) (h : c.WaitsInFive) :
    (c.step img).1.WaitsInFive := by
  intro l r hpc'
  rcases hpc : c.pc with _ | ⟨sp_l, sp_r⟩ | _
  · cases hf : stateFunctions c.globals.current_state with
    | none =>
      rw [Camera.step_lookup_fails hpc hf] at hpc'
      cases hpc'
    | some f =>
      rw [Camera.step_top hpc hf] at hpc' ⊢
      rcases finish_pc c.globals _ _ (f img (c.globals.tracked img)) with ⟨hret, e⟩ | ⟨n, -, htop, -⟩
      · rw [e]
        obtain ⟨h5, hcs⟩ := call_waits hf img _ hret
        exact hcs.trans h5
      · rw [htop] at hpc'
        cases hpc'
  · rw [Camera.step_wait hpc] at hpc' ⊢
    rcases finish_pc c.globals sp_l sp_r
      (awaitZero (c.globals.receive img) (c.globals.receive img).uart) with ⟨-, e⟩ | ⟨n, -, htop, -⟩
    · rw [e]
      exact (awaitZero_keeps _ _).1.trans (h sp_l sp_r hpc)
    · rw [htop] at hpc'
      cases hpc'
  · rw [Camera.step_raised hpc] at hpc' ⊢
    exact h l r hpc'

/-! ## The current state -/

/-- A state function returns its own state or the next one. -/
theorem call_next {n : ℕ} {f : Snapshot → Globals → Call} (hf : stateFunctions n = some f)
    (img : Snapshot) (g : Globals) {m : ℕ} (h : (f img g).ret = some m) : m = n ∨ m = n + 1 := by
  unfold stateFunctions at hf
  split at hf <;> cases hf
  case h_1 =>
    obtain ⟨d, k, n, e, hn⟩ := checkArrow_cases img g
    rw [e] at h
    obtain rfl := Option.some.inj h
    exact hn
  case h_2 =>
    obtain ⟨d, n, e, hn⟩ := trafficLight_cases img g
    rw [e] at h
    obtain rfl := Option.some.inj h
    exact hn
  case h_3 =>
    obtain ⟨k, used, rest, n, -, e, hn⟩ := pedestrianLoop_cases g g.uart
    unfold pedestrian at h
    rw [e] at h
    obtain rfl := Option.some.inj h
    exact hn.imp And.left And.left
  case h_4 =>
    rcases getAround_cases img g with ⟨-, e⟩ | ⟨-, n, e, hn⟩
    · rw [e] at h
      exact Or.inl (Option.some.inj h).symm
    · rw [e] at h
      obtain rfl := Option.some.inj h
      exact hn
  case h_5 =>
    rcases state5_cases img g with ⟨-, e⟩ | ⟨-, d, used, rest, n, -, e, hn⟩
    · rw [e] at h
      exact Or.inl (awaitZero_ret h)
    · rw [e] at h
      obtain rfl := Option.some.inj h
      exact hn.imp And.left And.left
  case h_6 => exact Or.inr (Option.some.inj h).symm
  case h_7 => exact Or.inl (Option.some.inj h).symm

/-- In one step the state does not decrease and grows by at most one. -/
theorem step_current_state {c : Camera} (h : c.WaitsInFive) (img : Snapshot) :
    (c.step img).1.globals.current_state = c.globals.current_state ∨
      (c.step img).1.globals.current_state = c.globals.current_state + 1 := by
  rcases hpc : c.pc with _ | ⟨sp_l, sp_r⟩ | _
  · cases hf : stateFunctions c.globals.current_state with
    | none =>
      rw [Camera.step_lookup_fails hpc hf]
      exact Or.inl rfl
    | some f =>
      rw [Camera.step_top hpc hf]
      rcases finish_pc c.globals _ _ (f img (c.globals.tracked img)) with ⟨hret, e⟩ | ⟨n, hret, -, e⟩
      · rw [e]
        exact Or.inl (call_waits hf img _ hret).2
      · rw [e]
        exact call_next hf img _ hret
  · have h5 := h sp_l sp_r hpc
    rw [Camera.step_wait hpc]
    rcases finish_pc c.globals sp_l sp_r
      (awaitZero (c.globals.receive img) (c.globals.receive img).uart) with ⟨-, e⟩ | ⟨n, hret, -, e⟩
    · rw [e]
      exact Or.inl (awaitZero_keeps _ _).1
    · rw [e, h5]
      exact Or.inl (awaitZero_ret hret)
  · rw [Camera.step_raised hpc]
    exact Or.inl rfl

end Tdps
