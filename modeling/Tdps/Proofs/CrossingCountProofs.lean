import Tdps.Proofs.CrossingProofs

/-!
# Proofs: the requests and answers of a gate crossing are counted

If the infrared link makes up no codes, it can only lose them, a byte is read once, and the gate opens once
for each time it finds `send_flag` set. So along `crossing` no station is passed more often than the one before.
-/

namespace Tdps

open Machine

namespace Rover

/-- A request that `main` of the gate has still to answer by opening. -/
def waiting (c : GateController) : ℕ :=
  match c.pc with
  | .test | .sleep' | .closes => c.send_flag.toNat
  | .opens => 1
  | _ => 0

/-- The gate has been opened and its code is still to be written. -/
def answering (c : GateController) : ℕ :=
  match c.pc with
  | .sleep | .send_go | .write => 1
  | _ => 0

/-- How often each station has been passed, with what is between two of them. -/
structure Counted (tr : List Act) (s : Rover) : Prop where
  codes : tr.count (.gate (.received 0x44)) + s.toGate.count 0x44 ≤ tr.count .code
  opens : tr.count (.gate (.myled 75)) + waiting s.controller ≤ tr.count (.gate (.received 0x44))
  answers : tr.count (.gate (.write GateController.send_code)) + answering s.controller =
    tr.count (.gate (.myled 75))
  reads : tr.count (.car (.revc 0x22)) +
      (s.car.infrared_uart.contents.count 0x22 + s.toCar.count 0x22) ≤
    tr.count (.gate (.write GateController.send_code))

/-- Events of the car other than the read of a go code. -/
theorem counted_car {tr : List Act} {s : Rover} (h : Counted tr s) {out : List Act}
    (hout : ∀ a ∈ out, a ≠ .code ∧ a ≠ .car (.revc 0x22) ∧ ∀ b, a ≠ .gate b) :
    Counted (tr ++ out) s := by
  have hcode : out.count .code = 0 := List.count_eq_zero.2 fun hm => (hout _ hm).1 rfl
  have hrevc : out.count (.car (.revc 0x22)) = 0 := List.count_eq_zero.2 fun hm => (hout _ hm).2.1 rfl
  have hgate : ∀ b, out.count (.gate b) = 0 := fun b => List.count_eq_zero.2 fun hm => (hout _ hm).2.2 b rfl
  obtain ⟨h1, h2, h3, h4⟩ := h
  constructor <;> simpa only [List.count_append, hcode, hrevc, hgate, add_zero]

theorem counted_infrared {tr : List Act} {s : Rover} (h : Counted tr s) :
    Counted (tr ++ s.stepInfrared.2) s.stepInfrared.1 := by
  have hquiet : Counted (tr ++ []) s := counted_car h (by simp)
  unfold stepInfrared
  split
  · exact { hquiet with }
  · split_ifs <;> exact { hquiet with }
  · split_ifs <;> exact { hquiet with }
  · obtain ⟨h1, h2, h3, h4⟩ := h
    refine ⟨?_, by simpa using h2, by simpa using h3, by simpa using h4⟩
    have hcode : send_code.count 0x44 = 1 := by decide
    simp only [List.count_append, hcode, List.count_singleton_self, List.count_singleton]
    simpa [← add_assoc] using h1
  · exact { hquiet with }

theorem counted_irq {tr : List Act} {s : Rover} (h : Counted tr s) (n : ℕ) :
    Counted (tr ++ (s.irq n).2) (s.irq n).1 := by
  rcases irq_cases s n with ⟨-, e⟩ | ⟨b, hb, hout, hs, -⟩
  · rw [e]
    exact counted_car h (by simp)
  · have hle := (incoming_suffix hb).sublist.count_le 0x22
    obtain ⟨h1, h2, h3, h4⟩ := h
    rw [hout, hs]
    refine ⟨by simpa using h1, by simpa using h2, by simpa using h3, ?_⟩
    unfold incoming at hle
    dsimp only
    by_cases hgo : b = 0x22
    · subst hgo
      rw [List.count_cons_self, List.count_append, List.count_append] at hle
      rw [List.count_append, List.count_append, List.count_singleton_self]
      simp
      omega
    · rw [List.count_cons_of_ne hgo, List.count_append, List.count_append] at hle
      simp [List.count_append, hgo]
      omega

/-- A statement of the gate's `main`: it opens for a request that waits, and answers once. -/
theorem counted_controller {tr out : List Act} {s : Rover} (h : Counted tr s) {controller : GateController}
    {bytes : List UInt8} (hout : ∀ a ∈ out, a ≠ .code ∧ a ≠ .gate (.received 0x44) ∧ ∀ b, a ≠ .car b)
    (hopens : out.count (.gate (.myled 75)) + waiting controller ≤ waiting s.controller)
    (hanswers : out.count (.gate (.write GateController.send_code)) + answering controller =
      out.count (.gate (.myled 75)) + answering s.controller)
    (hbytes : bytes.count 0x22 = out.count (.gate (.write GateController.send_code))) :
    Counted (tr ++ out) { s with controller := controller, toCar := s.toCar ++ bytes } := by
  have hcode : out.count .code = 0 := List.count_eq_zero.2 fun hm => (hout _ hm).1 rfl
  have hrec : out.count (.gate (.received 0x44)) = 0 := List.count_eq_zero.2 fun hm => (hout _ hm).2.1 rfl
  have hrevc : out.count (.car (.revc 0x22)) = 0 := List.count_eq_zero.2 fun hm => (hout _ hm).2.2 _ rfl
  obtain ⟨h1, h2, h3, h4⟩ := h
  constructor <;> simp only [List.count_append, hcode, hrec, hrevc] <;> omega

theorem counted_main {tr : List Act} {s : Rover} (h : Counted tr s) :
    Counted (tr ++ s.main.2) s.main.1 := by
  unfold main GateController.step GateController.stepMain
  dsimp only
  cases hpc : s.controller.pc with
  | test =>
    dsimp only
    split_ifs with hf
    · exact counted_controller h (by simp) (by simp [waiting, hpc, hf]) (by simp [answering, hpc]) (by simp)
    · exact counted_controller h (by simp) (by simp) (by simp) (by simp)
  | opens | sleep | send_go | write | clear | sleep' | closes =>
    dsimp only
    refine counted_controller h (by simp) ?_ ?_ ?_
    · simp [waiting, hpc]
    · simp [answering, hpc]
    · decide

theorem counted_rxIrp2 {tr : List Act} {s : Rover} (h : Counted tr s) :
    Counted (tr ++ s.rxIrp2.2) s.rxIrp2.1 := by
  unfold rxIrp2
  cases hair : s.toGate with
  | nil => exact counted_car h (by simp)
  | cons c toGate =>
    obtain ⟨h1, h2, h3, h4⟩ := h
    rw [hair] at h1
    have hwait : waiting ⟨true, s.controller.pc⟩ ≤ waiting s.controller + 1 := by
      unfold waiting
      cases s.controller.pc <;> simp
    have hanswer : answering ⟨true, s.controller.pc⟩ = answering s.controller := rfl
    unfold GateController.step GateController.rxIrp2
    dsimp only
    by_cases hc : c = 0x44
    · subst hc
      rw [List.count_cons_self] at h1
      rw [if_pos rfl]
      refine ⟨?_, ?_, by simpa [hanswer] using h3, by simpa using h4⟩
      · simp [List.count_append]
        omega
      · simp [List.count_append]
        omega
    · rw [List.count_cons_of_ne hc] at h1
      rw [if_neg hc]
      exact ⟨by simpa [List.count_append, List.count_singleton, hc] using h1,
        by simpa [List.count_append, List.count_singleton, hc] using h2, by simpa using h3, by simpa using h4⟩

theorem counted_onAir {tr : List Act} {s : Rover} (h : Counted tr s) (air : Air)
    {f : List UInt8 → List UInt8} (hf : ∀ l, (f l).count air.code ≤ l.count air.code) :
    Counted (tr ++ []) (s.onAir air f) := by
  rw [List.append_nil]
  cases air with
  | toGate =>
    have hle : (f s.toGate).count 0x44 ≤ s.toGate.count 0x44 := hf _
    exact { h with codes := (Nat.add_le_add_left hle _).trans h.codes }
  | toCar =>
    have hle : (f s.toCar).count 0x22 ≤ s.toCar.count 0x22 := hf _
    refine { h with reads := le_trans ?_ h.reads }
    exact Nat.add_le_add_left (Nat.add_le_add_left hle _) _

theorem counted_step (A : Arith) {tr : List Act} {s : Rover} (h : Counted tr s) {c : Choice}
    (hcode : c.NoCode) : Counted (tr ++ (step A s c).2) (step A s c).1 := by
  have hquiet : Counted (tr ++ []) s := counted_car h (by simp)
  have hcar : ∀ {c : Gate.Choice}, (∀ bytes, c ≠ .infrared bytes) →
      Counted (tr ++ (s.car.step c).2.map .car) { s with car := (s.car.step c).1 } := by
    intro c hc
    obtain ⟨hfifo, hrevc⟩ := Gate.step_infrared_uart s.car hc
    have hout : ∀ a ∈ (s.car.step c).2.map Act.car,
        a ≠ .code ∧ a ≠ .car (.revc 0x22) ∧ ∀ b, a ≠ .gate b := by
      intro a ha
      obtain ⟨a', ha', rfl⟩ := List.mem_map.1 ha
      exact ⟨by simp, fun e => hrevc 0x22 (Act.car.inj e ▸ ha'), by simp⟩
    refine { counted_car h hout with reads := ?_ }
    dsimp only
    rw [hfifo]
    exact (counted_car h hout).reads
  cases c with
  | car c =>
    cases c with
    | infrared bytes => exact hquiet
    | camera | uart | decoder | sense | senseFails | sr04 | deliver => exact hcar (by simp)
  | motor =>
    have hout : ∀ a ∈ (s.stepMotor A).2, a ≠ .code ∧ a ≠ .car (.revc 0x22) ∧ ∀ b, a ≠ .gate b := by
      intro a ha
      obtain ⟨a, -, rfl⟩ := List.mem_map.1 ha
      simp
    have hmotor := counted_car h hout
    exact { hmotor with }
  | infrared_th => exact counted_infrared h
  | irq n => exact counted_irq h n
  | main => exact counted_main h
  | rx_irp2 => exact counted_rxIrp2 h
  | lose air i => exact counted_onAir h air fun l => (List.eraseIdx_sublist l i).count_le _
  | noise air i b =>
    have hle : ∀ l : List UInt8, (l.insertIdx i b).count air.code ≤ l.count air.code := by
      intro l
      rcases Nat.lt_or_ge l.length i with hi | hi
      · rw [List.insertIdx_of_length_lt hi]
      · rw [(List.perm_insertIdx b l hi).count_eq, List.count_cons_of_ne hcode]
    exact counted_onAir h air hle

/-- **Requests and answers.** In every run from power-up, whatever the infrared link loses and whatever it
adds but the codes: the board reads at most as many go codes as the gate sends, the gate sends at most as
many as it opens, it opens at most as often as it receives the request code, and it receives that at most as
often as `infrared_th` sends it. -/
theorem crossing_count (A : Arith) (g : Globals) (back : List UInt8) {cs : List Choice}
    (hnoise : ∀ c ∈ cs, c.NoCode) :
    let tr := (run (step A) (init g back) cs).2
    tr.count (.car (.revc 0x22)) ≤ tr.count (.gate (.write GateController.send_code)) ∧
      tr.count (.gate (.write GateController.send_code)) ≤ tr.count (.gate (.myled 75)) ∧
      tr.count (.gate (.myled 75)) ≤ tr.count (.gate (.received 0x44)) ∧
      tr.count (.gate (.received 0x44)) ≤ tr.count .code := by
  have hinit : Counted [] (init g back) := by
    constructor <;> simp [init, Gate.init, waiting, answering, GateController.init]
  obtain ⟨h1, h2, h3, h4⟩ := run_history_along (step A) hinit (fun _ _ _ hc h => counted_step A h hc)
    (along_of_forall (step A) hnoise _)
  dsimp only
  omega

/-- A code of the rover is lost on the air, the next one is answered between bytes that are noise. -/
def answerSecond : List Choice :=
  (acknowledge.map .car ++ List.replicate 3 .infrared_th ++ List.replicate 5 (.lose .toGate 0) ++
    List.replicate 3 .infrared_th ++ List.replicate 5 .rx_irp2 ++ List.replicate 5 .main ++
      [.noise .toCar 0 0x55, .noise .toGate 0 0x22]) ++ List.replicate 4 (.irq 0)

theorem crossing_count_second :
    (run (step Arith.exact) (init (Globals.init 5) []) answerSecond).2.count (.car (.revc 0x22)) = 1 ∧
      1 ≤ (run (step Arith.exact) (init (Globals.init 5) []) answerSecond).2.count .code := by
  have hread : (run (step Arith.exact) (init (Globals.init 5) []) answerSecond).2.count
      (.car (.revc 0x22)) = 1 := by decide +kernel
  have hnoise : ∀ c ∈ answerSecond, c.NoCode := by decide +kernel
  have h := crossing_count Arith.exact (Globals.init 5) [] hnoise
  dsimp only at h
  omega

end Rover

end Tdps
