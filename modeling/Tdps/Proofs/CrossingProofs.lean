import Tdps.Lib.InOrder
import Tdps.Proofs.GateProofs
import Tdps.Rover

/-!
# Proofs: the order of a gate crossing

Every station of `crossing` leaves its mark until the next one: the flag, the position of `infrared_th`, a
byte 0x44 on the air, `send_flag` and the position of the gate's `main`, a byte 0x22 on the air or in the
FIFO. `Ordered` says which stations have been passed when a mark is there. With the handshake of the
camera and the board this gives the order of all seven before the rover drives through.
-/

namespace Tdps

open Machine

namespace Gate

/-! ## The board between two interrupts -/

/-- Only the decoder thread sets the flag, and then it was about to. -/
theorem step_stop_flag {s : Gate} {c : Choice}
    (h : (step s c).1.shared.stop_flag = true) :
    s.shared.stop_flag = true ∨
      ((step s c).2 = [.set_stop_flag] ∧ Op.set_stop_flag ∈ s.decoder.todo) := by
  cases c with
  | camera | sense | senseFails | sr04 => exact Or.inl h
  | uart =>
    left
    unfold step at h
    dsimp only at h
    split at h
    · exact h
    · split_ifs at h <;> exact h
  | deliver =>
    left
    unfold step at h
    dsimp only at h
    split at h <;> exact h
  | infrared bytes =>
    left
    unfold step infraredRxCallback at h
    dsimp only at h
    split at h
    · exact h
    · split_ifs at h
      exact h
  | decoder =>
    unfold step at h ⊢
    dsimp only at h ⊢
    cases htodo : s.decoder.todo with
    | nil =>
      rw [htodo] at h
      exact Or.inl h
    | cons op ops =>
      rw [htodo] at h
      cases op with
      | store i b | release_motorctrl | release_infrared => exact Or.inl h
      | set_stop_flag => exact Or.inr ⟨rfl, List.mem_cons_self⟩

/-- Between two interrupts the FIFO of the infrared UART stays as it is. -/
theorem step_infrared_uart (s : Gate) {c : Choice} (hc : ∀ bytes, c ≠ .infrared bytes) :
    (step s c).1.infrared_uart = s.infrared_uart ∧ ∀ b, Act.revc b ∉ (step s c).2 := by
  cases c with
  | camera img =>
    refine ⟨rfl, ?_⟩
    intro b hb
    obtain ⟨it, -, e⟩ := List.mem_map.1 hb
    cases e
  | sense | senseFails | sr04 => exact ⟨rfl, by simp [step]⟩
  | uart =>
    unfold step
    dsimp only
    split
    · exact ⟨rfl, by simp⟩
    · split_ifs <;> exact ⟨rfl, by simp⟩
  | deliver =>
    unfold step
    dsimp only
    split <;> exact ⟨rfl, by simp⟩
  | decoder =>
    unfold step
    dsimp only
    split
    · exact ⟨rfl, by simp⟩
    · rename_i op ops _
      cases op <;> exact ⟨rfl, by simp [acts]⟩
  | infrared bytes => exact absurd rfl (hc bytes)

/-- What the interrupt does with the bytes that came in: one is read. -/
theorem step_infrared (s : Gate) (bytes : List UInt8) :
    ((bytes.foldl RxFifo.put s.infrared_uart).contents = [] ∧ (step s (.infrared bytes)).2 = []) ∨
      ∃ revc_data, (bytes.foldl RxFifo.put s.infrared_uart).contents =
          revc_data :: (step s (.infrared bytes)).1.infrared_uart.contents ∧
        (step s (.infrared bytes)).2 = [.revc revc_data] ∧
        (step s (.infrared bytes)).1.shared.stop_flag =
          (s.shared.stop_flag && decide (revc_data ≠ 0x22)) := by
  unfold step infraredRxCallback
  dsimp only
  cases hread : (bytes.foldl RxFifo.put s.infrared_uart).intRx with
  | none => exact Or.inl ⟨RxFifo.intRx_eq_none.1 hread, rfl⟩
  | some read =>
    obtain ⟨revc_data, fifo⟩ := read
    refine Or.inr ⟨revc_data, ?_⟩
    rw [RxFifo.contents_of_intRx hread]
    dsimp only
    split_ifs with h22
    · simp [h22]
    · simp [h22]

end Gate

namespace Rover

/-! ## The bytes for the infrared interrupt -/

/-- The bytes that `infrared_rx_callback` is to read, in order. -/
def incoming (s : Rover) : List UInt8 := s.car.infrared_uart.contents ++ s.toCar

theorem incoming_car (s : Rover) {c : Gate.Choice} (hc : ∀ bytes, c ≠ .infrared bytes) :
    incoming { s with car := (s.car.step c).1 } = s.incoming := by
  unfold incoming
  rw [(Gate.step_infrared_uart s.car hc).1]

/-- An interrupt puts the bytes that have come into the FIFO, and one is read. -/
theorem irq_cases (s : Rover) (n : ℕ) :
    (s.toCar = [] ∧ s.irq n = (s, [])) ∨
      ∃ b, ((s.toCar.take (n + 1)).foldl RxFifo.put s.car.infrared_uart).contents =
          b :: (s.irq n).1.car.infrared_uart.contents ∧
        (s.irq n).2 = [.car (.revc b)] ∧
        (s.irq n).1 = { s with car := (s.irq n).1.car, toCar := s.toCar.drop (n + 1) } ∧
        (s.irq n).1.car.shared.stop_flag = (s.car.shared.stop_flag && decide (b ≠ 0x22)) := by
  unfold irq
  split_ifs with hair
  · exact Or.inl ⟨hair, rfl⟩
  · right
    rcases Gate.step_infrared s.car (s.toCar.take (n + 1)) with ⟨hnil, -⟩ | ⟨b, hb, hout, hflag⟩
    · -- a byte has come in, so the FIFO is not empty
      have hlen := RxFifo.length_foldl_put s.car.infrared_uart (s.toCar.take (n + 1))
      have hpos : 0 < s.toCar.length := List.length_pos_iff.2 hair
      rw [hnil, List.length_nil, List.length_take] at hlen
      omega
    · refine ⟨b, hb, ?_, rfl, hflag⟩
      dsimp only
      rw [hout]
      rfl

/-- What is left to be read was to be read before, behind the byte that is. -/
theorem incoming_suffix {s : Rover} {n : ℕ} {b : UInt8} {fifo : List UInt8}
    (hb : ((s.toCar.take (n + 1)).foldl RxFifo.put s.car.infrared_uart).contents = b :: fifo) :
    b :: (fifo ++ s.toCar.drop (n + 1)) <:+ s.incoming := by
  obtain ⟨l, hl⟩ := RxFifo.contents_foldl_put_suffix s.car.infrared_uart (s.toCar.take (n + 1))
  refine ⟨l, ?_⟩
  rw [hb] at hl
  unfold incoming
  rw [← List.cons_append, ← List.append_assoc, hl, List.append_assoc, List.take_append_drop]

/-! ## Where the marks are -/

/-- The stations that have been passed when a mark is there. -/
structure Ordered (tr : List Act) (s : Rover) : Prop where
  flag : s.car.shared.stop_flag = true → InOrder (crossing.take 2) tr
  write : s.infrared_th = .write → InOrder (crossing.take 2) tr
  toGate : 0x44 ∈ s.toGate → InOrder (crossing.take 3) tr
  send_flag : s.controller.send_flag = true → InOrder (crossing.take 4) tr
  opens : s.controller.pc = .opens → InOrder (crossing.take 4) tr
  opened : s.controller.pc ∈ [.sleep, .send_go, .write] → InOrder (crossing.take 5) tr
  toCar : 0x22 ∈ s.incoming → InOrder (crossing.take 6) tr
  read : Act.car (.revc 0x22) ∈ tr → InOrder crossing tr

theorem Ordered.append {tr : List Act} {s : Rover} (h : Ordered tr s) (out : List Act)
    (hout : Act.car (.revc 0x22) ∉ out) : Ordered (tr ++ out) s where
  flag hf := (h.flag hf).append out
  write hf := (h.write hf).append out
  toGate hf := (h.toGate hf).append out
  send_flag hf := (h.send_flag hf).append out
  opens hf := (h.opens hf).append out
  opened hf := (h.opened hf).append out
  toCar hf := (h.toCar hf).append out
  read hm := (h.read ((List.mem_append.1 hm).resolve_right hout)).append out

/-- The invariant of a run. -/
structure Inv (tr : List Act) (s : Rover) : Prop where
  car : Gate.Inv (tr.filterMap Act.car?) s.car
  ordered : Ordered tr s

theorem car?_car (out : List Gate.Act) : (out.map Act.car).filterMap Act.car? = out := by
  induction out with
  | nil => rfl
  | cons a out ih => simp [Act.car?, ih]

theorem mem_car? {tr : List Act} {a : Gate.Act} (h : a ∈ tr.filterMap Act.car?) : Act.car a ∈ tr := by
  obtain ⟨b, hb, e⟩ := List.mem_filterMap.1 h
  cases b with
  | car a' =>
    obtain rfl := Option.some.inj e
    exact hb
  | motor | code | gate => cases e

theorem request_of_requested {tr : List Act} (h : Gate.Requested (tr.filterMap Act.car?)) :
    InOrder (crossing.take 1) tr := by
  obtain ⟨it, hmem, hgate⟩ := h
  refine ⟨[.car (.pass it)], List.singleton_sublist.2 (mem_car? hmem), ?_⟩
  exact .cons ⟨it, rfl, hgate⟩ .nil

/-! ## One step -/

theorem ordered_car {tr : List Act} {s : Rover} (h : Inv tr s) {c : Gate.Choice}
    (hc : ∀ bytes, c ≠ .infrared bytes) :
    Ordered (tr ++ (s.car.step c).2.map .car) { s with car := (s.car.step c).1 } := by
  have hout : Act.car (.revc 0x22) ∉ (s.car.step c).2.map .car := by
    intro hm
    obtain ⟨a, ha, e⟩ := List.mem_map.1 hm
    obtain rfl := Act.car.inj e
    exact (Gate.step_infrared_uart s.car hc).2 _ ha
  refine { h.ordered.append _ hout with flag := ?_, toCar := ?_ }
  · intro hf
    rcases Gate.step_stop_flag hf with hf | ⟨e, htodo⟩
    · exact (h.ordered.flag hf).append _
    · rw [e]
      exact (request_of_requested (h.car.framed.todo htodo)).snoc rfl
  · intro hm
    rw [incoming_car s hc] at hm
    exact (h.ordered.toCar hm).append _

theorem ordered_irq {tr : List Act} {s : Rover} (h : Ordered tr s) (n : ℕ) :
    Ordered (tr ++ (s.irq n).2) (s.irq n).1 := by
  rcases irq_cases s n with ⟨-, e⟩ | ⟨b, hb, hout, hs, hflag⟩
  · rw [e, List.append_nil]
    exact h
  · have hsuffix := incoming_suffix hb
    have hread : Act.car (.revc 0x22) ∈ [Act.car (.revc b)] → InOrder crossing (tr ++ [.car (.revc b)]) := by
      intro hm
      have e : b = 0x22 := (Gate.Act.revc.inj (Act.car.inj (List.mem_singleton.1 hm))).symm
      subst e
      exact (h.toCar (hsuffix.subset List.mem_cons_self)).snoc rfl
    rw [hout, hs]
    refine ⟨?_, fun hf => (h.write hf).append _, fun hf => (h.toGate hf).append _,
      fun hf => (h.send_flag hf).append _, fun hf => (h.opens hf).append _,
      fun hf => (h.opened hf).append _, ?_, ?_⟩
    · intro hf
      rw [hflag, Bool.and_eq_true] at hf
      exact (h.flag hf.1).append _
    · intro hm
      exact (h.toCar (hsuffix.subset (List.mem_cons_of_mem _ hm))).append _
    · intro hm
      rcases List.mem_append.1 hm with hm | hm
      · exact (h.read hm).append _
      · exact hread hm

theorem ordered_infrared {tr : List Act} {s : Rover} (h : Ordered tr s) :
    Ordered (tr ++ s.stepInfrared.2) s.stepInfrared.1 := by
  have hsilent : ∀ pc, (pc = .write → s.car.shared.stop_flag = true) →
      Ordered (tr ++ []) { s with infrared_th := pc } := by
    intro pc hpc
    rw [List.append_nil]
    exact { h with write := fun hw => h.flag (hpc hw) }
  unfold stepInfrared
  cases hpc : s.infrared_th with
  | take =>
    rw [List.append_nil]
    refine { h with write := ?_ }
    intro hw
    dsimp only at hw
    split_ifs at hw
  | suspended =>
    dsimp only
    split_ifs
    · rw [List.append_nil]
      exact h
    · exact hsilent _ (by simp)
  | test =>
    dsimp only
    split_ifs with hf
    · exact hsilent _ fun _ => hf
    · rw [List.append_nil]
      exact h
  | write =>
    refine { h.append [.code] (by simp) with write := by simp, toGate := ?_ }
    intro _
    exact (h.write hpc).snoc rfl
  | mdelay => exact hsilent _ (by simp)

/-- A statement of the gate's `main` that writes nothing. -/
theorem ordered_controller {tr out : List Act} {s : Rover} (h : Ordered tr s)
    (hout : Act.car (.revc 0x22) ∉ out) {controller : GateController}
    (hflag : controller.send_flag = true → InOrder (crossing.take 4) tr)
    (hopens : controller.pc = .opens → InOrder (crossing.take 4) tr)
    (hopened : controller.pc ∈ [.sleep, .send_go, .write] → InOrder (crossing.take 5) (tr ++ out)) :
    Ordered (tr ++ out) { s with controller := controller, toCar := s.toCar ++ [] } := by
  rw [List.append_nil]
  exact { h.append _ hout with
    send_flag := fun hf => (hflag hf).append out
    opens := fun hpc => (hopens hpc).append out
    opened := hopened }

theorem ordered_main {tr : List Act} {s : Rover} (h : Ordered tr s) :
    Ordered (tr ++ s.main.2) s.main.1 := by
  unfold main GateController.step GateController.stepMain
  dsimp only
  cases hpc : s.controller.pc with
  | test =>
    dsimp only
    split_ifs with hf
    · exact ordered_controller h (by simp) h.send_flag (fun _ => h.send_flag hf) (by simp)
    · exact ordered_controller h (by simp) h.send_flag h.opens fun ho => (h.opened ho).append _
  | opens =>
    exact ordered_controller h (by simp) h.send_flag (by simp) fun _ => (h.opens hpc).snoc rfl
  | sleep | send_go =>
    exact ordered_controller h (by simp) h.send_flag (by simp) fun _ =>
      (h.opened (by simp [hpc])).append _
  | write =>
    show Ordered (tr ++ [.gate (.write GateController.send_code)]) { s with
      controller := { s.controller with pc := .clear }, toCar := s.toCar ++ GateController.send_code }
    refine { h.append _ (by simp) with opens := by simp, opened := by simp, toCar := ?_ }
    intro _
    exact (h.opened (by simp [hpc])).snoc rfl
  | clear => exact ordered_controller h (by simp) (by simp) (by simp) (by simp)
  | sleep' | closes => exact ordered_controller h (by simp) h.send_flag (by simp) (by simp)

theorem ordered_rxIrp2 {tr : List Act} {s : Rover} (h : Ordered tr s) :
    Ordered (tr ++ s.rxIrp2.2) s.rxIrp2.1 := by
  unfold rxIrp2
  cases hair : s.toGate with
  | nil =>
    rw [List.append_nil]
    exact h
  | cons c toGate =>
    unfold GateController.step GateController.rxIrp2
    dsimp only
    split_ifs with hc
    · refine { h.append [.gate (.received c)] (by simp) with toGate := ?_, send_flag := ?_ }
      · intro hm
        exact (h.toGate (hair ▸ List.mem_cons_of_mem c hm)).append _
      · intro _
        exact (h.toGate (hair ▸ hc ▸ List.mem_cons_self)).snoc (hc ▸ rfl)
    · refine { h.append [.gate (.received c)] (by simp) with toGate := ?_ }
      intro hm
      exact (h.toGate (hair ▸ List.mem_cons_of_mem c hm)).append _

/-- No new code comes on the air by itself. -/
theorem ordered_onAir {tr : List Act} {s : Rover} (h : Ordered tr s) (air : Air)
    {f : List UInt8 → List UInt8} (hf : ∀ l, air.code ∈ f l → air.code ∈ l) :
    Ordered (tr ++ []) (s.onAir air f) := by
  rw [List.append_nil]
  cases air with
  | toGate => exact { h with toGate := fun hm => h.toGate (hf _ hm) }
  | toCar =>
    refine { h with toCar := fun hm => h.toCar ?_ }
    exact List.mem_append.2 ((List.mem_append.1 hm).imp_right (hf _))

theorem car_onAir (s : Rover) (air : Air) (f : List UInt8 → List UInt8) :
    (s.onAir air f).car = s.car := by
  cases air <;> rfl

/-- The motor thread takes its semaphore and touches nothing else of what it shares. -/
theorem stepMotor_shared (A : Arith) (s : MotorLink) :
    (s.stepMotor A).1.shared =
      { s.shared with sem_motorctrl := (s.stepMotor A).1.shared.sem_motorctrl } := by
  unfold MotorLink.stepMotor
  rcases s.motor.pc with _ | _ | _ | _ <;> dsimp only <;> split_ifs <;> rfl

theorem ordered_motor (A : Arith) {tr : List Act} {s : Rover} (h : Ordered tr s) :
    Ordered (tr ++ (s.stepMotor A).2) (s.stepMotor A).1 := by
  have hout : Act.car (.revc 0x22) ∉ (s.stepMotor A).2 := by
    intro hm
    obtain ⟨a, -, e⟩ := List.mem_map.1 hm
    cases e
  refine { h.append _ hout with flag := ?_ }
  intro hf
  have hshared := stepMotor_shared A s.link
  have hsame : (s.stepMotor A).1.car.shared.stop_flag = s.car.shared.stop_flag := by
    show (s.link.stepMotor A).1.shared.stop_flag = _
    rw [hshared]
    rfl
  exact (h.flag (hsame ▸ hf)).append _

theorem ordered_step (A : Arith) {tr : List Act} {s : Rover} (h : Inv tr s) {c : Choice}
    (hcode : c.NoCode) : Ordered (tr ++ (step A s c).2) (step A s c).1 := by
  have hnone : Ordered (tr ++ []) s := by
    rw [List.append_nil]
    exact h.ordered
  cases c with
  | car c =>
    cases c with
    | infrared bytes => exact hnone
    | camera | uart | decoder | sense | senseFails | sr04 | deliver => exact ordered_car h (by simp)
  | motor => exact ordered_motor A h.ordered
  | infrared_th => exact ordered_infrared h.ordered
  | irq n => exact ordered_irq h.ordered n
  | main => exact ordered_main h.ordered
  | rx_irp2 => exact ordered_rxIrp2 h.ordered
  | lose air i => exact ordered_onAir h.ordered air fun l hm => List.mem_of_mem_eraseIdx hm
  | noise air i b =>
    refine ordered_onAir h.ordered air fun l hm => ?_
    exact (List.eq_or_mem_of_mem_insertIdx hm).resolve_left fun e => hcode e.symm

/-! ## The handshake within the system -/

theorem inv_shared {tr : List Gate.Act} {s : Gate} (h : Gate.Inv tr s) {m : Shared}
    (hflag : m.stop_flag = s.shared.stop_flag) : Gate.Inv tr { s with shared := m } :=
  ⟨h.framed, h.ready, h.camera, Gate.phase_silent h.phase hflag List.suffix_rfl id, h.entered⟩

/-- A step is one of the camera and the board, or one of the motor thread, or it changes at most the
semaphore of `infrared_th` in what these see. -/
theorem step_cases (A : Arith) (s : Rover) (c : Choice) :
    (∃ c', (step A s c).1.car = (s.car.step c').1 ∧ (step A s c).2 = (s.car.step c').2.map Act.car ∧
        (step A s c).1.motor = s.motor ∧ (step A s c).1.programmed = s.programmed ∧
        (c = .car c' ∨ ∃ bytes, c' = .infrared bytes)) ∨
      c = .motor ∨
      ∃ sem, (step A s c).1.car = { s.car with shared := { s.car.shared with sem_infrared := sem } } ∧
        (∀ a ∈ (step A s c).2, a.car? = none) ∧ (step A s c).1.motor = s.motor ∧
        (step A s c).1.programmed = s.programmed := by
  have hair : ∀ air f, (s.onAir air f).motor = s.motor ∧ (s.onAir air f).programmed = s.programmed := by
    intro air f
    cases air <;> exact ⟨rfl, rfl⟩
  have hmap : ∀ {α : Type} (f : α → Act) (out : List α), (∀ a, (f a).car? = none) →
      ∀ a ∈ out.map f, a.car? = none := by
    intro α f out hf a ha
    obtain ⟨b, -, rfl⟩ := List.mem_map.1 ha
    exact hf b
  cases c with
  | car c =>
    cases c with
    | infrared bytes => exact Or.inr (Or.inr ⟨_, rfl, by simp [step], rfl, rfl⟩)
    | camera | uart | decoder | sense | senseFails | sr04 | deliver =>
      exact Or.inl ⟨_, rfl, rfl, rfl, rfl, Or.inl rfl⟩
  | motor => exact Or.inr (Or.inl rfl)
  | infrared_th =>
    right; right
    unfold step stepInfrared
    dsimp only
    split
    · exact ⟨_, rfl, by simp, rfl, rfl⟩
    · split_ifs <;> exact ⟨_, rfl, by simp, rfl, rfl⟩
    · split_ifs <;> exact ⟨_, rfl, by simp, rfl, rfl⟩
    · exact ⟨_, rfl, by simp [Act.car?], rfl, rfl⟩
    · exact ⟨_, rfl, by simp, rfl, rfl⟩
  | irq n =>
    unfold step irq
    dsimp only
    split_ifs
    · exact Or.inr (Or.inr ⟨_, rfl, by simp, rfl, rfl⟩)
    · exact Or.inl ⟨_, rfl, rfl, rfl, rfl, Or.inr ⟨_, rfl⟩⟩
  | main => exact Or.inr (Or.inr ⟨_, rfl, hmap _ _ fun _ => rfl, rfl, rfl⟩)
  | rx_irp2 =>
    unfold step rxIrp2
    dsimp only
    split
    · exact Or.inr (Or.inr ⟨_, rfl, by simp, rfl, rfl⟩)
    · exact Or.inr (Or.inr ⟨_, rfl, hmap _ _ fun _ => rfl, rfl, rfl⟩)
  | lose air i =>
    obtain ⟨hmotor, hprog⟩ := hair air (·.eraseIdx i)
    exact Or.inr (Or.inr ⟨_, car_onAir s air _, by simp [step], hmotor, hprog⟩)
  | noise air i b =>
    obtain ⟨hmotor, hprog⟩ := hair air (·.insertIdx i b)
    exact Or.inr (Or.inr ⟨_, car_onAir s air _, by simp [step], hmotor, hprog⟩)

/-- **Component rule.** A relation between the trace and the state of the camera and the board that does not
look at the semaphores is kept by every step of the system, if their own steps keep it. -/
theorem car_rule (A : Arith) {I : List Gate.Act → Gate → Prop} {tr : List Act} {s : Rover} {c : Choice}
    (hshared : ∀ m : Shared, m.stop_flag = s.car.shared.stop_flag →
      I (tr.filterMap Act.car?) { s.car with shared := m })
    (hstep : ∀ c', (c = .car c' ∨ ∃ bytes, c' = .infrared bytes) →
      I (tr.filterMap Act.car? ++ (s.car.step c').2) (s.car.step c').1) :
    I ((tr ++ (step A s c).2).filterMap Act.car?) (step A s c).1.car := by
  have hsilent : ∀ {out : List Act} {m : Shared}, (∀ a ∈ out, a.car? = none) →
      m.stop_flag = s.car.shared.stop_flag → I ((tr ++ out).filterMap Act.car?) { s.car with shared := m } := by
    intro out m hout hflag
    rw [List.filterMap_append, List.filterMap_eq_nil_iff.2 hout, List.append_nil]
    exact hshared m hflag
  rcases step_cases A s c with ⟨c', hcar, hout, -, -, hc'⟩ | rfl | ⟨sem, hcar, hout, -⟩
  · rw [hcar, hout, List.filterMap_append, car?_car]
    exact hstep c' hc'
  · have hmotor := stepMotor_shared A s.link
    refine hsilent ?_ (by rw [hmotor]; rfl)
    intro a ha
    obtain ⟨b, -, rfl⟩ := List.mem_map.1 ha
    rfl
  · rw [hcar]
    exact hsilent hout rfl

theorem car_step (A : Arith) {tr : List Act} {s : Rover} (h : Gate.Inv (tr.filterMap Act.car?) s.car)
    {c : Choice} (hc : c.NonZero) :
    Gate.Inv ((tr ++ (step A s c).2).filterMap Act.car?) (step A s c).1.car := by
  refine car_rule A (fun m hflag => inv_shared h hflag) ?_
  rintro c' (rfl | ⟨bytes, rfl⟩)
  · exact Gate.inv_step h hc
  · exact Gate.inv_step h trivial

/-- This does not depend on what the sensor reads. -/
theorem cameraInv_step (A : Arith) {tr : List Act} {s : Rover}
    (h : Gate.CameraInv (tr.filterMap Act.car?) s.car.camera) (c : Choice) :
    Gate.CameraInv ((tr ++ (step A s c).2).filterMap Act.car?) (step A s c).1.car.camera :=
  car_rule A (I := fun tr s => Gate.CameraInv tr s.camera) (fun _ _ => h) fun c' _ => Gate.cameraInv_step h c'

theorem inv_step (A : Arith) {tr : List Act} {s : Rover} (h : Inv tr s) {c : Choice}
    (hc : c.NonZero ∧ c.NoCode) : Inv (tr ++ (step A s c).2) (step A s c).1 :=
  ⟨car_step A h.car hc.1, ordered_step A h hc.2⟩

theorem inv_init {g : Globals} {back : List UInt8} (hcs : g.current_state ≤ 5)
    (hd : g.delay_flag = false) (hstale : 0 ∉ g.uart ++ back) : Inv [] (init g back) := by
  refine ⟨Gate.inv_init hcs hd hstale, ?_⟩
  constructor <;> simp [init, Gate.init, Shared.init, GateController.init, incoming]

theorem pass_of_map {out : List Gate.Act} {u v : List Act} {it : Iter}
    (h : out.map Act.car = u ++ .car (.pass it) :: v) :
    ∃ u' v', out = u' ++ .pass it :: v' ∧ u'.map Act.car = u := by
  obtain ⟨u', w, rfl, rfl, hw⟩ := List.map_eq_append_iff.1 h
  obtain ⟨a, v', rfl, ha, -⟩ := List.map_eq_cons_iff.1 hw
  obtain rfl := Act.car.inj ha
  exact ⟨u', v', rfl, rfl⟩

/-- Only a step of the camera makes a pass, and it makes one. -/
theorem pass_emitted (A : Arith) {s : Rover} {c : Choice} {u v : List Act} {it : Iter}
    (h : (step A s c).2 = u ++ .car (.pass it) :: v) :
    ∃ img, c = .car (.camera img) ∧ u = [] ∧
      (s.car.camera.step { img with arrivals := [] }).2 = [it] := by
  rcases step_cases A s c with ⟨c', -, hout, -, -, hc⟩ | rfl | ⟨sem, -, hout, -⟩
  · obtain ⟨u', v', e, rfl⟩ := pass_of_map (hout.symm.trans h)
    obtain ⟨img, rfl, rfl, hpass⟩ := Gate.pass_emitted e
    rcases hc with rfl | ⟨bytes, ⟨⟩⟩
    exact ⟨img, rfl, rfl, hpass⟩
  · have hmem : Act.car (.pass it) ∈ (s.link.stepMotor A).2.map .motor := by
      show _ ∈ (step A s .motor).2
      rw [h]
      simp
    obtain ⟨a, -, e⟩ := List.mem_map.1 hmem
    cases e
  · have hnone := hout (.car (.pass it)) (by rw [h]; simp)
    cases hnone

/-- The camera sends its request and reads the acknowledgement. -/
def acknowledge : List Gate.Choice :=
  .camera .blank :: List.replicate 6 .uart ++ List.replicate 5 .decoder ++ List.replicate 2 .uart ++
    List.replicate 2 .decoder ++ [.sense Gate.metre, .sr04, .sr04, .deliver, .camera .blank]

/-- Then `infrared_th` sends its code, the gate opens and answers, and the next distance byte arrives. -/
def openGate : List Choice :=
  acknowledge.map .car ++ List.replicate 3 .infrared_th ++ List.replicate 5 .rx_irp2 ++
    List.replicate 5 .main ++ List.replicate 3 (.irq 0) ++
      [.car (.sense Gate.metre), .car .sr04, .car .sr04, .car .deliver]

end Rover

end Tdps
