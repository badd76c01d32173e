import Tdps.Infrared

/-!
# Proofs: the infrared receive buffer

The callback reads one byte for each interrupt. A byte that comes before the callback is registered, or
together with another one, therefore stays in the buffer, and since nothing else reads from it, it never
gets empty again (`contents_eq_nil_iff`).
-/

namespace Tdps

open Machine

namespace Infrared

/-! ## One interrupt -/

theorem infraredRxCallback_rx_fifo (s : Infrared) : s.infraredRxCallback.rx_fifo = s.read.rx_fifo := by
  unfold infraredRxCallback
  dsimp only
  split_ifs <;> rfl

/-- A read shortens a buffer that is not empty by one. -/
theorem length_read {s : Infrared} (h : s.rx_fifo.contents ≠ []) :
    s.read.rx_fifo.contents.length + 1 = s.rx_fifo.contents.length := by
  unfold read
  cases hread : s.rx_fifo.intRx with
  | none => exact absurd (RxFifo.intRx_eq_none.1 hread) h
  | some r =>
    obtain ⟨revc_data, rx_fifo⟩ := r
    rw [RxFifo.contents_of_intRx hread]
    rfl

/-- The number of unread bytes after an interrupt. -/
theorem length_hwSerialIsr (s : Infrared) (ch : UInt8) (more : List UInt8) :
    (s.hwSerialIsr (ch :: more)).rx_fifo.contents.length +
        (if s.rx_indicate then 1 else 0) =
      min (s.rx_fifo.contents.length + more.length + 1) 63 := by
  have hlen := s.rx_fifo.length_foldl_put (ch :: more)
  rw [List.length_cons, ← Nat.add_assoc] at hlen
  have hne : ((ch :: more).foldl RxFifo.put s.rx_fifo).contents ≠ [] :=
    List.ne_nil_of_length_pos (by omega)
  unfold hwSerialIsr
  dsimp only
  by_cases hreg : s.rx_indicate
  · have hrx : ((ch :: more).foldl RxFifo.put s.rx_fifo).rxLength ≠ 0 := by
      rw [← RxFifo.length_contents]
      omega
    rw [if_pos hreg, if_pos hrx, if_pos hreg, infraredRxCallback_rx_fifo, length_read hne]
    exact hlen
  · rw [if_neg hreg, if_neg hreg]
    exact hlen

/-- An interrupt leaves the buffer empty if and only if it was empty before, the callback is registered
and one byte has come. -/
theorem hwSerialIsr_contents (s : Infrared) (ch : UInt8) (more : List UInt8) :
    (s.hwSerialIsr (ch :: more)).rx_fifo.contents = [] ↔
      s.rx_fifo.contents = [] ∧ s.rx_indicate = true ∧ more = [] := by
  have hlen := length_hwSerialIsr s ch more
  rw [← List.length_eq_zero_iff, ← List.length_eq_zero_iff, ← List.length_eq_zero_iff (l := more)]
  by_cases hreg : s.rx_indicate
  · rw [if_pos hreg] at hlen
    simp only [hreg, true_and]
    omega
  · rw [if_neg hreg] at hlen
    simp only [hreg, Bool.false_eq_true, false_and, and_false, iff_false]
    omega

/-- A single byte into an empty buffer is the one that the callback reads. -/
theorem hwSerialIsr_stop_flag {s : Infrared} (h : s.rx_fifo.contents = [])
    (hreg : s.rx_indicate = true) : (s.hwSerialIsr [0x22]).stop_flag = false := by
  have hroom : ¬ s.rx_fifo.Full := by
    rw [RxFifo.full_iff_length, h]
    decide
  have hput : (s.rx_fifo.put 0x22).contents = [0x22] := by
    rw [RxFifo.contents_put hroom, h]
    rfl
  have hrx : (s.rx_fifo.put 0x22).rxLength ≠ 0 := by
    rw [← RxFifo.length_contents, hput]
    decide
  unfold hwSerialIsr
  simp only [List.foldl_cons, List.foldl_nil, hreg, if_true, if_pos hrx]
  unfold infraredRxCallback read
  cases hread : (s.rx_fifo.put 0x22).intRx with
  | none =>
    rw [RxFifo.intRx_eq_none, hput] at hread
    cases hread
  | some r =>
    obtain ⟨revc_data, rx_fifo⟩ := r
    have hhead := RxFifo.contents_of_intRx hread
    rw [hput] at hhead
    obtain rfl := (List.cons.inj hhead).1
    rfl

theorem read_rx_indicate (s : Infrared) : s.read.rx_indicate = s.rx_indicate := by
  unfold read
  cases s.rx_fifo.intRx <;> rfl

theorem infraredRxCallback_rx_indicate (s : Infrared) :
    s.infraredRxCallback.rx_indicate = s.rx_indicate := by
  unfold infraredRxCallback
  dsimp only
  split_ifs
  · exact s.read_rx_indicate
  · exact s.read_rx_indicate

theorem hwSerialIsr_rx_indicate (s : Infrared) (bytes : List UInt8) :
    (s.hwSerialIsr bytes).rx_indicate = s.rx_indicate := by
  unfold hwSerialIsr
  dsimp only
  split_ifs
  · exact infraredRxCallback_rx_indicate _
  · rfl
  · rfl

/-! ## Runs -/

/-- A receive interrupt at which the callback is called. -/
def Called (v : Infrared × Choice) : Prop := v.1.rx_indicate = true ∧ ∃ ch more, v.2 = .irq ch more

/-- When the callback has returned, nothing is unread, and a byte 0x22 has cleared `stop_flag`. -/
def KeepsUp (v : Infrared × Choice) : Prop :=
  ∀ ch more, v.2 = .irq ch more → v.1.rx_indicate = true →
    (v.1.hwSerialIsr (ch :: more)).rx_fifo.contents = [] ∧
      (0x22 ∈ ch :: more → (v.1.hwSerialIsr (ch :: more)).stop_flag = false)

/-- If this is an interrupt, it comes after the callback is registered and brings one byte. -/
def Single (v : Infrared × Choice) : Prop :=
  ∀ ch more, v.2 = .irq ch more → v.1.rx_indicate = true ∧ more = []

/-- Once the callback has been called it stays registered. -/
theorem rx_indicate_of_called {choices : List Choice} {v : Infrared × Choice}
    (hv : v ∈ visits step init choices) (h : Called v) :
    (run step init choices).1.rx_indicate = true := by
  induction choices using List.reverseRecOn with
  | nil => cases hv
  | append_singleton choices c ih =>
    have hreg : (run step init choices).1.rx_indicate = true := by
      rw [visits_snoc, List.mem_append, List.mem_singleton] at hv
      rcases hv with hv | rfl
      · exact ih hv
      · exact h.1
    rw [run_snoc]
    cases c with
    | irq ch more =>
      show (hwSerialIsr _ _).rx_indicate = true
      rw [hwSerialIsr_rx_indicate, hreg]
    | set_rx_indicate => rfl
    | set_stop_flag => exact hreg

/-- The buffer is empty after a run if and only if all interrupts have come after the callback was
registered and with one byte each. -/
theorem contents_eq_nil_iff (choices : List Choice) :
    (run step init choices).1.rx_fifo.contents = [] ↔ ∀ v ∈ visits step init choices, Single v := by
  induction choices using List.reverseRecOn with
  | nil => exact ⟨fun _ v hv => absurd hv List.not_mem_nil, fun _ => rfl⟩
  | append_singleton choices c ih =>
    rw [forall_visits_snoc, ← ih, run_snoc]
    cases c with
    | irq ch more =>
      show (hwSerialIsr _ _).rx_fifo.contents = [] ↔ _
      rw [hwSerialIsr_contents]
      refine and_congr_right fun _ => ⟨?_, ?_⟩
      · rintro ⟨hreg, hmore⟩ ch' more' ⟨⟩
        exact ⟨hreg, hmore⟩
      · intro hsingle
        exact hsingle ch more rfl
    | set_rx_indicate => exact ⟨fun h => ⟨h, by rintro ch more ⟨⟩⟩, fun h => h.1⟩
    | set_stop_flag => exact ⟨fun h => ⟨h, by rintro ch more ⟨⟩⟩, fun h => h.1⟩

/-- At an interrupt that calls the callback. -/
theorem keepsUp_irq {s : Infrared} (hreg : s.rx_indicate = true) (ch : UInt8) (more : List UInt8) :
    KeepsUp (s, .irq ch more) ↔ s.rx_fifo.contents = [] ∧ Single (s, .irq ch more) := by
  constructor
  · intro h
    obtain ⟨hempty, -⟩ := h ch more rfl hreg
    obtain ⟨hs, -, hmore⟩ := (hwSerialIsr_contents s ch more).1 hempty
    refine ⟨hs, ?_⟩
    rintro ch' more' ⟨⟩
    exact ⟨hreg, hmore⟩
  · rintro ⟨hs, hsingle⟩ ch' more' ⟨⟩ -
    obtain ⟨-, rfl⟩ := hsingle ch more rfl
    refine ⟨(hwSerialIsr_contents s ch []).2 ⟨hs, hreg, rfl⟩, ?_⟩
    intro hmem
    obtain rfl := List.mem_singleton.1 hmem
    exact hwSerialIsr_stop_flag hs hreg

/-- **Keeping up.** In a run no callback leaves a byte unread, and every byte 0x22 has cleared
`stop_flag` by the end of its interrupt, if and only if no callback is called at all, or all interrupts
come after it was registered and bring one byte each. -/
theorem keepsUp_iff (choices : List Choice) :
    (∀ v ∈ visits step init choices, KeepsUp v) ↔
      ((∃ v ∈ visits step init choices, Called v) → ∀ v ∈ visits step init choices, Single v) := by
  induction choices using List.reverseRecOn with
  | nil => exact ⟨fun _ _ v hv => absurd hv List.not_mem_nil, fun _ v hv => absurd hv List.not_mem_nil⟩
  | append_singleton choices c ih =>
    have hcontents := contents_eq_nil_iff choices
    rw [forall_visits_snoc, forall_visits_snoc, ih, exists_visits_snoc]
    by_cases hcalled : Called ((run step init choices).1, c)
    · obtain ⟨hreg, ch, more, hc⟩ := id hcalled
      obtain rfl : c = .irq ch more := hc
      rw [keepsUp_irq hreg, hcontents]
      constructor
      · rintro ⟨-, h⟩ -
        exact h
      · intro h
        obtain ⟨hall, hlast⟩ := h (Or.inr hcalled)
        exact ⟨fun _ => hall, hall, hlast⟩
    · constructor
      · rintro ⟨h, -⟩ (⟨v, hv, hv'⟩ | hlast)
        · -- the callback is registered, so this is no interrupt
          have hreg := rx_indicate_of_called hv hv'
          exact ⟨h ⟨v, hv, hv'⟩, fun ch more hc => absurd ⟨hreg, ch, more, hc⟩ hcalled⟩
        · exact absurd hlast hcalled
      · intro h
        exact ⟨fun hv => (h (Or.inl hv)).1, fun ch more hc hreg => absurd ⟨hreg, ch, more, hc⟩ hcalled⟩

/-- The two bytes of an interrupt: the second one is not read, and it is the go code. -/
theorem go_code_unread :
    ¬ ∀ v ∈ visits step init [.set_rx_indicate, .set_stop_flag, .irq 0x33 [0x22]], KeepsUp v := by
  intro h
  have hmem : (⟨RxFifo.empty, true, 0, true⟩, Choice.irq 0x33 [0x22]) ∈
      visits step init [.set_rx_indicate, .set_stop_flag, .irq 0x33 [0x22]] := by
    simp [visits, run_cons, logged, step, init]
  obtain ⟨hempty, -⟩ := h _ hmem 0x33 [0x22] rfl rfl
  have hmore := ((hwSerialIsr_contents _ 0x33 [0x22]).1 hempty).2.2
  cases hmore

end Infrared

end Tdps
