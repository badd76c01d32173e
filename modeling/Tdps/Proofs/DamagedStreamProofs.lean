import Tdps.Board
import Tdps.Proofs.LinkProofs

/-!
# Proofs: what the decoder makes of a damaged stream

A speed event needs a whole frame's worth of bytes (`decode_no_motor`), so a frame whose header is read
in the middle of another header is lost (`delivered_iff`). The gate event needs a byte 0x01, so lost
bytes fabricate a gate command exactly when a fraction byte is 1 (`no_fabricated_gate_iff`).
-/

namespace Tdps

open Machine

namespace Decoder

/-! ## Speed events -/

/-- How many bytes are missing to the next speed event at least. -/
def missing (d : Decoder) : ℕ :=
  match d.RecCmd_Step with
  | 0 => 6
  | 1 => 5
  | _ => 4 - d.index

theorem feed_missing {d : Decoder} (h : d.WF) (b : UInt8) : d.missing ≤ (d.feed b).1.missing + 1 := by
  obtain ⟨step, index, Rx⟩ := d
  rcases h with ⟨rfl | rfl, rfl⟩ | ⟨rfl, hi⟩
  · simp only [feed]
    split_ifs <;> simp [missing]
  · simp only [feed]
    split_ifs <;> simp [missing]
  · simp only [feed]
    split_ifs <;> simp only [missing] <;> omega

theorem feed_motor {d : Decoder} (h : d.WF) {b : UInt8} {q : Bytes4}
    (hq : Event.motor q ∈ (d.feed b).2) : d.missing = 1 := by
  obtain ⟨step, index, Rx⟩ := d
  rcases h with ⟨rfl | rfl, rfl⟩ | ⟨rfl, hi⟩
  · simp only [feed] at hq
    split_ifs at hq <;> simp at hq
  · simp only [feed] at hq
    split_ifs at hq <;> simp at hq
  · simp only [feed] at hq
    split_ifs at hq with h4
    · simp only [missing]
      omega
    · simp at hq

/-- With fewer bytes than are missing there is no speed event. -/
theorem decode_no_motor {d : Decoder} (h : d.WF) {bytes : List UInt8}
    (hlen : bytes.length < d.missing) (q : Bytes4) : Event.motor q ∉ (decode d bytes).2 := by
  unfold decode
  induction bytes generalizing d with
  | nil => simp
  | cons b bytes ih =>
    rw [List.length_cons] at hlen
    have hstep := feed_missing h b
    rw [run_cons, List.mem_append]
    rintro (hq | hq)
    · have := feed_motor h hq
      omega
    · exact ih (feed_wf h b) (by omega) hq

/-- A speed frame that arrives at this decoder takes effect at its last byte: `sp_data` becomes its
payload and `sem_motorctrl` is released, and nothing else happens. -/
structure Delivered (d : Decoder) (q : Bytes4) : Prop where
  quiet : (decode d (Frame.speed q).bytes.dropLast).2 = []
  event : (decode d (Frame.speed q).bytes).2 = [.motor q]
  shared : ∀ m : Shared, m.handle (decode d (Frame.speed q).bytes).2 =
    { m with sp_data := q, sem_motorctrl := m.sem_motorctrl.release }

theorem handle_motor (m : Shared) (q : Bytes4) :
    m.handle [.motor q] = { m with sp_data := q, sem_motorctrl := m.sem_motorctrl.release } := rfl

theorem delivered_start (Rx q : Bytes4) : (start Rx).Delivered q := by
  obtain ⟨Rx', e⟩ := decode_frame Rx (.speed q)
  have hevent : (decode (start Rx) (Frame.speed q).bytes).2 = [.motor q] := by
    rw [e]
    rfl
  refine ⟨?_, hevent, ?_⟩
  · simp [Frame.bytes, decode, run_cons, feed, start]
  · intro m
    rw [hevent, handle_motor]

/-- A decoder that expects the second header byte misses the frame. -/
theorem not_delivered {d : Decoder} (hs : d.RecCmd_Step = 1) (hi : d.index = 0) (q : Bytes4) :
    ¬ d.Delivered q := by
  intro h
  -- both header bytes are skipped, and four bytes make no frame
  have hskip : decode d (Frame.speed q).bytes =
      decode (start d.Rx_buffer) [q.b0, q.b1, q.b2, q.b3] := by
    simp [Frame.bytes, decode, run_cons, feed, hs, hi, start]
  have hmem : Event.motor q ∈ (decode d (Frame.speed q).bytes).2 := by
    rw [h.event]
    exact List.mem_singleton_self _
  rw [hskip] at hmem
  exact decode_no_motor (wf_start d.Rx_buffer) (by simp [missing, start]) q hmem

end Decoder

/-- **No frame is lost outside a payload**, except by a decoder that has just seen a stray header byte:
after a prefix that does not end inside a payload a speed frame is delivered if and only if the prefix
does not end inside a header either. -/
theorem delivered_iff (Rx_buffer : Bytes4) (P : List UInt8)
    (hP : (Decoder.decode (Decoder.start Rx_buffer) P).1.RecCmd_Step = 0 ∨
      (Decoder.decode (Decoder.start Rx_buffer) P).1.RecCmd_Step = 1) (q : Bytes4) :
    (Decoder.decode (Decoder.start Rx_buffer) P).1.Delivered q ↔
      (Decoder.decode (Decoder.start Rx_buffer) P).1.RecCmd_Step = 0 := by
  have hwf := Decoder.decode_wf (Decoder.wf_start Rx_buffer) P
  generalize (Decoder.decode (Decoder.start Rx_buffer) P).1 = d at hP hwf ⊢
  have hindex : d.index = 0 := by
    rcases hwf with h | h
    · exact h.2
    · omega
  constructor
  · intro h
    rcases hP with hs | hs
    · exact hs
    · exact absurd h (Decoder.not_delivered hs hindex q)
  · intro hs
    obtain ⟨Rx, rfl⟩ := Decoder.idle_iff.1 ⟨hs, hindex⟩
    exact Decoder.delivered_start Rx q

theorem delivered_after_gate_frame :
    (Decoder.decode (Decoder.start Bytes4.zero) [0xAA, 0x01]).1.Delivered ⟨30, 80, 35, 0⟩ :=
  (delivered_iff Bytes4.zero [0xAA, 0x01] (by decide) ⟨30, 80, 35, 0⟩).2 (by decide)

/-- A stray header byte before the frame. -/
theorem frame_lost_after_header :
    (Decoder.decode (Decoder.start Bytes4.zero) [0xAA]).1.RecCmd_Step = 1 ∧
      ¬ (Decoder.decode (Decoder.start Bytes4.zero) [0xAA]).1.Delivered ⟨30, 80, 35, 0⟩ := by
  refine ⟨by decide, ?_⟩
  intro h
  have hevent := h.event
  revert hevent
  decide

/-! ## The gate event -/

namespace Decoder

/-- The gate event needs a byte 0x01. -/
theorem gate_byte {d : Decoder} {bytes : List UInt8} (h : Event.gate ∈ (decode d bytes).2) :
    0x01 ∈ bytes := by
  unfold decode at h
  induction bytes generalizing d with
  | nil => simp at h
  | cons b bytes ih =>
    rw [run_cons, List.mem_append] at h
    rcases h with h | h
    · have hb : b = 0x01 := by
        unfold feed at h
        split at h
        · split_ifs at h <;> simp at h
        · split_ifs at h with h55 h01
          · simp at h
          · exact h01
          · simp at h
        · dsimp only at h
          split_ifs at h <;> simp at h
        · simp at h
      rw [hb]
      exact List.mem_cons_self
    · exact List.mem_cons_of_mem _ (ih h)

end Decoder

/-- Speed events leave the gate's variables alone. -/
theorem handle_gate {events : List Event} (h : Event.gate ∉ events) (m : Shared) :
    (m.handle events).stop_flag = m.stop_flag ∧ (m.handle events).sem_infrared = m.sem_infrared := by
  induction events generalizing m with
  | nil => exact ⟨rfl, rfl⟩
  | cons e events ih =>
    cases e with
    | gate => exact absurd List.mem_cons_self h
    | motor q =>
      have hrec := ih (fun hm => h (List.mem_cons_of_mem _ hm)) (m.handle [.motor q])
      have hcons : m.handle (.motor q :: events) = (m.handle [.motor q]).handle events := by
        unfold Shared.handle
        rw [List.flatMap_cons, List.foldl_append, List.flatMap_cons, List.flatMap_nil,
          List.append_nil]
      rw [hcons]
      exact hrec

/-- The speed bytes that the camera program sends: whole percents 0 or 14 to 65, hundredths up to 100. -/
def InRoverRange (q : Bytes4) : Prop :=
  (q.b0 = 0 ∨ 14 ≤ q.b0 ∧ q.b0 ≤ 65) ∧ q.b1 ≤ 100 ∧ (q.b2 = 0 ∨ 14 ≤ q.b2 ∧ q.b2 ≤ 65) ∧ q.b3 ≤ 100

instance : DecidablePred InRoverRange := fun q => by
  unfold InRoverRange
  infer_instance

abbrev RoverSpeed : Type := { q : Bytes4 // InRoverRange q }

/-- The bytes of these speed frames. -/
def stream (speeds : List RoverSpeed) : List UInt8 := speeds.flatMap fun q => (Frame.speed q.1).bytes

/-- The decoder does not take the gate branch on these bytes. -/
structure GateFree (Rx_buffer : Bytes4) (bytes : List UInt8) : Prop where
  event : Event.gate ∉ (Decoder.decode (Decoder.start Rx_buffer) bytes).2
  stop_flag : (Shared.init.handle
    (Decoder.decode (Decoder.start Rx_buffer) bytes).2).stop_flag = false
  sem_infrared : (Shared.init.handle
    (Decoder.decode (Decoder.start Rx_buffer) bytes).2).sem_infrared = Sem.create

theorem gateFree_of_byte {Rx_buffer : Bytes4} {bytes : List UInt8} (h : 0x01 ∉ bytes) :
    GateFree Rx_buffer bytes := by
  have hgate : Event.gate ∉ (Decoder.decode (Decoder.start Rx_buffer) bytes).2 :=
    fun hm => h (Decoder.gate_byte hm)
  obtain ⟨hflag, hsem⟩ := handle_gate hgate Shared.init
  exact ⟨hgate, hflag, hsem⟩

theorem not_gateFree (Rx_buffer : Bytes4) : ¬ GateFree Rx_buffer [0xAA, 0x01] := by
  intro h
  refine h.event ?_
  simp [Decoder.decode, run_cons, Decoder.feed, Decoder.start]

/-- The whole percents of such a speed are not 1. -/
theorem roverSpeed_ne {q : Bytes4} (h : InRoverRange q) : q.b0 ≠ 1 ∧ q.b2 ≠ 1 := by
  obtain ⟨h0, -, h2, -⟩ := h
  constructor
  · rintro e
    rw [e] at h0
    revert h0
    decide
  · rintro e
    rw [e] at h2
    revert h2
    decide

/-- A byte of a payload can end up directly behind the header byte of its frame. -/
theorem header_payload_sublist {speeds : List RoverSpeed} {q : RoverSpeed} (hq : q ∈ speeds) {b : UInt8}
    (hb : b = q.1.b1 ∨ b = q.1.b3) : [0xAA, b].Sublist (stream speeds) := by
  have hframe : [0xAA, b].Sublist (Frame.speed q.1).bytes := by
    refine List.Sublist.cons_cons 0xAA (List.singleton_sublist.2 ?_)
    rcases hb with rfl | rfl <;> simp
  refine hframe.trans ?_
  rw [stream, List.flatMap_def]
  exact List.sublist_flatten_of_mem (List.mem_map_of_mem hq)

/-- **Lost bytes and the gate command.** No loss of bytes from a stream of speed frames makes the
decoder take the gate branch if and only if no fraction byte of the frames is 1. -/
theorem no_fabricated_gate_iff (Rx_buffer : Bytes4) (speeds : List RoverSpeed) :
    (∀ bytes, bytes.Sublist (stream speeds) → GateFree Rx_buffer bytes) ↔
      ∀ q ∈ speeds, q.1.b1 ≠ 1 ∧ q.1.b3 ≠ 1 := by
  constructor
  · intro h q hq
    constructor
    · intro e
      have := h [0xAA, 0x01] (header_payload_sublist hq (Or.inl e.symm))
      exact not_gateFree Rx_buffer this
    · intro e
      have := h [0xAA, 0x01] (header_payload_sublist hq (Or.inr e.symm))
      exact not_gateFree Rx_buffer this
  · intro h bytes hsub
    apply gateFree_of_byte
    intro hmem
    obtain ⟨q, hq, hbyte⟩ := List.mem_flatMap.1 (hsub.subset hmem)
    obtain ⟨h0, h2⟩ := roverSpeed_ne q.2
    obtain ⟨h1, h3⟩ := h q hq
    simp only [Frame.bytes, List.mem_cons, List.not_mem_nil, or_false] at hbyte
    rcases hbyte with e | e | e | e | e | e
    · exact absurd e (by decide)
    · exact absurd e (by decide)
    · exact h0 e.symm
    · exact h1 e.symm
    · exact h2 e.symm
    · exact h3 e.symm

/-- The frame of 14.01 percent without its bytes 0x55 and 0x0E. -/
theorem fabricated_gate :
    [0xAA, 0x01, 0x00, 0x00].Sublist (stream [⟨⟨14, 1, 0, 0⟩, by decide⟩]) ∧
      Event.gate ∈ (Decoder.decode (Decoder.start Bytes4.zero) [0xAA, 0x01, 0x00, 0x00]).2 ∧
      (Shared.init.handle
        (Decoder.decode (Decoder.start Bytes4.zero) [0xAA, 0x01, 0x00, 0x00]).2).stop_flag = true := by
  decide

end Tdps
