import Tdps.Motor
import Tdps.SendSp

/-!
# Proofs: the command link

Frames decode to their events from an idle decoder (`decode_frames`), so the encoder of the camera and
the decoder of the board are inverse to each other (`link_round_trip`). From any state the decoder is
idle again after two frames whose payload has no header byte (`decoder_resync`).
-/

namespace Tdps

open Machine Rounding

namespace Decoder

/-! ## Frames from an idle decoder -/

theorem decode_frame (Rx : Bytes4) (F : Frame) :
    ∃ Rx', decode (start Rx) F.bytes = (start Rx', [F.event]) := by
  cases F with
  | gate => exact ⟨Rx, by simp [Frame.bytes, Frame.event, decode, run_cons, feed, start]⟩
  | speed p =>
    exact ⟨p, by simp [Frame.bytes, Frame.event, decode, run_cons, feed, start, Bytes4.set]⟩

theorem decode_frames (Rx : Bytes4) (Fs : List Frame) :
    ∃ Rx', decode (start Rx) (Fs.flatMap Frame.bytes) = (start Rx', Fs.map Frame.event) := by
  induction Fs generalizing Rx with
  | nil => exact ⟨Rx, rfl⟩
  | cons F Fs ih =>
    obtain ⟨Rx1, h1⟩ := decode_frame Rx F
    obtain ⟨Rx2, h2⟩ := ih Rx1
    refine ⟨Rx2, ?_⟩
    unfold decode at h1 h2 ⊢
    rw [List.flatMap_cons, run_append, h1, h2]
    rfl

theorem idle_iff {d : Decoder} : d.Idle ↔ ∃ Rx, d = start Rx := by
  constructor
  · rintro ⟨h1, h2⟩
    exact ⟨d.Rx_buffer, by cases d; simp_all [start]⟩
  · rintro ⟨Rx, rfl⟩
    exact ⟨rfl, rfl⟩

/-! ## The reachable states -/

theorem wf_start (Rx : Bytes4) : (start Rx).WF := Or.inl ⟨Or.inl rfl, rfl⟩

theorem feed_wf {d : Decoder} (h : d.WF) (b : UInt8) : (d.feed b).1.WF := by
  obtain ⟨step, index, Rx⟩ := d
  rcases h with ⟨rfl | rfl, rfl⟩ | ⟨rfl, hi⟩
  · simp only [feed]
    split_ifs <;> simp [WF]
  · simp only [feed]
    split_ifs <;> simp [WF]
  · simp only at hi
    simp only [feed]
    split_ifs with h4
    · exact wf_start _
    · exact Or.inr ⟨rfl, by show index + 1 < 4; omega⟩

theorem decode_wf {d : Decoder} (h : d.WF) (bytes : List UInt8) : (decode d bytes).1.WF :=
  run_invariant feed h (fun _ b ht => feed_wf ht b) bytes

/-! ## Bytes without a header, and the rest of a payload -/

/-- An idle decoder skips everything but the header byte. -/
theorem decode_skip (Rx : Bytes4) {bytes : List UInt8} (h : ∀ b ∈ bytes, b ≠ 0xAA) :
    decode (start Rx) bytes = (start Rx, []) := by
  unfold decode
  induction bytes with
  | nil => rfl
  | cons b bytes ih =>
    have hfeed : feed (start Rx) b = (start Rx, []) := by
      simp [feed, start, h b (by simp)]
    rw [run_cons, hfeed, ih fun c hc => h c (by simp [hc])]
    rfl

/-- Inside a payload with fewer bytes than are missing. -/
theorem decode_payload_short {d : Decoder} (hs : d.RecCmd_Step = 2) (bytes : List UInt8)
    (h : d.index + bytes.length < 4) :
    ∃ Rx, decode d bytes = (⟨2, d.index + bytes.length, Rx⟩, []) := by
  unfold decode
  induction bytes generalizing d with
  | nil => exact ⟨d.Rx_buffer, by cases d; simp_all⟩
  | cons b bytes ih =>
    rw [List.length_cons] at h
    have hfeed : feed d b = (⟨2, d.index + 1, d.Rx_buffer.set d.index b⟩, []) := by
      unfold feed
      rw [hs]
      simp only
      rw [if_neg (by omega)]
    obtain ⟨Rx, hrun⟩ := ih (d := ⟨2, d.index + 1, d.Rx_buffer.set d.index b⟩) rfl
      (by simp only; omega)
    refine ⟨Rx, ?_⟩
    rw [run_cons, hfeed, hrun, List.length_cons]
    simp only [List.append_nil, Prod.mk.injEq, Decoder.mk.injEq, true_and, and_true]
    omega

/-- The last missing bytes of a payload complete it. -/
theorem decode_payload_full {d : Decoder} (hs : d.RecCmd_Step = 2) (bytes : List UInt8)
    (hi : d.index < 4) (h : d.index + bytes.length = 4) :
    ∃ Rx, decode d bytes = (start Rx, [.motor Rx]) := by
  have hne : bytes ≠ [] := by
    rintro rfl
    simp at h
    omega
  obtain ⟨init, b, rfl⟩ : ∃ init b, bytes = init ++ [b] :=
    ⟨bytes.dropLast, bytes.getLast hne, (List.dropLast_concat_getLast hne).symm⟩
  rw [List.length_append, List.length_singleton] at h
  obtain ⟨Rx, hrun⟩ := decode_payload_short hs init (by omega)
  refine ⟨Rx.set (d.index + init.length) b, ?_⟩
  unfold decode at hrun ⊢
  rw [run_snoc, hrun]
  have h4 : d.index + init.length + 1 = 4 := by omega
  simp [feed, h4, start]

/-! ## Resynchronisation -/

/-- No byte of an intact frame after the first is the header byte. -/
theorem header_free {F : Frame} (h : F.InRange) : ∀ b ∈ F.bytes.tail, b ≠ 0xAA := by
  have hle : ∀ x : UInt8, x ≤ 100 → x ≠ 0xAA := by
    rintro x hx rfl
    exact absurd hx (by decide)
  cases F with
  | gate => simp [Frame.bytes]
  | speed p =>
    obtain ⟨h0, h1, h2, h3⟩ := h
    simp [Frame.bytes, hle _ h0, hle _ h1, hle _ h2, hle _ h3]

/-- What the decoder makes of frames that reach it out of step: at most one speed event that was not
sent, then frames that were sent. -/
def Salvaged (sent : List Frame) (events : List Event) : Prop :=
  ∃ bogus real, events = bogus ++ real ∧ bogus.length ≤ 1 ∧
    (∀ e ∈ bogus, ∃ data, e = Event.motor data) ∧ real.Sublist (sent.map Frame.event)

/-- A payload that is completed inside a frame: the rest of the frame is skipped. -/
theorem decode_payload_frame {d : Decoder} (hs : d.RecCmd_Step = 2) (hi : d.index < 4) {F : Frame}
    (hF : F.InRange) (hlen : 4 ≤ d.index + F.bytes.length) :
    ∃ Rx data, decode d F.bytes = (start Rx, [.motor data]) := by
  have htake : (F.bytes.take (4 - d.index)).length = 4 - d.index := by
    rw [List.length_take]
    omega
  obtain ⟨Rx, hfull⟩ := decode_payload_full hs (F.bytes.take (4 - d.index)) hi (by omega)
  have hskip : decode (start Rx) (F.bytes.drop (4 - d.index)) = (start Rx, []) := by
    refine decode_skip Rx fun b hb => header_free hF b ?_
    rw [← List.drop_one]
    exact List.drop_subset_drop_left _ (by omega) hb
  refine ⟨Rx, Rx, ?_⟩
  unfold decode at hfull hskip ⊢
  rw [← List.take_append_drop (4 - d.index) F.bytes, run_append, hfull, hskip]
  rfl

theorem two_le_length (F : Frame) : 2 ≤ F.bytes.length := by
  cases F <;> simp [Frame.bytes]

/-- After two intact frames the decoder is idle, whatever state it was in before. -/
theorem decode_two_frames {d : Decoder} (h : d.WF) {F1 F2 : Frame} (h1 : F1.InRange)
    (h2 : F2.InRange) :
    ∃ Rx events, decode d (F1.bytes ++ F2.bytes) = (start Rx, events) ∧
      Salvaged [F1, F2] events := by
  have happ : decode d (F1.bytes ++ F2.bytes) =
      ((decode (decode d F1.bytes).1 F2.bytes).1,
        (decode d F1.bytes).2 ++ (decode (decode d F1.bytes).1 F2.bytes).2) :=
    run_append feed d F1.bytes F2.bytes
  rw [happ]
  rcases h with ⟨hs | hs, hi⟩ | ⟨hs, hi⟩
  · obtain ⟨Rx, rfl⟩ := idle_iff.1 ⟨hs, hi⟩
    obtain ⟨Rx1, e1⟩ := decode_frame Rx F1
    obtain ⟨Rx2, e2⟩ := decode_frame Rx1 F2
    exact ⟨Rx2, [F1.event, F2.event], by rw [e1, e2]; rfl, [], _, rfl, by simp, by simp, by simp⟩
  · -- the header of `F1` is read where `AA` is not expected, and `F1` is skipped
    have e1 : decode d F1.bytes = (start d.Rx_buffer, []) := by
      have hfeed : feed d 0xAA = (start d.Rx_buffer, []) := by
        simp [feed, hs, start, hi]
      have hcons : F1.bytes = 0xAA :: F1.bytes.tail := by cases F1 <;> rfl
      unfold decode
      rw [hcons, run_cons, hfeed]
      exact decode_skip d.Rx_buffer (header_free h1)
    obtain ⟨Rx2, e2⟩ := decode_frame d.Rx_buffer F2
    exact ⟨Rx2, [F2.event], by rw [e1, e2]; rfl, [], _, rfl, by simp, by simp, by simp⟩
  · have hl1 := two_le_length F1
    have hl2 := two_le_length F2
    by_cases hlong : 4 ≤ d.index + F1.bytes.length
    · obtain ⟨Rx1, data, e1⟩ := decode_payload_frame hs hi h1 hlong
      obtain ⟨Rx2, e2⟩ := decode_frame Rx1 F2
      exact ⟨Rx2, [.motor data, F2.event], by rw [e1, e2]; rfl, [.motor data], [F2.event], rfl,
        by simp, by simp, by simp⟩
    · -- `F1` is a gate frame that is swallowed whole; the payload ends inside `F2`
      obtain ⟨Rx1, e1⟩ := decode_payload_short hs F1.bytes (by omega)
      obtain ⟨Rx2, data, e2⟩ := decode_payload_frame (d := ⟨2, d.index + F1.bytes.length, Rx1⟩) rfl
        (by show d.index + F1.bytes.length < 4; omega) h2
        (by show 4 ≤ d.index + F1.bytes.length + F2.bytes.length; omega)
      exact ⟨Rx2, [.motor data], by rw [e1, e2]; rfl, [.motor data], [], rfl, by simp, by simp,
        by simp⟩

end Decoder

/-- A frame as `send_gate` and `send_sp` write it. -/
abbrev IntactFrame : Type := { F : Frame // F.InRange }

/-- **Resynchronisation.** Whatever bytes `P` the decoder has received, it is idle after the next two
intact frames, has raised at most one speed event and no gate event that was not sent meanwhile, and
delivers every further frame as sent and in order. -/
theorem decoder_resync (Rx_buffer : Bytes4) (P : List UInt8) (F1 F2 : IntactFrame)
    (Fs : List IntactFrame) :
    ∃ d2 events2 d events,
      Decoder.decode (Decoder.decode (Decoder.start Rx_buffer) P).1 (F1.1.bytes ++ F2.1.bytes) =
          (d2, events2) ∧
        d2.Idle ∧ Decoder.Salvaged [F1.1, F2.1] events2 ∧
      Decoder.decode d2 (Fs.flatMap fun F => F.1.bytes) = (d, events) ∧
        d.Idle ∧ events = Fs.map fun F => F.1.event := by
  have hwf := Decoder.decode_wf (Decoder.wf_start Rx_buffer) P
  obtain ⟨Rx2, events2, e2, hsalv⟩ := Decoder.decode_two_frames hwf F1.2 F2.2
  obtain ⟨Rx3, e3⟩ := Decoder.decode_frames Rx2 (Fs.map Subtype.val)
  rw [List.flatMap_map, List.map_map] at e3
  exact ⟨_, events2, _, _, e2, ⟨rfl, rfl⟩, hsalv, e3, ⟨rfl, rfl⟩, rfl⟩

/-! ## Round trip -/

/-- A speed in percent. -/
abbrev Percent : Type := { q : ℚ // 0 ≤ q ∧ q ≤ 100 }

/-- A call of the camera program that writes to the command link. -/
inductive LinkCall where
  | send_gate
  | send_sp (l r : Percent)

/-- What a call, or a decoder event, means for the board. -/
inductive BoardEvent where
  | gate
  | motor (pulse2 pulse3 : ℤ)

namespace LinkCall

/-- The bytes a call writes. -/
def bytes : LinkCall → List UInt8
  | send_gate => frameBytes sendGate
  | send_sp l r => frameBytes (sendSp l.1 r.1)

/-- The pulses a call asks for: the speeds rounded to hundredths of a percent. -/
def meaning : LinkCall → BoardEvent
  | send_gate => .gate
  | send_sp l r => .motor (100 * roundHalfEven (100 * r.1)) (100 * roundHalfEven (100 * l.1))

/-- The frame of a call. -/
def frame : LinkCall → Frame
  | send_gate => .gate
  | send_sp l r => .speed ⟨writechar (speedInt l.1), writechar (speedDec l.1),
      writechar (speedInt r.1), writechar (speedDec r.1)⟩

theorem bytes_eq (c : LinkCall) : c.bytes = c.frame.bytes := by
  cases c <;> rfl

end LinkCall

/-- The meaning of a decoder event, with the payload converted as `motor_ctrl_th` does in exact
arithmetic. -/
def Event.meaning : Event → BoardEvent
  | .gate => .gate
  | .motor data => .motor (motorCtrl Arith.exact data).pulse2.toNat
      (motorCtrl Arith.exact data).pulse3.toNat

/-- The pulse of one wheel after encoding and decoding. -/
theorem pulse_sendSp (q : Percent) :
    ((pulse Arith.exact (speed Arith.exact (writechar (speedInt q.1)) (writechar (speedDec q.1)))).toNat
      : ℤ) = 100 * roundHalfEven (100 * q.1) := by
  obtain ⟨hi0, hi1⟩ := speedInt_mem q.2.1
  obtain ⟨hd0, hd1⟩ := speedDec_mem q.2.1
  have hi := writechar_toNat hi0 (by omega)
  have hd := writechar_toNat hd0 (by omega)
  rw [pulse_exact, ← speedInt_speedDec q.2.1 q.2.2]
  push_cast
  rw [hi, hd]
  ring

theorem frame_event_meaning (c : LinkCall) : c.frame.event.meaning = c.meaning := by
  cases c with
  | send_gate => rfl
  | send_sp l r =>
    show BoardEvent.motor _ _ = BoardEvent.motor _ _
    rw [← pulse_sendSp l, ← pulse_sendSp r]
    rfl

/-- **Camera-to-motor round trip.** Whatever mix of `send_gate` and `send_sp` calls the camera makes,
an idle decoder turns their bytes into the same events in the same order and is idle again. -/
theorem link_round_trip (Rx_buffer : Bytes4) (calls : List LinkCall) :
    (Decoder.decode (Decoder.start Rx_buffer) (calls.flatMap LinkCall.bytes)).2.map Event.meaning =
        calls.map LinkCall.meaning ∧
      (Decoder.decode (Decoder.start Rx_buffer) (calls.flatMap LinkCall.bytes)).1.RecCmd_Step = 0 ∧
      (Decoder.decode (Decoder.start Rx_buffer) (calls.flatMap LinkCall.bytes)).1.index = 0 := by
  have hbytes : calls.flatMap LinkCall.bytes = (calls.map LinkCall.frame).flatMap Frame.bytes := by
    rw [List.flatMap_map]
    exact List.flatMap_congr fun c _ => c.bytes_eq
  obtain ⟨Rx', h⟩ := Decoder.decode_frames Rx_buffer (calls.map LinkCall.frame)
  rw [hbytes, h]
  refine ⟨?_, rfl, rfl⟩
  rw [List.map_map, List.map_map]
  exact List.map_congr_left fun c _ => frame_event_meaning c

end Tdps
