import Tdps.Gate
import Tdps.Proofs.CourseProofs
import Tdps.Proofs.LinkProofs

/-!
# Proofs: the gate handshake

The bytes on their way to the camera are, while `stop_flag` has not been set, all different from 0;
from then on until it is cleared they are non-zero bytes followed by zeros (`Phase`). So the camera
cannot read a zero byte before the flag has been set, and after it has read one it cannot read
anything else before the flag has been cleared.
-/

namespace Tdps

open Machine

namespace Gate

/-! ## Traces -/

theorem requested_append {tr : List Act} (h : Requested tr) (out : List Act) :
    Requested (tr ++ out) := by
  obtain ⟨it, hmem, hgate⟩ := h
  exact ⟨it, List.mem_append_left out hmem, hgate⟩

theorem stopped_append {tr : List Act} (h : Stopped tr) (out : List Act) : Stopped (tr ++ out) := by
  obtain ⟨a, b, rfl, ha⟩ := h
  exact ⟨a, b ++ out, by simp, ha⟩

theorem cleared_append {tr : List Act} (h : Cleared tr) (out : List Act) : Cleared (tr ++ out) := by
  obtain ⟨a, b, rfl, ha⟩ := h
  exact ⟨a, b ++ out, by simp, ha⟩

theorem entered6_append {tr : List Act} (h : Entered6 tr) (out : List Act) :
    Entered6 (tr ++ out) := by
  obtain ⟨it, hmem, h6⟩ := h
  exact ⟨it, List.mem_append_left out hmem, h6⟩

/-! ## The command link -/

/-- The frame that an effect sends. -/
def frame : Effect → Option Frame
  | .send_sp sp_l sp_r => some (.speed ⟨writechar (speedInt sp_l), writechar (speedDec sp_l),
      writechar (speedInt sp_r), writechar (speedDec sp_r)⟩)
  | .send_gate => some .gate
  | _ => none

theorem bytes_eq_frame (e : Effect) : e.bytes = (frame e).toList.flatMap Frame.bytes := by
  cases e <;> rfl

theorem bytes_eq_frames (es : List Effect) :
    es.flatMap Effect.bytes = (es.filterMap frame).flatMap Frame.bytes := by
  induction es with
  | nil => rfl
  | cons e es ih =>
    rw [List.flatMap_cons, ih, bytes_eq_frame]
    cases h : frame e with
    | none => simp [h]
    | some F => simp [h]

theorem gate_mem_frames {es : List Effect} (h : Event.gate ∈ (es.filterMap frame).map Frame.event) :
    Effect.send_gate ∈ es := by
  obtain ⟨F, hF, hevent⟩ := List.mem_map.1 h
  obtain ⟨e, he, hframe⟩ := List.mem_filterMap.1 hF
  cases e with
  | send_gate => exact he
  | send_sp l r =>
    obtain rfl := Option.some.inj hframe
    cases hevent
  | delay ms | read distance => cases hframe

/-- What is on the command link ends with a complete frame, and a gate event that is still to come
has been requested. -/
structure Framed (tr : List Act) (cmd : List UInt8) (decoder : DecoderThread) : Prop where
  link : ∃ Rx events, Decoder.decode decoder.dec cmd = (Decoder.start Rx, events) ∧
    (Event.gate ∈ events → Requested tr)
  todo : Op.set_stop_flag ∈ decoder.todo → Requested tr

section Link

variable {tr : List Act} {cmd : List UInt8} {decoder : DecoderThread}

theorem framed_append (h : Framed tr cmd decoder) (out : List Act) :
    Framed (tr ++ out) cmd decoder := by
  obtain ⟨Rx, events, e, hgate⟩ := h.link
  exact ⟨⟨Rx, events, e, fun hm => requested_append (hgate hm) out⟩,
    fun hm => requested_append (h.todo hm) out⟩

/-- The camera puts whole frames on the link. -/
theorem framed_send (h : Framed tr cmd decoder) (es : List Effect)
    (hreq : Effect.send_gate ∈ es → Requested tr) :
    Framed tr (cmd ++ es.flatMap Effect.bytes) decoder := by
  obtain ⟨Rx, events, e, hgate⟩ := h.link
  obtain ⟨Rx', e'⟩ := Decoder.decode_frames Rx (es.filterMap frame)
  refine ⟨⟨Rx', events ++ (es.filterMap frame).map Frame.event, ?_, ?_⟩, h.todo⟩
  · show run Decoder.feed decoder.dec (cmd ++ es.flatMap Effect.bytes) = _
    rw [run_append, bytes_eq_frames]
    unfold Decoder.decode at e e'
    rw [e]
    dsimp only
    rw [e']
  · intro hm
    rcases List.mem_append.1 hm with hm | hm
    · exact hgate hm
    · exact hreq (gate_mem_frames hm)

theorem set_mem_ops {events : List Event} (h : Op.set_stop_flag ∈ events.flatMap Event.ops) :
    Event.gate ∈ events := by
  obtain ⟨e, he, hop⟩ := List.mem_flatMap.1 h
  cases e with
  | gate => exact he
  | motor q => simp [Event.ops] at hop

/-- The decoder takes a byte off the link. -/
theorem framed_uart {buffer : UInt8} (h : Framed tr (buffer :: cmd) decoder) :
    Framed tr cmd
      ⟨(decoder.dec.feed buffer).1, (decoder.dec.feed buffer).2.flatMap Event.ops⟩ := by
  obtain ⟨Rx, events, e, hgate⟩ := h.link
  unfold Decoder.decode at e
  rw [run_cons] at e
  obtain ⟨e1, e2⟩ := Prod.mk.inj e
  refine ⟨⟨Rx, _, Prod.ext e1 rfl, fun hm => hgate ?_⟩, fun hm => hgate ?_⟩
  · rw [← e2]
    exact List.mem_append_right _ hm
  · rw [← e2]
    exact List.mem_append_left _ (set_mem_ops hm)

end Link

/-! ## The camera -/

end Gate

namespace Camera

/-- `state_5` has read the zero byte and polls. -/
def Acked (c : Camera) : Prop :=
  c.pc = .top ∧ c.globals.current_state = 5 ∧ c.globals.delay_flag = true

/-- The camera has not entered state 6. -/
structure Before6 (c : Camera) : Prop where
  state : c.globals.current_state ≤ 5
  delayed : c.globals.delay_flag = true → c.globals.current_state = 5
  waits : ∀ sp_l sp_r, c.pc = .wait sp_l sp_r →
    c.globals.current_state = 5 ∧ c.globals.delay_flag = true
  stopped : c.Acked → c.globals.direction = .stop

/-- What a step before state 6 does to the handshake. -/
inductive HandshakeStep (c c' : Camera) (it : Iter) : Prop where
  /-- The zero byte has not been read. -/
  | early (h : c'.Before6) (hn : ¬ c.Acked) (hn' : ¬ c'.Acked)
      (huart : c'.globals.uart <:+ c.globals.uart) (hout : it.outcome ≠ .next 6)
      (hread : it.start.current_state = 5 → 0 ∉ it.reads)
  /-- It is read. -/
  | ack (h : c'.Before6) (hn : ¬ c.Acked) (hacked : c'.Acked) (used : List UInt8)
      (huart : c.globals.uart = used ++ 0 :: c'.globals.uart) (hout : it.outcome = .next 5)
      (hcmd : it.command = [.send_sp 0 0])
  /-- The last distance byte polled is close, or there is none. -/
  | hold (h : c'.Before6) (hacked : c.Acked) (hacked' : c'.Acked)
      (huart : c'.globals.uart <:+ c.globals.uart) (hout : it.outcome = .next 5)
      (hspeeds : it.speeds = [(0, 0)]) (hcmd : it.command = [.send_sp 0 0])
  /-- It is not, and the pass enters state 6. -/
  | leave (hacked : c.Acked) (distance : UInt8) (rest : List UInt8)
      (huart : c.globals.uart = distance :: rest) (hfar : DIS_CONST ≤ distance)
      (hout : it.outcome = .next 6) (hread : 0 ∉ it.reads)

theorem not_acked_of_delay {c : Camera} (h : c.globals.delay_flag = false) : ¬ c.Acked := by
  rintro ⟨-, -, hd⟩
  cases h.symm.trans hd

/-- A call before state 5 sends no gate request, so the flag stays clear. -/
theorem early_finish {c : Camera} (hd : c.globals.delay_flag = false) {sp_l sp_r : ℚ} {call : Call}
    {n : ℕ} (hret : call.ret = some n) (hn : n ≤ 5) (hstart : c.globals.current_state ≤ 4)
    (hdelay : call.globals.delay_flag = false) (huart : call.globals.uart <:+ c.globals.uart) :
    HandshakeStep c (finish c.globals sp_l sp_r call).1 (finish c.globals sp_l sp_r call).2 := by
  unfold finish
  rw [hret]
  obtain ⟨-, hdel, hu⟩ := command_keeps sp_l sp_r { call.globals with current_state := n }
  have hcs := command_current_state sp_l sp_r { call.globals with current_state := n }
  have hdel' := hdel.trans hdelay
  refine .early ⟨hcs.trans_le hn, ?_, ?_, ?_⟩ (not_acked_of_delay hd) (not_acked_of_delay hdel')
    ?_ ?_ ?_
  · intro h
    cases h.symm.trans hdel'
  · intro l r h
    cases h
  · intro h
    exact absurd h (not_acked_of_delay hdel')
  · dsimp only
    rw [hu]
    exact huart
  · intro h
    cases h
    omega
  · intro h
    dsimp only at h
    omega

theorem call_early {n : ℕ} {f : Snapshot → Globals → Call} (hf : stateFunctions n = some f)
    (h4 : n ≤ 4) (img : Snapshot) (g : Globals) :
    ∃ n', (f img g).ret = some n' ∧ n' ≤ 5 ∧ (f img g).globals.delay_flag = g.delay_flag ∧
      (f img g).globals.uart <:+ g.uart := by
  unfold stateFunctions at hf
  split at hf <;> cases hf
  case h_1 =>
    obtain ⟨d, k, n, e, hn⟩ := checkArrow_cases img g
    rw [e]
    exact ⟨n, rfl, by omega, rfl, List.suffix_rfl⟩
  case h_2 =>
    obtain ⟨d, n, e, hn⟩ := trafficLight_cases img g
    rw [e]
    exact ⟨n, rfl, by omega, rfl, List.suffix_rfl⟩
  case h_3 =>
    obtain ⟨k, used, rest, n, hu, e, hn⟩ := pedestrianLoop_cases g g.uart
    have hn' : n = 3 ∨ n = 4 := hn.imp And.left And.left
    unfold pedestrian
    rw [e]
    exact ⟨n, rfl, by omega, rfl, used, hu.symm⟩
  case h_4 =>
    rcases getAround_cases img g with ⟨-, e⟩ | ⟨-, n, e, hn⟩
    · rw [e]
      exact ⟨4, rfl, by omega, rfl, List.suffix_rfl⟩
    · rw [e]
      exact ⟨n, rfl, by omega, rfl, List.suffix_rfl⟩
  case h_5 | h_6 | h_7 => omega

/-- The wait of `state_5`, in the pass that sends the request or in a later step. -/
theorem await_finish {c : Camera} (hn : ¬ c.Acked) {sp_l sp_r : ℚ} {g : Globals}
    (hg : g.delay_flag = true) (hcs : g.current_state = 5) (hu : g.uart = c.globals.uart)
    (es : List Effect) (hes : es.filterMap Effect.distance = []) :
    HandshakeStep c (finish c.globals sp_l sp_r ((awaitZero g g.uart).after es)).1
      (finish c.globals sp_l sp_r ((awaitZero g g.uart).after es)).2 := by
  rcases awaitZero_cases g g.uart with ⟨hz, e⟩ | ⟨used, rest, huart, hz, e⟩
  · rw [e]
    have hnot : ¬ Acked ⟨{ g with uart := [] }, .wait sp_l sp_r⟩ := by
      intro h
      cases h.1
    refine .early ⟨hcs.le, fun _ => hcs, fun _ _ _ => ⟨hcs, hg⟩, fun h => absurd h hnot⟩ hn hnot
      List.nil_suffix (by simp [finish, Call.after]) ?_
    intro _ hm
    apply hz
    simp only [finish, Call.after, Iter.reads, Iter.effects, List.filterMap_append, hes, reads_map,
      List.nil_append, List.append_nil] at hm
    exact hm
  · rw [e]
    refine .ack ⟨le_rfl, fun _ => rfl, fun _ _ h => (by cases h), fun _ => rfl⟩ hn
      ⟨rfl, rfl, hg⟩ used (hu.symm.trans huart) rfl rfl

theorem handshake_step {c : Camera} (h : c.Before6) (img : Snapshot) (harr : img.arrivals = []) :
    c.step img = (c, []) ∨
      ∃ it, (c.step img).2 = [it] ∧ HandshakeStep c (c.step img).1 it := by
  have huart : ∀ g : Globals, (g.tracked img).uart = g.uart := by
    intro g
    show g.uart ++ img.arrivals = g.uart
    rw [harr, List.append_nil]
  rcases hpc : c.pc with _ | ⟨sp_l, sp_r⟩ | _
  · right
    cases hf : stateFunctions c.globals.current_state with
    | none =>
      rw [step_lookup_fails hpc hf]
      have hd : c.globals.delay_flag = false := by
        by_contra hd
        have h5 := h.delayed (by simpa using hd)
        rw [h5] at hf
        cases hf
      refine ⟨_, rfl, .early ⟨h.state, h.delayed, ?_, ?_⟩ (not_acked_of_delay hd) ?_ ?_ (by simp)
        (by simp [Iter.reads, Iter.effects])⟩
      · intro l r hw
        cases hw
      · intro ha
        cases ha.1
      · intro ha
        cases ha.1
      · show (c.globals.tracked img).uart <:+ _
        rw [huart]
    | some f =>
      rw [step_top hpc hf]
      refine ⟨_, rfl, ?_⟩
      have hsame : (c.globals.tracked img).delay_flag = c.globals.delay_flag := rfl
      by_cases h5 : c.globals.current_state = 5
      · rw [h5] at hf
        cases hf
        rcases state5_cases img (c.globals.tracked img) with
          ⟨hd, e⟩ | ⟨hd, d, used, rest, n, hu, e, hn⟩
        · rw [e]
          exact await_finish (not_acked_of_delay hd) (g := { c.globals.tracked img with
            delay_flag := true }) rfl h5 (huart _) _ rfl
        · rw [e]
          have hacked : c.Acked := ⟨hpc, h5, hd⟩
          rw [huart] at hu
          rcases hn with ⟨rfl, hd'⟩ | ⟨rfl, distance, rfl, hfar⟩
          · have hstop : d = .stop := by
              rcases hd' with ⟨-, hd'⟩ | hd'
              · rw [hd']
                exact (track_direction _ _ _).trans (h.stopped hacked)
              · exact hd'
            subst hstop
            refine .hold ⟨le_rfl, fun _ => rfl, fun _ _ hw => (by cases hw), fun _ => rfl⟩ hacked
              ⟨rfl, rfl, hd⟩ ?_ rfl ?_ rfl
            · exact ⟨used, hu.symm⟩
            · simp [finish, command, Iter.speeds, Iter.effects, List.filterMap_append, Effect.speed]
          · refine .leave hacked distance rest hu hfar rfl ?_
            have hne : (0 : UInt8) ≠ distance := by
              rintro rfl
              exact absurd hfar (by decide)
            have hreads := command_reads (track img.img_blue img.tnow c.globals.toTracker).2.1
              (track img.img_blue img.tnow c.globals.toTracker).2.2
              { c.globals.tracked img with direction := d, uart := rest, current_state := 6 }
            simpa [finish, Iter.reads, Iter.effects, List.filterMap_append, Effect.distance, hreads]
              using hne
      · have hd : c.globals.delay_flag = false := by
          by_contra hd
          exact h5 (h.delayed (by simpa using hd))
        have h4 : c.globals.current_state ≤ 4 := by
          have := h.state
          omega
        obtain ⟨n', hret, hn', hdelay, hu⟩ := call_early hf h4 img (c.globals.tracked img)
        exact early_finish hd hret hn' h4 (hdelay.trans hd) (huart c.globals ▸ hu)
  · right
    rw [step_wait hpc]
    obtain ⟨h5, hd⟩ := h.waits sp_l sp_r hpc
    have hrec : (c.globals.receive img).uart = c.globals.uart := huart c.globals
    have hn : ¬ c.Acked := by
      rintro ⟨htop, -⟩
      cases hpc.symm.trans htop
    exact ⟨_, rfl, await_finish hn (g := c.globals.receive img) hd h5 hrec [] rfl⟩
  · exact Or.inl (step_raised hpc)

end Camera

namespace Gate

/-! ## The link back to the camera -/

/-- A byte that `sr04_th` is about to write. -/
def pending : Sr04 → List UInt8
  | .write data => [data]
  | _ => []

/-- The bytes the camera has not read, in the order in which it will read them. -/
def stream (s : Gate) : List UInt8 := s.camera.globals.uart ++ (s.back ++ pending s.sr04)

/-- How far the handshake has got. -/
inductive Phase (tr : List Act) (s : Gate) : Prop where
  /-- The flag has not been set and no zero byte is on the way. -/
  | moving (hflag : s.shared.stop_flag = false) (hstream : 0 ∉ s.stream) (hn : ¬ s.camera.Acked)
  /-- The flag is set, and what follows a zero byte on the way are zero bytes. -/
  | stopped (h : Stopped tr) (hflag : s.shared.stop_flag = true)
      (hstream : s.stream.Pairwise fun b b' => b = 0 → b' = 0)
      (hacked : s.camera.Acked → ∀ b ∈ s.stream, b = 0)
  | cleared (h : Cleared tr)

/-- What the trace shows of the camera: it has entered state 6, or it is before that and polls once it has
read the zero byte. -/
def CameraInv (tr : List Act) (c : Camera) : Prop := Entered6 tr ∨ (c.Before6 ∧ (Acked tr → c.Acked))

/-- The invariant of a run. -/
structure Inv (tr : List Act) (s : Gate) : Prop where
  framed : Framed tr s.cmd s.decoder
  ready : ∀ send_data, s.sr04 = .test send_data → send_data ≠ 0
  camera : CameraInv tr s.camera
  phase : Phase tr s
  entered : Entered6 tr → Cleared tr

/-- A change that adds no byte to the stream and takes none out of its middle. -/
theorem phase_suffix {tr out : List Act} {s s' : Gate} (h : Phase tr s)
    (hflag : s'.shared.stop_flag = s.shared.stop_flag) (hstream : s'.stream <:+ s.stream)
    (hacked : s'.camera.Acked → s.camera.Acked) : Phase (tr ++ out) s' := by
  cases h with
  | moving hf hs hn =>
    exact .moving (hflag.trans hf) (fun hm => hs (hstream.subset hm)) fun ha => hn (hacked ha)
  | stopped hst hf hs ha =>
    exact .stopped (stopped_append hst out) (hflag.trans hf) (hs.sublist hstream.sublist)
      fun hacked' b hb => ha (hacked hacked') b (hstream.subset hb)
  | cleared hc => exact .cleared (cleared_append hc out)

theorem phase_silent {tr : List Act} {s s' : Gate} (h : Phase tr s)
    (hflag : s'.shared.stop_flag = s.shared.stop_flag) (hstream : s'.stream <:+ s.stream)
    (hacked : s'.camera.Acked → s.camera.Acked) : Phase tr s' := by
  have h' : Phase (tr ++ []) s' := phase_suffix h hflag hstream hacked
  rwa [List.append_nil] at h'

/-! ### The steps of the board -/

theorem acked_of_append {tr out : List Act} (hout : ∀ it, Act.pass it ∉ out)
    (h : Acked (tr ++ out)) : Acked tr := by
  obtain ⟨it, hmem, hread⟩ := h
  exact ⟨it, (List.mem_append.1 hmem).resolve_right (hout it), hread⟩

theorem entered6_of_append {tr out : List Act} (hout : ∀ it, Act.pass it ∉ out)
    (h : Entered6 (tr ++ out)) : Entered6 tr := by
  obtain ⟨it, hmem, h6⟩ := h
  exact ⟨it, (List.mem_append.1 hmem).resolve_right (hout it), h6⟩

/-- A step of the board leaves the camera alone. -/
theorem cameraInv_board {tr out : List Act} {c : Camera} (h : CameraInv tr c)
    (hout : ∀ it, Act.pass it ∉ out) : CameraInv (tr ++ out) c := by
  rcases h with h6 | ⟨hb, hacked⟩
  · exact Or.inl (entered6_append h6 out)
  · exact Or.inr ⟨hb, fun ha => hacked (acked_of_append hout ha)⟩

/-- The bytes in the receive buffer of the camera do not matter. -/
theorem cameraInv_receive {tr : List Act} {c : Camera} (h : CameraInv tr c) (uart : List UInt8) :
    CameraInv tr { c with globals := { c.globals with uart := uart } } :=
  h.imp_right fun ⟨hb, ha⟩ => ⟨⟨hb.state, hb.delayed, hb.waits, hb.stopped⟩, ha⟩

theorem inv_board {tr out : List Act} {s s' : Gate} (h : Inv tr s) (hout : ∀ it, Act.pass it ∉ out)
    (hcam : s'.camera = s.camera) (hframed : Framed (tr ++ out) s'.cmd s'.decoder)
    (hready : ∀ send_data, s'.sr04 = .test send_data → send_data ≠ 0)
    (hphase : Phase (tr ++ out) s') : Inv (tr ++ out) s' := by
  exact ⟨hframed, hready, hcam ▸ cameraInv_board h.camera hout, hphase, fun h6 =>
    cleared_append (h.entered (entered6_of_append hout h6)) out⟩

theorem inv_uart {tr : List Act} {s : Gate} (h : Inv tr s) :
    Inv (tr ++ (step s .uart).2) (step s .uart).1 := by
  unfold step
  dsimp only
  cases hcmd : s.cmd with
  | nil =>
    rw [List.append_nil]
    exact h
  | cons buffer cmd =>
    dsimp only
    split_ifs
    · refine inv_board h (by simp) rfl (framed_append (framed_uart (hcmd ▸ h.framed)) _) h.ready ?_
      exact phase_suffix h.phase rfl List.suffix_rfl id
    · rw [List.append_nil]
      exact h

theorem inv_decoder {tr : List Act} {s : Gate} (h : Inv tr s) :
    Inv (tr ++ (step s .decoder).2) (step s .decoder).1 := by
  unfold step
  dsimp only
  cases htodo : s.decoder.todo with
  | nil =>
    rw [List.append_nil]
    exact h
  | cons op ops =>
    dsimp only
    have hframed : Framed tr s.cmd { s.decoder with todo := ops } :=
      ⟨h.framed.link, fun hm => h.framed.todo (htodo ▸ List.mem_cons_of_mem op hm)⟩
    cases op with
    | store i b | release_motorctrl | release_infrared =>
      refine inv_board h (by simp [acts]) rfl (framed_append hframed _) h.ready ?_
      exact phase_suffix h.phase rfl List.suffix_rfl id
    | set_stop_flag =>
      have hreq : Requested tr := h.framed.todo (htodo ▸ List.mem_cons_self)
      refine inv_board h (by simp [acts]) rfl (framed_append hframed _) h.ready ?_
      cases h.phase with
      | moving hf hs hn =>
        refine .stopped ⟨tr, [], rfl, hreq⟩ rfl ?_ fun ha => absurd ha hn
        exact List.Pairwise.imp_of_mem (fun hb _ _ h0 => absurd (h0 ▸ hb) hs)
          (List.pairwise_of_forall (R := fun _ _ => True) fun _ _ => trivial)
      | stopped hst hf hs ha => exact .stopped (stopped_append hst _) rfl hs ha
      | cleared hc => exact .cleared (cleared_append hc _)

theorem inv_sense {tr : List Act} {s : Gate} (h : Inv tr s) {proximity : Int32}
    (hp : sendData proximity ≠ stop_data) :
    Inv (tr ++ (step s (.sense proximity)).2) (step s (.sense proximity)).1 := by
  have hpending : pending (s.sr04.sense proximity) = pending s.sr04 := by
    cases s.sr04 <;> rfl
  refine inv_board h (by simp [step]) rfl (framed_append h.framed _) ?_ ?_
  · intro d hd
    cases hpc : s.sr04 with
    | read =>
      simp only [step, hpc, Sr04.sense, Sr04.test.injEq] at hd
      rw [← hd]
      exact hp
    | test d' =>
      simp only [step, hpc, Sr04.sense] at hd
      exact h.ready d (hpc.trans hd)
    | write | returned =>
      simp only [step, hpc, Sr04.sense] at hd
      cases hd
  · refine phase_suffix h.phase rfl ?_ id
    unfold stream step
    rw [hpending]

theorem inv_senseFails {tr : List Act} {s : Gate} (h : Inv tr s) :
    Inv (tr ++ (step s .senseFails).2) (step s .senseFails).1 := by
  have hpending : pending s.sr04.senseFails = pending s.sr04 := by
    cases s.sr04 <;> rfl
  refine inv_board h (by simp [step]) rfl (framed_append h.framed _) ?_ ?_
  · intro d hd
    cases hpc : s.sr04 <;> simp only [step, hpc, Sr04.senseFails] at hd
    case test => exact h.ready d (hpc.trans hd)
    all_goals cases hd
  · refine phase_suffix h.phase rfl ?_ id
    unfold stream step
    rw [hpending]

/-- The flag decides which byte follows: a zero byte once it is set, before that a non-zero one. -/
theorem inv_sr04 {tr : List Act} {s : Gate} (h : Inv tr s) :
    Inv (tr ++ (step s .sr04).2) (step s .sr04).1 := by
  unfold step
  dsimp only
  cases hpc : s.sr04 with
  | read | returned | write data =>
    refine inv_board h (by simp) rfl (framed_append h.framed _) (fun d hd => (by cases hd)) ?_
    refine phase_suffix h.phase rfl ?_ id
    simp [stream, hpc, Sr04.step, pending]
  | test send_data =>
    have hd := h.ready send_data hpc
    refine inv_board h (by simp) rfl (framed_append h.framed _) (fun d hd => (by cases hd)) ?_
    have hstream : ∀ b, Gate.stream { s with sr04 := .write b, back := s.back ++ [] } =
        s.stream ++ [b] := by
      intro b
      simp [stream, hpc, pending]
    simp only [Sr04.step, List.append_nil]
    cases h.phase with
    | moving hf hs hn =>
      refine .moving hf ?_ hn
      rw [hf]
      have := hstream send_data
      simp only [List.append_nil] at this
      simp only [Bool.false_eq_true, if_false, this]
      intro hm
      rcases List.mem_append.1 hm with hm | hm
      · exact hs hm
      · exact hd (List.mem_singleton.1 hm).symm
    | stopped hst hf hs ha =>
      have := hstream stop_data
      simp only [List.append_nil] at this
      refine .stopped hst hf ?_ ?_
      · simp only [hf, if_true, this]
        exact List.pairwise_append.2 ⟨hs, List.pairwise_singleton _ _, fun _ _ b hb _ =>
          List.mem_singleton.1 hb⟩
      · intro hacked b hb
        simp only [hf, if_true, this] at hb
        rcases List.mem_append.1 hb with hb | hb
        · exact ha hacked b hb
        · exact List.mem_singleton.1 hb
    | cleared hc => exact .cleared hc

theorem inv_deliver {tr : List Act} {s : Gate} (h : Inv tr s) :
    Inv (tr ++ (step s .deliver).2) (step s .deliver).1 := by
  unfold step
  dsimp only
  cases hback : s.back with
  | nil =>
    rw [List.append_nil]
    exact h
  | cons distance back =>
    dsimp only
    rw [List.append_nil]
    exact ⟨h.framed, h.ready, cameraInv_receive h.camera _,
      phase_silent h.phase rfl (by simp [stream, hback]) id, h.entered⟩

/-- Reading 0x22 with the flag set ends the handshake. -/
theorem inv_infrared {tr : List Act} {s : Gate} (h : Inv tr s) (bytes : List UInt8) :
    Inv (tr ++ (step s (.infrared bytes)).2) (step s (.infrared bytes)).1 := by
  have hsame : ∀ fifo, Inv tr { s with infrared_uart := fifo } := by
    intro fifo
    exact ⟨h.framed, h.ready, h.camera, phase_silent h.phase rfl List.suffix_rfl id, h.entered⟩
  unfold step infraredRxCallback
  dsimp only
  cases (bytes.foldl RxFifo.put s.infrared_uart).intRx with
  | none =>
    dsimp only
    rw [List.append_nil]
    exact hsame _
  | some read =>
    obtain ⟨revc_data, fifo⟩ := read
    dsimp only
    split_ifs with h22
    · refine inv_board h (by simp) rfl (framed_append h.framed _) h.ready ?_
      cases h.phase with
      | moving hf hs hn => exact .moving rfl hs hn
      | stopped hst hf hs ha =>
        subst h22
        exact .cleared ⟨tr, [], rfl, hst⟩
      | cleared hc => exact .cleared (cleared_append hc _)
    · refine inv_board h (by simp) rfl (framed_append h.framed _) h.ready ?_
      exact phase_suffix h.phase rfl List.suffix_rfl id

/-! ### The steps of the camera -/

theorem acked_concat {tr : List Act} {it : Iter} (h : Acked (tr ++ [.pass it])) :
    Acked tr ∨ (it.start.current_state = 5 ∧ 0 ∈ it.reads) := by
  obtain ⟨it', hmem, hread⟩ := h
  rcases List.mem_append.1 hmem with hmem | hmem
  · exact Or.inl ⟨it', hmem, hread⟩
  · obtain rfl := Act.pass.inj (List.mem_singleton.1 hmem)
    exact Or.inr hread

theorem entered6_concat {tr : List Act} {it : Iter} (h : Entered6 (tr ++ [.pass it])) :
    Entered6 tr ∨ it.outcome = .next 6 := by
  obtain ⟨it', hmem, h6⟩ := h
  rcases List.mem_append.1 hmem with hmem | hmem
  · exact Or.inl ⟨it', hmem, h6⟩
  · obtain rfl := Act.pass.inj (List.mem_singleton.1 hmem)
    exact Or.inr h6

/-- After the zero byte only zero bytes are on the way. -/
theorem zeros_of_ack {used rest : List UInt8}
    (h : (used ++ 0 :: rest).Pairwise fun b b' : UInt8 => b = 0 → b' = 0) : ∀ b ∈ rest, b = 0 :=
  fun _ hb => List.rel_of_pairwise_cons (List.pairwise_append.1 h).2.1 hb rfl

/-- A pass that the camera makes in the handshake keeps the relation of flag, stream and state, and
enters state 6 only after the flag has been cleared. -/
theorem phase_camera (cmd : List UInt8) {tr : List Act} {s : Gate} {c' : Camera} {it : Iter}
    (h : Phase tr s) (hstep : Camera.HandshakeStep s.camera c' it) :
    Phase (tr ++ [.pass it]) { s with camera := c', cmd := cmd } ∧
      (it.outcome = .next 6 → Cleared tr) := by
  have hsuffix : ∀ used, s.camera.globals.uart = used ++ c'.globals.uart →
      s.stream = used ++ stream { s with camera := c', cmd := cmd } := by
    intro used hu
    simp [stream, hu]
  cases hstep with
  | early hb hn hn' huart hout _ =>
    obtain ⟨used, hu⟩ := huart
    refine ⟨phase_suffix h rfl ⟨used, (hsuffix used hu.symm).symm⟩ fun ha => absurd ha hn',
      fun h6 => absurd h6 hout⟩
  | ack hb hn hacked used huart hout _ =>
    have hstream := hsuffix (used ++ [0]) (by simp [huart])
    refine ⟨?_, fun h6 => (by rw [hout] at h6; cases h6)⟩
    cases h with
    | moving hf hs _ =>
      refine absurd ?_ hs
      rw [hstream]
      simp
    | stopped hst hf hs _ =>
      rw [hstream] at hs
      refine .stopped (stopped_append hst _) hf (List.pairwise_append.1 hs).2.1 ?_
      intro _
      exact zeros_of_ack (by simpa using hs)
    | cleared hc => exact .cleared (cleared_append hc _)
  | hold hb hacked hacked' huart hout _ _ =>
    obtain ⟨used, hu⟩ := huart
    exact ⟨phase_suffix h rfl ⟨used, (hsuffix used hu.symm).symm⟩ fun _ => hacked,
      fun h6 => (by rw [hout] at h6; cases h6)⟩
  | leave hacked distance rest huart hfar hout _ =>
    -- the byte is not zero, so the stream is not all zeros
    have hc : Cleared tr := by
      have hmem : distance ∈ s.stream := by simp [stream, huart]
      cases h with
      | moving _ _ hn => exact absurd hacked hn
      | stopped _ _ _ ha =>
        rw [ha hacked distance hmem] at hfar
        exact absurd hfar (by decide)
      | cleared hc => exact hc
    exact ⟨.cleared (cleared_append hc _), fun _ => hc⟩

theorem camera_pass {tr : List Act} {c c' : Camera} {it : Iter} (hacked : Acked tr → c.Acked)
    (hstep : Camera.HandshakeStep c c' it) : CameraInv (tr ++ [.pass it]) c' := by
  cases hstep with
  | early hb hn _ _ _ hread =>
    refine Or.inr ⟨hb, ?_⟩
    intro ha
    rcases acked_concat ha with ha | ⟨h5, h0⟩
    · exact absurd (hacked ha) hn
    · exact absurd h0 (hread h5)
  | ack hb _ ha => exact Or.inr ⟨hb, fun _ => ha⟩
  | hold hb _ ha => exact Or.inr ⟨hb, fun _ => ha⟩
  | leave _ _ _ _ _ hout _ => exact Or.inl ⟨it, by simp, hout⟩

theorem cameraInv_camera {tr : List Act} {c : Camera} (h : CameraInv tr c) (img : Snapshot)
    (harr : img.arrivals = []) : CameraInv (tr ++ (c.step img).2.map .pass) (c.step img).1 := by
  rcases h with h6 | ⟨hb, hacked⟩
  · exact Or.inl (entered6_append h6 _)
  · rcases Camera.handshake_step hb img harr with e | ⟨it, e, hstep⟩
    · rw [e]
      exact Or.inr ⟨hb, by simpa using hacked⟩
    · rw [e]
      exact camera_pass hacked hstep

theorem inv_camera {tr : List Act} {s : Gate} (h : Inv tr s) (img : Snapshot) :
    Inv (tr ++ (step s (.camera img)).2) (step s (.camera img)).1 := by
  have hready := h.ready
  have hcamera := cameraInv_camera h.camera { img with arrivals := [] } rfl
  show Inv (tr ++ (s.camera.step { img with arrivals := [] }).2.map .pass) { s with
    camera := (s.camera.step { img with arrivals := [] }).1
    cmd := s.cmd ++ (s.camera.step { img with arrivals := [] }).2.flatMap
      fun it => it.effects.flatMap Effect.bytes }
  generalize himg : ({ img with arrivals := [] } : Snapshot) = img' at hcamera ⊢
  have harr : img'.arrivals = [] := by rw [← himg]
  have hframed : ∀ it : Iter, Framed (tr ++ [.pass it])
      (s.cmd ++ it.effects.flatMap Effect.bytes) s.decoder := fun it =>
    framed_send (framed_append h.framed _) it.effects fun hm => ⟨it, by simp, hm⟩
  rcases h.camera with h6 | ⟨hb, hacked⟩
  · -- state 6 has been entered, so the flag has been cleared
    have hc := h.entered h6
    rcases step_out s.camera img' with ⟨-, e⟩ | ⟨it, -, e, -⟩
    · rw [e]
      simpa using h
    · rw [e] at hcamera
      rw [e, List.flatMap_singleton]
      exact ⟨hframed it, hready, hcamera, .cleared (cleared_append hc _), fun _ => cleared_append hc _⟩
  · rcases Camera.handshake_step hb img' harr with e | ⟨it, e, hstep⟩
    · rw [e]
      simpa using h
    · rw [e] at hcamera
      rw [e, List.flatMap_singleton]
      obtain ⟨hphase, h6⟩ := phase_camera (s.cmd ++ it.effects.flatMap Effect.bytes)
        h.phase hstep
      refine ⟨hframed it, hready, hcamera, hphase, ?_⟩
      intro hent
      rcases entered6_concat hent with hent | hout
      · exact cleared_append (h.entered hent) _
      · exact cleared_append (h6 hout) _

theorem inv_step {tr : List Act} {s : Gate} (h : Inv tr s) {c : Choice} (hc : c.NonZero) :
    Inv (tr ++ (step s c).2) (step s c).1 := by
  cases c with
  | camera img => exact inv_camera h img
  | uart => exact inv_uart h
  | decoder => exact inv_decoder h
  | sense proximity => exact inv_sense h hc
  | senseFails => exact inv_senseFails h
  | sr04 => exact inv_sr04 h
  | deliver => exact inv_deliver h
  | infrared bytes => exact inv_infrared h bytes

theorem cameraInv_init {g : Globals} (hcs : g.current_state ≤ 5) (hd : g.delay_flag = false) :
    CameraInv [] ⟨g, .top⟩ := by
  refine Or.inr ⟨⟨hcs, ?_, ?_, ?_⟩, ?_⟩
  · intro h
    cases hd.symm.trans h
  · intro l r h
    cases h
  · intro h
    exact absurd h (Camera.not_acked_of_delay hd)
  · rintro ⟨it, hmem, -⟩
    cases hmem

theorem inv_init {g : Globals} {back : List UInt8} (hcs : g.current_state ≤ 5)
    (hd : g.delay_flag = false) (hstale : 0 ∉ g.uart ++ back) : Inv [] (init g back) := by
  have hn : ¬ (init g back).camera.Acked := Camera.not_acked_of_delay hd
  refine ⟨⟨⟨Bytes4.zero, [], rfl, ?_⟩, ?_⟩, ?_, cameraInv_init hcs hd, .moving rfl ?_ hn, ?_⟩
  · intro hm
    cases hm
  · intro hm
    cases hm
  · intro d hpc
    cases hpc
  · simpa [stream, init, pending] using hstale
  · rintro ⟨it, hmem, -⟩
    cases hmem

/-- This does not depend on what the sensor reads. -/
theorem cameraInv_step {tr : List Act} {s : Gate} (h : CameraInv tr s.camera) (c : Choice) :
    CameraInv (tr ++ (step s c).2) (step s c).1.camera := by
  have hboard : ∀ {out : List Act} {c : Camera}, c = s.camera → (∀ it, Act.pass it ∉ out) →
      CameraInv (tr ++ out) c := by
    rintro out c rfl hout
    exact cameraInv_board h hout
  cases c with
  | camera img => exact cameraInv_camera h { img with arrivals := [] } rfl
  | uart =>
    unfold step
    dsimp only
    split
    · exact hboard rfl (by simp)
    · split_ifs <;> exact hboard rfl (by simp)
  | decoder =>
    unfold step
    dsimp only
    split
    · exact hboard rfl (by simp)
    · rename_i op ops _
      cases op <;> exact hboard rfl (by simp [acts])
  | sense | senseFails | sr04 => exact hboard rfl (by simp [step])
  | deliver =>
    unfold step
    dsimp only
    split
    · exact hboard rfl (by simp)
    · rw [List.append_nil]
      exact cameraInv_receive h _
  | infrared bytes =>
    unfold step infraredRxCallback
    dsimp only
    split
    · exact hboard rfl (by simp)
    · split_ifs <;> exact hboard rfl (by simp)

/-! ## The handshake -/

/-- What holds of a pass, given the trace before it. -/
structure Safe (tr : List Act) (it : Iter) : Prop where
  enters : it.outcome = .next 6 → Cleared tr
  stands : ¬ Entered6 tr → it.outcome ≠ .next 6 →
    (Acked tr → ∀ s ∈ it.speeds, s = (0, 0)) ∧
      (it.start.current_state = 5 → 0 ∈ it.reads →
        ∀ s ∈ it.command.filterMap Effect.speed, s = (0, 0))

theorem safe_pass {tr : List Act} {s : Gate} (h : Inv tr s) {img : Snapshot} {it : Iter}
    (hout : (s.camera.step { img with arrivals := [] }).2 = [it]) : Safe tr it := by
  rcases h.camera with h6 | ⟨hb, hacked⟩
  · exact ⟨fun _ => h.entered h6, fun hn => absurd h6 hn⟩
  · rcases Camera.handshake_step hb { img with arrivals := [] } rfl with e | ⟨it', e, hstep⟩
    · rw [e] at hout
      cases hout
    · rw [e] at hout
      obtain ⟨rfl, -⟩ := List.cons.inj hout
      refine ⟨(phase_camera s.cmd h.phase hstep).2, ?_⟩
      intro _ hne
      have hzero : ∀ sp ∈ [Effect.send_sp 0 0].filterMap Effect.speed, sp = (0, 0) := by
        intro sp hsp
        simpa [Effect.speed] using hsp
      cases hstep with
      | early _ hn _ _ _ hread =>
        exact ⟨fun ha => absurd (hacked ha) hn, fun h5 h0 => absurd h0 (hread h5)⟩
      | ack _ hn _ _ _ _ hcmd =>
        rw [hcmd]
        exact ⟨fun ha => absurd (hacked ha) hn, fun _ _ => hzero⟩
      | hold _ _ _ _ _ hspeeds hcmd =>
        rw [hspeeds, hcmd]
        exact ⟨fun _ sp hsp => List.mem_singleton.1 hsp, fun _ _ => hzero⟩
      | leave _ _ _ _ _ hout _ => exact absurd hout hne

theorem step_camera (s : Gate) (img : Snapshot) :
    (step s (.camera img)).2 = (s.camera.step { img with arrivals := [] }).2.map .pass := rfl

/-- Only a step of the camera makes a pass, and it makes one. -/
theorem pass_emitted {s : Gate} {c : Choice} {u v : List Act} {it : Iter}
    (hout : (step s c).2 = u ++ .pass it :: v) :
    ∃ img, c = .camera img ∧ u = [] ∧ (s.camera.step { img with arrivals := [] }).2 = [it] := by
  have hmem : Act.pass it ∈ (step s c).2 := by
    rw [hout]
    simp
  cases c with
  | camera img =>
    rw [step_camera] at hout
    rcases step_out s.camera { img with arrivals := [] } with ⟨-, e⟩ | ⟨it', -, e, -⟩
    · rw [e] at hout
      simp at hout
    · rw [e] at hout
      rcases List.append_eq_singleton_iff.1 hout.symm with ⟨rfl, e'⟩ | ⟨-, e'⟩
      · obtain ⟨hpass, -⟩ := List.cons.inj e'
        obtain rfl := Act.pass.inj hpass
        exact ⟨img, rfl, rfl, e⟩
      · cases e'
  | uart =>
    unfold step at hmem
    dsimp only at hmem
    split at hmem
    · simp at hmem
    · split_ifs at hmem <;> simp at hmem
  | decoder =>
    unfold step at hmem
    dsimp only at hmem
    split at hmem
    · simp at hmem
    · rename_i op ops _
      cases op <;> simp [acts] at hmem
  | sense | senseFails | sr04 => simp [step] at hmem
  | deliver =>
    unfold step at hmem
    dsimp only at hmem
    split at hmem <;> simp at hmem
  | infrared bytes =>
    unfold step infraredRxCallback at hmem
    dsimp only at hmem
    split at hmem
    · simp at hmem
    · split_ifs at hmem <;> simp at hmem

/-- **Gate handshake.** In every interleaving in which no reading gives a zero byte, from any state up to 5
with no gate request sent and no zero byte on the way: the course enters state 6 only if after the request
the decoder has set `stop_flag` and after that `infrared_rx_callback` has read 0x22; and from the read of the
zero byte to the entry of state 6 all speed commands are (0, 0). -/
theorem gate_handshake (g : Globals) (back : List UInt8) (hcs : g.current_state ≤ 5)
    (hd : g.delay_flag = false) (hstale : 0 ∉ g.uart ++ back) {cs : List Choice}
    (hreadings : ∀ c ∈ cs, c.NonZero) {pre post : List Act} {it : Iter}
    (h : (run step (init g back) cs).2 = pre ++ .pass it :: post) :
    (it.outcome = .next 6 → Cleared pre) ∧
      (¬ Entered6 pre → it.outcome ≠ .next 6 →
        (Acked pre → ∀ s ∈ it.speeds, s = (0, 0)) ∧
          (it.start.current_state = 5 → 0 ∈ it.reads →
            ∀ s ∈ it.command.filterMap Effect.speed, s = (0, 0))) := by
  have hsafe : ∀ it', Act.pass it = .pass it' → Safe pre it' := by
    refine run_emitted_along step (I := Inv) (P := fun tr a => ∀ it', a = Act.pass it' → Safe tr it')
      (inv_init hcs hd hstale) (fun _ _ _ hc hI => inv_step hI hc) ?_ (along_of_forall step hreadings _) h
    rintro tr s c u a v hI hout it' rfl
    obtain ⟨img, -, rfl, hpass⟩ := pass_emitted hout
    rw [List.append_nil]
    exact safe_pass hI hpass
  obtain ⟨henters, hstands⟩ := hsafe it rfl
  exact ⟨henters, hstands⟩

/-- A reading of one metre. -/
def metre : Int32 := 1000

/-- The request is sent and handled, the zero byte comes back and is read, the infrared answer clears
the flag, and the next distance byte arrives. -/
def openGate : List Choice :=
  .camera .blank :: List.replicate 6 .uart ++ List.replicate 5 .decoder ++ List.replicate 2 .uart ++
    List.replicate 2 .decoder ++ [.sense metre, .sr04, .sr04, .deliver, .camera .blank,
      .infrared [0x22], .sense metre, .sr04, .sr04, .deliver]

theorem gate_handshake_open :
    ∃ pre it, (run step (init (Globals.init 5) []) (openGate ++ [.camera .blank])).2 =
        pre ++ .pass it :: [] ∧ it.outcome = .next 6 ∧ Cleared pre := by
  have hout : ((run step (init (Globals.init 5) []) openGate).1.camera.step
      { Snapshot.blank with arrivals := [] }).2.map Iter.outcome = [.next 6] := by decide +kernel
  obtain ⟨it, e, h6⟩ := List.map_eq_singleton_iff.1 hout
  have hrun : (run step (init (Globals.init 5) []) (openGate ++ [.camera .blank])).2 =
      (run step (init (Globals.init 5) []) openGate).2 ++ .pass it :: [] := by
    rw [run_snoc, step_camera, e]
    rfl
  have hcs : (Globals.init 5).current_state ≤ 5 := by decide
  have hd : (Globals.init 5).delay_flag = false := rfl
  have hstale : 0 ∉ (Globals.init 5).uart ++ [] := by decide
  have hreadings : ∀ c ∈ openGate ++ [.camera .blank], c.NonZero := by decide +kernel
  generalize run step (init (Globals.init 5) []) openGate = r at hrun
  exact ⟨r.2, it, hrun, h6, (gate_handshake (Globals.init 5) [] hcs hd hstale hreadings hrun).1 h6⟩

end Gate

end Tdps
