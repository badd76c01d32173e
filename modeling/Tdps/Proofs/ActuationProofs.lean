import Tdps.Proofs.CrossingProofs
import Tdps.Proofs.MotorLinkProofs

/-!
# Proofs: from the camera to the wheels

The camera puts whole frames on the command link, the decoder thread hands them over one by one, and the
motor thread catches up with the last one. So when nothing is on its way, the wheels turn as the last
`send_sp` of the camera says (`actuation`), and at the gate they stand (`stands_at_gate`).
-/

namespace Tdps

open Machine

namespace MotorLink

/-- The two threads do not look at the flag and at the other semaphore. -/
theorem inv_shared {A : Arith} {tr : List Act} {s : MotorLink} (h : Inv A tr s) {m : Shared}
    (hsp : m.sp_data = s.shared.sp_data) (hsem : m.sem_motorctrl = s.shared.sem_motorctrl) :
    Inv A tr { s with shared := m } := by
  obtain ⟨⟨hdec, hhand⟩, hsemOk, hfresh⟩ := h
  refine ⟨⟨hdec, ?_⟩, ?_, ?_⟩
  · show Handover (payloads tr) m.sp_data s.decoder.todo
    rw [hsp]
    exact hhand
  · unfold SemOk
    dsimp only
    rw [hsem]
    exact hsemOk
  · intro hnc
    have hf := hfresh hnc
    unfold Fresh at hf ⊢
    dsimp only
    rw [hsem, hsp]
    exact hf

end MotorLink

namespace Rover

/-! ## What the camera has sent -/

/-- The passes of the main loop. -/
def Act.pass? : Act → Option Iter
  | .car (.pass it) => some it
  | _ => none

/-- The passes of a trace. -/
def passes (tr : List Act) : List Iter := tr.filterMap Act.pass?

/-- The bytes that the camera has put on the command link. -/
def sent (tr : List Act) : List UInt8 := (passes tr).flatMap fun it => it.effects.flatMap Effect.bytes

/-- The speed commands of the camera. -/
def speeds (tr : List Act) : List (ℚ × ℚ) := (passes tr).flatMap Iter.speeds

/-- The payload of the frame of a speed command. -/
def payload (sp : ℚ × ℚ) : Bytes4 :=
  ⟨writechar (speedInt sp.1), writechar (speedDec sp.1), writechar (speedInt sp.2), writechar (speedDec sp.2)⟩

/-- The pulses of the last of these speed commands. -/
def lastCommand (A : Arith) (sps : List (ℚ × ℚ)) : Pulses :=
  match sps.getLast? with
  | none => ⟨0, 0⟩
  | some sp => motorCtrl A (payload sp)

theorem passes_append (tr out : List Act) : passes (tr ++ out) = passes tr ++ passes out :=
  List.filterMap_append

theorem sent_append (tr out : List Act) : sent (tr ++ out) = sent tr ++ sent out := by
  unfold sent
  rw [passes_append, List.flatMap_append]

theorem speeds_append (tr out : List Act) : speeds (tr ++ out) = speeds tr ++ speeds out := by
  unfold speeds
  rw [passes_append, List.flatMap_append]

theorem passes_camera (its : List Iter) : passes ((its.map Gate.Act.pass).map Act.car) = its := by
  induction its with
  | nil => rfl
  | cons it its ih => exact congrArg (it :: ·) ih

theorem passes_eq_nil {out : List Act} (h : ∀ it, Act.car (.pass it) ∉ out) : passes out = [] := by
  refine List.filterMap_eq_nil_iff.2 ?_
  intro a ha
  unfold Act.pass?
  split
  · exact absurd ha (h _)
  · rfl

theorem mem_passes (tr : List Act) (it : Iter) :
    it ∈ passes tr ↔ Gate.Act.pass it ∈ tr.filterMap Act.car? := by
  have hact : ∀ a : Act, a.pass? = some it ↔ a.car? = some (.pass it) := by
    intro a
    cases a with
    | car a => cases a <;> simp [Act.pass?, Act.car?]
    | motor | code | gate => simp [Act.pass?, Act.car?]
  unfold passes
  simp only [List.mem_filterMap, hact]

/-- Only the camera makes passes. -/
theorem passes_step (A : Arith) {s : Rover} {c : Choice} (hc : ∀ img, c ≠ .car (.camera img)) :
    passes (step A s c).2 = [] := by
  refine passes_eq_nil fun it hm => ?_
  obtain ⟨u, v, e⟩ := List.append_of_mem hm
  obtain ⟨img, hcam, -⟩ := pass_emitted A e
  exact hc img hcam

theorem frame_payload (e : Effect) :
    ((Gate.frame e).map Frame.event).bind Event.payload = e.speed.map payload := by
  cases e <;> rfl

/-- The camera sends whole frames. -/
theorem bytes_frames (its : List Iter) :
    (its.flatMap fun it => it.effects.flatMap Effect.bytes) =
      ((its.flatMap Iter.effects).filterMap Gate.frame).flatMap Frame.bytes := by
  rw [← Gate.bytes_eq_frames, List.flatMap_assoc]

/-- The frames that the decoder finds in what the camera has sent. -/
theorem payloads_sent (its : List Iter) :
    (Decoder.decode (Decoder.start Bytes4.zero)
        (its.flatMap fun it => it.effects.flatMap Effect.bytes)).2.filterMap Event.payload =
      (its.flatMap Iter.speeds).map payload := by
  have hspeeds : its.flatMap Iter.speeds = (its.flatMap Iter.effects).filterMap Effect.speed := by
    rw [List.filterMap_flatMap]
    rfl
  obtain ⟨Rx, e⟩ := Decoder.decode_frames Bytes4.zero ((its.flatMap Iter.effects).filterMap Gate.frame)
  rw [bytes_frames, e, hspeeds, List.map_filterMap, List.map_filterMap, List.filterMap_filterMap]
  exact List.filterMap_congr fun e _ => frame_payload e

/-! ## The invariant -/

/-- The two threads are where they can be after some trace in which they have received what the camera has
sent and what is no longer on the link. -/
def Driven (A : Arith) (tr : List Act) (s : Rover) : Prop :=
  ∃ tr', MotorLink.Inv A tr' s.link ∧ MotorLink.received tr' ++ s.car.cmd = sent tr

/-- The link and the two threads as they were, up to the flag and the other semaphore. -/
theorem driven_keep {A : Arith} {tr out : List Act} {s s' : Rover} (h : Driven A tr s) {m : Shared}
    (hlink : s'.link = { s.link with shared := m }) (hsp : m.sp_data = s.car.shared.sp_data)
    (hsem : m.sem_motorctrl = s.car.shared.sem_motorctrl) (hcmd : s'.car.cmd = s.car.cmd)
    (hout : passes out = []) : Driven A (tr ++ out) s' := by
  obtain ⟨tr', hinv, hrec⟩ := h
  refine ⟨tr', ?_, ?_⟩
  · rw [hlink]
    exact MotorLink.inv_shared hinv hsp hsem
  · rw [hcmd, sent_append, hrec]
    simp [sent, hout]

/-- A step of the two threads that reads nothing. -/
theorem driven_thread {A : Arith} {tr out : List Act} {s s' : Rover} (h : Driven A tr s)
    {c : MotorLink.Choice} (hlink : s'.link = (s.link.step A c).1)
    (hread : MotorLink.received (s.link.step A c).2 = []) (hcmd : s'.car.cmd = s.car.cmd)
    (hout : passes out = []) : Driven A (tr ++ out) s' := by
  obtain ⟨tr', hinv, hrec⟩ := h
  refine ⟨tr' ++ (s.link.step A c).2, ?_, ?_⟩
  · rw [hlink]
    exact MotorLink.inv_step A hinv c
  · rw [MotorLink.received_append, hread, List.append_nil, hcmd, sent_append, hrec]
    simp [sent, hout]

/-- The steps of the camera and the board. -/
theorem driven_car {A : Arith} {tr : List Act} {s s' : Rover} (h : Driven A tr s) (c : Gate.Choice)
    (hcar : s'.car = (s.car.step c).1) (hmotor : s'.motor = s.motor)
    (hprog : s'.programmed = s.programmed) : Driven A (tr ++ (s.car.step c).2.map .car) s' := by
  have hlink : s'.link = ⟨(s.car.step c).1.decoder, (s.car.step c).1.shared, s.motor, s.programmed⟩ := by
    unfold link
    rw [hcar, hmotor, hprog]
  cases c with
  | camera img =>
    obtain ⟨tr', hinv, hrec⟩ := h
    refine ⟨tr', hlink ▸ hinv, ?_⟩
    have hsent : sent ((s.car.step (.camera img)).2.map .car) =
        (s.car.camera.step { img with arrivals := [] }).2.flatMap
          fun it => it.effects.flatMap Effect.bytes := by
      unfold sent
      exact congrArg _ (passes_camera _)
    rw [hcar, sent_append, hsent, ← hrec, List.append_assoc]
    rfl
  | uart =>
    have hout : passes ((s.car.step .uart).2.map .car) = [] := passes_step A (c := .car .uart) (by simp)
    cases hcmd : s.car.cmd with
    | nil =>
      have e : s.car.step .uart = (s.car, []) := by simp [Gate.step, hcmd]
      rw [e] at hlink hcar ⊢
      exact driven_keep h (m := s.car.shared) hlink rfl rfl (congrArg Gate.cmd hcar) rfl
    | cons b cmd =>
      by_cases htodo : s.car.decoder.todo = []
      · obtain ⟨tr', hinv, hrec⟩ := h
        have e : s'.link = (s.link.step A (.uart b)).1 := by
          rw [hlink]
          simp [Gate.step, hcmd, htodo, link, MotorLink.step]
        have e1 : (s.link.step A (.uart b)).2 = [.recv b] := by simp [MotorLink.step, link, htodo]
        have e2 : s'.car.cmd = cmd := by simp [hcar, Gate.step, hcmd, htodo]
        refine ⟨tr' ++ (s.link.step A (.uart b)).2, e ▸ MotorLink.inv_step A hinv _, ?_⟩
        rw [hcmd] at hrec
        rw [e1, e2, MotorLink.received_append, sent_append, ← hrec]
        simp [sent, hout, MotorLink.received]
      · have e : s.car.step .uart = (s.car, []) := by simp [Gate.step, hcmd, htodo]
        rw [e] at hlink hcar ⊢
        exact driven_keep h (m := s.car.shared) hlink rfl rfl (congrArg Gate.cmd hcar) rfl
  | decoder =>
    have hout : passes ((s.car.step .decoder).2.map .car) = [] :=
      passes_step A (c := .car .decoder) (by simp)
    have hthread : s'.link = (s.link.step A .decoder).1 ∧ MotorLink.received (s.link.step A .decoder).2 = [] ∧
        s'.car.cmd = s.car.cmd := by
      rw [hlink, hcar]
      cases htodo : s.car.decoder.todo with
      | nil => simp [Gate.step, htodo, link, MotorLink.step, MotorLink.received]
      | cons op ops => simp [Gate.step, htodo, link, MotorLink.step, MotorLink.received]
    exact driven_thread h hthread.1 hthread.2.1 hthread.2.2 hout
  | sense | senseFails | sr04 =>
    exact driven_keep h (m := s.car.shared) hlink rfl rfl (hcar ▸ rfl) rfl
  | deliver =>
    have hsame : (s.car.step .deliver).1.decoder = s.car.decoder ∧
        (s.car.step .deliver).1.shared = s.car.shared ∧ (s.car.step .deliver).1.cmd = s.car.cmd ∧
        (s.car.step .deliver).2 = [] := by
      cases hback : s.car.back <;> simp [Gate.step, hback]
    obtain ⟨h1, h2, h3, h4⟩ := hsame
    rw [h4]
    exact driven_keep h (m := s.car.shared) (by rw [hlink, h1, h2]; rfl) rfl rfl (by rw [hcar, h3]) rfl
  | infrared bytes =>
    have hsame : ∃ flag, (s.car.step (.infrared bytes)).1.shared = { s.car.shared with stop_flag := flag } ∧
        (s.car.step (.infrared bytes)).1.decoder = s.car.decoder ∧
        (s.car.step (.infrared bytes)).1.cmd = s.car.cmd ∧
        passes ((s.car.step (.infrared bytes)).2.map .car) = [] := by
      unfold Gate.step Gate.infraredRxCallback
      dsimp only
      split
      · exact ⟨_, rfl, rfl, rfl, rfl⟩
      · split_ifs <;> exact ⟨_, rfl, rfl, rfl, rfl⟩
    obtain ⟨flag, h1, h2, h3, h4⟩ := hsame
    exact driven_keep h (m := { s.car.shared with stop_flag := flag }) (by rw [hlink, h1, h2]; rfl) rfl rfl
      (by rw [hcar, h3]) h4

theorem driven_step (A : Arith) {tr : List Act} {s : Rover} (h : Driven A tr s) (c : Choice) :
    Driven A (tr ++ (step A s c).2) (step A s c).1 := by
  rcases step_cases A s c with ⟨c', hcar, hout, hmotor, hprog, -⟩ | rfl | ⟨sem, hcar, hout, hmotor, hprog⟩
  · rw [hout]
    exact driven_car h c' hcar hmotor hprog
  · have hdecoder := MotorLink.stepMotor_decoder A s.link
    refine driven_thread h (c := .motor) ?_ (MotorLink.stepMotor_received A s.link) rfl
      (passes_step A (by simp))
    show (⟨s.car.decoder, _, _, _⟩ : MotorLink) = (s.link.stepMotor A).1
    rw [show s.car.decoder = (s.link.stepMotor A).1.decoder from hdecoder.symm]
    rfl
  · refine driven_keep h (m := { s.car.shared with sem_infrared := sem }) ?_ rfl rfl ?_ ?_
    · unfold link
      rw [hcar, hmotor, hprog]
    · rw [hcar]
    · refine passes_eq_nil fun it hm => ?_
      cases hout _ hm

theorem driven_init (A : Arith) (g : Globals) (back : List UInt8) : Driven A [] (init g back) :=
  ⟨[], MotorLink.inv_init A, rfl⟩

theorem driven_run (A : Arith) (g : Globals) (back : List UInt8) (cs : List Choice) :
    Driven A (run (step A) (init g back) cs).2 (run (step A) (init g back) cs).1 :=
  run_history (step A) (driven_init A g back) (fun _ _ c h => driven_step A h c) cs

/-! ## The wheels -/

/-- Nothing is on its way from the camera to the wheels. -/
structure Drained (s : Rover) : Prop where
  cmd : s.car.cmd = []
  todo : s.car.decoder.todo = []
  blocked : s.link.MotorBlocked

theorem lastCommand_eq (A : Arith) (sps : List (ℚ × ℚ)) :
    lastCommand A sps = MotorLink.lastPulses A (sps.map payload) := by
  unfold lastCommand MotorLink.lastPulses
  rw [List.getLast?_map]
  cases sps.getLast? <;> rfl

/-- The motor thread that waits has programmed the bytes of `sp_data`. -/
theorem programmed_of_blocked {A : Arith} {tr : List MotorLink.Act} {s : MotorLink}
    (h : MotorLink.Inv A tr s) (hb : s.MotorBlocked) (hnc : ¬ s.Copying) (ch : Fin 4) :
    s.programmed ch = (motorCtrl A s.shared.sp_data).arg ch := by
  obtain ⟨hpc, hsus⟩ := hb
  rcases h.fresh hnc with hvalue | hfresh
  · have hzero := (h.sem hsus).2
    omega
  · rw [hpc] at hfresh
    rcases hfresh with hrun | hprog
    · cases hsus.symm.trans hrun
    · exact hprog ch

theorem actuation_of_driven {A : Arith} {tr : List Act} {s : Rover} (h : Driven A tr s) (hd : s.Drained)
    (ch : Fin 4) : s.programmed ch = (lastCommand A (speeds tr)).arg ch := by
  obtain ⟨tr', hinv, hrec⟩ := h
  have htodo : s.link.decoder.todo = [] := hd.todo
  have hnc : ¬ s.link.Copying := by simp [MotorLink.Copying, htodo]
  have hpend : ¬ s.link.CopyPending := by simp [MotorLink.CopyPending, htodo]
  have hsent : MotorLink.received tr' = sent tr := by rw [← hrec, hd.cmd, List.append_nil]
  have hpayloads : MotorLink.payloads tr' = (speeds tr).map payload := by
    unfold MotorLink.payloads
    rw [hsent]
    exact payloads_sent (passes tr)
  have hsp := MotorLink.sp_data_eq hinv.fed hnc
  rw [MotorLink.handedOver, if_neg hpend, hpayloads] at hsp
  rw [lastCommand_eq, MotorLink.lastPulses_eq, ← hsp]
  exact programmed_of_blocked hinv hd.blocked hnc ch

/-- **From the camera to the wheels.** In every interleaving of all parties: when nothing is on its way
from the camera to the wheels, each PWM channel is programmed as the last speed command of the camera says,
or with 0 if there was none. -/
theorem actuation (A : Arith) (g : Globals) (back : List UInt8) (cs : List Choice)
    (h : (run (step A) (init g back) cs).1.Drained) (ch : Fin 4) :
    (run (step A) (init g back) cs).1.programmed ch =
      (lastCommand A (speeds (run (step A) (init g back) cs).2)).arg ch :=
  actuation_of_driven (driven_run A g back cs) h ch

/-- A round of the motor thread after a frame, up to where it blocks again. -/
def motorRound : List Choice := List.replicate 10 .motor

/-- A frame is read and handed over. -/
def decoderRound : List Choice := List.replicate 6 (.car .uart) ++ List.replicate 5 (.car .decoder)

/-- At the traffic light: red, and then green while the motor thread loads the command to stop. -/
def redThenGreen : List Choice :=
  List.replicate 5 .motor ++ .car (.camera { Snapshot.blank with red_circle := true }) :: decoderRound ++
    List.replicate 3 .motor ++ .car (.camera { Snapshot.blank with green_circle := true }) ::
      decoderRound ++ List.replicate 16 .motor

theorem actuation_red_then_green :
    (run (step Arith.exact) (init (Globals.init 2) []) redThenGreen).1.programmed 1 = 350000 := by
  have hd : (run (step Arith.exact) (init (Globals.init 2) []) redThenGreen).1.Drained :=
    ⟨by decide +kernel, by decide +kernel, by decide +kernel⟩
  rw [actuation Arith.exact (Globals.init 2) [] redThenGreen hd 1]
  decide +kernel

/-! ## At the gate -/

/-- From the acknowledgement to the entry of state 6 the last command is (0, 0). -/
def Stands (tr : List Act) : Prop :=
  Gate.Acked (tr.filterMap Act.car?) → ¬ Gate.Entered6 (tr.filterMap Act.car?) →
    (speeds tr).getLast? = some (0, 0)

theorem car?_append (tr out : List Act) :
    (tr ++ out).filterMap Act.car? = tr.filterMap Act.car? ++ out.filterMap Act.car? :=
  List.filterMap_append

/-- The last command of the pass that reads the zero byte, and of the passes after it. -/
theorem stands_pass {tr : List Act} {c c' : Camera} {it : Iter}
    (hacked : Gate.Acked (tr.filterMap Act.car?) → c.Acked) (hstep : Camera.HandshakeStep c c' it) :
    Stands (tr ++ [.car (.pass it)]) := by
  have hlast : it.speeds.getLast? = some (0, 0) →
      (speeds (tr ++ [.car (.pass it)])).getLast? = some (0, 0) := by
    intro hit
    have hspeeds : speeds (tr ++ [.car (.pass it)]) = speeds tr ++ it.speeds := by
      rw [speeds_append]
      simp [speeds, passes, Act.pass?]
    rw [hspeeds, List.getLast?_append, hit]
    rfl
  intro ha h6
  rw [car?_append] at ha h6
  cases hstep with
  | early hb hn _ _ _ hread =>
    rcases Gate.acked_concat ha with ha | ⟨h5, h0⟩
    · exact absurd (hacked ha) hn
    · exact absurd h0 (hread h5)
  | ack _ _ _ _ _ _ hcmd =>
    apply hlast
    unfold Iter.speeds Iter.effects
    rw [hcmd, List.filterMap_append, List.getLast?_append]
    rfl
  | hold _ _ _ _ _ hspeeds _ =>
    apply hlast
    rw [hspeeds]
    rfl
  | leave _ _ _ _ _ hout _ => exact absurd ⟨it, by simp [Act.car?], hout⟩ h6

theorem stands_step (A : Arith) {tr : List Act} {s : Rover}
    (hI : Gate.CameraInv (tr.filterMap Act.car?) s.car.camera) (h : Stands tr) (c : Choice) :
    Stands (tr ++ (step A s c).2) := by
  by_cases hc : ∃ img, c = .car (.camera img)
  · obtain ⟨img, rfl⟩ := hc
    have hout : (step A s (.car (.camera img))).2 =
        ((s.car.camera.step { img with arrivals := [] }).2.map Gate.Act.pass).map Act.car := rfl
    rcases hI with h6 | ⟨hb, hacked⟩
    · intro _ hn
      rw [car?_append] at hn
      exact absurd (Gate.entered6_append h6 _) hn
    · rcases Camera.handshake_step hb { img with arrivals := [] } rfl with e | ⟨it, e, hstep⟩
      · rw [hout, e]
        simpa using h
      · rw [hout, e]
        exact stands_pass hacked hstep
  · have hc' : ∀ img, c ≠ .car (.camera img) := fun img e => hc ⟨img, e⟩
    have hnone : ∀ it, Gate.Act.pass it ∉ (step A s c).2.filterMap Act.car? := by
      intro it hm
      obtain ⟨u, v, e⟩ := List.append_of_mem (mem_car? hm)
      obtain ⟨img, e, -⟩ := pass_emitted A e
      exact hc' img e
    intro ha h6
    rw [car?_append] at ha h6
    rw [speeds_append, speeds, speeds, passes_step A hc', List.flatMap_nil, List.append_nil]
    exact h (Gate.acked_of_append hnone ha) fun hn => h6 (Gate.entered6_append hn _)

/-- **Standing at the gate.** In every interleaving, whatever the sensor reads: from the read of the zero
byte to the entry of state 6, whenever nothing is on its way from the camera to the wheels, both wheels
stand. -/
theorem stands_at_gate (A : Arith) (g : Globals) (back : List UInt8) (hcs : g.current_state ≤ 5)
    (hd : g.delay_flag = false) (cs : List Choice)
    (hacked : Gate.Acked ((run (step A) (init g back) cs).2.filterMap Act.car?))
    (h6 : ¬ Gate.Entered6 ((run (step A) (init g back) cs).2.filterMap Act.car?))
    (hdrained : (run (step A) (init g back) cs).1.Drained) (ch : Fin 4) :
    (run (step A) (init g back) cs).1.programmed ch = 0 := by
  obtain ⟨-, hstands⟩ := run_history (step A) (s := init g back)
    (I := fun tr s => Gate.CameraInv (tr.filterMap Act.car?) s.car.camera ∧ Stands tr)
    ⟨Gate.cameraInv_init hcs hd, fun ha => absurd ha (by rintro ⟨it, hm, -⟩; cases hm)⟩
    (fun _ _ c hI => ⟨cameraInv_step A hI.1 c, stands_step A hI.1 hI.2 c⟩) cs
  have hlast := hstands hacked h6
  rw [actuation_of_driven (driven_run A g back cs) hdrained, lastCommand, hlast]
  have hpayload : payload (0, 0) = Bytes4.zero := by decide +kernel
  dsimp only
  rw [hpayload, MotorLink.motorCtrl_zero]
  unfold Pulses.arg
  split <;> rfl

/-- The rover has read the acknowledgement and its last command has been handled. -/
def atGate : List Choice :=
  List.replicate 5 .motor ++ acknowledge.map .car ++ motorRound ++ decoderRound ++ motorRound

theorem acked_atGate :
    Gate.Acked ((run (step Arith.exact) (init (Globals.init 5) []) atGate).2.filterMap Act.car?) ∧
      ¬ Gate.Entered6 ((run (step Arith.exact) (init (Globals.init 5) []) atGate).2.filterMap Act.car?) := by
  have hacked : ∃ it ∈ passes (run (step Arith.exact) (init (Globals.init 5) []) atGate).2,
      it.start.current_state = 5 ∧ 0 ∈ it.reads := by decide +kernel
  have h6 : ∀ it ∈ passes (run (step Arith.exact) (init (Globals.init 5) []) atGate).2,
      it.outcome ≠ .next 6 := by decide +kernel
  have hmem : ∀ it, it ∈ passes (run (step Arith.exact) (init (Globals.init 5) []) atGate).2 ↔
      Gate.Act.pass it ∈ (run (step Arith.exact) (init (Globals.init 5) []) atGate).2.filterMap Act.car? :=
    mem_passes _
  refine ⟨?_, ?_⟩
  · obtain ⟨it, hit, h5⟩ := hacked
    exact ⟨it, (hmem it).1 hit, h5⟩
  · rintro ⟨it, hit, hout⟩
    exact h6 it ((hmem it).2 hit) hout

theorem stands_at_gate_acknowledged :
    (run (step Arith.exact) (init (Globals.init 5) []) atGate).1.programmed 1 = 0 :=
  stands_at_gate Arith.exact (Globals.init 5) [] (by decide) rfl atGate acked_atGate.1
    acked_atGate.2 ⟨by decide +kernel, by decide +kernel, by decide +kernel⟩ 1

end Rover

end Tdps
