import Tdps.Proofs.MotorLinkProofs

/-!
# Proofs: torn reads of `sp_data`

Nothing keeps the decoder from storing to `sp_data` while the motor thread loads from it, so the motor
thread can program the pulses of two different frames (`mixed_command`). Under mutual exclusion of the
two access sequences every pair of pulses belongs to one received frame (`no_mixed_command`).
-/

namespace Tdps

open Machine

namespace MotorLink

/-- The frames whose release has been executed. -/
def released (tr : List Act) (s : MotorLink) : List Bytes4 :=
  if Op.release_motorctrl ∈ s.decoder.todo then (payloads tr).dropLast else payloads tr

/-- The motor thread has taken the semaphore and is loading, or a release is pending. -/
def Armed (s : MotorLink) : Prop :=
  0 < s.shared.sem_motorctrl.value ∨
  (s.motor.pc = .suspended ∧ s.shared.sem_motorctrl.suspended = false) ∨
  ∃ i, s.motor.pc = .load i

/-- The invariant of a run under mutual exclusion. -/
structure Untorn (A : Arith) (tr : List Act) (s : MotorLink) : Prop where
  fed : Fed tr s
  rel : s.Armed → released tr s ≠ []
  load : ∀ i, s.motor.pc = .load i →
    Bytes4.AgreeBelow i s.motor.loaded s.shared.sp_data ∧ (0 < i → ¬ s.Storing)
  pulses : Act.taken ∈ tr →
    (∃ i, s.motor.pc = .load i) ∨ ∃ q ∈ payloads tr, s.motor.pulses = motorCtrl A q

theorem untorn_init (A : Arith) : Untorn A [] init := by
  refine ⟨fed_init, ?_, ?_, ?_⟩
  · rintro (h | h | ⟨i, h⟩) <;> simp [init, Shared.init, Sem.create, MotorThread.init] at h
  · intro i h
    simp [init, MotorThread.init] at h
  · simp

theorem lastOf_mem {F : List Bytes4} (h : F ≠ []) : lastOf F ∈ F := by
  obtain ⟨F', q, rfl⟩ := (List.eq_nil_or_concat F).resolve_left h
  simp

/-- Between copies `sp_data` is a received frame once a frame has been released. -/
theorem sp_data_mem {tr : List Act} {s : MotorLink} (h : Fed tr s) (hns : ¬ s.Storing)
    (hrel : released tr s ≠ []) : s.shared.sp_data ∈ payloads tr := by
  have hhand := h.hand
  unfold released at hrel
  unfold Storing Copying CopyPending at hns
  generalize s.decoder.todo = todo at hhand hrel hns
  cases hhand with
  | quiet hops hsp =>
    rw [if_neg (not_motor_of_gate hops).1] at hrel
    rw [hsp]
    exact lastOf_mem hrel
  | @copy F' q k hk hF h0 hag =>
    have hmem := release_mem_drop q hk
    rw [if_pos hmem, hF, List.dropLast_concat] at hrel
    rw [hF]
    by_cases hk0 : k = 0
    · rw [h0 hk0]
      exact List.mem_append_left _ (lastOf_mem hrel)
    · -- not storing, so the copy is over and only the release is left
      have hk4 : k = 4 := by
        by_contra hne
        exact hns ⟨⟨hmem, fun h => hk0 ((startsCopy_drop q k).1 h)⟩,
          (isStore_drop q k).2 (by omega)⟩
      rw [hk4] at hag
      rw [Bytes4.agreeBelow_four hag]
      simp

/-! ## The steps -/

theorem storing_congr {s t : MotorLink} (h : t.decoder = s.decoder) : t.Storing ↔ s.Storing := by
  unfold Storing Copying CopyPending
  rw [h]

/-- A byte completes at most one frame, which is not released yet. -/
theorem released_uart {tr : List Act} {s : MotorLink} (h : Fed tr s) (ht : s.decoder.todo = [])
    (b : UInt8) (A : Arith) :
    released (tr ++ (step A s (.uart b)).2) (step A s (.uart b)).1 = released tr s := by
  unfold step
  simp only [ht, if_true]
  unfold released
  rw [payloads_recv, h.dec]
  simp only [ht, List.not_mem_nil, if_false]
  rcases feed_events s.decoder.dec b with e | e | ⟨q, e⟩ <;> rw [e] <;>
    simp [Event.ops, Event.payload]

theorem not_storing_uart {s : MotorLink} (ht : s.decoder.todo = []) (b : UInt8) (A : Arith) :
    ¬ (step A s (.uart b)).1.Storing := by
  unfold step
  simp only [ht, if_true]
  unfold Storing Copying CopyPending
  dsimp only
  rcases feed_events s.decoder.dec b with e | e | ⟨q, e⟩ <;> rw [e] <;>
    simp [Event.ops, Op.startsCopy]

theorem untorn_uart (A : Arith) {tr : List Act} {s : MotorLink} (h : Untorn A tr s) (b : UInt8) :
    Untorn A (tr ++ (step A s (.uart b)).2) (step A s (.uart b)).1 := by
  have hfed := fed_step A h.fed (.uart b)
  by_cases ht : s.decoder.todo = []
  · have hrel := released_uart h.fed ht b A
    have hns := not_storing_uart ht b A
    have hsub := payloads_subset tr (step A s (.uart b)).2
    have hmotor : (step A s (.uart b)).1.motor = s.motor := by simp [step, ht]
    have hshared : (step A s (.uart b)).1.shared = s.shared := by simp [step, ht]
    have hout : (step A s (.uart b)).2 = [.recv b] := by simp [step, ht]
    refine ⟨hfed, ?_, ?_, ?_⟩
    · unfold Armed
      rw [hrel, hmotor, hshared]
      exact h.rel
    · rw [hmotor, hshared]
      exact fun i hi => ⟨(h.load i hi).1, fun _ => hns⟩
    · intro htaken
      rw [hout] at htaken
      rw [hmotor]
      rcases h.pulses (by simpa using htaken) with hl | ⟨q, hq, e⟩
      · exact Or.inl hl
      · exact Or.inr ⟨q, hsub hq, e⟩
  · have hstep : step A s (.uart b) = (s, []) := by simp [step, ht]
    rw [hstep, List.append_nil]
    exact h

/-- The release comes last and ends the copy of a complete frame. -/
theorem handover_release {F : List Bytes4} {sp : Bytes4} {ops : List Op}
    (h : Handover F sp (.release_motorctrl :: ops)) : ops = [] ∧ F ≠ [] := by
  generalize htodo : Op.release_motorctrl :: ops = todo at h
  cases h with
  | quiet hops _ => exact absurd (htodo ▸ List.mem_cons_self) (not_motor_of_gate hops).1
  | @copy F' q k hk hF h0 hag =>
    refine ⟨?_, by rw [hF]; simp⟩
    obtain rfl : k = 4 := by
      by_contra hne
      have hk4 : k < 4 := by omega
      interval_cases k <;> cases htodo
    exact (List.cons.inj htodo).2

theorem untorn_decoder (A : Arith) {tr : List Act} {s : MotorLink} (h : Untorn A tr s)
    (hex : s.Exclusive .decoder) :
    Untorn A (tr ++ (step A s .decoder).2) (step A s .decoder).1 := by
  have hfed := fed_step A h.fed .decoder
  have hhand := h.fed.hand
  rcases ht : s.decoder.todo with _ | ⟨op, ops⟩
  · have hstep : step A s .decoder = (s, []) := by simp [step, ht]
    rw [hstep, List.append_nil]
    exact h
  · have hstep : step A s .decoder =
        ({ s with decoder := { s.decoder with todo := ops }, shared := op.exec s.shared }, []) := by
      simp [step, ht]
    rw [hstep] at hfed ⊢
    rw [List.append_nil] at hfed ⊢
    rw [ht] at hhand
    cases op with
    | store i b =>
      -- no load is in progress, so the bytes loaded so far are none
      have hnl : ¬ s.Loading := hex (by simp [ht, Op.isStore])
      refine ⟨hfed, ?_, ?_, h.pulses⟩
      · intro ha
        have hrel := h.rel ha
        unfold released at hrel ⊢
        rw [ht, if_pos (List.mem_cons_of_mem _ (store_copying hhand).1)] at hrel
        rwa [if_pos (store_copying hhand).1]
      · intro j hj
        have hj0 : ¬ 0 < j := fun hpos => hnl ⟨j, hpos, hj⟩
        obtain rfl : j = 0 := not_not.1 fun hne => hj0 (Fin.pos_iff_ne_zero.2 hne)
        exact ⟨Bytes4.agreeBelow_zero _ _, fun hpos => absurd hpos hj0⟩
    | release_motorctrl =>
      obtain ⟨rfl, hF⟩ := handover_release hhand
      refine ⟨hfed, ?_, ?_, h.pulses⟩
      · intro _
        simpa [released] using hF
      · intro j hj
        refine ⟨(h.load j hj).1, ?_⟩
        intro _ hst
        exact absurd hst.1.1 List.not_mem_nil
    | release_infrared | set_stop_flag =>
      have hnr := gate_not_motor hhand (by simp [Event.ops])
      refine ⟨hfed, ?_, ?_, h.pulses⟩
      · intro ha
        have hrel := h.rel ha
        unfold released at hrel ⊢
        rw [ht, if_neg hnr] at hrel
        rwa [if_neg fun hm => hnr (List.mem_cons_of_mem _ hm)]
      · intro j hj
        refine ⟨(h.load j hj).1, ?_⟩
        intro _ hst
        exact absurd (List.mem_cons_of_mem _ hst.1.1) hnr

theorem untorn_motor (A : Arith) {tr : List Act} {s : MotorLink} (h : Untorn A tr s)
    (hex : s.Exclusive .motor) :
    Untorn A (tr ++ (step A s .motor).2) (step A s .motor).1 := by
  have hfed : Fed (tr ++ (s.stepMotor A).2) (s.stepMotor A).1 := fed_step A h.fed .motor
  have hpay : payloads (tr ++ (s.stepMotor A).2) = payloads tr :=
    payloads_append (stepMotor_received A s)
  have hdec := stepMotor_decoder A s
  have hsp := stepMotor_sp_data A s
  have hrel : s.Armed → released (tr ++ (s.stepMotor A).2) (s.stepMotor A).1 ≠ [] := by
    intro ha
    unfold released
    rw [hpay, hdec]
    exact h.rel ha
  have hstoring : (s.stepMotor A).1.Storing ↔ s.Storing := storing_congr hdec
  show Untorn A (tr ++ (s.stepMotor A).2) (s.stepMotor A).1
  rcases hpc : s.motor.pc with ch | _ | _ | i
  · -- a call of `rt_pwm_set`: the pulses stay and nothing is loaded
    have hout : (s.stepMotor A).2 = [.pwm_set (ch.val + 1) period (s.motor.pulses.arg ch)] := by
      simp [stepMotor, hpc]
    have hpc' : ∀ i, (s.stepMotor A).1.motor.pc ≠ .load i := by
      intro i
      simp only [stepMotor, hpc]
      split_ifs <;> simp
    have hsem : (s.stepMotor A).1.shared = s.shared := by simp [stepMotor, hpc]
    have hpulses : (s.stepMotor A).1.motor.pulses = s.motor.pulses := by simp [stepMotor, hpc]
    refine ⟨hfed, ?_, fun i hi => absurd hi (hpc' i), ?_⟩
    · intro ha
      apply hrel
      rcases ha with ha | ⟨ha, -⟩ | ⟨i, ha⟩
      · exact Or.inl (hsem ▸ ha)
      · simp only [stepMotor, hpc] at ha
        split_ifs at ha
      · exact absurd ha (hpc' i)
    · intro htaken
      right
      rw [hout] at htaken
      rw [hpay, hpulses]
      rcases h.pulses (by simpa using htaken) with ⟨i, hi⟩ | hq
      · rw [hpc] at hi
        cases hi
      · exact hq
  · by_cases hv : 0 < s.shared.sem_motorctrl.value
    · have hpc' : (s.stepMotor A).1.motor.pc = .load 0 := by simp [stepMotor, Sem.take, hpc, hv]
      refine ⟨hfed, fun _ => hrel (Or.inl hv), ?_, fun _ => Or.inl ⟨0, hpc'⟩⟩
      intro i hi
      obtain rfl : 0 = i := MotorPc.load.inj (hpc'.symm.trans hi)
      exact ⟨Bytes4.agreeBelow_zero _ _, fun h0 => absurd h0 (lt_irrefl _)⟩
    · have hstep : s.stepMotor A = ({ s with
          shared := { s.shared with
            sem_motorctrl := { s.shared.sem_motorctrl with suspended := true } }
          motor := { s.motor with pc := .suspended } }, []) := by
        simp [stepMotor, Sem.take, hpc, hv]
      rw [hstep] at hfed ⊢
      rw [List.append_nil] at hfed ⊢
      refine ⟨hfed, ?_, ?_, ?_⟩
      · rintro (ha | ⟨-, ha⟩ | ⟨i, ha⟩)
        · exact absurd ha hv
        · cases ha
        · cases ha
      · intro i hi
        cases hi
      · intro htaken
        right
        rcases h.pulses htaken with ⟨i, hi⟩ | hq
        · rw [hpc] at hi
          cases hi
        · exact hq
  · by_cases hsus : s.shared.sem_motorctrl.suspended = true
    · have hstep : s.stepMotor A = (s, []) := by simp [stepMotor, hpc, hsus]
      rw [hstep, List.append_nil]
      exact h
    · have hpc' : (s.stepMotor A).1.motor.pc = .load 0 := by simp [stepMotor, hpc, hsus]
      refine ⟨hfed, fun _ => hrel (Or.inr (Or.inl ⟨hpc, by simpa using hsus⟩)), ?_,
        fun _ => Or.inl ⟨0, hpc'⟩⟩
      intro i hi
      obtain rfl : 0 = i := MotorPc.load.inj (hpc'.symm.trans hi)
      exact ⟨Bytes4.agreeBelow_zero _ _, fun h0 => absurd h0 (lt_irrefl _)⟩
  · have harmed : s.Armed := Or.inr (Or.inr ⟨i, hpc⟩)
    have hns : ¬ s.Storing := hex ⟨i, hpc⟩
    have hset := Bytes4.AgreeBelow.set (h.load i hpc).1
    by_cases h4 : i.val + 1 < 4
    · have hmotor : (s.stepMotor A).1.motor = { s.motor with
          pc := .load ⟨i.val + 1, h4⟩
          loaded := s.motor.loaded.set i (s.shared.sp_data.get i) } := by
        simp [stepMotor, hpc, h4]
      refine ⟨hfed, fun _ => hrel harmed, ?_, fun _ => Or.inl ⟨_, by rw [hmotor]⟩⟩
      intro j hj
      rw [hmotor] at hj ⊢
      obtain rfl := MotorPc.load.inj hj
      rw [hsp, hstoring]
      exact ⟨hset, fun _ => hns⟩
    · -- the last load: all four bytes are those of `sp_data`, which is a received frame
      have hmotor : (s.stepMotor A).1.motor = ⟨.pwm_set 0,
          s.motor.loaded.set i (s.shared.sp_data.get i),
          motorCtrl A (s.motor.loaded.set i (s.shared.sp_data.get i))⟩ := by
        simp [stepMotor, hpc, h4]
      refine ⟨hfed, fun _ => hrel harmed, ?_, ?_⟩
      · intro j hj
        rw [hmotor] at hj
        cases hj
      · intro _
        right
        have hi4 : i.val + 1 = 4 := by have := i.isLt; omega
        rw [hi4] at hset
        refine ⟨s.shared.sp_data, hpay ▸ sp_data_mem h.fed hns (h.rel harmed), ?_⟩
        rw [hmotor]
        exact congrArg (motorCtrl A) (Bytes4.agreeBelow_four hset)

theorem untorn_step (A : Arith) {tr : List Act} {s : MotorLink} (c : Choice) (hex : s.Exclusive c)
    (h : Untorn A tr s) : Untorn A (tr ++ (step A s c).2) (step A s c).1 := by
  cases c with
  | uart b => exact untorn_uart A h b
  | decoder => exact untorn_decoder A h hex
  | motor => exact untorn_motor A h hex

/-- **No mixed wheel command under mutual exclusion.** In a run where neither thread accesses
`sp_data` inside the other's access sequence, the pulses that are passed to `rt_pwm_set` after a take
are the conversion of one received frame. -/
theorem no_mixed_command (A : Arith) (cs : List Choice) (hex : Along (step A) Exclusive init cs) :
    ∀ ch, (run (step A) init cs).1.motor.pc = .pwm_set ch →
      Act.taken ∈ (run (step A) init cs).2 →
      ∃ q ∈ payloads (run (step A) init cs).2,
        (run (step A) init cs).1.motor.pulses = motorCtrl A q := by
  have h : Untorn A (run (step A) init cs).2 (run (step A) init cs).1 :=
    run_history_along (step A) (untorn_init A) (fun _ _ c hc hu => untorn_step A c hc hu) hex
  intro ch hpc htaken
  rcases h.pulses htaken with ⟨i, hi⟩ | hq
  · rw [hpc] at hi
    cases hi
  · exact hq

/-- The decoder reads a second frame while the motor thread loads the first one, and copies it when the
motor thread has loaded all of that. -/
def untornSchedule : List Choice :=
  List.replicate 5 .motor ++ frameSchedule ⟨10, 0, 10, 0⟩ ++ List.replicate 3 .motor ++
    (Frame.speed ⟨20, 0, 20, 0⟩).bytes.map .uart ++ List.replicate 3 .motor ++
      List.replicate 5 .decoder ++ List.replicate 8 .motor

theorem no_mixed_command_second :
    Along (step Arith.ieee) Exclusive init untornSchedule ∧
      ∃ q ∈ payloads (run (step Arith.ieee) init untornSchedule).2,
        (run (step Arith.ieee) init untornSchedule).1.motor.pulses = motorCtrl Arith.ieee q := by
  have hex : Along (step Arith.ieee) Exclusive init untornSchedule := by decide +kernel
  exact ⟨hex, no_mixed_command Arith.ieee untornSchedule hex 0 (by decide +kernel) (by decide +kernel)⟩

/-- The decoder hands over a second frame while the motor thread has loaded half of the first. -/
def tornSchedule : List Choice :=
  List.replicate 5 .motor ++ frameSchedule ⟨10, 0, 10, 0⟩ ++ List.replicate 3 .motor ++
    frameSchedule ⟨20, 0, 20, 0⟩ ++ List.replicate 2 .motor

/-- **A mixed wheel command.** The left wheel gets the speed of the first frame and the right wheel
that of the second. -/
theorem mixed_command :
    ¬ ∀ cs ch, (run (step Arith.ieee) init cs).1.motor.pc = .pwm_set ch →
      Act.taken ∈ (run (step Arith.ieee) init cs).2 →
      ∃ q ∈ payloads (run (step Arith.ieee) init cs).2,
        (run (step Arith.ieee) init cs).1.motor.pulses = motorCtrl Arith.ieee q := by
  intro h
  obtain ⟨q, hq, hpulses⟩ := h tornSchedule 0 (by decide +kernel) (by decide +kernel)
  have hpay : payloads (run (step Arith.ieee) init tornSchedule).2 =
      [⟨10, 0, 10, 0⟩, ⟨20, 0, 20, 0⟩] := by decide +kernel
  have hmixed : (run (step Arith.ieee) init tornSchedule).1.motor.pulses =
      motorCtrl Arith.ieee ⟨10, 0, 20, 0⟩ := by rfl
  rw [hpay] at hq
  rw [hmixed] at hpulses
  have h10 := pulse_integer Arith.ieee 10
  have h20 := pulse_integer Arith.ieee 20
  have hne : pulse Arith.ieee (speed Arith.ieee 10 0) ≠ pulse Arith.ieee (speed Arith.ieee 20 0) := by
    intro e
    rw [e, h20] at h10
    revert h10
    decide
  simp only [List.mem_cons, List.not_mem_nil, or_false] at hq
  rcases hq with rfl | rfl
  · exact hne (congrArg Pulses.pulse2 hpulses).symm
  · exact hne (congrArg Pulses.pulse3 hpulses)

end MotorLink

end Tdps
