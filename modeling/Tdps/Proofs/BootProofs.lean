import Tdps.Boot

/-!
# Proofs: calls on handles that were not created

A thread is only started when its own semaphore has been created, so no thread waits on a null handle.
`commu_decoder_th` also releases the semaphores of two other parts of the application, whatever became of
these: `contained_iff` says which outcomes of the allocations it survives.
-/

namespace Tdps.Boot

open Machine

/-- No thread has called a function on a null handle. -/
def Contained (tr : List Act) : Prop :=
  ∀ t h, Act.rt_sem_take t h false ∉ tr ∧ Act.rt_sem_release t h false ∉ tr

/-- The semaphore that a thread takes. -/
def own : AppThread → Option Handle
  | .motor_ctrl_th => some .sem_motorctrl
  | .commu_decoder_th => some .sem_decoder
  | .sr04_th => none
  | .infrared_th => some .sem_infrared

/-! ## The init functions -/

theorem createThread_sem (o : Allocs) (t : AppThread) (s : Created) :
    (createThread o t s).1.sem = s.sem := by
  unfold createThread
  split_ifs <;> rfl

theorem createThread_started (o : Allocs) (t : AppThread) (s : Created) :
    (createThread o t s).1.started =
      Function.update s.started t (o.rt_thread_create t || s.started t) := by
  unfold createThread
  split_ifs with ht
  · rw [ht]
    rfl
  · rw [Bool.eq_false_of_not_eq_true ht, Bool.false_or, Function.update_eq_self]

theorem createSemThread_sem (o : Allocs) (h : Handle) (t : AppThread) (s : Created) :
    (createSemThread o h t s).1.sem =
      Function.update s.sem h (if o.rt_sem_create h then some Sem.create else none) := by
  unfold createSemThread
  split_ifs with hsem
  · rw [createThread_sem]
  · rfl

theorem createSemThread_started (o : Allocs) (h : Handle) (t : AppThread) (s : Created) :
    (createSemThread o h t s).1.started = Function.update s.started t
      ((o.rt_sem_create h && o.rt_thread_create t) || s.started t) := by
  unfold createSemThread
  split_ifs with hsem
  · rw [createThread_started, hsem, Bool.true_and]
  · rw [Bool.eq_false_of_not_eq_true hsem, Bool.false_and, Bool.false_or, Function.update_eq_self]

theorem mainInit_sem (o : Allocs) (h : Handle) :
    ((mainInit o).sem h).isSome = o.rt_sem_create h := by
  have hsome : ∀ b : Bool, (if b then some Sem.create else none).isSome = b := by decide
  unfold mainInit motorInit commuInit sr04Init infraredInit
  dsimp only
  rw [createSemThread_sem, createThread_sem, createSemThread_sem, createSemThread_sem]
  cases h with
  | sem_motorctrl => exact hsome _
  | sem_decoder => exact hsome _
  | sem_infrared => exact hsome _

theorem mainInit_started (o : Allocs) (t : AppThread) :
    (mainInit o).started t = true ↔
      o.rt_thread_create t = true ∧ ∀ h ∈ own t, o.rt_sem_create h = true := by
  unfold mainInit motorInit commuInit sr04Init infraredInit
  dsimp only
  rw [createSemThread_started, createThread_started, createSemThread_started,
    createSemThread_started]
  cases t with
  | motor_ctrl_th => simp [own, Created.none, and_comm]
  | commu_decoder_th => simp [own, Created.none, and_comm]
  | sr04_th => simp [own, Created.none]
  | infrared_th => simp [own, Created.none, and_comm]

/-! ## One step -/

/-- No step creates or deletes anything. -/
structure Kept (s s' : Boot) : Prop where
  sem : ∀ h, (s'.sem h).isSome = (s.sem h).isSome
  started : s'.started = s.started

/-- A call is one of those that are in the source, and `created` says what is in the handle. -/
def Call (s : Boot) : Act → Prop
  | .rt_sem_take t h created => s.started t = true ∧ h ∈ own t ∧ created = (s.sem h).isSome
  | .rt_sem_release t h created =>
    t = .commu_decoder_th ∧ (h = .sem_motorctrl ∨ h = .sem_infrared) ∧ s.started t = true ∧
      created = (s.sem h).isSome
  | .rx_callback created => created = (s.sem .sem_decoder).isSome

theorem Kept.trans {s s' s'' : Boot} (h : Kept s s') (h' : Kept s' s'') : Kept s s'' :=
  ⟨fun hd => (h'.sem hd).trans (h.sem hd), h'.started.trans h.started⟩

/-- A call is in the source before a step as much as after it. -/
theorem Kept.call {s s' : Boot} (h : Kept s s') {a : Act} (ha : Call s' a) : Call s a := by
  cases a with
  | rt_sem_take t hd created => rwa [Call, h.sem, h.started] at ha
  | rt_sem_release t hd created => rwa [Call, h.sem, h.started] at ha
  | rx_callback created => rwa [Call, h.sem] at ha

theorem isSome_update {s : Boot} {h : Handle} {sem sem' : Sem} (hs : s.sem h = some sem) (h' : Handle) :
    (Function.update s.sem h (some sem') h').isSome = (s.sem h').isSome := by
  by_cases e : h' = h
  · subst e
    rw [Function.update_self, hs]
    rfl
  · rw [Function.update_of_ne e]

theorem stepTake_spec (s : Boot) {t : AppThread} {h : Handle} (loop : Bool) (pc : TakePc)
    (ht : s.started t = true) (hown : h ∈ own t) :
    Kept s (s.stepTake t h loop pc).1 ∧ ∀ a ∈ (s.stepTake t h loop pc).2.2, Call s a := by
  unfold stepTake
  cases pc with
  | setup => exact ⟨⟨fun _ => rfl, rfl⟩, by simp⟩
  | take =>
    cases hs : s.sem h with
    | none => exact ⟨⟨fun _ => rfl, rfl⟩, by simp [Call, ht, Option.mem_def.1 hown, hs]⟩
    | some sem => exact ⟨⟨isSome_update hs, rfl⟩, by simp [Call, ht, Option.mem_def.1 hown, hs]⟩
  | suspended =>
    dsimp only
    split_ifs
    · exact ⟨⟨fun _ => rfl, rfl⟩, by simp⟩
    · exact ⟨⟨fun _ => rfl, rfl⟩, by simp⟩
  | taken => exact ⟨⟨fun _ => rfl, rfl⟩, by simp⟩
  | assert => exact ⟨⟨fun _ => rfl, rfl⟩, by simp⟩

theorem release_spec (s : Boot) {h : Handle} (todo : List Op)
    (hh : h = .sem_motorctrl ∨ h = .sem_infrared) (ht : s.started .commu_decoder_th = true) :
    Kept s (s.release h todo).1 ∧ ∀ a ∈ (s.release h todo).2, Call s a := by
  unfold release
  cases hs : s.sem h with
  | none => exact ⟨⟨fun _ => rfl, rfl⟩, by simp [Call, hh, ht, hs]⟩
  | some sem => exact ⟨⟨isSome_update hs, rfl⟩, by simp [Call, hh, ht, hs]⟩

theorem stepCommu_spec (s : Boot) (ht : s.started .commu_decoder_th = true) :
    Kept s s.stepCommu.1 ∧ ∀ a ∈ s.stepCommu.2, Call s a := by
  have hsilent : ∀ s' : Boot, s'.sem = s.sem → s'.started = s.started →
      Kept s s' ∧ ∀ a ∈ ([] : List Act), Call s a :=
    fun s' hsem hstarted => ⟨⟨fun h => by rw [hsem], hstarted⟩, by simp⟩
  unfold stepCommu
  cases hpc : s.commu with
  | rt_device_open => exact hsilent _ rfl rfl
  | set_rx_indicate => exact hsilent _ rfl rfl
  | read =>
    cases s.rx_fifo.intRx with
    | none => exact hsilent _ rfl rfl
    | some r => exact hsilent _ rfl rfl
  | take =>
    cases hs : s.sem .sem_decoder with
    | none => exact ⟨⟨fun _ => rfl, rfl⟩, by simp [Call, own, ht, hs]⟩
    | some sem => exact ⟨⟨isSome_update hs, rfl⟩, by simp [Call, own, ht, hs]⟩
  | suspended =>
    dsimp only
    split_ifs
    · exact hsilent _ rfl rfl
    · exact hsilent _ rfl rfl
  | switch buffer => exact hsilent _ rfl rfl
  | ops todo =>
    cases todo with
    | nil => exact hsilent _ rfl rfl
    | cons op todo =>
      cases op with
      | store i b => exact hsilent _ rfl rfl
      | release_motorctrl => exact release_spec s todo (Or.inl rfl) ht
      | release_infrared => exact release_spec s todo (Or.inr rfl) ht
      | set_stop_flag => exact hsilent _ rfl rfl
  | assert => exact hsilent _ rfl rfl

theorem rxCallback_spec (s : Boot) : Kept s s.rxCallback.1 ∧ ∀ a ∈ s.rxCallback.2, Call s a := by
  unfold rxCallback
  cases hs : s.sem .sem_decoder with
  | none => exact ⟨⟨fun _ => rfl, rfl⟩, by simp [Call, hs]⟩
  | some sem => exact ⟨⟨isSome_update hs, rfl⟩, by simp [Call, hs]⟩

/-- **Calls.** What a step does to the handles and the threads, and which calls it makes. -/
theorem step_spec (s : Boot) (c : Choice) :
    Kept s (step s c).1 ∧ ∀ a ∈ (step s c).2, Call s a := by
  have hsilent : Kept s s ∧ ∀ a ∈ ([] : List Act), Call s a := ⟨⟨fun _ => rfl, rfl⟩, by simp⟩
  cases c with
  | thread t =>
    unfold step
    dsimp only
    split_ifs with ht
    · cases t with
      | motor_ctrl_th =>
        obtain ⟨hkept, hcall⟩ := stepTake_spec s true s.motor ht (h := .sem_motorctrl) rfl
        exact ⟨⟨hkept.sem, hkept.started⟩, hcall⟩
      | commu_decoder_th => exact stepCommu_spec s ht
      | sr04_th => exact hsilent
      | infrared_th =>
        obtain ⟨hkept, hcall⟩ := stepTake_spec s false s.infrared ht (h := .sem_infrared) rfl
        exact ⟨⟨hkept.sem, hkept.started⟩, hcall⟩
    · exact hsilent
  | irq bytes =>
    unfold step hwSerialIsr
    dsimp only
    split_ifs
    · exact hsilent
    · obtain ⟨hkept, hcall⟩ := rxCallback_spec { s with rx_fifo := bytes.foldl RxFifo.put s.rx_fifo }
      exact ⟨⟨hkept.sem, hkept.started⟩, hcall⟩
    · exact ⟨⟨fun _ => rfl, rfl⟩, by simp⟩
    · exact ⟨⟨fun _ => rfl, rfl⟩, by simp⟩

/-! ## Runs -/

/-- The outcome of the allocations is all that the calls of a run depend on. -/
theorem calls_run (o : Allocs) (choices : List Choice) :
    ∀ a ∈ (run step (init o) choices).2, Call (init o) a := by
  refine run_outputs step (I := Kept (init o)) ⟨fun _ => rfl, rfl⟩ ?_ choices
  intro s c hkept
  obtain ⟨hstep, hcalls⟩ := step_spec s c
  exact ⟨hkept.trans hstep, fun a ha => hkept.call (hcalls a ha)⟩

/-- With these outcomes no call is on a null handle. -/
theorem contained_of_created {o : Allocs}
    (h : o.rt_sem_create .sem_decoder = true → o.rt_thread_create .commu_decoder_th = true →
      o.rt_sem_create .sem_motorctrl = true ∧ o.rt_sem_create .sem_infrared = true)
    (choices : List Choice) : Contained (run step (init o) choices).2 := by
  intro t hd
  constructor
  · intro ha
    obtain ⟨ht, hown, hnull⟩ := calls_run o choices _ ha
    have hsem := ((mainInit_started o t).1 ht).2 hd hown
    rw [← mainInit_sem] at hsem
    exact absurd (hnull.trans hsem) (by decide)
  · intro ha
    obtain ⟨rfl, hrel, ht, hnull⟩ := calls_run o choices _ ha
    obtain ⟨hthread, hsem⟩ := (mainInit_started o _).1 ht
    obtain ⟨hmotor, hinfrared⟩ := h (hsem .sem_decoder rfl) hthread
    rw [← mainInit_sem] at hmotor hinfrared
    rcases hrel with rfl | rfl
    · exact absurd (hnull.trans hmotor) (by decide)
    · exact absurd (hnull.trans hinfrared) (by decide)

/-! ## A frame for a part that failed -/

/-- `commu_decoder_th` runs and is about to read these bytes. -/
structure Reads (s : Boot) (dec : Decoder) (bytes : List UInt8) : Prop where
  started : s.started .commu_decoder_th = true
  pc : s.commu = .read
  dec : s.dec = dec
  contents : s.rx_fifo.contents = bytes

theorem step_commu {s : Boot} (h : s.started .commu_decoder_th = true) :
    step s (.thread .commu_decoder_th) = s.stepCommu := if_pos h

/-- From here `commu_decoder_th` can come to release a null handle. -/
def Fails (h : Handle) (s : Boot) : Prop :=
  ∃ choices, Act.rt_sem_release .commu_decoder_th h false ∈ (run step s choices).2

theorem Fails.of_step {h : Handle} {s s' : Boot} {acts : List Act} {c : Choice}
    (hstep : step s c = (s', acts)) (hf : Fails h s') : Fails h s := by
  obtain ⟨choices, hmem⟩ := hf
  refine ⟨c :: choices, ?_⟩
  rw [run_cons, hstep]
  exact List.mem_append_right _ hmem

/-- The handle that an event releases. -/
def released : Event → Handle
  | .gate => .sem_infrared
  | .motor _ => .sem_motorctrl

/-- The release comes at once, or after the bytes have been copied. -/
theorem fails_ops {s : Boot} (e : Event) (ht : s.started .commu_decoder_th = true)
    (hpc : s.commu = .ops e.ops) (hnull : s.sem (released e) = none) : Fails (released e) s := by
  have hrelease : ∀ (s : Boot) (todo : List Op) (op : Op), s.started .commu_decoder_th = true →
      s.commu = .ops (op :: todo) → s.sem (released e) = none →
      s.stepOp op todo = s.release (released e) todo → Fails (released e) s := by
    intro s todo op ht hpc hnull hop
    refine ⟨[.thread .commu_decoder_th], ?_⟩
    rw [run_singleton, step_commu ht]
    unfold stepCommu
    rw [hpc]
    dsimp only
    rw [hop]
    unfold release
    rw [hnull]
    exact List.mem_singleton_self _
  have hstore : ∀ (s : Boot) (todo : List Op) (i : Fin 4) (b : UInt8),
      s.started .commu_decoder_th = true → s.commu = .ops (.store i b :: todo) →
      step s (.thread .commu_decoder_th) =
        ({ s with sp_data := s.sp_data.set i b, commu := .ops todo }, []) := by
    intro s todo i b ht hpc
    rw [step_commu ht]
    unfold stepCommu
    rw [hpc]
    rfl
  cases e with
  | gate => exact hrelease s _ _ ht hpc hnull rfl
  | motor q =>
    refine Fails.of_step (hstore s _ 0 q.b0 ht hpc) ?_
    refine Fails.of_step (hstore _ _ 1 q.b1 ht rfl) ?_
    refine Fails.of_step (hstore _ _ 2 q.b2 ht rfl) ?_
    refine Fails.of_step (hstore _ _ 3 q.b3 ht rfl) ?_
    exact hrelease _ _ _ ht rfl hnull rfl

/-- The thread reads a byte and runs the `switch` on it. -/
theorem fails_byte {h : Handle} {s : Boot} {dec : Decoder} {b : UInt8} {bytes : List UInt8}
    (hs : Reads s dec (b :: bytes))
    (hf : ∀ rx_fifo, rx_fifo.contents = bytes →
      Fails h { s with
        rx_fifo := rx_fifo, dec := (dec.feed b).1, commu := .ops ((dec.feed b).2.flatMap Event.ops) }) :
    Fails h s := by
  obtain ⟨ht, hpc, rfl, hcontents⟩ := hs
  cases hread : s.rx_fifo.intRx with
  | none =>
    rw [RxFifo.intRx_eq_none.1 hread] at hcontents
    cases hcontents
  | some r =>
    obtain ⟨buffer, rx_fifo⟩ := r
    rw [RxFifo.contents_of_intRx hread] at hcontents
    obtain ⟨rfl, hrest⟩ := List.cons.inj hcontents
    have hstep : step s (.thread .commu_decoder_th) =
        ({ s with rx_fifo := rx_fifo, commu := .switch buffer }, []) := by
      rw [step_commu ht]
      unfold stepCommu
      rw [hpc, hread]
    refine Fails.of_step hstep ?_
    refine Fails.of_step (step_commu (s := { s with rx_fifo := rx_fifo, commu := .switch buffer }) ht) ?_
    exact hf rx_fifo hrest

/-- The thread reads the bytes of a frame. -/
theorem fails_frame {pre : List UInt8} {b : UInt8} {e : Event} {dec : Decoder} {s : Boot}
    (hs : Reads s dec (pre ++ [b])) (hpre : (dec.decode pre).2 = [])
    (hlast : ((dec.decode pre).1.feed b).2 = [e]) (hnull : s.sem (released e) = none) :
    Fails (released e) s := by
  induction pre generalizing dec s with
  | nil =>
    refine fails_byte hs fun rx_fifo _ => fails_ops e hs.started ?_ hnull
    show DecoderPc.ops ((dec.feed b).2.flatMap Event.ops) = _
    have hfeed : (dec.feed b).2 = [e] := hlast
    rw [hfeed]
    simp
  | cons a pre ih =>
    obtain ⟨ha, hpre⟩ := List.append_eq_nil_iff.1 ((congrArg Prod.snd (run_cons _ dec a pre)).symm.trans
      hpre)
    have hlast : (((dec.feed a).1.decode pre).1.feed b).2 = [e] := hlast
    refine fails_byte hs fun rx_fifo hcontents => ?_
    rw [ha]
    have hread : step { s with rx_fifo := rx_fifo, dec := (dec.feed a).1, commu := .ops [] }
        (.thread .commu_decoder_th) =
          ({ s with rx_fifo := rx_fifo, dec := (dec.feed a).1, commu := .read }, []) :=
      step_commu hs.started
    exact Fails.of_step hread (ih ⟨hs.started, rfl, rfl, hcontents⟩ hpre hlast hnull)

/-- A frame that comes in right after `rt_device_open`. -/
theorem fails_init {o : Allocs} (pre : List UInt8) (b : UInt8) (e : Event)
    (ht : (init o).started .commu_decoder_th = true) (hlen : pre.length < 63)
    (hpre : ((Decoder.start Bytes4.zero).decode pre).2 = [])
    (hlast : (((Decoder.start Bytes4.zero).decode pre).1.feed b).2 = [e])
    (hnull : (init o).sem (released e) = none) : Fails (released e) (init o) := by
  have hopen : step (init o) (.thread .commu_decoder_th) =
      ({ init o with commu := .set_rx_indicate }, []) := step_commu ht
  have hirq : step { init o with commu := .set_rx_indicate } (.irq (pre ++ [b])) =
      ({ init o with
          commu := .set_rx_indicate
          rx_fifo := (pre ++ [b]).foldl RxFifo.put RxFifo.empty }, []) := rfl
  have hregister : step { init o with
        commu := .set_rx_indicate
        rx_fifo := (pre ++ [b]).foldl RxFifo.put RxFifo.empty } (.thread .commu_decoder_th) =
      ({ init o with
          commu := .read
          rx_fifo := (pre ++ [b]).foldl RxFifo.put RxFifo.empty
          rx_indicate := true }, []) := step_commu ht
  have hcontents : ((pre ++ [b]).foldl RxFifo.put RxFifo.empty).contents = pre ++ [b] := by
    rw [RxFifo.contents_foldl_put, RxFifo.contents_empty, List.nil_append]
    rw [RxFifo.contents_empty, List.length_nil, List.length_append, List.length_singleton]
    omega
  refine Fails.of_step hopen (Fails.of_step hirq (Fails.of_step hregister ?_))
  exact fails_frame ⟨ht, rfl, rfl, hcontents⟩ hpre hlast hnull

/-- The decoder runs and one of the two semaphores is missing. -/
theorem exists_fails {o : Allocs} (hdecoder : o.rt_sem_create .sem_decoder = true)
    (hthread : o.rt_thread_create .commu_decoder_th = true)
    (h : ¬ (o.rt_sem_create .sem_motorctrl = true ∧ o.rt_sem_create .sem_infrared = true)) :
    ∃ hd, Fails hd (init o) := by
  have ht : (init o).started .commu_decoder_th = true := by
    refine (mainInit_started o _).2 ⟨hthread, ?_⟩
    rintro hd ⟨⟩
    exact hdecoder
  have hnull : ∀ hd, ¬ o.rt_sem_create hd = true → (init o).sem hd = none := by
    intro hd hfail
    rw [← mainInit_sem] at hfail
    exact Option.not_isSome_iff_eq_none.1 hfail
  by_cases hmotor : o.rt_sem_create .sem_motorctrl = true
  · have hinfrared := fun hi => h ⟨hmotor, hi⟩
    exact ⟨_, fails_init [0xAA] 0x01 .gate ht (by decide) (by decide) (by decide) (hnull _ hinfrared)⟩
  · exact ⟨_, fails_init [0xAA, 0x55, 0, 0, 0] 0 (.motor Bytes4.zero) ht (by decide) (by decide)
      (by decide) (hnull _ hmotor)⟩

/-- **Initialisation failures.** An outcome of the allocations is contained in every run if and only if
`commu_decoder_th` is not started, or the semaphores of the motor and of the gate are both created. -/
theorem contained_iff (o : Allocs) :
    (∀ choices, Contained (run step (init o) choices).2) ↔
      (o.rt_sem_create .sem_decoder = true ∧ o.rt_thread_create .commu_decoder_th = true →
        o.rt_sem_create .sem_motorctrl = true ∧ o.rt_sem_create .sem_infrared = true) := by
  constructor
  · rintro h ⟨hdecoder, hthread⟩
    by_contra hmissing
    obtain ⟨hd, choices, hmem⟩ := exists_fails hdecoder hthread hmissing
    exact (h choices _ hd).2 hmem
  · intro h choices
    exact contained_of_created (fun hdecoder hthread => h ⟨hdecoder, hthread⟩) choices

/-- `infrared_init` has no memory left for its semaphore. -/
def infraredFails : Allocs := ⟨fun h => h ≠ .sem_infrared, fun _ => true⟩

/-- The request for the gate then stops the decoder. -/
theorem infraredFails_not_contained :
    ¬ ∀ choices, Contained (run step (init infraredFails) choices).2 := by
  intro h
  obtain ⟨hd, choices, hmem⟩ := exists_fails (o := infraredFails) (by decide) (by decide) (by decide)
  exact (h choices _ hd).2 hmem

end Tdps.Boot
