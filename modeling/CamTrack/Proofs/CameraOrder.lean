import CamTrack.Proofs.EndToEnd

namespace CamTrack
open Python Machine RedisStreams Positions

variable {K : Type} [Field K] [LinearOrder K] [Rounding K]

/-- The one frame was captured before the other, or they are the same. -/
def RawFrame.NotAfter (frame frame' : RawFrame) : Prop :=
  frame.sequenceNumber < frame'.sequenceNumber ∨ frame = frame'

namespace FramePublisher
variable {ι : Type} {s s' : FramePublisher K ι} {sent : List RawFrame}

/-- The frames that a publisher has sent, one of them perhaps more than once, are in the order of
capture, and none comes after what it is about to send. -/
structure Sequenced (s : FramePublisher K ι) (sent : List RawFrame) : Prop where
  ordered : sent.Pairwise RawFrame.NotAfter
  reached : ∀ frame ∈ sent, frame.sequenceNumber ≤ s.reader.sequenceNumber
  atHand : ∀ frame, s.frame = some frame → (∃ captured, s.reader.pc = .yielded captured) ∧
    frame.sequenceNumber = s.reader.sequenceNumber ∧ ∀ f ∈ sent, f.NotAfter frame
  yielded : s.frame = none → ∀ captured, s.reader.pc = .yielded captured →
    captured.sequenceNumber = s.reader.sequenceNumber ∧
      ∀ f ∈ sent, f.sequenceNumber < captured.sequenceNumber

omit [LinearOrder K] in
theorem start_sequenced (camera : CameraConfig) :
    Sequenced (start camera : FramePublisher K ι) [] :=
  ⟨.nil, fun _ hf => (by cases hf), fun _ hf => (by cases hf), fun _ _ hpc => (by cases hpc)⟩

omit [Field K] [LinearOrder K] [Rounding K] in
/-- The frame at hand goes to the end of what has been sent. -/
theorem Sequenced.send {frame : RawFrame} (h : Sequenced s sent) (hframe : s.frame = some frame) :
    (sent ++ [frame]).Pairwise RawFrame.NotAfter ∧
      ∀ f ∈ sent ++ [frame], f.sequenceNumber ≤ s.reader.sequenceNumber ∧ f.NotAfter frame := by
  obtain ⟨_, hnumber, hbefore⟩ := h.atHand frame hframe
  refine ⟨List.pairwise_append.mpr ⟨h.ordered, List.pairwise_singleton _ _, ?_⟩, ?_⟩
  · intro f hf f' hf'
    rw [List.mem_singleton.mp hf']
    exact hbefore f hf
  · intro f hf
    rcases List.mem_append.mp hf with hf | hf
    · exact ⟨h.reached f hf, hbefore f hf⟩
    · rw [List.mem_singleton.mp hf]
      exact ⟨hnumber.le, .inr rfl⟩

omit [Field K] [LinearOrder K] [Rounding K] in
/-- A retry sends the frame at hand once more. -/
theorem Sequenced.retry {frame : RawFrame} (h : Sequenced s sent) (hframe : s.frame = some frame) :
    Sequenced s (sent ++ [frame]) := by
  obtain ⟨hordered, hsent⟩ := h.send hframe
  obtain ⟨hpc, hnumber, _⟩ := h.atHand frame hframe
  refine ⟨hordered, fun f hf => (hsent f hf).1, fun f hf => ?_, fun hnone => ?_⟩
  · obtain rfl := Option.some.inj (hframe.symm.trans hf)
    exact ⟨hpc, hnumber, fun f hf => (hsent f hf).2⟩
  · rw [hframe] at hnone
    cases hnone

/-- A reader that is not suspended moves on: it yields the next frame, or none yet. -/
theorem read_step {reader reader' : RtspFrameReader K ι} {a : ReaderAction K ι}
    (hresume : a ≠ .resume) (hclose : a ≠ .close) (h : reader.step a = some reader') :
    (∀ captured, reader.pc ≠ .yielded captured) ∧
      reader.sequenceNumber ≤ reader'.sequenceNumber ∧
      ∀ captured, reader'.pc = .yielded captured →
        captured.sequenceNumber = reader'.sequenceNumber ∧
          reader.sequenceNumber < captured.sequenceNumber := by
  cases a with
  | resume => exact absurd rfl hresume
  | close => exact absurd rfl hclose
  | check =>
    simp only [RtspFrameReader.step] at h
    split at h <;> cases h
    rename_i hpc
    refine ⟨by simp [hpc], le_rfl, fun captured hyielded => ?_⟩
    dsimp only at hyielded
    split at hyielded <;> cases hyielded
  | connect opened =>
    simp only [RtspFrameReader.step] at h
    split at h <;> cases h
    rename_i hpc
    cases opened <;> exact ⟨by simp [hpc], le_rfl, fun captured hyielded => (by cases hyielded)⟩
  | read outcome now timeMs =>
    simp only [RtspFrameReader.step] at h
    split at h <;> cases h
    rename_i hpc
    refine ⟨by simp [hpc], ?_⟩
    cases outcome with
    | none =>
      refine ⟨le_rfl, fun captured hyielded => ?_⟩
      simp only [RtspFrameReader.noFrame] at hyielded
      split at hyielded <;> cases hyielded
    | some image =>
      simp only [RtspFrameReader.gotFrame]
      split
      · exact ⟨le_rfl, fun captured hyielded => (by cases hyielded)⟩
      · refine ⟨Nat.le_succ _, fun captured hyielded => ?_⟩
        cases hyielded
        exact ⟨rfl, Nat.lt_succ_self _⟩
  | missing =>
    simp only [RtspFrameReader.step] at h
    split at h
    · rename_i hpc
      split at h <;> cases h
      exact ⟨by simp [hpc], le_rfl, fun captured hyielded => (by cases hyielded)⟩
    · cases h

theorem Sequenced.read {a : ReaderAction K ι} {reader : RtspFrameReader K ι} (h : Sequenced s sent)
    (hresume : a ≠ .resume) (hclose : a ≠ .close) (hstep : s.reader.step a = some reader) :
    Sequenced { s with reader := reader } sent := by
  obtain ⟨hsuspended, hle, hyielded⟩ := read_step hresume hclose hstep
  refine ⟨h.ordered, fun f hf => (h.reached f hf).trans (Nat.cast_le.mpr hle),
    fun frame hframe => ?_, fun _ captured hpc => ?_⟩
  · obtain ⟨⟨captured, hpc⟩, _⟩ := h.atHand frame hframe
    exact absurd hpc (hsuspended captured)
  · obtain ⟨hnumber, hlt⟩ := hyielded captured hpc
    exact ⟨hnumber, fun f hf => (h.reached f hf).trans_lt (Nat.cast_lt.mpr hlt)⟩

theorem Sequenced.step {a : PublisherAction K ι} (h : Sequenced s sent)
    (hstep : s.step a = some s') :
    Sequenced s' (sent ++ s'.published.drop s.published.length) := by
  cases a with
  | reader a =>
    have hreader : ∃ reader, s.reader.step a = some reader ∧ { s with reader := reader } = s' ∧
        a ≠ .resume ∧ a ≠ .close := by
      cases a with
      | resume => cases hstep
      | close => cases hstep
      | check => simpa using Option.map_eq_some_iff.mp hstep
      | connect opened => simpa using Option.map_eq_some_iff.mp hstep
      | read outcome now timeMs => simpa using Option.map_eq_some_iff.mp hstep
      | missing => simpa using Option.map_eq_some_iff.mp hstep
    obtain ⟨reader, hread, rfl, hresume, hclose⟩ := hreader
    simpa using h.read hresume hclose hread
  | save frameId frameUri =>
    simp only [FramePublisher.step] at hstep
    split at hstep
    · rename_i captured hpc hnone
      cases hstep
      obtain ⟨hnumber, hbefore⟩ := h.yielded hnone captured hpc
      simp only [List.drop_length, List.append_nil]
      refine ⟨h.ordered, h.reached, fun frame hframe => ?_, fun hframe => (by cases hframe)⟩
      cases hframe
      exact ⟨⟨captured, hpc⟩, congrArg Nat.cast hnumber, fun f hf => .inl (hbefore f hf)⟩
    · cases hstep
  | publish =>
    simp only [FramePublisher.step] at hstep
    split at hstep
    · rename_i frame hframe
      obtain ⟨reader, hresume, rfl⟩ := Option.map_eq_some_iff.mp hstep
      obtain ⟨⟨captured, hpc⟩, _, _⟩ := h.atHand frame hframe
      obtain ⟨hordered, hsent⟩ := h.send hframe
      simp only [RtspFrameReader.step, hpc, Option.some.injEq] at hresume
      subst hresume
      simp only [List.drop_left]
      exact ⟨hordered, fun f hf => (hsent f hf).1, fun _ hf => (by cases hf),
        fun _ _ hyielded => (by cases hyielded)⟩
    · cases hstep
  | stop =>
    cases hstep
    simp only [FramePublisher.stop, List.drop_length, List.append_nil]
    exact ⟨h.ordered, h.reached, h.atHand, h.yielded⟩

end FramePublisher

namespace Pipeline
variable {m n : Nat} {ι φ π ψ ρ : Type} {wires : Wires K φ π ψ ρ} {cameras : Fin m → CameraConfig}
  {s s' : Pipeline m n K ι φ π ψ ρ} {c : Fin m} {frames : List RawFrame}

/-- The frames that bear the id of a camera. -/
def ofCamera (cameras : Fin m → CameraConfig) (c : Fin m) (frames : List RawFrame) :
    List RawFrame := frames.filter (fun frame => frame.cameraId = (cameras c).cameraId)

/-- The stream holds these frames, and of one of the cameras in the order of capture. -/
structure Lineup (cameras : Fin m → CameraConfig) (wires : Wires K φ π ψ ρ) (c : Fin m)
    (s : Pipeline m n K ι φ π ψ ρ) (frames : List RawFrame) : Prop where
  entries : s.frames.entries = frames.map wires.frames.dump
  configured : ∀ c', (s.cameras c').camera = cameras c'
  own : ∀ c' frame, (s.cameras c').frame = some frame → frame.cameraId = (cameras c').cameraId
  sequenced : (s.cameras c).Sequenced (ofCamera cameras c frames)

theorem start_lineup (wires : Wires K φ π ψ ρ) (c : Fin m) :
    Lineup cameras wires c (start cameras : Pipeline m n K ι φ π ψ ρ) [] :=
  ⟨rfl, fun _ => rfl, fun _ _ hf => (by cases hf), FramePublisher.start_sequenced (cameras c)⟩

omit [Rounding K] in
theorem Lineup.same (h : Lineup cameras wires c s frames) (hcameras : s'.cameras = s.cameras)
    (hentries : s'.frames.entries = s.frames.entries) : Lineup cameras wires c s' frames :=
  ⟨hentries.trans h.entries, hcameras ▸ h.configured, hcameras ▸ h.own, hcameras ▸ h.sequenced⟩

theorem ofCamera_append (frames sent : List RawFrame) :
    ofCamera cameras c (frames ++ sent) = ofCamera cameras c frames ++ ofCamera cameras c sent :=
  List.filter_append ..

theorem ofCamera_own {c' : Fin m} {sent : List RawFrame}
    (hsent : ∀ frame ∈ sent, frame.cameraId = (cameras c').cameraId) :
    ofCamera cameras c sent =
      if (cameras c').cameraId = (cameras c).cameraId then sent else [] := by
  split
  · rename_i hid
    exact List.filter_eq_self.mpr (fun frame hf => decide_eq_true ((hsent frame hf).trans hid))
  · rename_i hid
    refine List.filter_eq_nil_iff.mpr (fun frame hf heq => ?_)
    exact hid ((hsent frame hf).symm.trans (of_decide_eq_true heq))

omit [Rounding K] in
/-- A camera goes on, and what it sends goes to the end of the stream. -/
theorem Lineup.camera {c' : Fin m} {camera : FramePublisher K ι} {sent : List RawFrame}
    (h : Lineup cameras wires c s frames)
    (hother : ∀ c', (cameras c').cameraId = (cameras c).cameraId → c' = c)
    (hcameras : s'.cameras = Function.update s.cameras c' camera)
    (hentries : s'.frames.entries = s.frames.entries ++ sent.map wires.frames.dump)
    (hsame : camera.camera = (s.cameras c').camera)
    (hown : ∀ frame, camera.frame = some frame → frame.cameraId = (cameras c').cameraId)
    (hsent : ∀ frame ∈ sent, (s.cameras c').frame = some frame)
    (hsequenced : c' = c → camera.Sequenced (ofCamera cameras c frames ++ sent)) :
    Lineup cameras wires c s' (frames ++ sent) := by
  have hids : ∀ frame ∈ sent, frame.cameraId = (cameras c').cameraId :=
    fun frame hf => h.own c' frame (hsent frame hf)
  refine ⟨by rw [hentries, h.entries, List.map_append], fun d => ?_, fun d frame hf => ?_, ?_⟩
  · rw [hcameras]
    by_cases hd : d = c'
    · subst hd
      rw [Function.update_self, hsame, h.configured]
    · rw [Function.update_of_ne hd, h.configured]
  · rw [hcameras] at hf
    by_cases hd : d = c'
    · subst hd
      rw [Function.update_self] at hf
      exact hown frame hf
    · rw [Function.update_of_ne hd] at hf
      exact h.own d frame hf
  · rw [hcameras, ofCamera_append, ofCamera_own hids]
    by_cases hd : c' = c
    · subst hd
      rw [Function.update_self, if_pos rfl]
      exact hsequenced rfl
    · rw [Function.update_of_ne (Ne.symm hd), if_neg (fun hid => hd (hother c' hid)),
        List.append_nil]
      exact h.sequenced

section Step
variable [HasSqrt K] {cfg : Fin n → BatcherConfig} {svc : Fin n → Services K ι}

theorem workerStep_frames {i : Fin n} {a : WorkerAction K ι π}
    (h : workerStep cfg svc wires s i a = some s') :
    s'.cameras = s.cameras ∧ s'.frames.entries = s.frames.entries := by
  obtain ⟨worker, _, h⟩ := Option.bind_eq_some_iff.mp h
  cases h
  have htold := told_tell wires ((s.workers i).process.told worker.process) (s.setWorker i worker)
  exact ⟨htold.cameras, htold.entries⟩

omit [HasSqrt K] [Rounding K] in
theorem storageStep_frames {a : StorageAction ρ} (h : storageStep wires s a = some s') :
    s'.cameras = s.cameras ∧ s'.frames.entries = s.frames.entries := by
  obtain ⟨storage, _, h⟩ := Option.bind_eq_some_iff.mp h
  cases h
  exact ⟨rfl, rfl⟩

/-- Where a camera, or one that shares its id, is not started anew, what it sends stays in order. -/
theorem Lineup.step {a : PipelineAction m n K ι π ρ} (h : Lineup cameras wires c s frames)
    (hother : ∀ c', (cameras c').cameraId = (cameras c).cameraId → c' = c)
    (ha : a ≠ .cameraRestart c) (hstep : step cfg svc wires s a = some s') :
    ∃ frames', Lineup cameras wires c s' frames' := by
  cases a with
  | camera c' a =>
    obtain ⟨camera, hcamera, hreturn⟩ := Option.bind_eq_some_iff.mp hstep
    cases hreturn
    have hshooting := shooting_step hcamera
    refine ⟨_, h.camera hother rfl (xadds_spec wires.frames _ _).1 hshooting.camera
      (fun frame hf => ?_) hshooting.sent (fun hc => ?_)⟩
    · rcases hshooting.atHand frame hf with hf | ⟨captured, _, frameId, frameUri, rfl⟩
      · exact h.own c' frame hf
      · exact congrArg CameraConfig.cameraId (h.configured c')
    · subst hc
      exact h.sequenced.step hcamera
  | cameraRetry c' =>
    obtain ⟨frame, hframe, rfl⟩ := Option.map_eq_some_iff.mp hstep
    refine ⟨frames ++ [frame], h.camera hother (Function.update_eq_self c' s.cameras).symm rfl rfl
      (h.own c') (fun f hf => ?_) (fun hc => ?_)⟩
    · rw [List.mem_singleton.mp hf]
      exact hframe
    · subst hc
      exact h.sequenced.retry hframe
  | cameraRestart c' =>
    cases hstep
    have hne : c' ≠ c := fun hc => ha (congrArg _ hc)
    refine ⟨frames ++ [], h.camera hother rfl ?_ rfl (fun frame hf => (by cases hf))
      (fun frame hf => (by cases hf)) (fun hc => absurd hc hne)⟩
    simp [setCamera]
  | consume i consumerName =>
    have hreceived := RedisStreams.received_spec wires.frames.loads consumerName defaultCount
      s.frames
    simp only [Pipeline.step] at hstep
    split at hstep
    · obtain ⟨worker, _, hreturn⟩ := Option.bind_eq_some_iff.mp hstep
      cases hreturn
      exact ⟨frames, h.same rfl hreceived.entries⟩
    · obtain ⟨hcameras, hentries⟩ := workerStep_frames hstep
      exact ⟨frames, h.same hcameras (hentries.trans hreceived.entries)⟩
  | consumeLost i consumerName e =>
    have hreceived := RedisStreams.received_spec wires.frames.loads consumerName defaultCount
      s.frames
    obtain ⟨hcameras, hentries⟩ := workerStep_frames hstep
    exact ⟨frames, h.same hcameras (hentries.trans hreceived.entries)⟩
  | worker i a =>
    have hmoved : workerStep cfg svc wires s i a = some s' := by
      cases a with
      | consumed messages => cases hstep
      | submit => exact hstep
      | returned => exact hstep
      | raise e => exact hstep
      | batcher a => exact hstep
      | process a => exact hstep
      | restart => exact hstep
    obtain ⟨hcameras, hentries⟩ := workerStep_frames hmoved
    exact ⟨frames, h.same hcameras hentries⟩
  | workerRetry i =>
    obtain ⟨event, _, rfl⟩ := Option.map_eq_some_iff.mp hstep
    exact ⟨frames, h.same rfl rfl⟩
  | storageConsume consumerName =>
    simp only [Pipeline.step] at hstep
    split at hstep
    · split at hstep
      · obtain ⟨hcameras, hentries⟩ := storageStep_frames hstep
        exact ⟨frames, h.same hcameras hentries⟩
      · obtain ⟨hcameras, hentries⟩ := storageStep_frames hstep
        exact ⟨frames, h.same hcameras hentries⟩
    · cases hstep
  | storageConsumeLost consumerName e =>
    simp only [Pipeline.step] at hstep
    split at hstep
    · obtain ⟨hcameras, hentries⟩ := storageStep_frames hstep
      exact ⟨frames, h.same hcameras hentries⟩
    · cases hstep
  | storage a =>
    have hmoved : storageStep wires s a = some s' := by
      cases a with
      | consumed messages => cases hstep
      | validate => exact hstep
      | rows => exact hstep
      | page => exact hstep
      | commit => exact hstep
      | ack => exact hstep
      | raise e reached => exact hstep
      | restart => exact hstep
    obtain ⟨hcameras, hentries⟩ := storageStep_frames hmoved
    exact ⟨frames, h.same hcameras hentries⟩

theorem lineup_run {actions : List (PipelineAction m n K ι π ρ)}
    (hother : ∀ c', (cameras c').cameraId = (cameras c).cameraId → c' = c)
    (hrestart : .cameraRestart c ∉ actions)
    (h : Run (Pipeline.step cfg svc wires) (start cameras) actions s) :
    ∃ frames, Lineup cameras wires c s frames := by
  induction actions using List.reverseRecOn generalizing s with
  | nil =>
    obtain rfl := run_nil.mp h
    exact ⟨[], start_lineup wires c⟩
  | append_singleton actions a ih =>
    obtain ⟨mid, hmid, hlast⟩ := run_append.mp h
    rw [List.mem_append, List.mem_singleton, not_or] at hrestart
    obtain ⟨frames, hlineup⟩ := ih hrestart.1 hmid
    exact hlineup.step hother (Ne.symm hrestart.2) (run_singleton.mp hlast)

/-- Of this camera, the one entry does not come after the other. -/
def InOrder (cameras : Fin m → CameraConfig) (wires : Wires K φ π ψ ρ) (c : Fin m)
    (s : Pipeline m n K ι φ π ψ ρ) (j j' : Nat) : Prop :=
  ∀ frame frame', s.frames.entries[j]? = some (wires.frames.dump frame) →
    s.frames.entries[j']? = some (wires.frames.dump frame') →
    frame.cameraId = (cameras c).cameraId → frame'.cameraId = (cameras c).cameraId →
      frame.NotAfter frame'

omit [HasSqrt K] [Rounding K] in
theorem Lineup.inOrder (h : Lineup cameras wires c s frames) {j j' : Nat} (hlt : j < j') :
    InOrder cameras wires c s j j' := by
  intro frame frame' hentry hentry' hid hid'
  have hat : ∀ {j : Nat} {frame : RawFrame}, s.frames.entries[j]? = some (wires.frames.dump frame) →
      frames[j]? = some frame := by
    intro j frame hentry
    rw [h.entries, List.getElem?_map] at hentry
    obtain ⟨f, hf, hdump⟩ := Option.map_eq_some_iff.mp hentry
    rw [hf, wires.frames.dump_injective hdump]
  obtain ⟨hj, rfl⟩ := List.getElem?_eq_some_iff.mp (hat hentry)
  obtain ⟨hj', rfl⟩ := List.getElem?_eq_some_iff.mp (hat hentry')
  have hordered := List.pairwise_filter.mp h.sequenced.ordered
  exact List.pairwise_iff_getElem.mp hordered j j' hj hj' hlt (decide_eq_true hid)
    (decide_eq_true hid')

/-- While a camera's thread lives, its frames are in the stream in the order of capture, one that
had to be sent again perhaps twice; and whatever else crashes, every worker updates with them in
this order. -/
theorem updates_in_capture_order (cfg : Fin n → BatcherConfig) (svc : Fin n → Services K ι)
    {actions : List (PipelineAction m n K ι π ρ)}
    (hother : ∀ c', (cameras c').cameraId = (cameras c).cameraId → c' = c)
    (hrestart : .cameraRestart c ∉ actions)
    (h : Run (Pipeline.step cfg svc wires) (start cameras) actions s) :
    (∀ j j', j < j' → InOrder cameras wires c s j j') ∧
    ∀ i, ∃ positions : List Nat, (s.processes i).updatedIds = positions.map entryId ∧
      positions.Pairwise (InOrder cameras wires c s) := by
  obtain ⟨frames, hlineup⟩ := lineup_run hother hrestart h
  obtain ⟨positions, hlined⟩ := lined_run h
  refine ⟨fun j j' hlt => hlineup.inOrder hlt, fun i => ?_⟩
  obtain ⟨updated, hupdated, hids⟩ := hlined.updated i
  exact ⟨updated, hids, ((hlined.increasing i).sublist hupdated).imp (hlineup.inOrder ·)⟩

end Step

/-- Both frames have reached the stream, and the second worker has updated with the later one. -/
theorem updates_in_capture_order_one_dies : ∃ s frame frame',
    Run (step (fun _ => InferenceWorker.singleConfig) pairServices plainWires)
        (start (fun _ => tenFps)) (oneDies 0 1) s ∧
      s.frames.entries = [frame, frame'] ∧ frame.frameId = "f1" ∧ frame.NotAfter frame' := by
  have hrun : ((oneDies 0 1).foldlM
      (step (fun _ => InferenceWorker.singleConfig) pairServices plainWires)
      (start (fun _ => tenFps))).any (fun s =>
        s.frames.entries == [⟨"f1", "cam-1", "file://f1.jpg", 1⟩,
          ⟨"f2", "cam-1", "file://f2.jpg", 2⟩]) = true := by
    decide +kernel
  obtain ⟨s, hs, hp⟩ := (Option.any_eq_true _ _).mp hrun
  rw [beq_iff_eq] at hp
  have hrestart : PipelineAction.cameraRestart 0 ∉ oneDies 0 1 := by
    simp [oneDies, sends, untilEvent]
  have horder := (updates_in_capture_order _ _ (fun _ _ => Subsingleton.elim _ _) hrestart hs).1
  exact ⟨s, _, _, hs, hp, rfl, horder 0 1 Nat.zero_lt_one _ _ (by rw [hp]; rfl) (by rw [hp]; rfl)
    rfl rfl⟩

end Pipeline
end CamTrack
