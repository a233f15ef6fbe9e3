import CamTrack.Proofs.FailingLoads
import CamTrack.Proofs.Pipeline
import CamTrack.Proofs.RtspReader

namespace CamTrack
open Python Machine RedisStreams

variable {K : Type} [Field K] [LinearOrder K]

theorem getElem?_of_prefix {xs ys : List α} {j : Nat} {x : α} (h : xs <+: ys)
    (hx : xs[j]? = some x) : ys[j]? = some x := by
  obtain ⟨more, rfl⟩ := h
  rw [List.getElem?_append_left (List.getElem?_eq_some_iff.mp hx).1, hx]

namespace Wire
variable {α φ π : Type} (wire : Wire α φ π)

/-- A message is that of an entry of the stream. -/
def Sent (entries : List φ) (message : Message String π) : Prop :=
  ∃ j a, message.messageId = entryId j ∧ entries[j]? = some (wire.dump a) ∧
    wire.loads (wire.dump a) = .ok message.payload

/-- A value with the id of its entry. -/
def Backed (entries : List φ) (item : String × α) : Prop :=
  ∃ j, item.1 = entryId j ∧ entries[j]? = some (wire.dump item.2)

variable {wire} {entries entries' : List φ}

theorem Sent.mono {message : Message String π} (h : wire.Sent entries message)
    (hle : entries <+: entries') : wire.Sent entries' message := by
  obtain ⟨j, a, hid, hentry, hloads⟩ := h
  exact ⟨j, a, hid, getElem?_of_prefix hle hentry, hloads⟩

theorem Backed.mono {item : String × α} (h : wire.Backed entries item)
    (hle : entries <+: entries') : wire.Backed entries' item := by
  obtain ⟨j, hid, hentry⟩ := h
  exact ⟨j, hid, getElem?_of_prefix hle hentry⟩

theorem Sent.backed {message : Message String π} {a : α} (h : wire.Sent entries message)
    (hvalidate : wire.validate message.payload = .ok a) :
    wire.Backed entries (message.messageId, a) := by
  obtain ⟨j, b, hid, hentry, hloads⟩ := h
  rw [wire.validate_of_loads hloads] at hvalidate
  cases hvalidate
  exact ⟨j, hid, hentry⟩

/-- What a `consume` returns has been dumped. -/
theorem sent_of_received {s s' : RedisStreams φ} {messages : List (Message String π)}
    (hdumps : ∀ fields ∈ s.entries, ∃ a, fields = wire.dump a)
    (h : Received wire.loads s s' (.ok messages)) :
    ∀ message ∈ messages, wire.Sent s.entries message := by
  intro message hm
  obtain ⟨j, fields, hid, hentry, hloads⟩ := h.messages messages rfl message hm
  obtain ⟨a, rfl⟩ := hdumps fields (List.mem_of_getElem? hentry)
  exact ⟨j, a, hid, hentry, hloads⟩

end Wire

/-- Nothing but consuming adds to what has been delivered, and no ack is taken back. -/
theorem StorageLoop.delivered_step {ρ : Type} {validate : ρ → Except Error (TrackEvent K)}
    {s s' : StorageLoop K ρ} {a : StorageAction ρ} (ha : ∀ messages, a ≠ .consumed messages)
    (h : s.step validate a = some s') : s'.delivered = s.delivered ∧ s.acked <+: s'.acked := by
  cases a with
  | consumed messages => exact absurd rfl (ha messages)
  | validate =>
    simp only [step] at h
    split at h
    · split at h <;> cases h <;> exact ⟨rfl, List.prefix_rfl⟩
    · cases h
  | rows =>
    simp only [step] at h
    split at h
    · split at h <;> cases h <;> exact ⟨rfl, List.prefix_rfl⟩
    · cases h
  | page =>
    simp only [step] at h
    split at h <;> cases h
    exact ⟨rfl, List.prefix_rfl⟩
  | commit =>
    simp only [step] at h
    split at h <;> cases h
    exact ⟨rfl, List.prefix_rfl⟩
  | ack =>
    simp only [step] at h
    split at h <;> cases h
    exact ⟨rfl, List.prefix_append _ _⟩
  | restart =>
    cases h
    exact ⟨rfl, List.prefix_rfl⟩
  | raise e reached =>
    simp only [step, StorageLoop.raise] at h
    split at h <;> cases h
    · exact ⟨rfl, List.prefix_rfl⟩
    · exact ⟨rfl, List.prefix_rfl⟩
    · exact ⟨rfl, List.prefix_rfl⟩
    · cases reached
      · exact ⟨rfl, List.prefix_rfl⟩
      · exact ⟨rfl, List.prefix_append _ _⟩

namespace Pipeline
variable {m n : Nat} {ι φ π ψ ρ : Type} {wires : Wires K φ π ψ ρ}
  {s s' : Pipeline m n K ι φ π ψ ρ}

section Frames

/-- The frame of an image that a publisher has saved. -/
def Shot (s : Pipeline m n K ι φ π ψ ρ) (frame : RawFrame) : Prop :=
  ∃ c, ∃ captured ∈ (s.cameras c).saved, ∃ frameId frameUri,
    frame = (s.cameras c).rawFrame captured frameId frameUri

/-- Every frame in the stream is that of an image. -/
structure Shots (cameras : Fin m → CameraConfig) (wires : Wires K φ π ψ ρ)
    (s : Pipeline m n K ι φ π ψ ρ) : Prop where
  configured : ∀ c, (s.cameras c).camera = cameras c
  atHand : ∀ c frame, (s.cameras c).frame = some frame → s.Shot frame
  entries : ∀ fields ∈ s.frames.entries, ∃ frame, fields = wires.frames.dump frame ∧ s.Shot frame

variable {cameras : Fin m → CameraConfig}

theorem Shots.same (h : Shots cameras wires s) (hcameras : s'.cameras = s.cameras)
    (hentries : s'.frames.entries = s.frames.entries) : Shots cameras wires s' := by
  obtain ⟨hconfigured, hhand, hold⟩ := h
  have hshot : ∀ frame, s.Shot frame → s'.Shot frame := by
    intro frame hf
    rwa [Shot, hcameras]
  exact ⟨hcameras ▸ hconfigured, fun c frame hf => hshot frame (hhand c frame (hcameras ▸ hf)),
    fun fields hf => (hold fields (hentries ▸ hf)).imp (fun frame hf => ⟨hf.1, hshot frame hf.2⟩)⟩

/-- Frames that are put into the stream go to its end, and the group does not notice. -/
theorem xadds_spec (wire : Wire RawFrame φ π) (sent : List RawFrame) (t : RedisStreams φ) :
    (sent.foldl (fun frames frame => frames.xadd (wire.dump frame)) t).entries =
        t.entries ++ sent.map wire.dump ∧
      (sent.foldl (fun frames frame => frames.xadd (wire.dump frame)) t).delivered = t.delivered ∧
      (sent.foldl (fun frames frame => frames.xadd (wire.dump frame)) t).pendingIds =
        t.pendingIds := by
  induction sent generalizing t with
  | nil => simp
  | cons frame sent ih => simp [ih]

theorem Shots.camera {c : Fin m} {camera : FramePublisher K ι} {sent : List RawFrame}
    (h : Shots cameras wires s) (hshooting : Shooting (s.cameras c) camera sent) :
    Shots cameras wires { s.setCamera c camera with
      frames := sent.foldl (fun frames frame => frames.xadd (wires.frames.dump frame)) s.frames } := by
  obtain ⟨hconfigured, hhand, hold⟩ := h
  have hshot : ∀ frame, s.Shot frame → (s.setCamera c camera).Shot frame := by
    rintro _ ⟨c', captured, hsaved, frameId, frameUri, rfl⟩
    refine ⟨c', captured, ?_, frameId, frameUri, ?_⟩
    all_goals by_cases hc : c' = c
    · subst hc
      simpa [setCamera] using hshooting.saved hsaved
    · simpa [setCamera, hc] using hsaved
    · subst hc
      simp [setCamera, FramePublisher.rawFrame, hshooting.camera]
    · simp [setCamera, hc]
  refine ⟨?_, ?_, ?_⟩
  · intro c'
    by_cases hc : c' = c
    · subst hc
      simpa [setCamera, hshooting.camera] using hconfigured c'
    · simpa [setCamera, hc] using hconfigured c'
  · intro c' frame hf
    by_cases hc : c' = c
    · subst hc
      simp only [setCamera, Function.update_self] at hf
      rcases hshooting.atHand frame hf with hf | ⟨captured, hsaved, frameId, frameUri, rfl⟩
      · exact hshot frame (hhand c' frame hf)
      · refine ⟨c', captured, by simpa [setCamera] using hsaved, frameId, frameUri, ?_⟩
        simp [setCamera, FramePublisher.rawFrame, hshooting.camera]
    · simp only [setCamera, Function.update_of_ne hc] at hf
      exact hshot frame (hhand c' frame hf)
  · intro fields hf
    rw [(xadds_spec wires.frames sent s.frames).1, List.mem_append] at hf
    rcases hf with hf | hf
    · exact (hold fields hf).imp (fun frame hf => ⟨hf.1, hshot frame hf.2⟩)
    · obtain ⟨frame, hsent, rfl⟩ := List.mem_map.mp hf
      exact ⟨frame, rfl, hshot frame (hhand c frame (hshooting.sent frame hsent))⟩

end Frames

section Runs
variable [HasSqrt K] [Rounding K] {cfg : Fin n → BatcherConfig} {svc : Fin n → Services K ι}
  {cameras : Fin m → CameraConfig}

theorem Shots.move (h : Shots cameras wires s) (hmove : Move cfg svc wires s s') :
    Shots cameras wires s' := by
  cases hmove with
  | camera c camera sent hshooting hs => exact hs ▸ h.camera hshooting
  | taken frames result hreceived hs => exact hs ▸ h.same rfl hreceived.entries
  | consumed i frames messages worker hreceived _ hs => exact hs ▸ h.same rfl hreceived.entries
  | worker i a worker _ _ hs =>
    have htold := told_tell wires ((s.workers i).process.told worker.process) (s.setWorker i worker)
    exact hs ▸ h.same htold.cameras htold.entries
  | retried i event _ hs => exact hs ▸ h.same rfl rfl
  | eventsTaken events result _ hs => exact hs ▸ h.same rfl rfl
  | stored events messages storage _ _ hs => exact hs ▸ h.same rfl rfl
  | storage a storage _ _ hs => exact hs ▸ h.same rfl rfl

/-- The frames that have been put into the stream stay there. -/
theorem Move.frames (h : Move cfg svc wires s s') : s.frames.entries <+: s'.frames.entries := by
  cases h with
  | camera c camera sent _ hs =>
    rw [hs]
    exact (xadds_spec wires.frames sent s.frames).1 ▸ List.prefix_append _ _
  | taken frames result hreceived hs => rw [hs, hreceived.entries]
  | consumed i frames messages worker hreceived _ hs => rw [hs, hreceived.entries]
  | worker i a worker _ _ hs =>
    rw [hs, (told_tell wires _ (s.setWorker i worker)).entries]
    exact List.prefix_rfl
  | retried i event _ hs => rw [hs]
  | eventsTaken events result _ hs => rw [hs]
  | stored events messages storage _ _ hs => rw [hs]
  | storage a storage _ _ hs => rw [hs]

/-- What every worker holds are messages of the stream, and frames of these. -/
def Feeding (svc : Fin n → Services K ι) (wires : Wires K φ π ψ ρ)
    (s : Pipeline m n K ι φ π ψ ρ) : Prop :=
  ∀ i, (s.workers i).Fed (svc i) (wires.frames.Sent s.frames.entries)
    (wires.frames.Backed s.frames.entries)

omit [Rounding K] in
theorem Feeding.same (h : Feeding svc wires s) (hworkers : s'.workers = s.workers)
    (hframes : s.frames.entries <+: s'.frames.entries) : Feeding svc wires s' := by
  intro i
  rw [hworkers]
  exact (h i).mono (fun _ hm => hm.mono hframes) (fun _ hi => hi.mono hframes)

omit [Rounding K] in
theorem Feeding.setWorker {i : Fin n} {worker : WorkerLoop K ι π} (h : Feeding svc wires s)
    (hworker : worker.Fed (svc i) (wires.frames.Sent s.frames.entries)
      (wires.frames.Backed s.frames.entries)) : Feeding svc wires (s.setWorker i worker) := by
  intro i'
  by_cases hi : i' = i
  · subst hi
    simpa [Pipeline.setWorker] using hworker
  · simpa [Pipeline.setWorker, hi] using h i'

theorem Feeding.move [IsStrictOrderedRing K] (hsolver : ∀ i, Assigns (svc i).solver)
    (hshots : Shots cameras wires s) (h : Feeding svc wires s) (hmove : Move cfg svc wires s s') :
    Feeding svc wires s' := by
  have hframes := hmove.frames
  cases hmove with
  | camera c camera sent _ hs => exact hs ▸ h.same rfl (hs ▸ hframes)
  | taken frames result _ hs => exact hs ▸ h.same rfl (hs ▸ hframes)
  | consumed i frames messages worker hreceived hworker hs =>
    obtain ⟨_, hafter, hunbatched, hprocess⟩ := WorkerLoop.consumed_spec hworker
    have hsent := Wire.sent_of_received
      (fun fields hf => (hshots.entries fields hf).imp (fun _ hf => hf.1)) hreceived
    have hset := h.setWorker ((h i).consumed hafter hunbatched hprocess hsent)
    exact hs ▸ hset.same rfl (hs ▸ hframes)
  | worker i a worker ha hworker hs =>
    have hset := h.setWorker ((h i).moved (hsolver i) (fun _ _ hm hv => hm.backed hv)
      (WorkerLoop.moved ha hworker))
    have htold := told_tell wires ((s.workers i).process.told worker.process) (s.setWorker i worker)
    exact hs ▸ hset.same htold.workers (htold.entries ▸ List.prefix_rfl)
  | retried i event _ hs => exact hs ▸ h.same rfl List.prefix_rfl
  | eventsTaken events result _ hs => exact hs ▸ h.same rfl List.prefix_rfl
  | stored events messages storage _ _ hs => exact hs ▸ h.same rfl List.prefix_rfl
  | storage a storage _ _ hs => exact hs ▸ h.same rfl List.prefix_rfl

/-- The lines of the workers hold the entries at these positions, each of them once. -/
structure Lined (positions : Fin n → List Nat) (s : Pipeline m n K ι φ π ψ ρ) : Prop where
  line : ∀ i, (s.workers i).line = (positions i).map entryId
  increasing : ∀ i, (positions i).Pairwise (· < ·)
  taken : ∀ i, ∀ j ∈ positions i, j < s.frames.delivered
  disjoint : ∀ i i', i ≠ i' → (positions i).Disjoint (positions i')

omit [HasSqrt K] [Rounding K] in
theorem Lined.same {positions : Fin n → List Nat} (h : Lined positions s)
    (hworkers : s'.workers = s.workers) (htaken : s.frames.delivered ≤ s'.frames.delivered) :
    Lined positions s' :=
  ⟨hworkers ▸ h.line, h.increasing, fun i j hj => (h.taken i j hj).trans_le htaken, h.disjoint⟩

omit [HasSqrt K] [Rounding K] in
/-- A worker's line loses some of its entries. -/
theorem Lined.drop {positions : Fin n → List Nat} {i : Fin n} {worker : WorkerLoop K ι π}
    (h : Lined positions s) (hline : worker.line.Sublist (s.workers i).line) :
    ∃ positions', Lined positions' (s.setWorker i worker) := by
  rw [h.line i] at hline
  obtain ⟨kept, hkept, hids⟩ := List.sublist_map_iff.mp hline
  have hsub : ∀ i', Function.update positions i kept i' ⊆ positions i' := by
    intro i'
    by_cases hi : i' = i
    · subst hi
      simpa using hkept.subset
    · simp [hi]
  refine ⟨Function.update positions i kept, ?_, ?_, fun i' j hj => h.taken i' j (hsub i' hj), ?_⟩
  · intro i'
    by_cases hi : i' = i
    · subst hi
      simpa [Pipeline.setWorker] using hids
    · simpa [Pipeline.setWorker, hi] using h.line i'
  · intro i'
    by_cases hi : i' = i
    · subst hi
      simpa using (h.increasing i').sublist hkept
    · simpa [hi] using h.increasing i'
  · intro i₁ i₂ hne j hj₁ hj₂
    exact h.disjoint i₁ i₂ hne (hsub i₁ hj₁) (hsub i₂ hj₂)

omit [HasSqrt K] [Rounding K] in
/-- A worker's line gains what the group has just been delivered. -/
theorem Lined.join {positions : Fin n → List Nat} {i : Fin n} {worker : WorkerLoop K ι π}
    {frames : RedisStreams φ} {count : Nat} (h : Lined positions s)
    (hdelivered : frames.delivered = s.frames.delivered + count)
    (hline : worker.line = (s.workers i).line ++
      (List.range' s.frames.delivered count).map entryId) :
    ∃ positions', Lined positions' { s.setWorker i worker with frames := frames } := by
  let positions' := Function.update positions i
    (positions i ++ List.range' s.frames.delivered count)
  have hnew : ∀ i' j, j ∈ positions' i' → j ∈ positions i' ∨
      i' = i ∧ s.frames.delivered ≤ j ∧ j < s.frames.delivered + count := by
    intro i' j hj
    by_cases hi : i' = i
    · subst hi
      simp only [positions', Function.update_self, List.mem_append, List.mem_range'_1] at hj
      exact hj.imp_right (fun hj => ⟨rfl, hj⟩)
    · exact .inl (by simpa [positions', hi] using hj)
  refine ⟨positions', ?_, ?_, ?_, ?_⟩
  · intro i'
    by_cases hi : i' = i
    · subst hi
      simp [positions', Pipeline.setWorker, hline, h.line]
    · simpa [positions', Pipeline.setWorker, hi] using h.line i'
  · intro i'
    by_cases hi : i' = i
    · subst hi
      simp only [positions', Function.update_self]
      refine List.pairwise_append.mpr ⟨h.increasing i', List.pairwise_lt_range', ?_⟩
      intro j hj j' hj'
      exact (h.taken i' j hj).trans_le (List.mem_range'_1.mp hj').1
    · simpa [positions', hi] using h.increasing i'
  · intro i' j hj
    rw [hdelivered]
    rcases hnew i' j hj with hj | ⟨_, _, hj⟩
    · exact (h.taken i' j hj).trans_le (Nat.le_add_right _ _)
    · exact hj
  · intro i₁ i₂ hne j hj₁ hj₂
    rcases hnew i₁ j hj₁ with hold₁ | ⟨rfl, hle₁, _⟩
    · rcases hnew i₂ j hj₂ with hold₂ | ⟨rfl, hle₂, _⟩
      · exact h.disjoint i₁ i₂ hne hold₁ hold₂
      · exact absurd (h.taken i₁ j hold₁) (Nat.not_lt.mpr hle₂)
    · rcases hnew i₂ j hj₂ with hold₂ | ⟨rfl, _, _⟩
      · exact absurd (h.taken i₂ j hold₂) (Nat.not_lt.mpr hle₁)
      · exact hne rfl

theorem lined_move (h : ∃ positions, Lined positions s) (hmove : Move cfg svc wires s s') :
    ∃ positions, Lined positions s' := by
  obtain ⟨positions, h⟩ := h
  have htaken : ∀ {frames : RedisStreams φ} {result}, Received wires.frames.loads s.frames frames
      result → s.frames.delivered ≤ frames.delivered := by
    rintro frames result ⟨_, ⟨count, hdelivered, _⟩, _⟩
    omega
  cases hmove with
  | camera c camera sent _ hs =>
    exact ⟨positions, hs ▸ h.same rfl (xadds_spec wires.frames sent s.frames).2.1.ge⟩
  | taken frames result hreceived hs => exact ⟨positions, hs ▸ h.same rfl (htaken hreceived)⟩
  | consumed i frames messages worker hreceived hworker hs =>
    obtain ⟨hbefore, hafter, hunbatched, hprocess⟩ := WorkerLoop.consumed_spec hworker
    obtain ⟨count, hdelivered, _, hids⟩ := hreceived.taken
    refine hs ▸ h.join hdelivered ?_
    rw [WorkerLoop.line_consumed hbefore hafter hunbatched hprocess, hids messages rfl]
  | worker i a worker ha hworker hs =>
    obtain ⟨positions', hdrop⟩ := h.drop (WorkerLoop.moved ha hworker).line_sublist
    have htold := told_tell wires ((s.workers i).process.told worker.process) (s.setWorker i worker)
    exact ⟨positions', hs ▸ hdrop.same htold.workers htold.delivered.ge⟩
  | retried i event _ hs => exact ⟨positions, hs ▸ h.same rfl le_rfl⟩
  | eventsTaken events result _ hs => exact ⟨positions, hs ▸ h.same rfl le_rfl⟩
  | stored events messages storage _ _ hs => exact ⟨positions, hs ▸ h.same rfl le_rfl⟩
  | storage a storage _ _ hs => exact ⟨positions, hs ▸ h.same rfl le_rfl⟩

omit [HasSqrt K] in
/-- Acks take what they name out of what is pending. -/
theorem xackIds_spec (acked : List (Message String ρ)) (t : RedisStreams ψ) :
    (acked.foldl (fun events message => events.xackId message.messageId) t).entries = t.entries ∧
      (acked.foldl (fun events message => events.xackId message.messageId) t).delivered =
        t.delivered ∧
      ∀ j ∈ t.pendingIds,
        j ∈ (acked.foldl (fun events message => events.xackId message.messageId) t).pendingIds ∨
          ∃ message ∈ acked, message.messageId = entryId j := by
  induction acked generalizing t with
  | nil => exact ⟨rfl, rfl, fun j hj => .inl hj⟩
  | cons message acked ih =>
    obtain ⟨hentries, hdelivered, hpending⟩ := ih (t.xackId message.messageId)
    refine ⟨hentries, hdelivered.trans (delivered_xackId _ _), fun j hj => ?_⟩
    by_cases hid : message.messageId = entryId j
    · exact .inr ⟨message, List.mem_cons_self, hid⟩
    · have hkept : j ∈ (t.xackId message.messageId).pendingIds := by
        simpa [hj] using fun h => hid h.symm
      refine (hpending j hkept).imp_right (fun hacked => ?_)
      exact hacked.imp (fun m hm => ⟨List.mem_cons_of_mem _ hm.1, hm.2⟩)

/-- The events in the stream are those that the workers have published, and no two of them
have one id. -/
structure Emitting (svc : Fin n → Services K ι) (wires : Wires K φ π ψ ρ)
    (processes : Fin n → BatchProcess K ι) (entries : List ψ) : Prop where
  honest : ∀ i, (processes i).Honest
  told : ∀ i event, .told (.published event) ∈ (processes i).trace →
    wires.events.dump event ∈ entries
  issued : ∀ fields ∈ entries, ∃ i event, fields = wires.events.dump event ∧
    (processes i).Issued (svc i) event ∧ BatchProcess.Sourced (processes i).trace event
  identify : ∀ event event', wires.events.dump event ∈ entries →
    wires.events.dump event' ∈ entries → event.eventId = event'.eventId → event = event'

/-- No two events of the workers get the same id. -/
def FreshIds (svc : Fin n → Services K ι) : Prop :=
  ∀ i i' k k', (svc i).uuid k = (svc i').uuid k' → i = i' ∧ k = k'

section Emitting
variable {processes processes' : Fin n → BatchProcess K ι} {entries : List ψ}

omit [HasSqrt K] [Rounding K] in
/-- The event at hand has an id of its own. -/
theorem issued_eq (hfresh : FreshIds svc) {i i' : Fin n} {event event' : TrackEvent K}
    (hhand : (processes i).eventAtHand (svc i) = some event)
    (hissued : (processes i').Issued (svc i') event')
    (hid : event.eventId = event'.eventId) : event = event' := by
  obtain ⟨k, hk, hissued⟩ := hissued
  obtain ⟨_, track, _, _, _, _, _, he⟩ := BatchProcess.eventAtHand_eq_some.mp hhand
  have hsame : (svc i).uuid (processes i).worker.constructed = (svc i').uuid k := by
    rw [← hk, ← hid, he]
    rfl
  obtain ⟨rfl, rfl⟩ := hfresh _ _ _ _ hsame
  rcases hissued with hlt | ⟨_, hhand'⟩
  · exact absurd hlt (lt_irrefl _)
  · exact Option.some.inj (hhand.symm.trans hhand')

omit [HasSqrt K] [Rounding K] in
theorem Emitting.add (hfresh : FreshIds svc) (h : Emitting svc wires processes entries)
    {added : List (TrackEvent K)}
    (hhand : ∀ event ∈ added, ∃ i, (processes i).eventAtHand (svc i) = some event) :
    Emitting svc wires processes (entries ++ added.map wires.events.dump) := by
  have hissued : ∀ fields ∈ entries ++ added.map wires.events.dump, ∃ i event,
      fields = wires.events.dump event ∧ (processes i).Issued (svc i) event ∧
        BatchProcess.Sourced (processes i).trace event := by
    intro fields hf
    rcases List.mem_append.mp hf with hf | hf
    · exact h.issued fields hf
    · obtain ⟨event, he, rfl⟩ := List.mem_map.mp hf
      obtain ⟨i, hi⟩ := hhand event he
      exact ⟨i, event, rfl, BatchProcess.issued_atHand hi, (h.honest i).atHand hi⟩
  have hown : ∀ event event', event ∈ added →
      wires.events.dump event' ∈ entries ++ added.map wires.events.dump →
      event.eventId = event'.eventId → event = event' := by
    intro event event' he he' hid
    obtain ⟨i, hi⟩ := hhand event he
    obtain ⟨i', event'', hdump, hissued', _⟩ := hissued _ he'
    obtain rfl := wires.events.dump_injective hdump
    exact issued_eq hfresh hi hissued' hid
  have hcases : ∀ event, wires.events.dump event ∈ entries ++ added.map wires.events.dump →
      wires.events.dump event ∈ entries ∨ event ∈ added := by
    intro event he
    refine (List.mem_append.mp he).imp_right (fun he => ?_)
    exact (List.mem_map_of_injective wires.events.dump_injective).mp he
  refine ⟨h.honest, fun i event he => List.mem_append_left _ (h.told i event he), hissued, ?_⟩
  intro event event' he he' hid
  rcases hcases event he with hold | hnew
  · rcases hcases event' he' with hold' | hnew'
    · exact h.identify event event' hold hold' hid
    · exact (hown event' event hnew' he hid.symm).symm
  · exact hown event event' hnew he' hid

omit [Rounding K] in
theorem Emitting.processed (h : Emitting svc wires processes entries)
    (hprocessed : ∀ i, (processes i).Processed (svc i) (processes' i))
    (htold : ∀ i event, .published event ∈ (processes i).told (processes' i) →
      wires.events.dump event ∈ entries) : Emitting svc wires processes' entries := by
  refine ⟨fun i => (hprocessed i).honest (h.honest i), ?_, ?_, h.identify⟩
  · intro i event he
    rcases (BatchProcess.mem_told (hprocessed i).trace).mp he with hold | hnew
    · exact h.told i event hold
    · exact htold i event hnew
  · intro fields hf
    obtain ⟨i, event, hdump, hissued, hsourced⟩ := h.issued fields hf
    exact ⟨i, event, hdump, (hprocessed i).issued hissued, hsourced.mono (hprocessed i).trace⟩

end Emitting

/-- `_process_batch` of every worker. -/
def processes (s : Pipeline m n K ι φ π ψ ρ) (i : Fin n) : BatchProcess K ι := (s.workers i).process

omit [HasSqrt K] [Rounding K] in
theorem processes_setWorker (s : Pipeline m n K ι φ π ψ ρ) (i : Fin n)
    (worker : WorkerLoop K ι π) :
    (s.setWorker i worker).processes = Function.update s.processes i worker.process := by
  funext i'
  by_cases hi : i' = i
  · subst hi
    simp [processes, setWorker]
  · simp [processes, setWorker, hi]

theorem processes_consumed {i : Fin n} {worker : WorkerLoop K ι π}
    {messages : List (Message String π)}
    (h : (s.workers i).step (cfg i) (svc i) wires.frames.validate (.consumed messages) =
      some worker) : (s.setWorker i worker).processes = s.processes := by
  obtain ⟨_, _, _, hprocess⟩ := WorkerLoop.consumed_spec h
  rw [processes_setWorker, hprocess]
  exact Function.update_eq_self i s.processes

theorem emitting_move (hfresh : FreshIds svc)
    (h : Emitting svc wires s.processes s.events.entries) (hmove : Move cfg svc wires s s') :
    Emitting svc wires s'.processes s'.events.entries := by
  cases hmove with
  | camera c camera sent _ hs => exact hs ▸ h
  | taken frames result _ hs => exact hs ▸ h
  | consumed i frames messages worker _ hworker hs =>
    rw [hs]
    exact (congrArg (Emitting svc wires · s.events.entries)
      (processes_consumed hworker)).mpr h
  | worker i a worker _ hworker hs =>
    have hprocessed := WorkerLoop.processed hworker
    have htold := told_tell wires ((s.workers i).process.told worker.process) (s.setWorker i worker)
    have hhand : ∀ event ∈ ((s.workers i).process.told worker.process).filterMap Effect.event,
        ∃ i, (s.processes i).eventAtHand (svc i) = some event := by
      intro event he
      obtain ⟨effect, heffect, he⟩ := List.mem_filterMap.mp he
      rw [Effect.event_eq_some.mp he] at heffect
      exact ⟨i, hprocessed.published heffect⟩
    have hprocesses : s'.processes = Function.update s.processes i worker.process := by
      rw [← processes_setWorker, hs]
      exact funext (fun i' => congrArg (fun workers => (workers i').process) htold.workers)
    rw [hprocesses, hs, htold.events]
    refine (h.add hfresh hhand).processed ?_ ?_
    · intro i'
      by_cases hi : i' = i
      · subst hi
        rw [Function.update_self]
        exact hprocessed
      · simpa [hi] using BatchProcess.Processed.same rfl
    · intro i' event he
      by_cases hi : i' = i
      · subst hi
        rw [Function.update_self] at he
        exact List.mem_append_right _ (List.mem_map_of_mem
          (List.mem_filterMap.mpr ⟨_, he, Effect.event_eq_some.mpr rfl⟩))
      · simp [hi, BatchProcess.told] at he
  | retried i event hhand hs =>
    have hone : ∀ event' ∈ [event], ∃ i, (s.processes i).eventAtHand (svc i) = some event' := by
      intro event' he
      rw [List.mem_singleton.mp he]
      exact ⟨i, hhand⟩
    rw [hs]
    exact h.add hfresh hone
  | eventsTaken events result hreceived hs =>
    rw [hs]
    exact hreceived.entries ▸ h
  | stored events messages storage hreceived _ hs =>
    rw [hs]
    exact hreceived.entries ▸ h
  | storage a storage _ _ hs =>
    rw [hs]
    exact (xackIds_spec (storage.acked.drop s.storage.acked.length) s.events).1 ▸ h

/-- Some worker has acked the raw frame. -/
def FrameAcked (s : Pipeline m n K ι φ π ψ ρ) (messageId : String) : Prop :=
  ∃ i, .told (.acked messageId) ∈ (s.processes i).trace

theorem settled_move (h : Settled s.FrameAcked s.frames) (hmove : Move cfg svc wires s s') :
    Settled s'.FrameAcked s'.frames := by
  cases hmove with
  | camera c camera sent _ hs =>
    obtain ⟨_, hdelivered, hpending⟩ := xadds_spec wires.frames sent s.frames
    exact hs ▸ h.mono (fun _ ha => ha) hdelivered (fun j hj => .inl (hpending ▸ hj))
  | taken frames result hreceived hs => exact hs ▸ h.received hreceived
  | consumed i frames messages worker hreceived hworker hs =>
    have hprocesses := processes_consumed hworker
    rw [hs]
    refine (h.received hreceived).mono (fun messageId ha => ?_) rfl (fun j hj => .inl hj)
    exact ha.imp (fun i' hi => (congrFun hprocesses i').symm ▸ hi)
  | worker i a worker _ hworker hs =>
    have hprocessed := WorkerLoop.processed hworker
    have htold := told_tell wires ((s.workers i).process.told worker.process) (s.setWorker i worker)
    have hprocesses : s'.processes = Function.update s.processes i worker.process := by
      rw [← processes_setWorker, hs]
      exact funext (fun i' => congrArg (fun workers => (workers i').process) htold.workers)
    have hself : s'.processes i = worker.process := by rw [hprocesses, Function.update_self]
    refine h.mono (fun messageId ha => ?_) (hs ▸ htold.delivered) (fun j hj => ?_)
    · obtain ⟨i', hi'⟩ := ha
      by_cases hi : i' = i
      · subst hi
        exact ⟨i', hself ▸ hprocessed.trace.subset hi'⟩
      · exact ⟨i', by rwa [hprocesses, Function.update_of_ne hi]⟩
    · rw [hs]
      refine (htold.pending j hj).imp_right (fun hacked => ⟨i, ?_⟩)
      rw [← hs, hself]
      exact (BatchProcess.mem_told hprocessed.trace).mpr (.inr hacked)
  | retried i event _ hs => exact hs ▸ h
  | eventsTaken events result _ hs => exact hs ▸ h
  | stored events messages storage _ _ hs => exact hs ▸ h
  | storage a storage _ _ hs => exact hs ▸ h

/-- The storage process has been delivered events of the stream, and those that it has not
acked are pending. -/
structure Storing (wires : Wires K φ π ψ ρ) (storage : StorageLoop K ρ) (events : RedisStreams ψ) :
    Prop where
  sound : storage.Sound wires.events.validate
  sent : ∀ message ∈ storage.delivered, wires.events.Sent events.entries message
  settled : events.Settled
    (fun messageId => ∃ message ∈ storage.acked, message.messageId = messageId)

omit [HasSqrt K] [Rounding K] in
theorem Storing.same {storage : StorageLoop K ρ} {events events' : RedisStreams ψ}
    (h : Storing wires storage events) (hentries : events.entries <+: events'.entries)
    (hdelivered : events'.delivered = events.delivered)
    (hpending : events'.pendingIds = events.pendingIds) : Storing wires storage events' :=
  ⟨h.sound, fun message hm => (h.sent message hm).mono hentries,
    h.settled.mono (fun _ ha => ha) hdelivered (fun _ hj => .inl (hpending ▸ hj))⟩

theorem storing_move (hemitting : Emitting svc wires s.processes s.events.entries)
    (h : Storing wires s.storage s.events) (hmove : Move cfg svc wires s s') :
    Storing wires s'.storage s'.events := by
  cases hmove with
  | camera c camera sent _ hs => exact hs ▸ h
  | taken frames result _ hs => exact hs ▸ h
  | consumed i frames messages worker _ _ hs => exact hs ▸ h
  | worker i a worker _ _ hs =>
    have htold := told_tell wires ((s.workers i).process.told worker.process) (s.setWorker i worker)
    rw [hs, htold.storage]
    exact h.same (htold.events ▸ List.prefix_append _ _) htold.eventsDelivered htold.eventsPending
  | retried i event _ hs =>
    rw [hs]
    exact h.same (List.prefix_append _ _) rfl rfl
  | eventsTaken events result hreceived hs =>
    rw [hs]
    exact ⟨h.sound, hreceived.entries ▸ h.sent, h.settled.received hreceived⟩
  | stored events messages storage hreceived hstorage hs =>
    rw [hs]
    have hsent := Wire.sent_of_received (fun fields hf => by
      obtain ⟨_, event, hdump, _⟩ := hemitting.issued fields hf
      exact ⟨event, hdump⟩) hreceived
    have hspec : storage.delivered = s.storage.delivered ++ messages ∧
        storage.acked = s.storage.acked := by
      simp only [StorageLoop.step] at hstorage
      split at hstorage <;> cases hstorage
      exact ⟨rfl, rfl⟩
    refine ⟨h.sound.step hstorage, fun message hm => ?_, ?_⟩
    · rw [hspec.1] at hm
      rw [hreceived.entries]
      exact (List.mem_append.mp hm).elim (h.sent message) (hsent message)
    · simp only [hspec.2]
      exact h.settled.received hreceived
  | storage a storage ha hstorage hs =>
    obtain ⟨hdelivered, more, hmore⟩ := StorageLoop.delivered_step ha hstorage
    obtain ⟨hentries, hsame, hpending⟩ :=
      xackIds_spec (storage.acked.drop s.storage.acked.length) s.events
    rw [hs]
    refine ⟨h.sound.step hstorage, ?_, h.settled.mono ?_ hsame ?_⟩
    · rw [hentries, hdelivered]
      exact h.sent
    · intro messageId hacked
      exact hacked.imp (fun message hm => ⟨hmore ▸ List.mem_append_left _ hm.1, hm.2⟩)
    · intro j hj
      refine (hpending j hj).imp_right (fun hacked => ?_)
      exact hacked.imp (fun message hm => ⟨List.mem_of_mem_drop hm.1, hm.2⟩)


section Reached
variable {actions : List (PipelineAction m n K ι π ρ)}

omit [HasSqrt K] in
theorem start_shots (cameras : Fin m → CameraConfig) :
    Shots cameras wires (start cameras : Pipeline m n K ι φ π ψ ρ) :=
  ⟨fun _ => rfl, fun _ _ hf => (by cases hf), fun _ hf => (by cases hf)⟩

omit [HasSqrt K] in
theorem start_emitting (svc : Fin n → Services K ι) (wires : Wires K φ π ψ ρ)
    (cameras : Fin m → CameraConfig) :
    Emitting svc wires (start cameras : Pipeline m n K ι φ π ψ ρ).processes [] :=
  ⟨fun _ => BatchProcess.start_honest, fun _ _ he => (by cases he), fun _ hf => (by cases hf),
    fun _ _ he => (by cases he)⟩

theorem shots_run (h : Run (step cfg svc wires) (start cameras) actions s) :
    Shots cameras wires s :=
  kept (fun _ _ hs hmove => hs.move hmove) h (start_shots cameras)

theorem feeding_run [IsStrictOrderedRing K] (hsolver : ∀ i, Assigns (svc i).solver)
    (h : Run (step cfg svc wires) (start cameras) actions s) : Feeding svc wires s := by
  have hboth : Shots cameras wires s ∧ Feeding svc wires s := by
    refine kept (P := fun s => Shots cameras wires s ∧ Feeding svc wires s) ?_ h ?_
    · exact fun _ _ hs hmove => ⟨hs.1.move hmove, hs.2.move hsolver hs.1 hmove⟩
    · exact ⟨start_shots cameras, fun _ => WorkerLoop.start_fed⟩
  exact hboth.2

theorem lined_run (h : Run (step cfg svc wires) (start cameras) actions s) :
    ∃ positions, Lined positions s := by
  refine kept (P := fun s => ∃ positions, Lined positions s) (fun _ _ => lined_move) h ?_
  exact ⟨fun _ => [], fun _ => rfl, fun _ => .nil, fun _ _ hj => (by cases hj),
    fun _ _ _ _ hj => (by cases hj)⟩

theorem emitting_run (hfresh : FreshIds svc)
    (h : Run (step cfg svc wires) (start cameras) actions s) :
    Emitting svc wires s.processes s.events.entries := by
  refine kept (P := fun s => Emitting svc wires s.processes s.events.entries)
    (fun _ _ => emitting_move hfresh) h ?_
  exact start_emitting svc wires cameras

theorem settled_run (h : Run (step cfg svc wires) (start cameras) actions s) :
    Settled s.FrameAcked s.frames :=
  kept (P := fun s => Settled s.FrameAcked s.frames) (fun _ _ => settled_move) h new_settled

theorem storing_run (hfresh : FreshIds svc)
    (h : Run (step cfg svc wires) (start cameras) actions s) :
    Storing wires s.storage s.events := by
  have hboth : Emitting svc wires s.processes s.events.entries ∧
      Storing wires s.storage s.events := by
    refine kept (P := fun s => Emitting svc wires s.processes s.events.entries ∧
      Storing wires s.storage s.events) ?_ h ?_
    · exact fun _ _ hs hmove => ⟨emitting_move hfresh hs.1 hmove, storing_move hs.1 hs.2 hmove⟩
    · exact ⟨start_emitting svc wires cameras, StorageLoop.start_sound,
        fun _ hm => (by cases hm), new_settled⟩
  exact hboth.2

omit [HasSqrt K] [Rounding K] in
theorem Storing.idsIdentify {storage : StorageLoop K ρ} {events : RedisStreams ψ}
    {processes : Fin n → BatchProcess K ι} (h : Storing wires storage events)
    (hemitting : Emitting svc wires processes events.entries) :
    StorageLoop.IdsIdentify wires.events.validate storage.delivered := by
  intro event event' message message' hm hm' hv hv'
  obtain ⟨k, _, hentry⟩ := (h.sent message hm).backed hv
  obtain ⟨k', _, hentry'⟩ := (h.sent message' hm').backed hv'
  exact hemitting.identify event event' (List.mem_of_getElem? hentry)
    (List.mem_of_getElem? hentry')

omit [HasSqrt K] [Rounding K] in
/-- An event that is neither waiting in its stream nor pending, is in the table. -/
theorem Storing.row {storage : StorageLoop K ρ} {events : RedisStreams ψ}
    {processes : Fin n → BatchProcess K ι} (h : Storing wires storage events)
    (hemitting : Emitting svc wires processes events.entries) {k : Nat} {event : TrackEvent K}
    (hentry : events.entries[k]? = some (wires.events.dump event)) (htaken : k < events.delivered)
    (hpending : k ∉ events.pendingIds) :
    storage.connection.committed.get? event.eventId = some (rowOf event) := by
  obtain ⟨message, hacked, hid⟩ := h.settled k htaken hpending
  obtain ⟨hdelivered, stored, row, hvalidate, hrow⟩ := h.sound.acked message hacked
  obtain ⟨k', hid', hentry'⟩ := (h.sent message hdelivered).backed hvalidate
  obtain rfl := entryId_injective (hid.symm.trans hid')
  rw [hentry] at hentry'
  obtain rfl := wires.events.dump_injective (Option.some.inj hentry')
  rw [hrow, h.sound.own_row (h.idsIdentify hemitting) hdelivered hvalidate hrow]

/-- A raw frame waits in its stream, or is pending, or a worker has updated with it, has put
an event for each track that the update returned into their stream, and then acked it; and an
event waits in its stream, or is pending, or its row is in the table. -/
theorem nothing_acked_is_lost (cfg : Fin n → BatcherConfig) (cameras : Fin m → CameraConfig)
    (hfresh : FreshIds svc) (h : Run (step cfg svc wires) (start cameras) actions s) :
    (∀ j, s.frames.delivered ≤ j ∨ j ∈ s.frames.pendingIds ∨
      ∃ i earlier, ∃ events : List (TrackEvent K), ∃ later,
        (s.processes i).trace = earlier ++ .updated (entryId j) (events.map TrackEvent.track) ::
          events.map (fun event => .told (.published event)) ++
            .told (.acked (entryId j)) :: later ∧
        ∀ event ∈ events, wires.events.dump event ∈ s.events.entries) ∧
    ∀ k event, s.events.entries[k]? = some (wires.events.dump event) →
      s.events.delivered ≤ k ∨ k ∈ s.events.pendingIds ∨
        s.storage.connection.committed.get? event.eventId = some (rowOf event) := by
  have hemitting := emitting_run hfresh h
  have hstoring := storing_run hfresh h
  constructor
  · intro j
    by_cases hlt : j < s.frames.delivered
    · by_cases hpending : j ∈ s.frames.pendingIds
      · exact .inr (.inl hpending)
      · obtain ⟨i, hacked⟩ := settled_run h j hlt hpending
        obtain ⟨before, later, htrace⟩ := List.append_of_mem hacked
        obtain ⟨earlier, events, rfl⟩ := (hemitting.honest i).acks before _ later htrace
        refine .inr (.inr ⟨i, earlier, events, later, htrace, fun event he => ?_⟩)
        apply hemitting.told i
        rw [htrace]
        exact List.mem_append_left _ (List.mem_append_right _
          (List.mem_cons_of_mem _ (List.mem_map_of_mem he)))
    · exact .inl (Nat.not_lt.mp hlt)
  · intro k event hentry
    by_cases hlt : k < s.events.delivered
    · by_cases hpending : k ∈ s.events.pendingIds
      · exact .inr (.inl hpending)
      · exact .inr (.inr (hstoring.row hemitting hentry hlt hpending))
    · exact .inl (Nat.not_lt.mp hlt)

/-- A row in the table is that of a track which an update with the frame of a saved image has
returned, and it bears the name of the camera of this image. -/
theorem rows_come_from_images [IsStrictOrderedRing K] (cfg : Fin n → BatcherConfig)
    (hsolver : ∀ i, Assigns (svc i).solver) (hfresh : FreshIds svc)
    (h : Run (step cfg svc wires) (start cameras) actions s) {id : String} {row : Row K}
    (hrow : s.storage.connection.committed.get? id = some row) :
    ∃ c, ∃ captured ∈ (s.cameras c).saved, ∃ frameId frameUri, ∃ j i tracks, ∃ event : TrackEvent K,
      s.frames.entries[j]? = some (wires.frames.dump
        ⟨frameId, (cameras c).cameraId, frameUri, captured.sequenceNumber⟩) ∧
      .updated (entryId j) tracks ∈ (s.processes i).trace ∧ event.track ∈ tracks ∧
      event.track.frameId = frameId ∧ row = rowOf event ∧ row.eventId = id ∧
      row.cameraId = (cameras c).cameraId ∧ row.zone = (cameras c).cameraId ∧
      row.globalIdentityId = none := by
  have hshots := shots_run h
  have hstoring := storing_run hfresh h
  have hemitting := emitting_run hfresh h
  obtain ⟨hid, message, hm, event, hv, rfl⟩ :=
    hstoring.sound.filed id row (hstoring.sound.kept _ _ hrow)
  obtain ⟨k, _, hentry⟩ := (hstoring.sent message hm).backed hv
  obtain ⟨i, event', hdump, _, hnone, messageId, tracks, hupdated, htrack⟩ :=
    hemitting.issued _ (List.mem_of_getElem? hentry)
  obtain rfl := wires.events.dump_injective hdump
  obtain ⟨frame, ⟨j, rfl, hframe⟩, htracks⟩ :=
    (feeding_run hsolver h i).traced messageId tracks hupdated
  obtain ⟨shot, hdumped, c, captured, hsaved, frameId, frameUri, rfl⟩ :=
    hshots.entries _ (List.mem_of_getElem? hframe)
  obtain rfl := wires.frames.dump_injective hdumped
  obtain ⟨hcamera, hframeId⟩ := htracks event.track htrack
  have hname : event.track.cameraId = (cameras c).cameraId := by
    rw [hcamera, ← hshots.configured c]
    rfl
  refine ⟨c, captured, hsaved, frameId, frameUri, j, i, tracks, event, ?_, hupdated, htrack,
    hframeId, rfl, hid, hname, hname, hnone⟩
  rw [hframe, ← hshots.configured c]
  rfl

omit [HasSqrt K] [Rounding K] in
/-- What a worker has updated with, has been in its line. -/
theorem Lined.updated {positions : Fin n → List Nat} (h : Lined positions s) (i : Fin n) :
    ∃ updated : List Nat, updated.Sublist (positions i) ∧
      (s.processes i).updatedIds = updated.map entryId := by
  have hsub : ((s.processes i).updatedIds).Sublist (s.workers i).line :=
    (List.sublist_append_left _ _).trans (List.sublist_append_left _ _)
  rw [h.line i] at hsub
  exact List.sublist_map_iff.mp hsub

/-- No entry of the stream of raw frames is updated with twice, by one worker or by two, whatever
crashes; and every worker updates with its entries in the order of the stream. -/
theorem frames_updated_once (cfg : Fin n → BatcherConfig) (svc : Fin n → Services K ι)
    (cameras : Fin m → CameraConfig)
    (h : Run (step cfg svc wires) (start cameras) actions s) :
    ∃ positions : Fin n → List Nat,
      (∀ i, (s.processes i).updatedIds = (positions i).map entryId ∧
        (positions i).Pairwise (· < ·) ∧ ∀ j ∈ positions i, j < s.frames.delivered) ∧
      ∀ i i', i ≠ i' → (positions i).Disjoint (positions i') := by
  obtain ⟨positions, hlined⟩ := lined_run h
  choose updated hupdated hids using hlined.updated
  refine ⟨updated, fun i => ⟨hids i, (hlined.increasing i).sublist (hupdated i), ?_⟩, ?_⟩
  · exact fun j hj => hlined.taken i j ((hupdated i).subset hj)
  · intro i i' hne j hj hj'
    exact hlined.disjoint i i' hne ((hupdated i).subset hj) ((hupdated i').subset hj')

end Reached

end Runs

section FixedRun
open InferenceWorker (squareServices singleConfig)

/-- Values that travel as they are. -/
def plainWire {α : Type} : Wire α α α := ⟨id, .ok, .ok, fun a => ⟨a, rfl, rfl⟩⟩

def plainWires : Wires ℚ RawFrame RawFrame (TrackEvent ℚ) (TrackEvent ℚ) := ⟨plainWire, plainWire⟩

/-- Two workers, one with the even ids and one with the odd ones. -/
def pairServices (i : Fin 2) : Services ℚ Unit :=
  { squareServices with uuid := fun k => toString (2 * k + i.val) }

theorem pairServices_fresh : FreshIds pairServices := by
  intro i i' k k' h
  have hsum : 2 * k + i.val = 2 * k' + i'.val := Nat.repr_injective h
  exact ⟨Fin.ext (by omega), by omega⟩

/-- What a worker does with the one frame that it has consumed, up to its first event. -/
def untilEvent (i : Fin 2) : List (PipelineAction 1 2 ℚ Unit RawFrame (TrackEvent ℚ)) :=
  [.worker i .submit, .worker i (.batcher (.check 0)), .worker i (.batcher (.take 0)),
    .worker i (.process (.loaded ())), .worker i (.process (.detected [[clearSquare]])),
    .worker i (.process .next)]

/-- A camera reads a frame and sends it. -/
def sends (frameId : String) (now : ℚ) : List (PipelineAction 1 2 ℚ Unit RawFrame (TrackEvent ℚ)) :=
  [.camera 0 (.reader (.read (some ()) now 0)),
    .camera 0 (.save frameId ("file://" ++ frameId ++ ".jpg")), .camera 0 .publish]

/-- A camera sends two frames. The worker of the first one dies while its event is being
published; the second worker, and then the storage process, do all of their work. -/
def oneDies (first second : Fin 2) :
    List (PipelineAction 1 2 ℚ Unit RawFrame (TrackEvent ℚ)) :=
  [.camera 0 (.reader .check), .camera 0 (.reader (.connect true))] ++ sends "f1" 0 ++
  .consume first "worker-0" :: untilEvent first ++ [.workerRetry first, .worker first .restart] ++
  .camera 0 (.reader .check) :: sends "f2" 1 ++ .consume second "worker-1" :: untilEvent second ++
  [.worker second (.process .publish), .worker second (.process .ack),
    .worker second (.process .next), .worker second .returned, .storageConsume "storage",
    .storage .validate, .storage .validate, .storage .rows, .storage .page, .storage .commit,
    .storage .ack]

/-- The pipeline after it. -/
theorem oneDies_run : ∃ s row, Run (step (fun _ => singleConfig) pairServices plainWires)
      (start (fun _ => tenFps)) (oneDies 0 1) s ∧
    s.storage.connection.committed.get? "1" = some row ∧ s.frames.delivered = 2 ∧
      s.frames.pendingIds = [0] ∧ (s.processes 1).updatedIds = [entryId 1] := by
  have hrun : ((oneDies 0 1).foldlM (step (fun _ => singleConfig) pairServices plainWires)
      (start (fun _ => tenFps))).any (fun s =>
        (s.storage.connection.committed.get? "1").isSome && s.frames.delivered == 2 &&
          s.frames.pendingIds == [0] && (s.processes 1).updatedIds == [entryId 1]) = true := by
    decide +kernel
  obtain ⟨s, hs, hp⟩ := (Option.any_eq_true _ _).mp hrun
  simp only [Bool.and_eq_true, beq_iff_eq] at hp
  obtain ⟨row, hrow⟩ := Option.isSome_iff_exists.mp hp.1.1.1
  exact ⟨s, row, hs, hrow, hp.1.1.2, hp.1.2, hp.2⟩

/-- The second frame has been acked, after its events. -/
theorem nothing_acked_is_lost_one_dies : ∃ s i earlier, ∃ events : List (TrackEvent ℚ), ∃ later,
    Run (step (fun _ => singleConfig) pairServices plainWires) (start (fun _ => tenFps)) (oneDies 0 1) s ∧
      (s.processes i).trace = earlier ++ .updated (entryId 1) (events.map TrackEvent.track) ::
        events.map (fun event => .told (.published event)) ++ .told (.acked (entryId 1)) :: later ∧
      ∀ event ∈ events, event ∈ s.events.entries := by
  obtain ⟨s, _, hs, _, hdelivered, hpending, _⟩ := oneDies_run
  rcases (nothing_acked_is_lost _ _ pairServices_fresh hs).1 1 with hle | hmem | hacked
  · omega
  · rw [hpending] at hmem
    simp at hmem
  · obtain ⟨i, earlier, events, later, htrace, hevents⟩ := hacked
    exact ⟨s, i, earlier, events, later, hs, htrace, hevents⟩

/-- The row that its event has left bears the name of its camera. -/
theorem rows_come_from_images_one_dies : ∃ s row,
    Run (step (fun _ => singleConfig) pairServices plainWires) (start (fun _ => tenFps)) (oneDies 0 1) s ∧
      s.storage.connection.committed.get? "1" = some row ∧ row.cameraId = "cam-1" ∧
      row.zone = "cam-1" := by
  obtain ⟨s, row, hs, hrow, _⟩ := oneDies_run
  have hsolver : ∀ i, Assigns (pairServices i).solver :=
    fun _ => InferenceWorker.squareServices_assigns
  obtain ⟨_, _, _, _, _, _, _, _, _, _, _, _, _, _, _, hcamera, hzone, _⟩ :=
    rows_come_from_images _ hsolver pairServices_fresh hs hrow
  exact ⟨s, row, hs, hrow, hcamera, hzone⟩

/-- The second worker has updated with the second frame alone. -/
theorem frames_updated_once_one_dies : ∃ s, ∃ positions : Fin 2 → List Nat,
    Run (step (fun _ => singleConfig) pairServices plainWires) (start (fun _ => tenFps)) (oneDies 0 1) s ∧
      positions 1 = [1] ∧ (positions 0).Disjoint (positions 1) := by
  obtain ⟨s, _, hs, _, _, _, hids⟩ := oneDies_run
  obtain ⟨positions, hpositions, hdisjoint⟩ := frames_updated_once _ _ _ hs
  have hone : (positions 1).map entryId = [1].map entryId := (hpositions 1).1.symm.trans hids
  exact ⟨s, positions, hs, entryId_injective.list_map hone, hdisjoint 0 1 Fin.zero_ne_one⟩

end FixedRun

end Pipeline
end CamTrack
