import CamTrack.Pipeline
import CamTrack.Proofs.RedisStreams
import CamTrack.Proofs.StorageLoop
import CamTrack.Proofs.WorkerLoop

namespace CamTrack
open Python Machine

variable {K : Type} [Field K] [LinearOrder K]

theorem entryId_injective : Function.Injective entryId := fun _ _ h => Nat.repr_inj.mp h

namespace RedisStreams
variable {φ π : Type} {loads : φ → Except Error π} {s s' : RedisStreams φ}

@[simp] theorem entries_xadd (fields : φ) (s : RedisStreams φ) :
    (s.xadd fields).entries = s.entries ++ [fields] := rfl

@[simp] theorem delivered_xadd (fields : φ) (s : RedisStreams φ) :
    (s.xadd fields).delivered = s.delivered := rfl

@[simp] theorem pendingIds_xadd (fields : φ) (s : RedisStreams φ) :
    (s.xadd fields).pendingIds = s.pendingIds := rfl

@[simp] theorem entries_xackId (messageId : String) (s : RedisStreams φ) :
    (s.xackId messageId).entries = s.entries := rfl

@[simp] theorem delivered_xackId (messageId : String) (s : RedisStreams φ) :
    (s.xackId messageId).delivered = s.delivered := by
  unfold xackId delivered
  cases s.group <;> rfl

@[simp] theorem pendingIds_xackId (messageId : String) (s : RedisStreams φ) :
    (s.xackId messageId).pendingIds =
      s.pendingIds.filter (fun j => entryId j ≠ messageId) := by
  unfold xackId pendingIds
  cases s.group <;> simp [List.filter_map, Function.comp_def]

/-- What one call of `consume` does, with the ids that the client library returns. -/
structure Received (loads : φ → Except Error π) (s : RedisStreams φ) (s' : RedisStreams φ)
    (result : Except Error (List (Message String π))) : Prop where
  entries : s'.entries = s.entries
  taken : ∃ count, s'.delivered = s.delivered + count ∧
    s'.pendingIds = s.pendingIds ++ List.range' s.delivered count ∧
    ∀ messages, result = .ok messages →
      messages.map Message.messageId = (List.range' s.delivered count).map entryId
  messages : ∀ messages, result = .ok messages → ∀ message ∈ messages, ∃ j fields,
    message.messageId = entryId j ∧ s.entries[j]? = some fields ∧
      loads fields = .ok message.payload

theorem received_spec (loads : φ → Except Error π) (consumerName : String) (count : Nat)
    (s : RedisStreams φ) : Received loads s (s.received loads consumerName count).1
      (s.received loads consumerName count).2 := by
  obtain ⟨hentries, _, hdelivered, hpending, hresult⟩ := consumed loads s consumerName count
  refine ⟨hentries, ⟨_, hdelivered, hpending, ?_⟩, ?_⟩
  · intro messages hm
    obtain ⟨decoded, hdecoded, rfl⟩ := map_eq_ok.mp hm
    have hids := decodeAll_ids (hresult.symm.trans hdecoded)
    rw [zip_range_ids] at hids
    rw [← hids, List.map_map, List.map_map]
    rfl
  · intro messages hm message hmessage
    obtain ⟨decoded, hdecoded, rfl⟩ := map_eq_ok.mp hm
    obtain ⟨raw, hraw, rfl⟩ := List.mem_map.mp hmessage
    obtain ⟨fields, htaken, hloads⟩ := mem_decodeAll (hresult.symm.trans hdecoded) hraw
    exact ⟨raw.messageId, fields, rfl, (mem_taken htaken).2.2, hloads⟩

/-- Every entry that a `consume` has taken is pending, or has been acked. -/
def Settled (acked : String → Prop) (s : RedisStreams φ) : Prop :=
  ∀ j < s.delivered, j ∉ s.pendingIds → acked (entryId j)

theorem new_settled {acked : String → Prop} : Settled acked (new : RedisStreams φ) :=
  fun j hj => absurd hj (Nat.not_lt_zero j)

theorem Settled.mono {acked acked' : String → Prop} (h : Settled acked s)
    (hacked : ∀ messageId, acked messageId → acked' messageId)
    (hdelivered : s'.delivered = s.delivered)
    (hpending : ∀ j, j ∈ s.pendingIds → j ∈ s'.pendingIds ∨ acked' (entryId j)) :
    Settled acked' s' := by
  intro j hj hnot
  by_cases hold : j ∈ s.pendingIds
  · exact (hpending j hold).resolve_left hnot
  · exact hacked _ (h j (hdelivered ▸ hj) hold)

theorem Settled.received {acked : String → Prop} {result : Except Error (List (Message String π))}
    (h : Settled acked s) (hreceived : Received loads s s' result) : Settled acked s' := by
  obtain ⟨count, hdelivered, hpending, _⟩ := hreceived.taken
  intro j hj hnot
  rw [hdelivered] at hj
  rw [hpending, List.mem_append, List.mem_range'_1, not_or] at hnot
  by_cases hold : j < s.delivered
  · exact h j hold hnot.1
  · exact absurd ⟨Nat.not_lt.mp hold, hj⟩ hnot.2

end RedisStreams

/-- The event of a publish. -/
def Effect.event : Effect K → Option (TrackEvent K)
  | .published event => some event
  | .acked _ => none

theorem Effect.event_eq_some {effect : Effect K} {event : TrackEvent K} :
    effect.event = some event ↔ effect = .published event := by
  cases effect <;> simp [Effect.event]

namespace Pipeline
variable [Rounding K] {m n : Nat} {ι φ π ψ ρ : Type}

/-- What a publisher does to its frames: `sent` are those that it puts into the stream. -/
structure Shooting (s s' : FramePublisher K ι) (sent : List RawFrame) : Prop where
  camera : s'.camera = s.camera
  saved : s.saved ⊆ s'.saved
  atHand : ∀ frame, s'.frame = some frame → s.frame = some frame ∨
    ∃ captured ∈ s'.saved, ∃ frameId frameUri, frame = s.rawFrame captured frameId frameUri
  sent : ∀ frame ∈ sent, s.frame = some frame

theorem shooting_step {s s' : FramePublisher K ι} {a : PublisherAction K ι}
    (h : s.step a = some s') : Shooting s s' (s'.published.drop s.published.length) := by
  cases a with
  | reader a =>
    have hrest : (∃ reader, s.reader.step a = some reader ∧ { s with reader := reader } = s') →
        Shooting s s' (s'.published.drop s.published.length) := by
      rintro ⟨reader, _, rfl⟩
      exact ⟨rfl, List.Subset.refl _, fun frame hf => .inl hf, by simp⟩
    cases a with
    | resume => cases h
    | close => cases h
    | check => exact hrest (Option.map_eq_some_iff.mp h)
    | connect opened => exact hrest (Option.map_eq_some_iff.mp h)
    | read outcome now timeMs => exact hrest (Option.map_eq_some_iff.mp h)
    | missing => exact hrest (Option.map_eq_some_iff.mp h)
  | save frameId frameUri =>
    simp only [FramePublisher.step] at h
    split at h
    · rename_i captured _ _
      cases h
      refine ⟨rfl, List.subset_append_left _ _, fun frame hf => .inr ?_, by simp⟩
      cases hf
      exact ⟨captured, by simp, frameId, frameUri, rfl⟩
    · cases h
  | publish =>
    simp only [FramePublisher.step] at h
    split at h
    · rename_i frame hframe
      obtain ⟨reader, _, rfl⟩ := Option.map_eq_some_iff.mp h
      refine ⟨rfl, List.Subset.refl _, (fun _ hf => nomatch hf), ?_⟩
      simp [hframe]
    · cases h
  | stop =>
    cases h
    exact ⟨rfl, List.Subset.refl _, fun frame hf => .inl hf, by simp [FramePublisher.stop]⟩

/-- What arrives at the streams of what a worker tells the broker. -/
structure Told (wires : Wires K φ π ψ ρ) (effects : List (Effect K))
    (s s' : Pipeline m n K ι φ π ψ ρ) : Prop where
  cameras : s'.cameras = s.cameras
  workers : s'.workers = s.workers
  storage : s'.storage = s.storage
  entries : s'.frames.entries = s.frames.entries
  delivered : s'.frames.delivered = s.frames.delivered
  pending : ∀ j ∈ s.frames.pendingIds, j ∈ s'.frames.pendingIds ∨ .acked (entryId j) ∈ effects
  events : s'.events.entries =
    s.events.entries ++ (effects.filterMap Effect.event).map wires.events.dump
  eventsDelivered : s'.events.delivered = s.events.delivered
  eventsPending : s'.events.pendingIds = s.events.pendingIds

omit [Rounding K] in
theorem told_tell (wires : Wires K φ π ψ ρ) (effects : List (Effect K))
    (s : Pipeline m n K ι φ π ψ ρ) : Told wires effects s (effects.foldl (tell wires) s) := by
  induction effects generalizing s with
  | nil => exact ⟨rfl, rfl, rfl, rfl, rfl, fun j hj => .inl hj, by simp, rfl, rfl⟩
  | cons effect effects ih =>
    have hrest := ih (tell wires s effect)
    cases effect with
    | published event =>
      refine ⟨hrest.cameras, hrest.workers, hrest.storage, hrest.entries, hrest.delivered,
        fun j hj => (hrest.pending j hj).imp_right (List.mem_cons_of_mem _), ?_,
        hrest.eventsDelivered, hrest.eventsPending⟩
      rw [List.foldl_cons, hrest.events]
      simp [tell, Effect.event]
    | acked messageId =>
      refine ⟨hrest.cameras, hrest.workers, hrest.storage, hrest.entries, ?_, ?_, ?_,
        hrest.eventsDelivered, hrest.eventsPending⟩
      · rw [List.foldl_cons, hrest.delivered]
        exact RedisStreams.delivered_xackId _ _
      · intro j hj
        by_cases hid : entryId j = messageId
        · exact .inr (by simp [hid])
        · have hkept : j ∈ (tell wires s (.acked messageId)).frames.pendingIds := by
            simpa [tell, hid] using hj
          exact (hrest.pending j hkept).imp_right (List.mem_cons_of_mem _)
      · rw [List.foldl_cons, hrest.events, List.filterMap_cons_none rfl]
        rfl

/-- What the actions of the processes consist of. -/
inductive Move [HasSqrt K] (cfg : Fin n → BatcherConfig) (svc : Fin n → Services K ι)
    (wires : Wires K φ π ψ ρ) (s s' : Pipeline m n K ι φ π ψ ρ) : Prop
  | camera (c : Fin m) (camera : FramePublisher K ι) (sent : List RawFrame) :
      Shooting (s.cameras c) camera sent →
      s' = { s.setCamera c camera with
        frames := sent.foldl (fun frames frame => frames.xadd (wires.frames.dump frame)) s.frames } →
      Move cfg svc wires s s'
  | taken (frames : RedisStreams φ) (result : Except Error (List (Message String π))) :
      RedisStreams.Received wires.frames.loads s.frames frames result →
      s' = { s with frames := frames } → Move cfg svc wires s s'
  | consumed (i : Fin n) (frames : RedisStreams φ) (messages : List (Message String π))
      (worker : WorkerLoop K ι π) :
      RedisStreams.Received wires.frames.loads s.frames frames (.ok messages) →
      (s.workers i).step (cfg i) (svc i) wires.frames.validate (.consumed messages) =
        some worker →
      s' = { s.setWorker i worker with frames := frames } → Move cfg svc wires s s'
  | worker (i : Fin n) (a : WorkerAction K ι π) (worker : WorkerLoop K ι π) :
      (∀ messages, a ≠ .consumed messages) →
      (s.workers i).step (cfg i) (svc i) wires.frames.validate a = some worker →
      s' = ((s.workers i).process.told worker.process).foldl (tell wires) (s.setWorker i worker) →
      Move cfg svc wires s s'
  | retried (i : Fin n) (event : TrackEvent K) :
      (s.workers i).process.eventAtHand (svc i) = some event →
      s' = { s with events := s.events.xadd (wires.events.dump event) } → Move cfg svc wires s s'
  | eventsTaken (events : RedisStreams ψ) (result : Except Error (List (Message String ρ))) :
      RedisStreams.Received wires.events.loads s.events events result →
      s' = { s with events := events } → Move cfg svc wires s s'
  | stored (events : RedisStreams ψ) (messages : List (Message String ρ))
      (storage : StorageLoop K ρ) :
      RedisStreams.Received wires.events.loads s.events events (.ok messages) →
      s.storage.step wires.events.validate (.consumed messages) = some storage →
      s' = { s with storage := storage, events := events } → Move cfg svc wires s s'
  | storage (a : StorageAction ρ) (storage : StorageLoop K ρ) :
      (∀ messages, a ≠ .consumed messages) →
      s.storage.step wires.events.validate a = some storage →
      s' = { s with
        storage := storage
        events := (storage.acked.drop s.storage.acked.length).foldl
          (fun events message => events.xackId message.messageId) s.events } →
      Move cfg svc wires s s'

section Moves
variable [HasSqrt K] {cfg : Fin n → BatcherConfig} {svc : Fin n → Services K ι}
  {wires : Wires K φ π ψ ρ} {s s' : Pipeline m n K ι φ π ψ ρ}

theorem move_workerStep {i : Fin n} {a : WorkerAction K ι π}
    (ha : ∀ messages, a ≠ .consumed messages)
    (h : s.workerStep cfg svc wires i a = some s') : Move cfg svc wires s s' := by
  obtain ⟨worker, hworker, h⟩ := Option.bind_eq_some_iff.mp h
  cases h
  exact .worker i a worker ha hworker rfl

theorem move_storageStep {a : StorageAction ρ} (ha : ∀ messages, a ≠ .consumed messages)
    (h : s.storageStep wires a = some s') : Move cfg svc wires s s' := by
  obtain ⟨storage, hstorage, h⟩ := Option.bind_eq_some_iff.mp h
  cases h
  exact .storage a storage ha hstorage rfl

theorem move_stored {events : RedisStreams ψ} {messages : List (Message String ρ)}
    (hreceived : RedisStreams.Received wires.events.loads s.events events (.ok messages))
    (h : { s with events := events }.storageStep wires (.consumed messages) = some s') :
    Move cfg svc wires s s' := by
  obtain ⟨storage, hstorage, h⟩ := Option.bind_eq_some_iff.mp h
  cases h
  have hacked : storage.acked = s.storage.acked := by
    simp only [StorageLoop.step] at hstorage
    split at hstorage <;> cases hstorage
    rfl
  refine .stored events messages storage hreceived hstorage ?_
  simp [hacked]

/-- An action is a few moves. -/
theorem moves {a : PipelineAction m n K ι π ρ} (h : step cfg svc wires s a = some s') :
    Relation.ReflTransGen (Move cfg svc wires) s s' := by
  cases a with
  | camera c a =>
    obtain ⟨camera, hcamera, h⟩ := Option.bind_eq_some_iff.mp h
    cases h
    exact .single (.camera c camera _ (shooting_step hcamera) rfl)
  | cameraRetry c =>
    obtain ⟨frame, hframe, rfl⟩ := Option.map_eq_some_iff.mp h
    refine .single (.camera c (s.cameras c) [frame] ⟨rfl, List.Subset.refl _, ?_, ?_⟩ ?_)
    · exact fun _ hf => .inl hf
    · intro frame' hf
      rw [List.mem_singleton.mp hf, hframe]
    · simp [setCamera]
  | cameraRestart c =>
    cases h
    have hshooting : Shooting (s.cameras c) { FramePublisher.start (s.cameras c).camera with
        saved := (s.cameras c).saved, published := (s.cameras c).published } [] :=
      ⟨rfl, List.Subset.refl _, fun _ hf => (by cases hf), by simp⟩
    exact .single (.camera c _ [] hshooting rfl)
  | consume i consumerName =>
    have hreceived := RedisStreams.received_spec wires.frames.loads consumerName defaultCount
      s.frames
    simp only [step] at h
    split at h
    · rename_i messages hm
      rw [hm] at hreceived
      obtain ⟨worker, hworker, h⟩ := Option.bind_eq_some_iff.mp h
      cases h
      exact .single (.consumed i _ messages worker hreceived hworker rfl)
    · exact (Relation.ReflTransGen.single (.taken _ _ hreceived rfl)).tail
        (move_workerStep (by simp) h)
  | consumeLost i consumerName e =>
    have hreceived := RedisStreams.received_spec wires.frames.loads consumerName defaultCount
      s.frames
    exact (Relation.ReflTransGen.single (.taken _ _ hreceived rfl)).tail
      (move_workerStep (by simp) h)
  | worker i a =>
    cases a with
    | consumed messages => cases h
    | submit => exact .single (move_workerStep (by simp) h)
    | raise e => exact .single (move_workerStep (by simp) h)
    | batcher a => exact .single (move_workerStep (by simp) h)
    | process a => exact .single (move_workerStep (by simp) h)
    | returned => exact .single (move_workerStep (by simp) h)
    | restart => exact .single (move_workerStep (by simp) h)
  | workerRetry i =>
    obtain ⟨event, hevent, rfl⟩ := Option.map_eq_some_iff.mp h
    exact .single (.retried i event hevent rfl)
  | storageConsume consumerName =>
    have hreceived := RedisStreams.received_spec wires.events.loads consumerName batchSize
      s.events
    simp only [step] at h
    split at h
    · split at h
      · rename_i messages hm
        rw [hm] at hreceived
        exact .single (move_stored hreceived h)
      · exact (Relation.ReflTransGen.single (.eventsTaken _ _ hreceived rfl)).tail
          (move_storageStep (by simp) h)
    · cases h
  | storageConsumeLost consumerName e =>
    have hreceived := RedisStreams.received_spec wires.events.loads consumerName batchSize
      s.events
    obtain ⟨_, h⟩ := Option.ite_none_right_eq_some.mp h
    exact (Relation.ReflTransGen.single (.eventsTaken _ _ hreceived rfl)).tail
      (move_storageStep (by simp) h)
  | storage a =>
    cases a with
    | consumed messages => cases h
    | validate => exact .single (move_storageStep (by simp) h)
    | rows => exact .single (move_storageStep (by simp) h)
    | page => exact .single (move_storageStep (by simp) h)
    | commit => exact .single (move_storageStep (by simp) h)
    | ack => exact .single (move_storageStep (by simp) h)
    | raise e reached => exact .single (move_storageStep (by simp) h)
    | restart => exact .single (move_storageStep (by simp) h)

/-- What every move keeps, holds at the end of a run. -/
theorem kept {P : Pipeline m n K ι φ π ψ ρ → Prop}
    (hmove : ∀ s s', P s → Move cfg svc wires s s' → P s')
    {actions : List (PipelineAction m n K ι π ρ)} (h : Run (step cfg svc wires) s actions s')
    (h0 : P s) : P s' := by
  refine h.invariant (fun s a s' hs hstep => ?_) h0
  have hmoves := moves hstep
  clear hstep
  induction hmoves with
  | refl => exact hs
  | tail _ hlast ih => exact hmove _ _ ih hlast

end Moves

end Pipeline
end CamTrack
