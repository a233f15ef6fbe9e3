import CamTrack.Proofs.Batcher
import CamTrack.Proofs.ProcessBatch
import CamTrack.Proofs.Transparency
import CamTrack.WorkerLoop

namespace CamTrack
open Python Machine

variable {K : Type} [Field K] [LinearOrder K] {ι π : Type}

namespace BatchProcess

/-- The items of the batch that are still to be updated with. -/
def remaining (s : BatchProcess K ι) : List FrameItem :=
  match s.pc with
  | .loading items _ _ => items
  | .looping messageIds frames _ => messageIds.zip frames
  | .publishing _ _ messageIds frames _ => messageIds.zip frames
  | _ => []

/-- The messages that an update has been made for, in order. -/
def updatedIds (s : BatchProcess K ι) : List String :=
  s.trace.filterMap (fun event => match event with
    | .updated messageId _ => some messageId
    | .told _ => none)

/-- What a call of `_process_batch` does to the trace, to the trackers and to the batch. -/
inductive Advanced [HasSqrt K] (svc : Services K ι) (s s' : BatchProcess K ι) : Prop
  | still (told : List (Effect K)) : s'.trace = s.trace ++ told.map .told →
      s'.worker.trackers = s.worker.trackers → s'.remaining.Sublist s.remaining →
      Advanced svc s s'
  | failed (cameraId : String) : s'.trace = s.trace →
      s'.worker.trackers = (s.worker.trackerFor cameraId).2 → s'.remaining = [] →
      Advanced svc s s'
  | turned (messageId : String) (frame : RawFrame) (detections : List (Detection K))
      (tracks : List (Track K)) (tracker : ByteTracker K) :
      s.remaining = (messageId, frame) :: s'.remaining →
      (s.worker.trackerFor frame.cameraId).1.update svc.solver detections frame.frameId =
        .ok (tracks, tracker) →
      s'.trace = s.trace ++ [.updated messageId tracks] →
      s'.worker.trackers = (s.worker.trackerFor frame.cameraId).2.set frame.cameraId tracker →
      Advanced svc s s'

theorem advanced_next [HasSqrt K] {svc : Services K ι} {s s' : BatchProcess K ι}
    (h : s.next svc = some s') : Advanced svc s s' := by
  unfold BatchProcess.next at h
  split at h
  · cases h
    exact .still [] (by simp) rfl (List.nil_sublist _)
  · rename_i messageId messageIds frame frames detections detectionsPerFrame hpc
    simp only at h
    split at h
    · cases h
      exact .failed _ rfl rfl rfl
    · rename_i tracks tracker hu
      cases h
      exact .turned messageId frame detections tracks tracker (by simp [remaining, hpc]) hu rfl rfl
  · cases h
    exact .still [] (by simp) rfl (List.nil_sublist _)
  · cases h

theorem advanced_raise [HasSqrt K] {svc : Services K ι} {s s' : BatchProcess K ι} {e : Error}
    {reached : Bool} (h : s.raise svc e reached = some s') : Advanced svc s s' := by
  unfold BatchProcess.raise at h
  split at h
  · cases h
    exact .still [] (by simp) rfl (List.nil_sublist _)
  · rename_i track _ _ _ _ _
    cases h
    cases reached with
    | true => exact .still [.published (s.worker.newEvent svc track)] rfl rfl (List.nil_sublist _)
    | false => exact .still [] (by simp [lose]) rfl (List.nil_sublist _)
  · rename_i messageId _ _ _ _
    cases h
    cases reached with
    | true => exact .still [.acked messageId] rfl rfl (List.nil_sublist _)
    | false => exact .still [] (by simp) rfl (List.nil_sublist _)
  · cases h

theorem advanced [HasSqrt K] {svc : Services K ι} {s s' : BatchProcess K ι} {a : BatchAction K ι}
    (hbatch : ∀ items, a ≠ .batch items) (hrestart : a ≠ .restart)
    (h : step svc s a = some s') : Advanced svc s s' := by
  cases a with
  | batch items => exact absurd rfl (hbatch items)
  | restart => exact absurd rfl hrestart
  | next => exact advanced_next h
  | raise e reached => exact advanced_raise h
  | loaded image =>
    simp only [BatchProcess.step] at h
    split at h
    · rename_i hpc
      cases h
      exact .still [] (by simp) rfl (by simp [remaining, hpc])
    · cases h
  | detected detectionsPerFrame =>
    simp only [BatchProcess.step] at h
    split at h
    · rename_i items images hpc
      cases h
      refine .still [] (by simp) rfl ?_
      simp [remaining, hpc, List.zip_map']
    · cases h
  | publish =>
    simp only [BatchProcess.step] at h
    split at h
    · rename_i messageId track tracks messageIds frames detectionsPerFrame hpc
      cases h
      exact .still [.published (s.worker.newEvent svc track)] rfl rfl (by simp [remaining, hpc])
    · cases h
  | ack =>
    simp only [BatchProcess.step] at h
    split at h
    · rename_i messageId messageIds frames detectionsPerFrame hpc
      cases h
      exact .still [.acked messageId] rfl rfl (by simp [remaining, hpc])
    · cases h

/-- Nothing is inserted into what has been updated and what remains. -/
theorem Advanced.line [HasSqrt K] {svc : Services K ι} {s s' : BatchProcess K ι}
    (h : Advanced svc s s') :
    (s'.updatedIds ++ s'.remaining.map Prod.fst).Sublist
      (s.updatedIds ++ s.remaining.map Prod.fst) := by
  cases h with
  | still told htrace _ hremaining =>
    have hids : s'.updatedIds = s.updatedIds := by
      simp [updatedIds, htrace, List.filterMap_map]
    rw [hids]
    exact (hremaining.map Prod.fst).append_left _
  | failed _ htrace _ hremaining =>
    rw [updatedIds, htrace, hremaining]
    exact (List.nil_sublist _).append_left _
  | turned messageId frame _ tracks _ hremaining _ htrace _ =>
    have hids : s'.updatedIds = s.updatedIds ++ [messageId] := by simp [updatedIds, htrace]
    rw [hids, hremaining]
    simp

theorem Advanced.remaining_subset [HasSqrt K] {svc : Services K ι} {s s' : BatchProcess K ι}
    (h : Advanced svc s s') : s'.remaining ⊆ s.remaining := by
  cases h with
  | still _ _ _ hremaining => exact hremaining.subset
  | failed _ _ _ hremaining => simp [hremaining]
  | turned _ _ _ _ _ hremaining _ _ _ =>
    rw [hremaining]
    exact List.subset_cons_self _ _

/-- Every update has been made with the frame of its message. -/
def TracedBack (backed : FrameItem → Prop) (trace : List (BatchEvent K)) : Prop :=
  ∀ messageId tracks, .updated messageId tracks ∈ trace → ∃ frame, backed (messageId, frame) ∧
    ∀ track ∈ tracks, track.cameraId = frame.cameraId ∧ track.frameId = frame.frameId

section Traced
variable [HasSqrt K] {svc : Services K ι} {s s' : BatchProcess K ι} {backed : FrameItem → Prop}

theorem trackerFor_sound {w : InferenceWorker K} (h : w.Sound svc) (cameraId : String) :
    ∀ c tracker, (w.trackerFor cameraId).2.get? c = some tracker →
      Reachable svc.solver c tracker := by
  intro c tracker hget
  unfold InferenceWorker.trackerFor at hget
  split at hget
  · exact h c tracker hget
  · rw [Dict.get?_set] at hget
    split at hget
    · rename_i hc
      cases hget
      exact hc ▸ .new
    · exact h c tracker hget

theorem Advanced.sound (h : Advanced svc s s') (hs : s.worker.Sound svc) :
    s'.worker.Sound svc := by
  intro c tracker hget
  cases h with
  | still _ _ htrackers _ => exact hs c tracker (htrackers ▸ hget)
  | failed cameraId _ htrackers _ => exact trackerFor_sound hs cameraId c tracker (htrackers ▸ hget)
  | turned _ frame _ tracks next _ hu _ htrackers =>
    rw [htrackers, Dict.get?_set] at hget
    split at hget
    · rename_i hc
      cases hget
      rw [InferenceWorker.trackerFor_fst] at hu
      exact hc ▸ (hs.trackerOf frame.cameraId).update hu
    · exact trackerFor_sound hs frame.cameraId c tracker hget

theorem Advanced.tracedBack [IsStrictOrderedRing K] (hsolver : Assigns svc.solver)
    (h : Advanced svc s s') (hs : s.worker.Sound svc) (hbatch : ∀ item ∈ s.remaining, backed item)
    (ht : TracedBack backed s.trace) : TracedBack backed s'.trace := by
  intro messageId tracks hmem
  cases h with
  | still told htrace _ _ =>
    rw [htrace] at hmem
    rcases List.mem_append.mp hmem with hmem | hmem
    · exact ht messageId tracks hmem
    · simp at hmem
  | failed _ htrace _ _ => exact ht messageId tracks (htrace ▸ hmem)
  | turned id frame _ returned _ hremaining hu htrace _ =>
    rw [htrace] at hmem
    rcases List.mem_append.mp hmem with hmem | hmem
    · exact ht messageId tracks hmem
    · cases List.mem_singleton.mp hmem
      rw [InferenceWorker.trackerFor_fst] at hu
      obtain ⟨hwell, hcamera⟩ := (hs.trackerOf frame.cameraId).wellFormed hsolver
      obtain ⟨_, _, _, hspec⟩ := updated_of_ok hsolver hwell hu
      refine ⟨frame, hbatch _ (hremaining ▸ List.mem_cons_self), fun track htrack => ?_⟩
      refine ⟨(hspec.returned_camera hwell track htrack).trans hcamera, ?_⟩
      rw [hspec.out] at htrack
      obtain ⟨t, _, rfl⟩ := List.mem_map.mp htrack
      rfl

end Traced

/-- A step only adds to the trace. -/
theorem trace_prefix [HasSqrt K] {svc : Services K ι} {s s' : BatchProcess K ι}
    {a : BatchAction K ι} (h : step svc s a = some s') : s.trace <+: s'.trace := by
  cases stepped h with
  | quiet htrace _ _ => rw [htrace]
  | updated messageId tracks _ _ _ htrace _ _ => exact htrace ▸ List.prefix_append _ _
  | published _ track _ _ _ _ _ htrace _ _ => exact htrace ▸ List.prefix_append _ _
  | acked messageId _ _ _ _ htrace _ _ => exact htrace ▸ List.prefix_append _ _

/-- What a step tells the broker is what it adds to the trace. -/
theorem mem_told {s s' : BatchProcess K ι} (h : s.trace <+: s'.trace) {effect : Effect K} :
    .told effect ∈ s'.trace ↔ .told effect ∈ s.trace ∨ effect ∈ s.told s' := by
  obtain ⟨added, hadded⟩ := h
  rw [told, ← hadded, List.drop_left, List.mem_append, List.mem_filterMap]
  constructor
  · rintro (hold | hnew)
    · exact .inl hold
    · exact .inr ⟨_, hnew, rfl⟩
  · rintro (hold | ⟨event, hnew, he⟩)
    · exact .inl hold
    · cases event with
      | updated messageId tracks => cases he
      | told effect' =>
        cases he
        exact .inr hnew

/-- The event is of a track that an update has returned. -/
def Sourced (trace : List (BatchEvent K)) (event : TrackEvent K) : Prop :=
  event.globalIdentityId = none ∧
    ∃ messageId tracks, .updated messageId tracks ∈ trace ∧ event.track ∈ tracks

theorem Sourced.mono {trace trace' : List (BatchEvent K)} {event : TrackEvent K}
    (h : Sourced trace event) (hp : trace <+: trace') : Sourced trace' event := by
  obtain ⟨hnone, messageId, tracks, hupdated, htrack⟩ := h
  exact ⟨hnone, messageId, tracks, hp.subset hupdated, htrack⟩

theorem eventAtHand_eq_some {svc : Services K ι} {s : BatchProcess K ι} {event : TrackEvent K} :
    s.eventAtHand svc = some event ↔ ∃ messageId track tracks messageIds frames dets,
      s.pc = .publishing messageId (track :: tracks) messageIds frames dets ∧
        event = s.worker.newEvent svc track := by
  unfold eventAtHand
  split
  · rename_i messageId track tracks messageIds frames dets hpc
    constructor
    · intro h
      cases h
      exact ⟨_, _, _, _, _, _, hpc, rfl⟩
    · rintro ⟨_, _, _, _, _, _, hpc', rfl⟩
      cases hpc.symm.trans hpc'
      rfl
  · rename_i hpc
    constructor
    · intro h
      cases h
    · rintro ⟨_, _, _, _, _, _, hpc', _⟩
      exact absurd hpc' (hpc _ _ _ _ _ _)

theorem Honest.atHand {svc : Services K ι} {s : BatchProcess K ι} (h : s.Honest)
    {event : TrackEvent K} (he : s.eventAtHand svc = some event) : Sourced s.trace event := by
  obtain ⟨messageId, track, tracks, _, _, _, hpc, rfl⟩ := eventAtHand_eq_some.mp he
  obtain ⟨earlier, events, hturn⟩ := h.turn _ _ _ _ _ hpc
  refine ⟨rfl, messageId, _, hturn ▸ List.mem_append_right _ List.mem_cons_self, ?_⟩
  exact List.mem_append_right _ List.mem_cons_self

/-- What is told of an event, is told of the one at hand. -/
theorem published_atHand [HasSqrt K] {svc : Services K ι} {s s' : BatchProcess K ι}
    {a : BatchAction K ι} (h : step svc s a = some s') {event : TrackEvent K}
    (he : .published event ∈ s.told s') : s.eventAtHand svc = some event := by
  cases stepped h with
  | quiet htrace _ _ => simp [told, htrace] at he
  | updated messageId tracks _ _ _ htrace _ _ => simp [told, htrace, BatchEvent.effect] at he
  | acked messageId _ _ _ _ htrace _ _ =>
    simp [told, htrace, BatchProcess.ack, BatchEvent.effect] at he
  | published messageId track tracks messageIds frames dets hpc htrace _ _ =>
    simp [told, htrace, BatchProcess.publish, BatchEvent.effect] at he
    exact eventAtHand_eq_some.mpr ⟨_, _, _, _, _, _, hpc, he⟩

/-- What an action of a worker does to `_process_batch`. -/
inductive Processed [HasSqrt K] (svc : Services K ι) (s s' : BatchProcess K ι) : Prop
  | same : s' = s → Processed svc s s'
  | step (a : BatchAction K ι) : a ≠ .restart → step svc s a = some s' → Processed svc s s'
  | restart : s'.trace = s.trace → s'.pc = .idle →
      s'.worker.constructed = s.abandon.worker.constructed → Processed svc s s'

/-- The event has been constructed by this worker, and no other one has its id. -/
def Issued (svc : Services K ι) (s : BatchProcess K ι) (event : TrackEvent K) : Prop :=
  ∃ k, event.eventId = svc.uuid k ∧ (k < s.worker.constructed ∨
    k = s.worker.constructed ∧ s.eventAtHand svc = some event)

theorem issued_atHand {svc : Services K ι} {s : BatchProcess K ι} {event : TrackEvent K}
    (h : s.eventAtHand svc = some event) : Issued svc s event := by
  obtain ⟨_, track, _, _, _, _, _, rfl⟩ := eventAtHand_eq_some.mp h
  exact ⟨s.worker.constructed, rfl, .inr ⟨rfl, h⟩⟩

section Processed
variable [HasSqrt K] {svc : Services K ι} {s s' : BatchProcess K ι}

/-- The event at hand keeps its number until the next one takes another. -/
theorem constructed_step {a : BatchAction K ι} (ha : a ≠ .restart)
    (h : step svc s a = some s') : s.worker.constructed ≤ s'.worker.constructed ∧
      (s.eventAtHand svc ≠ none → s.worker.constructed < s'.worker.constructed) := by
  have hquiet : ∀ {P : Prop}, s.eventAtHand svc = none → s.eventAtHand svc ≠ none → P :=
    fun h1 h2 => absurd h1 h2
  cases a with
  | restart => exact absurd rfl ha
  | next =>
    simp only [BatchProcess.step, BatchProcess.next] at h
    split at h
    · rename_i hpc
      cases h
      exact ⟨le_rfl, hquiet (by simp [eventAtHand, hpc])⟩
    · rename_i hpc
      split at h <;> cases h <;> exact ⟨le_rfl, hquiet (by simp [eventAtHand, hpc])⟩
    · rename_i hpc
      cases h
      exact ⟨le_rfl, hquiet (by simp [eventAtHand, hpc])⟩
    · cases h
  | raise e reached =>
    simp only [BatchProcess.step, BatchProcess.raise] at h
    split at h
    · rename_i hpc
      cases h
      exact ⟨le_rfl, hquiet (by simp [eventAtHand, hpc])⟩
    · cases h
      cases reached <;> exact ⟨Nat.le_succ _, fun _ => Nat.lt_succ_self _⟩
    · rename_i hpc
      cases h
      cases reached <;> exact ⟨le_rfl, hquiet (by simp [eventAtHand, hpc])⟩
    · cases h
  | batch items =>
    simp only [BatchProcess.step] at h
    split at h
    · rename_i hpc
      cases h
      exact ⟨le_rfl, hquiet (by simp [eventAtHand, hpc])⟩
    · cases h
  | loaded image =>
    simp only [BatchProcess.step] at h
    split at h
    · rename_i hpc
      cases h
      exact ⟨le_rfl, hquiet (by simp [eventAtHand, hpc])⟩
    · cases h
  | detected detectionsPerFrame =>
    simp only [BatchProcess.step] at h
    split at h
    · rename_i hpc
      cases h
      exact ⟨le_rfl, hquiet (by simp [eventAtHand, hpc])⟩
    · cases h
  | publish =>
    simp only [BatchProcess.step] at h
    split at h
    · cases h
      exact ⟨Nat.le_succ _, fun _ => Nat.lt_succ_self _⟩
    · cases h
  | ack =>
    simp only [BatchProcess.step] at h
    split at h
    · rename_i hpc
      cases h
      exact ⟨le_rfl, hquiet (by simp [eventAtHand, hpc])⟩
    · cases h

omit [HasSqrt K] in
/-- Abandoned, the event at hand takes its number with it. -/
theorem constructed_abandon (svc : Services K ι) (s : BatchProcess K ι) :
    s.worker.constructed ≤ s.abandon.worker.constructed ∧
    (s.eventAtHand svc ≠ none → s.worker.constructed < s.abandon.worker.constructed) := by
  unfold abandon eventAtHand
  split
  · exact ⟨Nat.le_succ _, fun _ => Nat.lt_succ_self _⟩
  · exact ⟨le_rfl, fun h => absurd rfl h⟩

theorem Processed.issued (h : Processed svc s s') {event : TrackEvent K}
    (hissued : Issued svc s event) : Issued svc s' event := by
  have hlater : s.worker.constructed ≤ s'.worker.constructed →
      (s.eventAtHand svc ≠ none → s.worker.constructed < s'.worker.constructed) →
      Issued svc s' event := by
    intro hle hlt
    obtain ⟨k, hid, hk | ⟨rfl, hhand⟩⟩ := hissued
    · exact ⟨k, hid, .inl (hk.trans_le hle)⟩
    · exact ⟨_, hid, .inl (hlt (by simp [hhand]))⟩
  cases h with
  | same hs => exact hs ▸ hissued
  | step a ha hstep =>
    obtain ⟨hle, hlt⟩ := constructed_step ha hstep
    exact hlater hle hlt
  | restart _ _ hconstructed =>
    obtain ⟨hle, hlt⟩ := constructed_abandon svc s
    rw [← hconstructed] at hle hlt
    exact hlater hle hlt

theorem Processed.honest (h : Processed svc s s') (hs : s.Honest) : s'.Honest := by
  cases h with
  | same he => exact he ▸ hs
  | step a _ hstep => exact hs.step hstep
  | restart htrace hpc _ => exact ⟨htrace ▸ hs.acks, fun _ _ _ _ _ he => nomatch hpc.symm.trans he⟩

theorem Processed.trace (h : Processed svc s s') : s.trace <+: s'.trace := by
  cases h with
  | same he => rw [he]
  | step a _ hstep => exact trace_prefix hstep
  | restart htrace _ _ => rw [htrace]

theorem Processed.published (h : Processed svc s s') {event : TrackEvent K}
    (he : .published event ∈ s.told s') : s.eventAtHand svc = some event := by
  cases h with
  | same hs => simp [told, hs] at he
  | step a _ hstep => exact published_atHand hstep he
  | restart htrace _ _ => simp [told, htrace] at he

end Processed

end BatchProcess

namespace WorkerLoop

/-- The messages that are consumed and not yet submitted. -/
def unsubmitted (s : WorkerLoop K ι π) : List (Message String π) :=
  match s.main with
  | .submitting remaining => remaining
  | _ => []

/-- The items that are submitted and not yet in a batch. -/
def unbatched (s : WorkerLoop K ι π) : List FrameItem :=
  (if s.processing then [] else s.batcher.pending) ++ s.batcher.queue

/-- The messages that the worker has consumed, in order: first those that an update has been
made for, and then those that wait for theirs. -/
def line (s : WorkerLoop K ι π) : List String :=
  s.process.updatedIds ++ (s.process.remaining ++ s.unbatched).map Prod.fst ++
    s.unsubmitted.map Message.messageId

theorem unbatched_processing {s : WorkerLoop K ι π} (h : s.processing = true) :
    s.unbatched = s.batcher.queue := by
  simp [unbatched, h]

theorem unbatched_looping {s : WorkerLoop K ι π} (h : s.processing = false) :
    s.unbatched = s.batcher.pending ++ s.batcher.queue := by
  simp [unbatched, h]

/-- What an action of a worker, other than consuming, does to what it has consumed. -/
inductive Moved [HasSqrt K] (svc : Services K ι) (validate : π → Except Error RawFrame)
    (s s' : WorkerLoop K ι π) : Prop
  | looped : (s'.unsubmitted = s.unsubmitted ∨ s'.unsubmitted = []) →
      s'.unbatched = s.unbatched → s'.process = s.process → Moved svc validate s s'
  | submitted (message : Message String π) (frame : RawFrame) :
      s.unsubmitted = message :: s'.unsubmitted → validate message.payload = .ok frame →
      s'.unbatched = s.unbatched ++ [(message.messageId, frame)] → s'.process = s.process →
      Moved svc validate s s'
  | flushed (batch : List FrameItem) : s'.unsubmitted = s.unsubmitted →
      s.unbatched = batch ++ s'.unbatched → s.process.remaining = [] →
      s'.process.remaining = batch → s'.process.trace = s.process.trace →
      s'.process.worker = s.process.worker → Moved svc validate s s'
  | advanced : s'.unsubmitted = s.unsubmitted → s'.unbatched = s.unbatched →
      s.process.Advanced svc s'.process → Moved svc validate s s'
  | restarted : s'.unsubmitted = [] → s'.unbatched = [] → s'.process.remaining = [] →
      s'.process.trace = s.process.trace → s'.process.worker.trackers = .empty →
      Moved svc validate s s'

section Steps
variable [HasSqrt K] [Rounding K] {cfg : BatcherConfig} {svc : Services K ι}
  {validate : π → Except Error RawFrame} {s s' : WorkerLoop K ι π}

omit [HasSqrt K] in
/-- The loop of the batcher keeps what it holds, in order, and moves outside a flush. -/
theorem loop_moves {α ω : Type} {onBatch : OnBatch ω α} {b b' : DynamicBatcher K ω α}
    {a : BatcherAction K α} (hsubmit : ∀ item, a ≠ .submit item) (hbatch : a ≠ .batch)
    (hstop : a ≠ .stop) (h : DynamicBatcher.step cfg onBatch b a = some b') :
    b'.pending ++ b'.queue = b.pending ++ b.queue ∧ ∀ final, b.pc ≠ .flushing final := by
  cases DynamicBatcher.stepped h with
  | submit item => exact absurd rfl (hsubmit item)
  | stop => exact absurd rfl hstop
  | batch => exact absurd rfl hbatch
  | check now hpc =>
    have hsame := DynamicBatcher.check_same cfg now b
    exact ⟨by rw [hsame.pending, hsame.queue], fun final => by simp [hpc]⟩
  | timeout now hpc _ =>
    have hsame := DynamicBatcher.timeout_same cfg now b
    exact ⟨by rw [hsame.pending, hsame.queue], fun final => by simp [hpc]⟩
  | take now item rest hpc hqueue =>
    have hsame := DynamicBatcher.take_same cfg now item rest b
    exact ⟨by simp [hsame.pending, hsame.queue, hqueue], fun final => by simp [hpc]⟩

omit [Rounding K] in
theorem moved_die (e : Error) : Moved svc validate s (s.die e) :=
  .looped (.inr rfl) rfl rfl

theorem moved_submit (h : step cfg svc validate s .submit = some s') :
    Moved svc validate s s' := by
  simp only [step] at h
  split at h
  · rename_i message remaining hmain
    split at h
    · rename_i frame hvalidate
      cases h
      refine .submitted message frame ?_ hvalidate ?_ rfl
      · cases remaining <;> simp [unsubmitted, hmain]
      · simp only [unbatched, processing, List.append_assoc]
        rfl
    · cases h
      exact moved_die _
  · cases h

omit [Rounding K] in
theorem moved_loop {b : DynamicBatcher K Unit FrameItem}
    (hmoves : b.pending ++ b.queue = s.batcher.pending ++ s.batcher.queue)
    (hpc : s.processing = false) (h : { s with batcher := b }.flushed svc = some s') :
    Moved svc validate s s' := by
  rw [flushed] at h
  split at h
  · rename_i hflushing
    obtain ⟨process, hprocess, rfl⟩ := Option.map_eq_some_iff.mp h
    simp only [BatchProcess.step] at hprocess
    split at hprocess
    · rename_i hidle
      cases hprocess
      refine .flushed b.pending rfl ?_ (by simp [BatchProcess.remaining, hidle]) rfl rfl rfl
      rw [unbatched_looping hpc, ← hmoves]
      exact congrArg (b.pending ++ ·) (unbatched_processing hflushing).symm
    · cases hprocess
  · rename_i hloop
    cases h
    refine .looped (.inl rfl) ?_ rfl
    rw [unbatched_looping hpc, unbatched_looping (Bool.eq_false_iff.mpr hloop), hmoves]

theorem moved_batcher {a : BatcherAction K FrameItem}
    (h : step cfg svc validate s (.batcher a) = some s') : Moved svc validate s s' := by
  have hrest : ∀ hsubmit : ∀ item, a ≠ .submit item, a ≠ .batch → a ≠ .stop →
      (∃ b, s.batcher.step cfg (fun _ _ => ((), none)) a = some b ∧
        { s with batcher := b }.flushed svc = some s') → Moved svc validate s s' := by
    intro hsubmit hbatch hstop hloop
    obtain ⟨b, hb, hflushed⟩ := hloop
    obtain ⟨hmoves, hpc⟩ := loop_moves hsubmit hbatch hstop hb
    refine moved_loop hmoves ?_ hflushed
    unfold processing
    split
    · rename_i final hfinal
      exact absurd hfinal (hpc final)
    · rfl
  cases a with
  | submit item => cases h
  | stop => cases h
  | batch => cases h
  | check now => exact hrest (by simp) (by simp) (by simp) (Option.bind_eq_some_iff.mp h)
  | take now => exact hrest (by simp) (by simp) (by simp) (Option.bind_eq_some_iff.mp h)
  | timeout now => exact hrest (by simp) (by simp) (by simp) (Option.bind_eq_some_iff.mp h)

theorem moved_process {a : BatchAction K ι}
    (h : step cfg svc validate s (.process a) = some s') : Moved svc validate s s' := by
  have hrest : (∀ items, a ≠ .batch items) → a ≠ .restart →
      (if s.processing then (BatchProcess.step svc s.process a).map
        (fun process => { s with process := process }) else none) = some s' →
      Moved svc validate s s' := by
    intro hbatch hrestart hstep
    split at hstep
    · obtain ⟨process, hprocess, rfl⟩ := Option.map_eq_some_iff.mp hstep
      exact .advanced rfl rfl (BatchProcess.advanced hbatch hrestart hprocess)
    · cases hstep
  cases a with
  | batch items => cases h
  | restart => cases h
  | loaded image => exact hrest (by simp) (by simp) h
  | detected detections => exact hrest (by simp) (by simp) h
  | next => exact hrest (by simp) (by simp) h
  | publish => exact hrest (by simp) (by simp) h
  | ack => exact hrest (by simp) (by simp) h
  | raise e reached => exact hrest (by simp) (by simp) h

theorem moved_returned (h : step cfg svc validate s .returned = some s') :
    Moved svc validate s s' := by
  obtain ⟨raised, _, h⟩ := Option.bind_eq_some_iff.mp h
  obtain ⟨b, hb, h⟩ := Option.bind_eq_some_iff.mp h
  cases h
  cases DynamicBatcher.stepped hb with
  | batch final hpc =>
    have hprocessing : s.processing = true := by simp [processing, hpc]
    refine .looped (.inl rfl) ?_ rfl
    rw [unbatched_processing hprocessing]
    unfold unbatched processing DynamicBatcher.batch
    cases raised <;> cases final <;> rfl

theorem moved_restart (h : step cfg svc validate s .restart = some s') :
    Moved svc validate s s' := by
  cases h
  refine .restarted rfl rfl rfl ?_ rfl
  unfold BatchProcess.abandon
  split <;> rfl

/-- Every action of a worker but consuming is one of these. -/
theorem moved {a : WorkerAction K ι π} (hconsumed : ∀ messages, a ≠ .consumed messages)
    (h : step cfg svc validate s a = some s') : Moved svc validate s s' := by
  cases a with
  | consumed messages => exact absurd rfl (hconsumed messages)
  | submit => exact moved_submit h
  | batcher a => exact moved_batcher h
  | process a => exact moved_process h
  | returned => exact moved_returned h
  | restart => exact moved_restart h
  | raise e =>
    simp only [step] at h
    split at h
    · cases h
      exact moved_die e
    · cases h

omit [Rounding K] in
theorem processed_flushed {b : DynamicBatcher K Unit FrameItem}
    (h : { s with batcher := b }.flushed svc = some s') : s.process.Processed svc s'.process := by
  rw [flushed] at h
  split at h
  · obtain ⟨process, hprocess, rfl⟩ := Option.map_eq_some_iff.mp h
    exact .step _ (by simp) hprocess
  · cases h
    exact .same rfl

theorem processed {a : WorkerAction K ι π} (h : step cfg svc validate s a = some s') :
    s.process.Processed svc s'.process := by
  cases a with
  | consumed messages =>
    simp only [step] at h
    split at h <;> cases h
    exact .same rfl
  | submit =>
    simp only [step] at h
    split at h
    · split at h <;> cases h <;> exact .same rfl
    · cases h
  | raise e =>
    simp only [step] at h
    split at h <;> cases h
    exact .same rfl
  | batcher a =>
    cases a with
    | submit item => cases h
    | stop => cases h
    | batch => cases h
    | check now =>
      obtain ⟨b, _, h⟩ := Option.bind_eq_some_iff.mp h
      exact processed_flushed h
    | take now =>
      obtain ⟨b, _, h⟩ := Option.bind_eq_some_iff.mp h
      exact processed_flushed h
    | timeout now =>
      obtain ⟨b, _, h⟩ := Option.bind_eq_some_iff.mp h
      exact processed_flushed h
  | process a =>
    have hrest : a ≠ .restart → (if s.processing then (BatchProcess.step svc s.process a).map
        (fun process => { s with process := process }) else none) = some s' →
        s.process.Processed svc s'.process := by
      intro ha hstep
      split at hstep
      · obtain ⟨process, hprocess, rfl⟩ := Option.map_eq_some_iff.mp hstep
        exact .step a ha hprocess
      · cases hstep
    cases a with
    | batch items => cases h
    | restart => cases h
    | loaded image => exact hrest (by simp) h
    | detected detections => exact hrest (by simp) h
    | next => exact hrest (by simp) h
    | publish => exact hrest (by simp) h
    | ack => exact hrest (by simp) h
    | raise e reached => exact hrest (by simp) h
  | returned =>
    obtain ⟨raised, _, h⟩ := Option.bind_eq_some_iff.mp h
    obtain ⟨b, _, h⟩ := Option.bind_eq_some_iff.mp h
    cases h
    exact .same rfl
  | restart =>
    cases h
    refine .restart ?_ rfl rfl
    unfold BatchProcess.abandon
    split <;> rfl

theorem consumed_spec {messages : List (Message String π)}
    (h : step cfg svc validate s (.consumed messages) = some s') :
    s.unsubmitted = [] ∧ s'.unsubmitted = messages ∧ s'.unbatched = s.unbatched ∧
      s'.process = s.process := by
  simp only [step] at h
  split at h
  · rename_i hmain
    cases h
    refine ⟨by simp [unsubmitted, hmain], ?_, rfl, rfl⟩
    cases messages <;> rfl
  · cases h

end Steps

section Line
variable [HasSqrt K] {svc : Services K ι} {validate : π → Except Error RawFrame}
  {s s' : WorkerLoop K ι π}

/-- Nothing is inserted into the line of a worker, or moved in it. -/
theorem Moved.line_sublist (h : Moved svc validate s s') : s'.line.Sublist s.line := by
  have hsame : s'.process = s.process → s'.unbatched = s.unbatched →
      s'.unsubmitted = s.unsubmitted → s'.line.Sublist s.line := by
    intro hprocess hunbatched hunsubmitted
    rw [line, line, hprocess, hunbatched, hunsubmitted]
  cases h with
  | looped hunsubmitted hunbatched hprocess =>
    rcases hunsubmitted with hunsubmitted | hunsubmitted
    · exact hsame hprocess hunbatched hunsubmitted
    · rw [line, line, hprocess, hunbatched, hunsubmitted, List.map_nil]
      exact (List.nil_sublist _).append_left _
  | submitted message frame hunsubmitted _ hunbatched hprocess =>
    rw [line, line, hprocess, hunbatched, hunsubmitted]
    simp
  | flushed batch hunsubmitted hunbatched hbefore hafter htrace _ =>
    have hids : s'.process.updatedIds = s.process.updatedIds := by
      rw [BatchProcess.updatedIds, htrace, BatchProcess.updatedIds]
    rw [line, line, hids, hafter, hbefore, hunbatched, hunsubmitted, List.nil_append]
  | advanced hunsubmitted hunbatched hadvanced =>
    rw [line, line, hunbatched, hunsubmitted, List.map_append, List.map_append,
      ← List.append_assoc, ← List.append_assoc]
    exact (hadvanced.line.append_right _).append_right _
  | restarted hunsubmitted hunbatched hremaining htrace _ =>
    have hids : s'.process.updatedIds = s.process.updatedIds := by
      rw [BatchProcess.updatedIds, htrace, BatchProcess.updatedIds]
    rw [line, line, hids, hremaining, hunbatched, hunsubmitted]
    simp only [List.append_nil, List.map_nil, List.append_assoc]
    exact List.sublist_append_left _ _

omit [HasSqrt K] in
/-- What is consumed goes to the end of the line. -/
theorem line_consumed {messages : List (Message String π)} (hbefore : s.unsubmitted = [])
    (hafter : s'.unsubmitted = messages) (hunbatched : s'.unbatched = s.unbatched)
    (hprocess : s'.process = s.process) :
    s'.line = s.line ++ messages.map Message.messageId := by
  rw [line, line, hbefore, hafter, hunbatched, hprocess]
  simp

/-- What a worker holds comes from what it has been sent, its updates have been made with it,
and its trackers are those of the frames. -/
structure Fed (svc : Services K ι) (sent : Message String π → Prop) (backed : FrameItem → Prop)
    (s : WorkerLoop K ι π) : Prop where
  trackers : s.process.worker.Sound svc
  messages : ∀ message ∈ s.unsubmitted, sent message
  items : ∀ item ∈ s.process.remaining ++ s.unbatched, backed item
  traced : BatchProcess.TracedBack backed s.process.trace

theorem start_fed {sent : Message String π → Prop} {backed : FrameItem → Prop} :
    Fed svc sent backed (start : WorkerLoop K ι π) := by
  constructor
  · intro c tracker h
    cases h
  · intro message h
    cases h
  · intro item h
    cases h
  · intro messageId tracks h
    cases h

/-- What is sent later makes no difference. -/
theorem Fed.mono {sent sent' : Message String π → Prop} {backed backed' : FrameItem → Prop}
    (h : Fed svc sent backed s) (hsent : ∀ message, sent message → sent' message)
    (hbacked : ∀ item, backed item → backed' item) : Fed svc sent' backed' s := by
  refine ⟨h.trackers, fun message hm => hsent message (h.messages message hm),
    fun item hi => hbacked item (h.items item hi), fun messageId tracks hm => ?_⟩
  obtain ⟨frame, hframe, htracks⟩ := h.traced messageId tracks hm
  exact ⟨frame, hbacked _ hframe, htracks⟩

theorem Fed.consumed {messages : List (Message String π)} {sent : Message String π → Prop}
    {backed : FrameItem → Prop} (h : Fed svc sent backed s) (hafter : s'.unsubmitted = messages)
    (hunbatched : s'.unbatched = s.unbatched) (hprocess : s'.process = s.process)
    (hsent : ∀ message ∈ messages, sent message) : Fed svc sent backed s' :=
  ⟨hprocess ▸ h.trackers, hafter ▸ hsent, by simpa only [hprocess, hunbatched] using h.items,
    hprocess ▸ h.traced⟩

theorem Fed.moved [IsStrictOrderedRing K] (hsolver : Assigns svc.solver)
    {sent : Message String π → Prop} {backed : FrameItem → Prop}
    (hvalid : ∀ message frame, sent message → validate message.payload = .ok frame →
      backed (message.messageId, frame))
    (h : Fed svc sent backed s) (hmoved : Moved svc validate s s') : Fed svc sent backed s' := by
  obtain ⟨htrackers, hmessages, hitems, htraced⟩ := h
  cases hmoved with
  | looped hunsubmitted hunbatched hprocess =>
    refine ⟨hprocess ▸ htrackers, ?_, by rwa [hprocess, hunbatched], hprocess ▸ htraced⟩
    rcases hunsubmitted with hunsubmitted | hunsubmitted
    · rwa [hunsubmitted]
    · simp [hunsubmitted]
  | submitted message frame hunsubmitted hvalidate hunbatched hprocess =>
    rw [hunsubmitted] at hmessages
    refine ⟨hprocess ▸ htrackers, fun m hm => hmessages m (List.mem_cons_of_mem _ hm), ?_,
      hprocess ▸ htraced⟩
    intro item hitem
    rw [hprocess, hunbatched, ← List.append_assoc] at hitem
    rcases List.mem_append.mp hitem with hold | hnew
    · exact hitems item hold
    · rw [List.mem_singleton.mp hnew]
      exact hvalid message frame (hmessages message List.mem_cons_self) hvalidate
  | flushed batch hunsubmitted hunbatched hbefore hafter htrace hworker =>
    refine ⟨hworker ▸ htrackers, hunsubmitted ▸ hmessages, ?_, htrace ▸ htraced⟩
    rwa [hbefore, hunbatched, List.nil_append, ← hafter] at hitems
  | advanced hunsubmitted hunbatched hadvanced =>
    have hremaining : ∀ item ∈ s.process.remaining, backed item :=
      fun item hi => hitems item (List.mem_append_left _ hi)
    refine ⟨hadvanced.sound htrackers, hunsubmitted ▸ hmessages, ?_,
      hadvanced.tracedBack hsolver htrackers hremaining htraced⟩
    intro item hitem
    rcases List.mem_append.mp hitem with hitem | hitem
    · exact hremaining item (hadvanced.remaining_subset hitem)
    · exact hitems item (List.mem_append_right _ (hunbatched ▸ hitem))
  | restarted hunsubmitted hunbatched hremaining htrace htrackers' =>
    refine ⟨?_, by simp [hunsubmitted], by simp [hremaining, hunbatched], htrace ▸ htraced⟩
    intro c tracker hget
    rw [htrackers'] at hget
    cases hget

end Line

end WorkerLoop
end CamTrack
