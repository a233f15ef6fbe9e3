import CamTrack.Proofs.Batching
import CamTrack.Proofs.Identity
import CamTrack.Proofs.Redelivery

namespace CamTrack
open Python Machine Assignment InferenceWorker

variable {K : Type} [Field K] [LinearOrder K]

/-- An effect without the id and the time that are drawn when it happens. -/
def Effect.content : Effect K → Effect K
  | .published event => .published { event with eventId := "", eventTimeMs := 0 }
  | .acked messageId => .acked messageId

section Reference
variable [HasSqrt K] {ι : Type}

/-- A worker that is given its frames in batches of one. -/
def InferenceWorker.oneByOne (svc : Services K ι) (items : List FrameItem) :
    Except Error (InferenceWorker K) :=
  items.foldlM (fun w item => processBatch svc w [item]) new

/-- What a tracker returns for frames one after the other, and what it is then. -/
def ByteTracker.emit (solver : LinearSumAssignment K) (self : ByteTracker K) :
    List (List (Detection K) × String) → Except Error (List (Track K) × ByteTracker K)
  | [] => return ([], self)
  | (detections, frameId) :: frames => do
    let (tracks, self) ← update solver self detections frameId
    let (rest, self) ← emit solver self frames
    return (tracks ++ rest, self)

/-- The frames of one camera, as its tracker gets them. -/
def InferenceWorker.framesOf (svc : Services K ι) (cameraId : String) (items : List FrameItem) :
    List (List (Detection K) × String) :=
  (items.filter (fun item => item.2.cameraId = cameraId)).map
    (fun item => (detections svc item.2, item.2.frameId))

/-- The tracks that a worker has published for one camera. -/
def InferenceWorker.tracksOf (cameraId : String) (w : InferenceWorker K) : List (Track K) :=
  (w.events.map TrackEvent.track).filter (fun track => track.cameraId = cameraId)

end Reference

section Stamps
variable {ι : Type} {svc : Services K ι} {w w' : InferenceWorker K}

/-- Two workers with the same trackers that have done the same, but for ids and times. -/
structure SameButStamps (w w' : InferenceWorker K) : Prop where
  trackers : w.trackers = w'.trackers
  effects : w.effects.map Effect.content = w'.effects.map Effect.content

theorem newEvents_stampless (svc : Services K ι) (n : Nat) (tracks : List (Track K)) :
    ((newEvents svc n tracks).map Effect.published).map Effect.content =
      tracks.map (fun track => .published ⟨"", track, none, 0⟩) := by
  induction tracks generalizing n with
  | nil => rfl
  | cons t ts ih => simpa [newEvents, Effect.content] using ih (n + 1)

variable [HasSqrt K] [IsStrictOrderedRing K] {uuid : Nat → String} {nowMs : Nat → Int}

theorem SameButStamps.handled (hs : Assigns svc.solver) (hw : Sound svc w)
    (hw' : Sound (svc.renew uuid nowMs) w') (h : SameButStamps w w') (item : FrameItem) :
    SameButStamps (handled svc w item) (handled (svc.renew uuid nowMs) w' item) := by
  obtain ⟨tracks, tracker, hh, hh'⟩ := handled_same hs hw hw' h.trackers item
  refine ⟨by rw [hh.trackers, hh'.trackers, h.trackers], ?_⟩
  rw [hh.effects, hh'.effects]
  simp only [List.map_append, newEvents_stampless, h.effects]

/-- The same frames are processed alike under other ids and another clock. -/
theorem after_sameButStamps (hs : Assigns svc.solver) (items : List FrameItem) :
    SameButStamps (after svc items) (after (svc.renew uuid nowMs) items) := by
  induction items using List.reverseRecOn with
  | nil => exact ⟨rfl, rfl⟩
  | append_singleton items item ih =>
    rw [after_concat, after_concat]
    exact ih.handled hs (after_sound hs items) (after_sound (renew_assigns hs) items) item

/-- In batches of one, frames are processed one after the other. -/
theorem oneByOne_ok (hs : Assigns svc.solver) {items : List FrameItem}
    (hload : ∀ item ∈ items, loadable svc item = true) :
    oneByOne svc items = .ok (after svc items) := by
  induction items using List.reverseRecOn with
  | nil => rfl
  | append_singleton items item ih =>
    have hprev := ih (fun other ho => hload other (List.mem_append_left _ ho))
    have hlast := hload item (List.mem_append_right _ List.mem_cons_self)
    unfold oneByOne at hprev ⊢
    rw [List.foldlM_append, after_concat]
    refine bind_eq_ok.mpr ⟨_, hprev, bind_eq_ok.mpr ⟨_, ?_, rfl⟩⟩
    exact processBatch_ok hs (after_sound hs items) (by simpa using hlast)

end Stamps

section Cameras
variable [HasSqrt K] {ι : Type} {svc : Services K ι} {solver : LinearSumAssignment K}

theorem emit_concat {st st' st'' : ByteTracker K} {frames : List (List (Detection K) × String)}
    {tracks tracks' : List (Track K)} (h : st.emit solver frames = .ok (tracks, st'))
    (hu : st'.update solver ds frameId = .ok (tracks', st'')) :
    st.emit solver (frames ++ [(ds, frameId)]) = .ok (tracks ++ tracks', st'') := by
  induction frames generalizing st tracks with
  | nil =>
    cases h
    exact bind_eq_ok.mpr ⟨_, hu, by simp [ByteTracker.emit]⟩
  | cons frame frames ih =>
    obtain ⟨⟨first, st₁⟩, h₁, h⟩ := bind_eq_ok.mp h
    obtain ⟨⟨rest, st₂⟩, h₂, h⟩ := bind_eq_ok.mp h
    cases h
    refine bind_eq_ok.mpr ⟨_, h₁, bind_eq_ok.mpr ⟨_, ih h₂, ?_⟩⟩
    simp

omit [HasSqrt K] in
theorem framesOf_concat (svc : Services K ι) (cameraId : String) (items : List FrameItem)
    (item : FrameItem) :
    framesOf svc cameraId (items ++ [item]) = framesOf svc cameraId items ++
      if item.2.cameraId = cameraId then [(detections svc item.2, item.2.frameId)] else [] := by
  rw [framesOf, List.filter_append, List.map_append]
  by_cases hc : item.2.cameraId = cameraId <;> simp [framesOf, hc]

theorem InferenceWorker.Handled.tracksOf {w w' : InferenceWorker K} {item : FrameItem}
    {tracks : List (Track K)} {tracker : ByteTracker K}
    (h : Handled svc w item tracks tracker w') (cameraId : String) :
    InferenceWorker.tracksOf cameraId w' =
      InferenceWorker.tracksOf cameraId w ++
        tracks.filter (fun track => track.cameraId = cameraId) := by
  rw [InferenceWorker.tracksOf, h.events, List.map_append, newEvents_tracks, List.filter_append]
  rfl

variable [IsStrictOrderedRing K]

/-- A tracker returns tracks of its own camera. -/
theorem Updated.returned_camera {st st' : ByteTracker K} {ds : List (Detection K)}
    {a : ByteTracker.TwoStages K} {b : ByteTracker.ThreeStages K} {out : List (Track K)}
    (h : Updated solver st ds frameId a b out st') (hw : WellFormed st) :
    ∀ track ∈ out, track.cameraId = st.cameraId := by
  intro track ht
  rw [h.out] at ht
  obtain ⟨t, hvalue, rfl⟩ := List.mem_map.mp ht
  obtain ⟨entry, hentry, rfl⟩ := List.mem_map.mp hvalue
  obtain ⟨_, hc, _⟩ := (h.wellFormed hw).issued entry.1 entry.2 (Dict.get?_eq_some.mpr hentry)
  exact hc.trans h.cameraId

/-- For every camera a worker publishes what a tracker of its own would return. -/
theorem emit_framesOf (hs : Assigns svc.solver) (items : List FrameItem) (cameraId : String) :
    (newTracker cameraId).emit svc.solver (framesOf svc cameraId items) =
      .ok (tracksOf cameraId (after svc items), (after svc items).trackerOf cameraId) := by
  induction items using List.reverseRecOn with
  | nil => rfl
  | append_singleton items item ih =>
    obtain ⟨_, _, tracks, tracker, hh, hu⟩ := handled_updated hs (after_sound hs items) item
    obtain ⟨hwf, hcam⟩ := ((after_sound hs items).trackerOf item.2.cameraId).wellFormed hs
    have hcamera : ∀ track ∈ tracks, track.cameraId = item.2.cameraId :=
      fun track ht => (hu.returned_camera hwf track ht).trans hcam
    rw [after_concat, hh.tracksOf, hh.trackerOf, framesOf_concat]
    by_cases hc : item.2.cameraId = cameraId
    · subst hc
      have hall : tracks.filter (fun track => track.cameraId = item.2.cameraId) = tracks :=
        List.filter_eq_self.mpr (fun track ht => by simp [hcamera track ht])
      rw [hall, if_pos rfl, if_pos rfl]
      exact emit_concat ih hh.update
    · have hnone : tracks.filter (fun track => track.cameraId = cameraId) = [] :=
        List.filter_eq_nil_iff.mpr (fun track ht => by simp [hcamera track ht, hc])
      rw [hnone, if_neg hc, if_neg (Ne.symm hc), List.append_nil, List.append_nil]
      exact ih

end Cameras

section Runs
variable [HasSqrt K] [Rounding K] [IsStrictOrderedRing K] {ι : Type} {svc : Services K ι}
  {cfg : BatcherConfig} {s : Batching K}

/-- A worker whose images all load has processed what it has handed over. -/
theorem owner_of_loaded (hs : Assigns svc.solver)
    (h : Run (DynamicBatcher.step cfg (onBatch svc)) (DynamicBatcher.start new) actions s)
    (hload : ∀ item ∈ DynamicBatcher.submissions actions, loadable svc item = true) :
    s.owner = after svc s.handed.flatten := by
  have hhanded : ∀ item ∈ s.handed.flatten, loadable svc item = true := by
    intro item hi
    apply hload
    rw [← DynamicBatcher.run_accounted h]
    exact List.mem_append_left _ (List.mem_append_left _ hi)
  rw [owner_eq_after hs h, processed, filter_loaded hhanded]

/-- However the frames are cut into batches, once all of them are flushed the worker
has published and acked what it would have, had it been given them one by one, and
for each camera what a tracker returns that is given the frames of the camera alone. -/
theorem batching_transparent (hs : Assigns svc.solver)
    (h : Run (DynamicBatcher.step cfg (onBatch svc)) (DynamicBatcher.start new) actions s)
    (hload : ∀ item ∈ DynamicBatcher.submissions actions, loadable svc item = true)
    (hflushed : s.pending = [] ∧ s.queue = []) (uuid : Nat → String) (nowMs : Nat → Int) :
    (∃ w, oneByOne (svc.renew uuid nowMs) (DynamicBatcher.submissions actions) = .ok w ∧
      s.owner.effects.map Effect.content = w.effects.map Effect.content) ∧
    ∀ cameraId, ∃ tracker, (newTracker cameraId).emit svc.solver
      (framesOf svc cameraId (DynamicBatcher.submissions actions)) =
        .ok (tracksOf cameraId s.owner, tracker) := by
  have hall := DynamicBatcher.run_accounted h
  rw [hflushed.1, hflushed.2, List.append_nil, List.append_nil] at hall
  have howner := owner_of_loaded hs h hload
  rw [hall] at howner
  rw [howner]
  refine ⟨⟨_, oneByOne_ok (renew_assigns hs) hload, (after_sameButStamps hs _).effects⟩, ?_⟩
  intro cameraId
  exact ⟨_, emit_framesOf hs _ cameraId⟩

/-- Two frames of one camera, with one of another between them. -/
def mixedFrames : List FrameItem :=
  [("1-0", squareFrame "f1" "file://f1.jpg"), ("2-0", ⟨"f2", "cam-2", "file://f2.jpg", 0⟩),
    ("3-0", squareFrame "f3" "file://f3.jpg")]

/-- Batches of three frames. -/
def tripleConfig : BatcherConfig := ⟨3, 40, by decide⟩

/-- Submitted together, they are one batch. -/
theorem batching_transparent_mixed :
    ∃ actions, ∃ s : Batching ℚ,
      Run (DynamicBatcher.step tripleConfig (onBatch squareServices))
        (DynamicBatcher.start new) actions s ∧
      s.handed = [mixedFrames] ∧
      ∃ w, oneByOne (squareServices.renew otherUuid (fun _ => 0)) mixedFrames = .ok w ∧
        s.owner.effects.map Effect.content = w.effects.map Effect.content := by
  let filled : Batching ℚ :=
    { queue := [], stopEvent := false, pending := mixedFrames, batchStartedAt := some 0
      pc := .flushing false, owner := new, submitted := mixedFrames, handed := [] }
  let flushed : Batching ℚ :=
    { filled with
      pending := [], batchStartedAt := none, pc := .head, handed := [mixedFrames]
      owner := after squareServices mixedFrames }
  have hload : ∀ item ∈ mixedFrames, loadable squareServices item = true := by decide
  have hbatch : onBatch squareServices new mixedFrames =
      (after squareServices mixedFrames, none) := by
    rw [onBatch, processBatch_ok squareServices_assigns (new_sound _) hload]
  have hstep : DynamicBatcher.step tripleConfig (onBatch squareServices) filled .batch =
      some flushed := by
    change some (filled.batch (onBatch squareServices) false) = _
    simp only [DynamicBatcher.batch, filled, flushed, hbatch]
    rfl
  have hfill : Run (DynamicBatcher.step tripleConfig (onBatch squareServices))
      (DynamicBatcher.start new) (mixedFrames.map .submit ++
        [.check 0, .take 0, .check 0, .take 0, .check 0, .take 0]) filled := rfl
  have hrun := run_append.mpr ⟨filled, hfill, run_singleton.mpr hstep⟩
  exact ⟨_, flushed, hrun, rfl, (batching_transparent squareServices_assigns hrun hload
    ⟨rfl, rfl⟩ otherUuid (fun _ => 0)).1⟩

end Runs
end CamTrack
