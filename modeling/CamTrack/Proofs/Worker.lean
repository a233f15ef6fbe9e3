import CamTrack.Proofs.Update
import CamTrack.Worker

namespace CamTrack
open Python Assignment

variable {K : Type} [Field K] [LinearOrder K]

namespace InferenceWorker
variable {ι : Type} {svc : Services K ι} {w : InferenceWorker K}

/-- A frame whose image loads. -/
def loadable (svc : Services K ι) (item : FrameItem) : Bool :=
  match svc.load item.2.frameUri with
  | .ok _ => true
  | .error _ => false

/-- The detections a worker sees in a frame, none where its image does not load. -/
def detections (svc : Services K ι) (frame : RawFrame) : List (Detection K) :=
  match svc.load frame.frameUri with
  | .ok image => svc.detect frame.frameId frame.cameraId image
  | .error _ => []

/-- The tracker a frame of the camera meets. -/
def trackerOf (w : InferenceWorker K) (cameraId : String) : ByteTracker K :=
  (w.trackers.get? cameraId).getD (newTracker cameraId)

theorem trackerFor_fst (w : InferenceWorker K) (cameraId : String) :
    (w.trackerFor cameraId).1 = w.trackerOf cameraId := by
  unfold trackerFor trackerOf
  cases w.trackers.get? cameraId <;> rfl

theorem trackerFor_set (w : InferenceWorker K) (cameraId : String) (t : ByteTracker K) :
    (w.trackerFor cameraId).2.set cameraId t = w.trackers.set cameraId t := by
  unfold trackerFor
  cases w.trackers.get? cameraId with
  | some _ => rfl
  | none => exact Dict.set_set _ _ _ _

/-- The events for `tracks`, the first of them the `n`-th the worker constructs. -/
def newEvents (svc : Services K ι) : Nat → List (Track K) → List (TrackEvent K)
  | _, [] => []
  | n, t :: ts => ⟨svc.uuid n, t, none, svc.nowMs n⟩ :: newEvents svc (n + 1) ts

theorem foldl_publish (tracks : List (Track K)) (w : InferenceWorker K) :
    tracks.foldl (publish svc) w = { w with
      constructed := w.constructed + tracks.length
      effects := w.effects ++ (newEvents svc w.constructed tracks).map Effect.published } := by
  induction tracks generalizing w with
  | nil => simp [newEvents]
  | cons t ts ih => simp [ih, publish, newEvent, newEvents, Nat.add_assoc, Nat.add_comm 1]

/-- The published events of a worker, and the message ids it has acked. -/
def events (w : InferenceWorker K) : List (TrackEvent K) :=
  w.effects.filterMap (fun e => match e with
    | .published event => some event
    | .acked _ => none)

def acks (w : InferenceWorker K) : List String :=
  w.effects.filterMap (fun e => match e with
    | .published _ => none
    | .acked messageId => some messageId)

section Frames
variable [HasSqrt K]

/-- Every tracker is one that frames of its camera have brought about. -/
def Sound (svc : Services K ι) (w : InferenceWorker K) : Prop :=
  ∀ cameraId tracker, w.trackers.get? cameraId = some tracker →
    Reachable svc.solver cameraId tracker

theorem new_sound (svc : Services K ι) : Sound svc (new : InferenceWorker K) := by
  intro _ _ h
  simp [new] at h

theorem Sound.trackerOf (h : Sound svc w) (cameraId : String) :
    Reachable svc.solver cameraId (w.trackerOf cameraId) := by
  unfold InferenceWorker.trackerOf
  cases hg : w.trackers.get? cameraId with
  | none => exact .new
  | some tracker => exact h cameraId tracker hg

/-- The worker after one more frame whose image loads. -/
def handled (svc : Services K ι) (w : InferenceWorker K) (item : FrameItem) : InferenceWorker K :=
  match processFrame svc w item.1 item.2 (detections svc item.2) with
  | .ok w' => w'
  | .error _ => w

/-- What one frame does to a worker. -/
structure Handled (svc : Services K ι) (w : InferenceWorker K) (item : FrameItem)
    (tracks : List (Track K)) (tracker : ByteTracker K) (w' : InferenceWorker K) : Prop where
  update : (w.trackerOf item.2.cameraId).update svc.solver (detections svc item.2)
    item.2.frameId = .ok (tracks, tracker)
  trackers : w'.trackers = w.trackers.set item.2.cameraId tracker
  constructed : w'.constructed = w.constructed + tracks.length
  effects : w'.effects = w.effects ++ (newEvents svc w.constructed tracks).map Effect.published ++
    [.acked item.1]

theorem Handled.events {w' : InferenceWorker K} {item : FrameItem} {tracks : List (Track K)}
    {tracker : ByteTracker K} (h : Handled svc w item tracks tracker w') :
    w'.events = w.events ++ newEvents svc w.constructed tracks := by
  rw [InferenceWorker.events, h.effects, List.filterMap_append, List.filterMap_append,
    List.filterMap_map]
  simp [InferenceWorker.events]

theorem Handled.acks {w' : InferenceWorker K} {item : FrameItem} {tracks : List (Track K)}
    {tracker : ByteTracker K} (h : Handled svc w item tracks tracker w') :
    w'.acks = w.acks ++ [item.1] := by
  rw [InferenceWorker.acks, h.effects, List.filterMap_append, List.filterMap_append,
    List.filterMap_map]
  simp [InferenceWorker.acks]

variable [IsStrictOrderedRing K]

theorem processFrame_ok (hs : Assigns svc.solver) (hw : Sound svc w) (item : FrameItem) :
    ∃ tracks tracker, processFrame svc w item.1 item.2 (detections svc item.2) =
        .ok (handled svc w item) ∧
      Handled svc w item tracks tracker (handled svc w item) ∧ Sound svc (handled svc w item) := by
  have hr := hw.trackerOf item.2.cameraId
  obtain ⟨_, _, tracks, tracker, _, hu, _⟩ := update_ok hs (hr.wellFormed hs).1
    (detections svc item.2) item.2.frameId
  have hp : processFrame svc w item.1 item.2 (detections svc item.2) = .ok
      ((tracks.foldl (publish svc)
        { w with trackers := w.trackers.set item.2.cameraId tracker }).ack item.1) := by
    unfold processFrame
    rw [← trackerFor_set, ← trackerFor_fst] at *
    exact bind_eq_ok.mpr ⟨(tracks, tracker), hu, rfl⟩
  have hh : handled svc w item = (tracks.foldl (publish svc)
      { w with trackers := w.trackers.set item.2.cameraId tracker }).ack item.1 := by
    rw [handled, hp]
  rw [foldl_publish] at hh
  refine ⟨tracks, tracker, by rw [hp, hh, foldl_publish], ⟨hu, ?_, ?_, ?_⟩, ?_⟩
  · rw [hh]
    rfl
  · rw [hh]
    rfl
  · rw [hh]
    rfl
  · intro cameraId t ht
    rw [hh] at ht
    change (w.trackers.set item.2.cameraId tracker).get? cameraId = some t at ht
    rw [Dict.get?_set] at ht
    split at ht
    · rename_i hc
      cases ht
      rw [hc]
      exact hr.update hu
    · exact hw cameraId t ht

/-- Frames one after the other. -/
theorem foldl_sound (hs : Assigns svc.solver) (hw : Sound svc w) (items : List FrameItem) :
    Sound svc (items.foldl (handled svc) w) := by
  induction items generalizing w with
  | nil => exact hw
  | cons item items ih =>
    obtain ⟨_, _, _, _, hsound⟩ := processFrame_ok hs hw item
    exact ih hsound

theorem foldl_acks (hs : Assigns svc.solver) (hw : Sound svc w) (items : List FrameItem) :
    (items.foldl (handled svc) w).acks = w.acks ++ items.map Prod.fst := by
  induction items generalizing w with
  | nil => simp
  | cons item items ih =>
    obtain ⟨_, _, _, hh, hsound⟩ := processFrame_ok hs hw item
    rw [List.foldl_cons, ih hsound, hh.acks]
    simp

omit [HasSqrt K] [IsStrictOrderedRing K] in
theorem detectBatch_ok {frames : List RawFrame} {images : List ι}
    (h : List.Forall₂ (fun frame image => svc.load frame.frameUri = .ok image) frames images) :
    detectBatch svc (frames.map RawFrame.frameId) (frames.map RawFrame.cameraId) images =
      .ok (frames.map (detections svc)) := by
  have hlen := h.length_eq
  have hrows : ((frames.map RawFrame.frameId).zip
      ((frames.map RawFrame.cameraId).zip images)).map
        (fun p => svc.detect p.1 p.2.1 p.2.2) = frames.map (detections svc) := by
    clear hlen
    induction h with
    | nil => rfl
    | cons hi _ ih =>
      simp only [List.map_cons, List.zip_cons_cons, ih, detections, hi]
  simp [detectBatch, zipStrict, hlen, ← hrows]

omit [HasSqrt K] [IsStrictOrderedRing K] in
/-- Loading a list of frames stops at the first image that does not load. -/
theorem loads_cases (svc : Services K ι) (items : List FrameItem) :
    (∃ images, (items.map Prod.snd).mapM (fun frame => svc.load frame.frameUri) = .ok images ∧
      List.Forall₂ (fun frame image => svc.load frame.frameUri = .ok image)
        (items.map Prod.snd) images ∧ ∀ item ∈ items, loadable svc item = true) ∨
    (∃ e, (items.map Prod.snd).mapM (fun frame => svc.load frame.frameUri) = .error e) ∧
      ∃ item ∈ items, loadable svc item = false := by
  induction items with
  | nil => exact .inl ⟨[], rfl, .nil, by simp⟩
  | cons item items ih =>
    rw [List.map_cons, List.mapM_cons]
    cases hl : svc.load item.2.frameUri with
    | error e => exact .inr ⟨⟨e, rfl⟩, item, List.mem_cons_self, by simp [loadable, hl]⟩
    | ok image =>
      rcases ih with ⟨images, hm, hall, hload⟩ | ⟨⟨e, hm⟩, bad, hmem, hbad⟩
      · refine .inl ⟨image :: images, by rw [hm]; rfl, .cons hl hall, ?_⟩
        intro other ho
        rcases List.mem_cons.mp ho with rfl | ho
        · simp [loadable, hl]
        · exact hload other ho
      · exact .inr ⟨⟨e, by rw [hm]; rfl⟩, bad, List.mem_cons_of_mem _ hmem, hbad⟩

omit [HasSqrt K] [IsStrictOrderedRing K] in
theorem zip_rows (svc : Services K ι) (items : List FrameItem) :
    (items.map Prod.fst).zip ((items.map Prod.snd).zip
      ((items.map Prod.snd).map (detections svc))) =
    items.map (fun item => (item.1, item.2, detections svc item.2)) := by
  induction items with
  | nil => rfl
  | cons item items ih =>
    simp only [List.map_cons, List.zip_cons_cons, ih]

theorem foldlM_processFrame (hs : Assigns svc.solver) (hw : Sound svc w) (items : List FrameItem) :
    (items.map (fun item => (item.1, item.2, detections svc item.2))).foldlM
      (fun w (p : String × RawFrame × List (Detection K)) => processFrame svc w p.1 p.2.1 p.2.2)
      w = .ok (items.foldl (handled svc) w) := by
  induction items generalizing w with
  | nil => rfl
  | cons item items ih =>
    obtain ⟨_, _, hp, _, hsound⟩ := processFrame_ok hs hw item
    rw [List.map_cons, List.foldlM_cons]
    exact bind_eq_ok.mpr ⟨_, hp, ih hsound⟩

/-- A batch whose images all load is its frames one after the other. -/
theorem processBatch_ok (hs : Assigns svc.solver) (hw : Sound svc w) {items : List FrameItem}
    (hload : ∀ item ∈ items, loadable svc item = true) :
    processBatch svc w items = .ok (items.foldl (handled svc) w) := by
  rcases loads_cases svc items with ⟨images, hm, hall, _⟩ | ⟨_, item, hmem, hbad⟩
  · refine bind_eq_ok.mpr ⟨images, hm, bind_eq_ok.mpr ⟨_, detectBatch_ok hall, ?_⟩⟩
    simp only [zipStrict, List.length_map, ↓reduceIte, except_bind_ok, List.length_zip,
      Nat.min_self, zip_rows]
    exact foldlM_processFrame hs hw items
  · rw [hload item hmem] at hbad
    cases hbad

omit [IsStrictOrderedRing K] in
/-- A batch with an image that does not load raises before it does anything. -/
theorem processBatch_error {items : List FrameItem}
    (hbad : ∃ item ∈ items, loadable svc item = false) :
    ∃ e, processBatch svc w items = .error e := by
  obtain ⟨item, hmem, hb⟩ := hbad
  rcases loads_cases svc items with ⟨_, _, _, hload⟩ | ⟨⟨e, hm⟩, _⟩
  · rw [hload item hmem] at hb
    cases hb
  · refine ⟨e, ?_⟩
    unfold processBatch
    dsimp only
    rw [hm]
    rfl

end Frames
end InferenceWorker
end CamTrack
