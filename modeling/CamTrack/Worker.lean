import CamTrack.Batcher
import CamTrack.Tracker

namespace CamTrack
open Python

variable {K : Type} [Field K] [LinearOrder K]

/-- What a worker tells the broker. -/
inductive Effect (K : Type) [Field K] [LinearOrder K] where
  /-- a publish to the track events -/
  | published (event : TrackEvent K)
  /-- an ack of a raw-frame message -/
  | acked (messageId : String)

/-- The collaborators of a worker, and where its fresh ids and times come from:
`uuid n` and `nowMs n` are those of the `n`-th event it constructs. -/
structure Services (K ι : Type) [Field K] [LinearOrder K] where
  solver : LinearSumAssignment K
  /-- `FrameLoader.load` -/
  load : String → Except Error ι
  /-- what one image of a `detect_batch` call contributes to its result -/
  detect : String → String → ι → List (Detection K)
  uuid : Nat → String
  nowMs : Nat → Int

/-- The trackers of a worker, the number of events it has constructed and what it
has told the broker, in order. -/
structure InferenceWorker (K : Type) [Field K] [LinearOrder K] where
  trackers : Dict String (ByteTracker K)
  constructed : Nat
  effects : List (Effect K)

/-- A message id with its frame, as `run_forever` submits them. -/
abbrev FrameItem := String × RawFrame

namespace InferenceWorker
variable {ι : Type}

def new : InferenceWorker K := ⟨.empty, 0, []⟩

/-- `_tracker_for`: the tracker, and the dictionary that then holds it. -/
def trackerFor (w : InferenceWorker K) (cameraId : String) :
    ByteTracker K × Dict String (ByteTracker K) :=
  match w.trackers.get? cameraId with
  | some tracker => (tracker, w.trackers)
  | none => (newTracker cameraId, w.trackers.set cameraId (newTracker cameraId))

/-- `TrackEvent(track=track)`. -/
def newEvent (svc : Services K ι) (w : InferenceWorker K) (track : Track K) : TrackEvent K :=
  { eventId := svc.uuid w.constructed, track := track, globalIdentityId := none
    eventTimeMs := svc.nowMs w.constructed }

/-- `publish(TRACK_EVENTS, TrackEvent(track=track))`. -/
def publish (svc : Services K ι) (w : InferenceWorker K) (track : Track K) : InferenceWorker K :=
  { w with
    constructed := w.constructed + 1
    effects := w.effects ++ [.published (w.newEvent svc track)] }

def ack (w : InferenceWorker K) (messageId : String) : InferenceWorker K :=
  { w with effects := w.effects ++ [.acked messageId] }

variable [HasSqrt K]

/-- The loop body of `_process_batch`, where the broker does not raise. -/
def processFrame (svc : Services K ι) (w : InferenceWorker K) (messageId : String)
    (frame : RawFrame) (detections : List (Detection K)) : Except Error (InferenceWorker K) := do
  let (tracker, trackers) := w.trackerFor frame.cameraId
  let (tracks, tracker) ← tracker.update svc.solver detections frame.frameId
  let w := { w with trackers := trackers.set frame.cameraId tracker }
  return (tracks.foldl (publish svc) w).ack messageId

omit [HasSqrt K] in
/-- `detect_batch`, image by image. -/
def detectBatch (svc : Services K ι) (frameIds cameraIds : List String) (images : List ι) :
    Except Error (List (List (Detection K))) := do
  if frameIds.length ≠ images.length ∨ cameraIds.length ≠ images.length then
    throw .valueError
  let rows ← zipStrict frameIds (cameraIds.zip images)
  return rows.map (fun (frameId, cameraId, image) => svc.detect frameId cameraId image)

def processBatch (svc : Services K ι) (w : InferenceWorker K) (items : List FrameItem) :
    Except Error (InferenceWorker K) := do
  let messageIds := items.map Prod.fst
  let frames := items.map Prod.snd
  let images ← frames.mapM (fun frame => svc.load frame.frameUri)
  let detectionsPerFrame ← detectBatch svc (frames.map RawFrame.frameId)
    (frames.map RawFrame.cameraId) images
  let rows ← zipStrict messageIds (← zipStrict frames detectionsPerFrame)
  rows.foldlM (fun w (messageId, frame, detections) =>
    processFrame svc w messageId frame detections) w

/-- `_process_batch` as the callback of the batcher. Images are loaded before
anything else happens, so a load that raises leaves the worker as it was. -/
def onBatch (svc : Services K ι) : OnBatch (InferenceWorker K) FrameItem := fun w items =>
  match processBatch svc w items with
  | .ok w' => (w', none)
  | .error e => (w, some e)

/-- A worker's batcher, with the worker as the owner of its callback. -/
abbrev Batching (K : Type) [Field K] [LinearOrder K] :=
  DynamicBatcher K (InferenceWorker K) FrameItem

end InferenceWorker
end CamTrack
