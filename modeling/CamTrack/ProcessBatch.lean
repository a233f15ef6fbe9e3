import CamTrack.Worker

namespace CamTrack
open Python

variable {K : Type} [Field K] [LinearOrder K]

/-- What happens in `_process_batch`: what an update returned for the frame of a
message, and what the broker is told. -/
inductive BatchEvent (K : Type) [Field K] [LinearOrder K] where
  | updated (messageId : String) (tracks : List (Track K))
  | told (effect : Effect K)

/-- What the broker is told. -/
def BatchEvent.effect : BatchEvent K → Option (Effect K)
  | .updated _ _ => none
  | .told effect => some effect

/-- Where a worker is in `_process_batch`. -/
inductive BatchPc (K ι : Type) [Field K] [LinearOrder K] where
  | idle
  /-- loading the images of the frames that remain -/
  | loading (items : List FrameItem) (images : List ι) (remaining : List RawFrame)
  /-- at the head of the loop over what the three iterators still hold -/
  | looping (messageIds : List String) (frames : List RawFrame)
      (detectionsPerFrame : List (List (Detection K)))
  /-- publishing the tracks that remain, and then acking -/
  | publishing (messageId : String) (tracks : List (Track K)) (messageIds : List String)
      (frames : List RawFrame) (detectionsPerFrame : List (List (Detection K)))
  | died (e : Error)

/-- A worker in the middle of its work, and what has happened so far. -/
structure BatchProcess (K ι : Type) [Field K] [LinearOrder K] where
  worker : InferenceWorker K
  pc : BatchPc K ι
  trace : List (BatchEvent K)

/-- What the worker does next. Every call returns, or raises. -/
inductive BatchAction (K ι : Type) [Field K] [LinearOrder K] where
  /-- the batcher hands over a batch of what has been consumed, validated and submitted -/
  | batch (items : List FrameItem)
  | loaded (image : ι)
  | detected (detectionsPerFrame : List (List (Detection K)))
  /-- the next turn of the loop, with its update -/
  | next
  | publish
  | ack
  /-- the call at hand raises; `reached` where what it told the broker has arrived -/
  | raise (e : Error) (reached : Bool)
  /-- the process ends, wherever it is, and a new one is started -/
  | restart

namespace BatchProcess
variable {ι : Type}

def start : BatchProcess K ι := ⟨.new, .idle, []⟩

/-- A publish that arrives. -/
def publish (svc : Services K ι) (s : BatchProcess K ι) (track : Track K) : BatchProcess K ι :=
  { s with
    worker := s.worker.publish svc track
    trace := s.trace ++ [.told (.published (s.worker.newEvent svc track))] }

/-- A publish that does not arrive. -/
def lose (s : BatchProcess K ι) : BatchProcess K ι :=
  { s with worker := { s.worker with constructed := s.worker.constructed + 1 } }

def ack (s : BatchProcess K ι) (messageId : String) : BatchProcess K ι :=
  { s with
    worker := s.worker.ack messageId
    trace := s.trace ++ [.told (.acked messageId)] }

/-- The call at hand raises, and the exception leaves the thread. -/
def raise (svc : Services K ι) (e : Error) (reached : Bool) (s : BatchProcess K ι) :
    Option (BatchProcess K ι) :=
  match s.pc with
  | .loading _ _ _ => some { s with pc := .died e }
  | .publishing _ (track :: _) _ _ _ =>
    some { (if reached then s.publish svc track else s.lose) with pc := .died e }
  | .publishing messageId [] _ _ _ =>
    some { (if reached then s.ack messageId else s) with pc := .died e }
  | _ => none

variable [HasSqrt K]

/-- A turn of the loop, up to the tracks that its update returns. -/
def next (svc : Services K ι) (s : BatchProcess K ι) : Option (BatchProcess K ι) :=
  match s.pc with
  | .looping [] [] [] => some { s with pc := .idle }
  | .looping (messageId :: messageIds) (frame :: frames) (detections :: detectionsPerFrame) =>
    let (tracker, trackers) := s.worker.trackerFor frame.cameraId
    match tracker.update svc.solver detections frame.frameId with
    | .error e => some { s with worker := { s.worker with trackers := trackers }, pc := .died e }
    | .ok (tracks, tracker) => some {
        worker := { s.worker with trackers := trackers.set frame.cameraId tracker }
        pc := .publishing messageId tracks messageIds frames detectionsPerFrame
        trace := s.trace ++ [.updated messageId tracks] }
  | .looping _ _ _ => some { s with pc := .died .valueError }
  | _ => none

def step (svc : Services K ι) (s : BatchProcess K ι) : BatchAction K ι → Option (BatchProcess K ι)
  | .batch items => match s.pc with
    | .idle => some { s with pc := .loading items [] (items.map Prod.snd) }
    | _ => none
  | .loaded image => match s.pc with
    | .loading items images (_ :: remaining) =>
      some { s with pc := .loading items (images ++ [image]) remaining }
    | _ => none
  | .detected detectionsPerFrame => match s.pc with
    | .loading items _ [] => some { s with
        pc := .looping (items.map Prod.fst) (items.map Prod.snd) detectionsPerFrame }
    | _ => none
  | .next => s.next svc
  | .publish => match s.pc with
    | .publishing messageId (track :: tracks) messageIds frames detectionsPerFrame =>
      some { s.publish svc track with
        pc := .publishing messageId tracks messageIds frames detectionsPerFrame }
    | _ => none
  | .ack => match s.pc with
    | .publishing messageId [] messageIds frames detectionsPerFrame =>
      some { s.ack messageId with pc := .looping messageIds frames detectionsPerFrame }
    | _ => none
  | .raise e reached => s.raise svc e reached
  | .restart => some { s with worker := { s.worker with trackers := .empty }, pc := .idle }

end BatchProcess
end CamTrack
