import CamTrack.FramePublisher
import CamTrack.RedisStreams
import CamTrack.StorageLoop
import CamTrack.WorkerLoop

namespace CamTrack
open Python

variable {K : Type} [Field K] [LinearOrder K]

/-- How frames and events travel. -/
structure Wires (K φ π ψ ρ : Type) [Field K] [LinearOrder K] where
  frames : Wire RawFrame φ π
  events : Wire (TrackEvent K) ψ ρ

/-- All the processes around one Redis server: the publishers of `m` cameras, `n` inference
workers and the storage process, with the streams of the raw frames and of the track
events, each with its one consumer group. -/
structure Pipeline (m n : Nat) (K ι φ π ψ ρ : Type) [Field K] [LinearOrder K] where
  cameras : Fin m → FramePublisher K ι
  frames : RedisStreams φ
  workers : Fin n → WorkerLoop K ι π
  events : RedisStreams ψ
  storage : StorageLoop K ρ

/-- What happens next, and where. -/
inductive PipelineAction (m n : Nat) (K ι π ρ : Type) [Field K] [LinearOrder K] where
  | camera (c : Fin m) (a : PublisherAction K ι)
  /-- an `XADD` of the frame at hand arrives, but its answer does not, and it is retried -/
  | cameraRetry (c : Fin m)
  /-- the thread of a camera ends, wherever it is, and a new one is started -/
  | cameraRestart (c : Fin m)
  /-- a worker calls `consume` -/
  | consume (i : Fin n) (consumerName : String)
  /-- the same, but the answer does not arrive, and the call raises -/
  | consumeLost (i : Fin n) (consumerName : String) (e : Error)
  | worker (i : Fin n) (a : WorkerAction K ι π)
  /-- an `XADD` of the event at hand arrives, but its answer does not, and it is retried -/
  | workerRetry (i : Fin n)
  | storageConsume (consumerName : String)
  | storageConsumeLost (consumerName : String) (e : Error)
  | storage (a : StorageAction ρ)

/-- The id that Redis gives an entry, as the client library returns it. -/
def entryId (position : Nat) : String := Nat.repr position

namespace RedisStreams
variable {φ π : Type}

/-- `XADD`. -/
def xadd (fields : φ) (s : RedisStreams φ) : RedisStreams φ :=
  { s with entries := s.entries ++ [fields] }

/-- `XACK` of an id that the client library has returned. -/
def xackId (messageId : String) (s : RedisStreams φ) : RedisStreams φ :=
  { s with group := s.group.map (fun g =>
      { g with pending := g.pending.filter (fun p => entryId p.1 ≠ messageId) }) }

/-- `consume`, with the messages under the ids of their entries. -/
def received (loads : φ → Except Error π) (consumerName : String) (count : Nat)
    (s : RedisStreams φ) : RedisStreams φ × Except Error (List (Message String π)) :=
  let (s, result) := s.consume loads consumerName count
  (s, result.map (List.map (fun message => ⟨entryId message.messageId, message.payload⟩)))

end RedisStreams

namespace Pipeline
variable [Rounding K] {m n : Nat} {ι φ π ψ ρ : Type}

def start (cameras : Fin m → CameraConfig) : Pipeline m n K ι φ π ψ ρ :=
  ⟨fun c => .start (cameras c), .new, fun _ => .start, .new, .start⟩

/-- What a worker tells the broker arrives there. -/
def tell (wires : Wires K φ π ψ ρ) (s : Pipeline m n K ι φ π ψ ρ) :
    Effect K → Pipeline m n K ι φ π ψ ρ
  | .published event => { s with events := s.events.xadd (wires.events.dump event) }
  | .acked messageId => { s with frames := s.frames.xackId messageId }

def setCamera (s : Pipeline m n K ι φ π ψ ρ) (c : Fin m) (camera : FramePublisher K ι) :
    Pipeline m n K ι φ π ψ ρ :=
  { s with cameras := Function.update s.cameras c camera }

def setWorker (s : Pipeline m n K ι φ π ψ ρ) (i : Fin n) (worker : WorkerLoop K ι π) :
    Pipeline m n K ι φ π ψ ρ :=
  { s with workers := Function.update s.workers i worker }

/-- A thread of a publisher goes on, and what it publishes arrives. -/
def cameraStep (wires : Wires K φ π ψ ρ) (s : Pipeline m n K ι φ π ψ ρ) (c : Fin m)
    (a : PublisherAction K ι) : Option (Pipeline m n K ι φ π ψ ρ) := do
  let camera ← (s.cameras c).step a
  let frames := (camera.published.drop (s.cameras c).published.length).foldl
    (fun frames frame => frames.xadd (wires.frames.dump frame)) s.frames
  return { s.setCamera c camera with frames := frames }

variable [HasSqrt K]

/-- A worker goes on, and what it tells the broker arrives. -/
def workerStep (cfg : Fin n → BatcherConfig) (svc : Fin n → Services K ι)
    (wires : Wires K φ π ψ ρ) (s : Pipeline m n K ι φ π ψ ρ) (i : Fin n)
    (a : WorkerAction K ι π) : Option (Pipeline m n K ι φ π ψ ρ) := do
  let worker ← (s.workers i).step (cfg i) (svc i) wires.frames.validate a
  return ((s.workers i).process.told worker.process).foldl (tell wires) (s.setWorker i worker)

omit [HasSqrt K] in
/-- The storage process goes on, and its acks arrive. -/
def storageStep (wires : Wires K φ π ψ ρ) (s : Pipeline m n K ι φ π ψ ρ) (a : StorageAction ρ) :
    Option (Pipeline m n K ι φ π ψ ρ) := do
  let storage ← s.storage.step wires.events.validate a
  let events := (storage.acked.drop s.storage.acked.length).foldl
    (fun events message => events.xackId message.messageId) s.events
  return { s with storage := storage, events := events }

def step (cfg : Fin n → BatcherConfig) (svc : Fin n → Services K ι) (wires : Wires K φ π ψ ρ)
    (s : Pipeline m n K ι φ π ψ ρ) :
    PipelineAction m n K ι π ρ → Option (Pipeline m n K ι φ π ψ ρ)
  | .camera c a => s.cameraStep wires c a
  | .cameraRetry c => (s.cameras c).frame.map (fun frame =>
      { s with frames := s.frames.xadd (wires.frames.dump frame) })
  | .cameraRestart c => some (s.setCamera c { FramePublisher.start (s.cameras c).camera with
      saved := (s.cameras c).saved, published := (s.cameras c).published })
  | .consume i consumerName =>
    let (frames, result) := s.frames.received wires.frames.loads consumerName defaultCount
    let s := { s with frames := frames }
    match result with
    | .ok messages => do
      let worker ← (s.workers i).step (cfg i) (svc i) wires.frames.validate (.consumed messages)
      return s.setWorker i worker
    | .error e => s.workerStep cfg svc wires i (.raise e)
  | .consumeLost i consumerName e =>
    let (frames, _) := s.frames.received wires.frames.loads consumerName defaultCount
    { s with frames := frames }.workerStep cfg svc wires i (.raise e)
  | .worker _ (.consumed _) => none
  | .worker i a => s.workerStep cfg svc wires i a
  | .workerRetry i => ((s.workers i).process.eventAtHand (svc i)).map (fun event =>
      { s with events := s.events.xadd (wires.events.dump event) })
  | .storageConsume consumerName =>
    if s.storage.isConsuming then
      let (events, result) := s.events.received wires.events.loads consumerName batchSize
      let s := { s with events := events }
      match result with
      | .ok messages => s.storageStep wires (.consumed messages)
      | .error e => s.storageStep wires (.raise e false)
    else none
  | .storageConsumeLost consumerName e =>
    if s.storage.isConsuming then
      let (events, _) := s.events.received wires.events.loads consumerName batchSize
      { s with events := events }.storageStep wires (.raise e false)
    else none
  | .storage (.consumed _) => none
  | .storage a => s.storageStep wires a

end Pipeline
end CamTrack
