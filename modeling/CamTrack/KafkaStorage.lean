import CamTrack.KafkaBackend
import CamTrack.StorageLoop

namespace CamTrack
open Python

variable {K : Type} [Field K] [LinearOrder K] {φ π : Type} {n : Nat}

/-- The storage process on the Kafka backend. -/
structure KafkaStorage (K φ π : Type) (n : Nat) [Field K] [LinearOrder K] where
  backend : KafkaBackend φ n
  storage : StorageLoop K π

/-- What the producers and the storage process do next. -/
inductive KafkaStorageAction (φ π : Type) (n : Nat) where
  | produce (partition : Fin n) (value : φ)
  /-- `consume` on what the client library delivers, partition by partition -/
  | consume (partitions : List (Fin n))
  /-- the client library has delivered as much, but the call raises -/
  | consumeLost (partitions : List (Fin n)) (e : Error)
  | storage (a : StorageAction π)

/-- `f"{topic}:{partition}:{offset}"`. -/
def offsetId (topic : String) (record : Fin n × Nat) : String :=
  topic ++ ":" ++ toString record.1.val ++ ":" ++ toString record.2

namespace KafkaStorage

def start : KafkaStorage K φ π n := ⟨.new, .start⟩

/-- The storage process goes on. What it acks, it commits. -/
def storageStep (validate : π → Except Error (TrackEvent K)) (s : KafkaStorage K φ π n)
    (a : StorageAction π) : Option (KafkaStorage K φ π n) := do
  let storage ← s.storage.step validate a
  let acked := storage.acked.drop s.storage.acked.length
  return ⟨acked.foldl (fun backend _ => backend.commit) s.backend, storage⟩

def step (decode : φ → Except Error π) (validate : π → Except Error (TrackEvent K))
    (topic : String) (s : KafkaStorage K φ π n) :
    KafkaStorageAction φ π n → Option (KafkaStorage K φ π n)
  | .produce p value => (s.backend.step decode (.produce p value)).map
      (fun backend => { s with backend := backend })
  | .consume partitions =>
    if s.storage.isConsuming ∧ partitions.length ≤ batchSize then do
      let (backend, result) ← s.backend.consume decode partitions
      let s := { s with backend := backend }
      match result with
      | .ok messages => s.storageStep validate (.consumed (messages.map
          (fun message => ⟨offsetId topic message.messageId, message.payload⟩)))
      | .error e => s.storageStep validate (.raise e false)
    else none
  | .consumeLost partitions e =>
    if s.storage.isConsuming ∧ partitions.length ≤ batchSize then do
      let (backend, _) ← s.backend.consume decode partitions
      { s with backend := backend }.storageStep validate (.raise e false)
    else none
  | .storage (.consumed _) => none
  | .storage .restart =>
    (s.storage.step validate .restart).map (fun storage => ⟨s.backend.resume, storage⟩)
  | .storage a => s.storageStep validate a

end KafkaStorage
end CamTrack
