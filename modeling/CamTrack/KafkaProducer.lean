import CamTrack.KafkaBackend
import CamTrack.Schemas

namespace CamTrack
open Python

/-- The publishing side of `KafkaBroker`: `payload.get` and `json.dumps` of its
payloads, and the partition that the client library chooses for a record key. -/
structure KafkaProducer (π φ : Type) (n : Nat) where
  get : π → String → Option String
  dumps : π → φ
  partitionOf : String → Fin n

/-- The calls that the processes around one topic make. -/
inductive KafkaCall (π : Type) (n : Nat) where
  | publish (payload : π)
  | consume (count : Nat) (partitions : List (Fin n))
  | ack (messageId : Fin n × Nat)
  | restart

/-- `payload.get("frame_id") or payload.get("event_id") or ""`. -/
def recordKey (get : String → Option String) : String :=
  ((get "frame_id").filter (· ≠ "") <|> (get "event_id").filter (· ≠ "")).getD ""

namespace KafkaProducer
variable {π φ : Type} {n : Nat} (producer : KafkaProducer π φ n)

/-- The partition that a payload goes to. -/
def partitionFor (payload : π) : Fin n := producer.partitionOf (recordKey (producer.get payload))

def action : KafkaCall π n → KafkaAction φ n
  | .publish payload => .produce (producer.partitionFor payload) (producer.dumps payload)
  | .consume count partitions => .consume count partitions
  | .ack messageId => .ack messageId
  | .restart => .restart

end KafkaProducer

/-- The payloads published, in order. -/
def KafkaCall.published {π : Type} {n : Nat} (calls : List (KafkaCall π n)) : List π :=
  calls.filterMap (fun
    | .publish payload => some payload
    | _ => none)

/-- The payload of a record, where it decodes. -/
def KafkaBackend.payloadAt {φ π : Type} {n : Nat} (decode : φ → Except Error π)
    (s : KafkaBackend φ n) (r : Fin n × Nat) : Option π :=
  (s.log r.1)[r.2]?.bind (fun value => (decode value).toOption)

/-- The payloads that this process has been returned, in order. -/
def KafkaBackend.received {φ π : Type} {n : Nat} (decode : φ → Except Error π)
    (s : KafkaBackend φ n) : List π :=
  s.held.filterMap (s.payloadAt decode)

/-- The entries of `frame.model_dump()` that `publish` looks for. -/
def RawFrame.get (frame : RawFrame) : String → Option String
  | "frame_id" => some frame.frameId
  | _ => none

/-- `KafkaBroker.publish` of frames. -/
def frameProducer {φ : Type} {n : Nat} (dumps : RawFrame → φ) (partitionOf : String → Fin n) :
    KafkaProducer RawFrame φ n :=
  ⟨RawFrame.get, dumps, partitionOf⟩

end CamTrack
