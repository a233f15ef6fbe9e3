import CamTrack.Broker
import CamTrack.Lib.Machine

namespace CamTrack
open Python

/-- A consumer group: how many entries it has been delivered, and those of them
that are not acked, each with the consumer it went to. -/
structure ConsumerGroup where
  lastDelivered : Nat
  pending : List (Nat × String)
  deriving DecidableEq, Repr

/-- One stream with one consumer group, and the messages that `consume` has returned
to consumers that live and have not acked them. An entry's id is its position. -/
structure RedisStreams (φ : Type) where
  entries : List φ
  group : Option ConsumerGroup
  held : List (String × Nat)

/-- What the publishers and consumers of a stream do next. -/
inductive StreamAction (φ : Type) where
  | publish (fields : φ)
  | consume (consumerName : String) (count : Nat)
  | ack (consumerName : String) (messageId : Nat)
  /-- the process of a consumer ends, whatever it was doing -/
  | fail (consumerName : String)

namespace RedisStreams
variable {φ π : Type}

def new : RedisStreams φ := ⟨[], none, []⟩

/-- `ensure_group`: the group starts before the first entry of the stream. -/
def ensureGroup (s : RedisStreams φ) : RedisStreams φ :=
  match s.group with
  | none => { s with group := some ⟨0, []⟩ }
  | some _ => s

/-- `XREADGROUP` with id `>`: entries the group has never been delivered. -/
def xreadgroup (consumerName : String) (count : Nat) (s : RedisStreams φ) :
    RedisStreams φ × List (Nat × φ) :=
  match s.group with
  | none => (s, [])
  | some g =>
    let fresh := (s.entries.drop g.lastDelivered).take count
    let entries := (List.range' g.lastDelivered fresh.length).zip fresh
    let group : ConsumerGroup := {
      lastDelivered := g.lastDelivered + fresh.length
      pending := g.pending ++ entries.map (fun e => (e.1, consumerName)) }
    ({ s with group := some group }, entries)

/-- `consume`. What `XREADGROUP` delivered is pending even where decoding it raises. -/
def consume (decode : φ → Except Error π) (consumerName : String) (count : Nat)
    (s : RedisStreams φ) : RedisStreams φ × Except Error (List (Message Nat π)) :=
  let (s, entries) := s.ensureGroup.xreadgroup consumerName count
  (s, decodeAll decode entries)

/-- `XACK`. -/
def xack (messageId : Nat) (s : RedisStreams φ) : RedisStreams φ :=
  { s with group := s.group.map (fun g =>
      { g with pending := g.pending.filter (fun p => p.1 ≠ messageId) }) }

/-- The ids of the messages an action returns. -/
def returns (decode : φ → Except Error π) (s : RedisStreams φ) : StreamAction φ → List Nat
  | .consume consumerName count =>
    match (s.consume decode consumerName count).2 with
    | .ok messages => messages.map Message.messageId
    | .error _ => []
  | _ => []

/-- One action. A consumer acks what it has consumed, and asks for one message at
least. -/
def step (decode : φ → Except Error π) (s : RedisStreams φ) :
    StreamAction φ → Option (RedisStreams φ)
  | .publish fields => some { s with entries := s.entries ++ [fields] }
  | .consume consumerName count =>
    if count = 0 then none
    else some { (s.consume decode consumerName count).1 with
      held := s.held ++ (s.returns decode (.consume consumerName count)).map (consumerName, ·) }
  | .ack consumerName messageId =>
    if (consumerName, messageId) ∈ s.held then
      some { s.xack messageId with held := s.held.filter (fun h => h ≠ (consumerName, messageId)) }
    else none
  | .fail consumerName => some { s with held := s.held.filter (fun h => h.1 ≠ consumerName) }

end RedisStreams
end CamTrack
