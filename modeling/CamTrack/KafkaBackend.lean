import CamTrack.Broker
import CamTrack.Lib.Machine

namespace CamTrack
open Python

/-- A topic with `n` partitions and the one member of its consumer group. `position`
is where the member reads next and `committed` where the group resumes. A record is
named by its partition and offset. `held` are the messages that `consume` has
returned to this process, `returned` and `acked` record all that have been
returned, and acked, by any process so far. -/
structure KafkaBackend (φ : Type) (n : Nat) where
  log : Fin n → List φ
  committed : Fin n → Nat
  position : Fin n → Nat
  held : List (Fin n × Nat)
  returned : List (Fin n × Nat)
  acked : List (Fin n × Nat)

/-- What producers and the worker do next. `consume` names the partition of each
record that the client library delivers, in order. -/
inductive KafkaAction (φ : Type) (n : Nat) where
  | produce (partition : Fin n) (value : φ)
  | consume (count : Nat) (partitions : List (Fin n))
  | ack (messageId : Fin n × Nat)
  /-- the worker ends, whatever it was doing, and is started again -/
  | restart

namespace KafkaBackend
variable {φ π : Type} {n : Nat}

def new : KafkaBackend φ n := ⟨fun _ => [], fun _ => 0, fun _ => 0, [], [], []⟩

/-- The next record of each partition named, and the positions after them. -/
def poll (log : Fin n → List φ) :
    List (Fin n) → (Fin n → Nat) → Option ((Fin n → Nat) × List ((Fin n × Nat) × φ))
  | [], position => some (position, [])
  | p :: ps, position => do
    let value ← (log p)[position p]?
    let (last, records) ← poll log ps (Function.update position p (position p + 1))
    return (last, ((p, position p), value) :: records)

/-- `consume` on what the client library delivers. The position moves past all of it
even where decoding a record raises. -/
def consume (decode : φ → Except Error π) (partitions : List (Fin n)) (s : KafkaBackend φ n) :
    Option (KafkaBackend φ n × Except Error (List (Message (Fin n × Nat) π))) := do
  let (position, records) ← poll s.log partitions s.position
  return ({ s with position := position }, decodeAll decode records)

/-- The messages an action returns. -/
def returns (decode : φ → Except Error π) (s : KafkaBackend φ n) :
    KafkaAction φ n → List (Fin n × Nat)
  | .consume _ partitions =>
    match s.consume decode partitions with
    | some (_, .ok messages) => messages.map Message.messageId
    | _ => []
  | _ => []

/-- `ack`, whatever its message: `commit()` commits the position of every partition. -/
def commit (s : KafkaBackend φ n) : KafkaBackend φ n := { s with committed := s.position }

/-- The group resumes where it has committed. -/
def resume (s : KafkaBackend φ n) : KafkaBackend φ n :=
  { s with position := s.committed, held := [] }

/-- One action. The worker acks messages that this process has been returned. -/
def step (decode : φ → Except Error π) (s : KafkaBackend φ n) :
    KafkaAction φ n → Option (KafkaBackend φ n)
  | .produce p value => some { s with log := Function.update s.log p (s.log p ++ [value]) }
  | .consume count partitions =>
    if partitions.length ≤ count then do
      let (s', _) ← s.consume decode partitions
      let messages := s.returns decode (.consume count partitions)
      return { s' with held := s.held ++ messages, returned := s.returned ++ messages }
    else none
  | .ack messageId =>
    if messageId ∈ s.held then some { s.commit with acked := s.acked ++ [messageId] } else none
  | .restart => some s.resume

end KafkaBackend
end CamTrack
