import CamTrack.KafkaBackend

namespace CamTrack
open Python

/-- The one consumer object of a group: the topic it is subscribed to, and where it
reads that topic next. -/
structure KafkaConsumer (n : Nat) where
  subscription : Option String
  position : Fin n → Nat

/-- A `KafkaBroker` object and the topics it works on, of `n` partitions each.
`committed` is where a group resumes a topic. A record is named by its topic,
partition and offset. -/
structure KafkaBroker (φ : Type) (n : Nat) where
  log : String → Fin n → List φ
  committed : String → String → Fin n → Nat
  consumers : Dict String (KafkaConsumer n)
  knownGroups : List (String × String)

/-- What is done with the object next. `consume` names the partition of each record
that the client library delivers, in order. -/
inductive BrokerCall (φ : Type) (n : Nat) where
  | publish (stream : String) (partition : Fin n) (value : φ)
  | consume (stream group : String) (count : Nat) (partitions : List (Fin n))
  | ack (stream group : String) (messageId : String × Fin n × Nat)

def KafkaConsumer.new (n : Nat) : KafkaConsumer n := ⟨none, fun _ => 0⟩

/-- `subscribe([stream])` replaces the subscription; reading starts where the group
has committed. -/
def KafkaConsumer.subscribe (stream : String) (committed : Fin n → Nat) : KafkaConsumer n :=
  ⟨some stream, committed⟩

namespace KafkaBroker
variable {φ π : Type} {n : Nat}

/-- A new object on a cluster. -/
def new (log : String → Fin n → List φ) (committed : String → String → Fin n → Nat) :
    KafkaBroker φ n :=
  ⟨log, committed, .empty, []⟩

/-- `_consumer_for`. -/
def consumerFor (group : String) (s : KafkaBroker φ n) : KafkaBroker φ n × KafkaConsumer n :=
  match s.consumers.get? group with
  | some consumer => (s, consumer)
  | none => ({ s with consumers := s.consumers.set group (.new n) }, .new n)

/-- `ensure_group`: the subscription is made once for a stream and a group. -/
def ensureGroup (stream group : String) (s : KafkaBroker φ n) : KafkaBroker φ n :=
  if (stream, group) ∈ s.knownGroups then s
  else
    let s := (s.consumerFor group).1
    { s with
      consumers := s.consumers.set group (.subscribe stream (s.committed group stream))
      knownGroups := s.knownGroups ++ [(stream, group)] }

/-- `consume` on what the client library delivers: records of the subscription. -/
def consume (decode : φ → Except Error π) (stream group : String) (partitions : List (Fin n))
    (s : KafkaBroker φ n) :
    Option (KafkaBroker φ n × Except Error (List (Message (String × Fin n × Nat) π))) :=
  let (s, consumer) := (s.ensureGroup stream group).consumerFor group
  match consumer.subscription with
  | none => if partitions = [] then some (s, .ok []) else none
  | some topic => do
    let (position, records) ← KafkaBackend.poll (s.log topic) partitions consumer.position
    return ({ s with consumers := s.consumers.set group { consumer with position := position } },
      decodeAll decode (records.map (fun r => ((topic, r.1), r.2))))

/-- `ack`, whatever its message and its stream: `commit()` commits the position of
every partition of the subscription. -/
def ack (group : String) (s : KafkaBroker φ n) : KafkaBroker φ n :=
  match s.consumers.get? group with
  | none => s
  | some consumer =>
    match consumer.subscription with
    | none => s
    | some topic =>
      { s with
        committed := Function.update s.committed group
          (Function.update (s.committed group) topic consumer.position) }

/-- The messages a call returns. -/
def returns (decode : φ → Except Error π) (s : KafkaBroker φ n) :
    BrokerCall φ n → List (String × Fin n × Nat)
  | .consume stream group _ partitions =>
    match s.consume decode stream group partitions with
    | some (_, .ok messages) => messages.map Message.messageId
    | _ => []
  | _ => []

/-- One call. -/
def step (decode : φ → Except Error π) (s : KafkaBroker φ n) :
    BrokerCall φ n → Option (KafkaBroker φ n)
  | .publish stream p value => some { s with
      log := Function.update s.log stream
        (Function.update (s.log stream) p (s.log stream p ++ [value])) }
  | .consume stream group count partitions =>
    if partitions.length ≤ count then do
      let (s, _) ← s.consume decode stream group partitions
      return s
    else none
  | .ack _ group _ => some (s.ack group)

end KafkaBroker
end CamTrack
