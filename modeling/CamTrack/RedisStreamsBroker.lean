import CamTrack.RedisStreams

namespace CamTrack
open Python

/-- A `RedisStreamsBroker` object and the streams of its server. `groups` are the
consumer groups of each stream. An entry's id is its position in its stream. -/
structure RedisStreamsBroker (φ : Type) where
  entries : String → List φ
  groups : String → String → Option ConsumerGroup
  knownGroups : List (String × String)

/-- What is done with the object next. -/
inductive StreamCall (φ : Type) where
  | publish (stream : String) (fields : φ)
  | consume (stream group consumerName : String) (count : Nat)
  | ack (stream group : String) (messageId : Nat)

namespace RedisStreamsBroker
variable {φ π : Type}

/-- A new object on a server. -/
def new (entries : String → List φ) (groups : String → String → Option ConsumerGroup) :
    RedisStreamsBroker φ :=
  ⟨entries, groups, []⟩

/-- One stream with one of its groups. -/
def view (stream group : String) (s : RedisStreamsBroker φ) : RedisStreams φ :=
  ⟨s.entries stream, s.groups stream group, []⟩

def setGroup (stream group : String) (g : Option ConsumerGroup) (s : RedisStreamsBroker φ) :
    RedisStreamsBroker φ :=
  { s with groups := Function.update s.groups stream (Function.update (s.groups stream) group g) }

/-- `ensure_group`: one round trip for a stream and a group. -/
def ensureGroup (stream group : String) (s : RedisStreamsBroker φ) : RedisStreamsBroker φ :=
  if s.knownGroups.contains (stream, group) then s
  else
    { s.setGroup stream group (s.view stream group).ensureGroup.group with
      knownGroups := s.knownGroups ++ [(stream, group)] }

/-- `consume`: `XREADGROUP` names its stream in every call. -/
def consume (decode : φ → Except Error π) (stream group consumerName : String) (count : Nat)
    (s : RedisStreamsBroker φ) : RedisStreamsBroker φ × Except Error (List (Message Nat π)) :=
  let s := s.ensureGroup stream group
  let (t, entries) := (s.view stream group).xreadgroup consumerName count
  (s.setGroup stream group t.group, decodeAll decode entries)

def ack (stream group : String) (messageId : Nat) (s : RedisStreamsBroker φ) :
    RedisStreamsBroker φ :=
  s.setGroup stream group ((s.view stream group).xack messageId).group

/-- The messages a call returns. -/
def returns (decode : φ → Except Error π) (s : RedisStreamsBroker φ) :
    StreamCall φ → List (Message Nat π)
  | .consume stream group consumerName count =>
    match (s.consume decode stream group consumerName count).2 with
    | .ok messages => messages
    | .error _ => []
  | _ => []

/-- One call. A consumer asks for one message at least. -/
def step (decode : φ → Except Error π) (s : RedisStreamsBroker φ) :
    StreamCall φ → Option (RedisStreamsBroker φ)
  | .publish stream fields => some { s with
      entries := Function.update s.entries stream (s.entries stream ++ [fields]) }
  | .consume stream group consumerName count =>
    if count = 0 then none else some (s.consume decode stream group consumerName count).1
  | .ack stream group messageId => some (s.ack stream group messageId)

end RedisStreamsBroker
end CamTrack
