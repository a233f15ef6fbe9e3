import CamTrack.Broker
import CamTrack.Storage

namespace CamTrack
open Python

variable {K : Type} [Field K] [LinearOrder K] {π : Type}

/-- `_BATCH_SIZE`. -/
def batchSize : Nat := 100

/-- Where the storage process is in `main` and in `write_batch`. -/
inductive StoragePc (K π : Type) [Field K] [LinearOrder K] where
  | consuming
  /-- validating the messages that remain -/
  | validating (messages : List (Message String π)) (events : List (TrackEvent K))
      (remaining : List (Message String π))
  /-- inside `execute_values`, with the pages that remain -/
  | executing (messages : List (Message String π)) (pages : List (List (Row K)))
  /-- acking the messages that remain -/
  | acking (remaining : List (Message String π))
  | died (e : Error)

/-- The storage process with its connection. `delivered` and `acked` record what
`consume` has returned and what `ack` has been told to the broker. -/
structure StorageLoop (K π : Type) [Field K] [LinearOrder K] where
  connection : Connection K
  pc : StoragePc K π
  delivered : List (Message String π)
  acked : List (Message String π)

/-- What the process does next. Every call returns, or raises. -/
inductive StorageAction (π : Type) where
  | consumed (messages : List (Message String π))
  | validate
  /-- `write_batch` builds its rows -/
  | rows
  /-- the statement of the next page -/
  | page
  | commit
  | ack
  /-- the call at hand raises; `reached` where an ack has arrived all the same -/
  | raise (e : Error) (reached : Bool)
  /-- the process ends, wherever it is, and a new one is started -/
  | restart

namespace StorageLoop

def start : StorageLoop K π := ⟨.new, .consuming, [], []⟩

/-- The process is about to call `consume`. -/
def isConsuming (s : StorageLoop K π) : Bool :=
  match s.pc with
  | .consuming => true
  | _ => false

/-- The call at hand raises, and the exception leaves `main`. -/
def raise (e : Error) (reached : Bool) (s : StorageLoop K π) : Option (StorageLoop K π) :=
  match s.pc with
  | .consuming => some { s with pc := .died e }
  | .validating _ _ _ => some { s with pc := .died e }
  | .executing _ _ => some { s with connection := s.connection.rollback, pc := .died e }
  | .acking (message :: _) => some { s with
      acked := if reached then s.acked ++ [message] else s.acked
      pc := .died e }
  | _ => none

/-- One action, where `validate` is `TrackEvent.model_validate`. -/
def step (validate : π → Except Error (TrackEvent K)) (s : StorageLoop K π) :
    StorageAction π → Option (StorageLoop K π)
  | .consumed messages => match s.pc with
    | .consuming => some { s with
        delivered := s.delivered ++ messages
        pc := if messages.isEmpty then .consuming else .validating messages [] messages }
    | _ => none
  | .validate => match s.pc with
    | .validating messages events (message :: remaining) =>
      match validate message.payload with
      | .ok event => some { s with pc := .validating messages (events ++ [event]) remaining }
      | .error e => some { s with pc := .died e }
    | _ => none
  | .rows => match s.pc with
    | .validating messages events [] =>
      match events.mapM eventToRow with
      | .ok rows => some { s with pc := .executing messages (paginate rows) }
      | .error e => some { s with pc := .died e }
    | _ => none
  | .page => match s.pc with
    | .executing messages (page :: pages) => some { s with
        connection := { s.connection with
          transaction := page.foldl Table.insert s.connection.transaction }
        pc := .executing messages pages }
    | _ => none
  | .commit => match s.pc with
    | .executing messages [] => some { s with
        connection := s.connection.commit, pc := .acking messages }
    | _ => none
  | .ack => match s.pc with
    | .acking (message :: remaining) => some { s with
        acked := s.acked ++ [message]
        pc := if remaining.isEmpty then .consuming else .acking remaining }
    | _ => none
  | .raise e reached => s.raise e reached
  | .restart => some { s with connection := s.connection.rollback, pc := .consuming }

end StorageLoop
end CamTrack
