import CamTrack.Lib.Dict
import CamTrack.Schemas

namespace CamTrack
open Python

variable {K : Type} [Field K] [LinearOrder K]

/-- A row of `track_events`. Times are instants in milliseconds. -/
structure Row (K : Type) [Field K] [LinearOrder K] where
  eventId : String
  eventTime : Int
  cameraId : String
  zone : String
  trackId : String
  globalIdentityId : Option String
  classId : Int
  className : String
  confidence : Confidence K
  trackState : TrackState
  boxX1 : K
  boxY1 : K
  boxX2 : K
  boxY2 : K
  deriving DecidableEq

/-- The table, by its primary key `event_id`. -/
abbrev Table (K : Type) [Field K] [LinearOrder K] := Dict String (Row K)

/-- `datetime.fromtimestamp(ms / 1000.0, tz=UTC)`, which knows the years 1 to 9999. -/
def fromTimestamp (ms : Int) : Except Error Int :=
  if -62135596800000 ≤ ms ∧ ms ≤ 253402300799999 then return ms else throw .valueError

def zoneFor (cameraId : String) (_event : TrackEvent K) : String := cameraId

def eventToRow (event : TrackEvent K) : Except Error (Row K) := do
  let track := event.track
  let eventTime ← fromTimestamp event.eventTimeMs
  return {
    eventId := event.eventId
    eventTime := eventTime
    cameraId := track.cameraId
    zone := zoneFor track.cameraId event
    trackId := track.trackId
    globalIdentityId := event.globalIdentityId
    classId := track.classId
    className := track.className
    confidence := track.confidence
    trackState := track.state
    boxX1 := track.box.x1
    boxY1 := track.box.y1
    boxX2 := track.box.x2
    boxY2 := track.box.y2 }

/-- `INSERT ... ON CONFLICT (event_id) DO NOTHING` of one row. -/
def Table.insert (table : Table K) (row : Row K) : Table K :=
  if row.eventId ∈ table.keys then table else table.set row.eventId row

/-- Rows of one statement of `execute_values`. -/
def pageSize : Nat := 100

/-- `_paginate` of `execute_values`. -/
def paginate (rows : List α) : List (List α) :=
  (List.range ((rows.length + (pageSize - 1)) / pageSize)).map
    (fun i => (rows.drop (pageSize * i)).take pageSize)

/-- What the database refuses in a call: the statement of a page, or the commit. -/
inductive Fault where
  | page (i : Nat)
  | commit
  deriving DecidableEq, Repr

/-- The committed table, and the one that the open transaction sees. -/
structure Connection (K : Type) [Field K] [LinearOrder K] where
  committed : Table K
  transaction : Table K

namespace Connection

def new : Connection K := ⟨.empty, .empty⟩

def commit (c : Connection K) : Connection K := { c with committed := c.transaction }

def rollback (c : Connection K) : Connection K := { c with transaction := c.committed }

/-- The statements of `execute_values` from page `i` on, up to the one that raises. -/
def executePages (fault : Option Fault) : Nat → List (List (Row K)) → Connection K →
    Connection K × Option Error
  | _, [], c => (c, none)
  | i, page :: rest, c =>
    if fault = some (.page i) then (c, some .databaseError)
    else executePages fault (i + 1) rest
      { c with transaction := page.foldl Table.insert c.transaction }

/-- `write_batch`. The rows are built before the connection is touched. -/
def writeBatch (fault : Option Fault) (c : Connection K) (events : List (TrackEvent K)) :
    Connection K × Option Error :=
  if events.isEmpty then (c, none)
  else match events.mapM eventToRow with
    | .error e => (c, some e)
    | .ok rows =>
      match executePages fault 0 (paginate rows) c with
      | (c, some e) => (c.rollback, some e)
      | (c, none) =>
        if fault = some .commit then (c.rollback, some .databaseError) else (c.commit, none)

/-- Calls of `write_batch` one after the other, and the events of those that returned. -/
def writeAll (c : Connection K) :
    List (Option Fault × List (TrackEvent K)) → Connection K × List (TrackEvent K)
  | [] => (c, [])
  | (fault, events) :: calls =>
    let (c, raised) := c.writeBatch fault events
    let (c, written) := writeAll c calls
    (c, if raised = none then events ++ written else written)

end Connection
end CamTrack
