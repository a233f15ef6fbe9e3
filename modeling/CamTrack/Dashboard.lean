import CamTrack.Lib.Grouping
import CamTrack.Storage

namespace CamTrack
open Python Grouping

variable {K : Type} [Field K] [LinearOrder K]

/-- A row of `track_counts_per_minute`; `bucket` is the instant at which its minute begins. -/
structure CountRow where
  bucket : Int
  cameraId : String
  zone : String
  distinctTrackCount : Nat
  deriving DecidableEq, Repr

def minuteMs : Int := 60000

/-- `time_bucket('1 minute', event_time)`. -/
def timeBucket (eventTime : Int) : Int := eventTime / minuteMs * minuteMs

def Row.group (row : Row K) : Int × String × String :=
  (timeBucket row.eventTime, row.cameraId, row.zone)

/-- The query of `track_counts_per_minute`. -/
def trackCountsPerMinute (rows : List (Row K)) : List CountRow :=
  (groupCount Row.group Row.trackId rows).map
    (fun ((bucket, cameraId, zone), count) => ⟨bucket, cameraId, zone, count⟩)

namespace HttpStatusMessages

def badRequest : String := "The request was malformed or missing required fields."
def upstreamUnavailable : String := "A dependent service (queue or database) is unavailable."

end HttpStatusMessages

/-- What a route answers instead of its result. -/
inductive HttpError where
  /-- a parameter does not meet its declaration -/
  | validation
  | exception (statusCode : Nat) (detail : String)
  deriving DecidableEq, Repr

def maxLookbackMinutes : Int := 7 * 24 * 60

/-- Whether a parameter counts as given. -/
def given : Option String → Bool
  | none => false
  | some value => value != ""

/-- `list_cameras`, on the rows of the table or what the database raises. -/
def listCameras (rows : Except Error (List (Row K))) :
    Except HttpError (List (String × String)) :=
  match rows with
  | .error _ => .error (.exception 503 HttpStatusMessages.upstreamUnavailable)
  | .ok rows => .ok (sortOn Prod.fst (rows.map (fun row => (row.cameraId, row.zone))).dedup)

/-- The rows that `traffic` asks for, where the clock of the database shows `now`. -/
def CountRow.wanted (now : Int) (cameraId zone : Option String) (minutes : Int)
    (row : CountRow) : Bool :=
  decide (now - minutes * minuteMs ≤ row.bucket) &&
    (!given cameraId || some row.cameraId == cameraId) && (!given zone || some row.zone == zone)

/-- `traffic`, on the rows of the view or what the database raises. -/
def traffic (now : Int) (view : Except Error (List CountRow)) (cameraId zone : Option String)
    (minutes : Int) : Except HttpError (List CountRow) :=
  if ¬ (0 < minutes ∧ minutes ≤ maxLookbackMinutes) then .error .validation
  else if given cameraId && given zone then
    .error (.exception 400 HttpStatusMessages.badRequest)
  else match view with
    | .error _ => .error (.exception 503 HttpStatusMessages.upstreamUnavailable)
    | .ok rows => .ok (sortOn CountRow.bucket
        (rows.filter (CountRow.wanted now cameraId zone minutes)))

/-- `aggregateByBucket` of the page. -/
def aggregateByBucket (rows : List CountRow) : List (Int × Nat) :=
  sortOn Prod.fst (tally (rows.map (fun row => (row.bucket, row.distinctTrackCount)))).entries

/-- The points that the page draws, where `cameraId` is the value of its select. -/
def chart (now : Int) (view : Except Error (List CountRow)) (cameraId : String) (minutes : Int) :
    Except HttpError (List (Int × Nat)) := do
  let rows ← traffic now view (if cameraId = "" then none else some cameraId) none minutes
  return if cameraId = "" then aggregateByBucket rows
    else rows.map (fun row => (row.bucket, row.distinctTrackCount))

end CamTrack
