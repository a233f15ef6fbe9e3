import Mathlib

namespace CamTrack

/-- `(x1, y1, x2, y2)`, the corner tuple that association and filtering work on. -/
structure Xyxy (K : Type) where
  x1 : K
  y1 : K
  x2 : K
  y2 : K
  deriving DecidableEq, Repr

/-- An axis-aligned box in pixel coordinates. Nothing orders its corners. -/
structure BoundingBox (K : Type) where
  x1 : K
  y1 : K
  x2 : K
  y2 : K
  deriving DecidableEq, Repr

def BoundingBox.asXyxy (b : BoundingBox K) : Xyxy K := ⟨b.x1, b.y1, b.x2, b.y2⟩

/-- A score validated into `[0, 1]` (`Field(ge=0.0, le=1.0)`). -/
abbrev Confidence (K : Type) [Field K] [LinearOrder K] := { c : K // 0 ≤ c ∧ c ≤ 1 }

structure RawFrame where
  frameId : String
  cameraId : String
  frameUri : String
  sequenceNumber : Int
  deriving DecidableEq, Repr

inductive TrackState where
  | tentative
  | confirmed
  | lost
  | removed
  deriving DecidableEq, Repr

section
variable (K : Type) [Field K] [LinearOrder K]

structure Detection where
  frameId : String
  cameraId : String
  box : BoundingBox K
  classId : Int
  className : String
  confidence : Confidence K
  deriving DecidableEq

structure Track where
  trackId : String
  cameraId : String
  frameId : String
  box : BoundingBox K
  classId : Int
  className : String
  confidence : Confidence K
  state : TrackState
  hits : Nat
  ageFrames : Nat
  deriving DecidableEq

/-- A `Track` update as published. `eventId` and `eventTimeMs` are drawn afresh
when the event is constructed. -/
structure TrackEvent where
  eventId : String
  track : Track K
  globalIdentityId : Option String
  eventTimeMs : Int
  deriving DecidableEq

end
end CamTrack
