import CamTrack.Config
import CamTrack.Kalman

namespace CamTrack
open Python InferenceConstants

variable {K : Type} [Field K] [LinearOrder K]

/-- One entry of `iou_matrix`. Areas are signed, so the union of inverted boxes
need not be positive; only a positive union is divided by. -/
def iou (a b : Xyxy K) : K :=
  let x1 := max a.x1 b.x1
  let y1 := max a.y1 b.y1
  let x2 := min a.x2 b.x2
  let y2 := min a.y2 b.y2
  let intersection := max 0 (x2 - x1) * max 0 (y2 - y1)
  let areaA := (a.x2 - a.x1) * (a.y2 - a.y1)
  let areaB := (b.x2 - b.x1) * (b.y2 - b.y1)
  let union := areaA + areaB - intersection
  if union > 0 then intersection / union else 0

def iouMatrix (boxesA boxesB : List (Xyxy K)) : List (List K) :=
  if boxesA.isEmpty || boxesB.isEmpty then
    List.replicate boxesA.length (List.replicate boxesB.length 0)
  else boxesA.map (fun a => boxesB.map (fun b => iou a b))

/-- `scipy.optimize.linear_sum_assignment`: a cost matrix in, row indices and
column indices out. -/
abbrev LinearSumAssignment (K : Type) := List (List K) → List Nat × List Nat

structure MatchResult where
  matches_ : List (Nat × Nat)
  unmatchedTracks : List Nat
  unmatchedDetections : List Nat
  deriving DecidableEq, Repr

/-- The loop over the solver's pairs: keep those with enough IoU. -/
def gatePairs (ious : List (List K)) (iouThreshold : K) :
    List (Nat × Nat) → Except Error (List (Nat × Nat))
  | [] => return []
  | (row, col) :: rest => do
    let ious_row ← index ious row
    let v ← index ious_row col
    let ms ← gatePairs ious iouThreshold rest
    return if v ≥ iouThreshold then (row, col) :: ms else ms

def matchByIou (solver : LinearSumAssignment K) (trackBoxes detectionBoxes : List (Xyxy K))
    (iouThreshold : K) : Except Error MatchResult :=
  if trackBoxes.isEmpty || detectionBoxes.isEmpty then
    return ⟨[], List.range trackBoxes.length, List.range detectionBoxes.length⟩
  else do
    let ious := iouMatrix trackBoxes detectionBoxes
    -- maximize IoU
    let (rowIndices, colIndices) := solver (ious.map (fun r => r.map (fun v => -v)))
    let pairs ← zipStrict rowIndices colIndices
    let ms ← gatePairs ious iouThreshold pairs
    let matchedTracks := ms.map Prod.fst
    let matchedDetections := ms.map Prod.snd
    return {
      matches_ := ms
      unmatchedTracks := (List.range trackBoxes.length).filter (fun i => i ∉ matchedTracks)
      unmatchedDetections :=
        (List.range detectionBoxes.length).filter (fun i => i ∉ matchedDetections) }

/-- Identity, filter and lifecycle counters of one tracked object. -/
structure STrack (K : Type) [Field K] [LinearOrder K] where
  trackId : String
  cameraId : String
  classId : Int
  className : String
  state : TrackState
  hits : Nat
  ageFrames : Nat
  timeSinceUpdate : Nat
  lastConfidence : Confidence K
  kalman : BoxKalmanFilter K

namespace STrack

def init (trackId cameraId : String) (detection : Detection K) : STrack K where
  trackId := trackId
  cameraId := cameraId
  classId := detection.classId
  className := detection.className
  state := .tentative
  hits := 1
  ageFrames := 1
  timeSinceUpdate := 0
  lastConfidence := detection.confidence
  kalman := .init detection.box.asXyxy

/-- `track.predict()` with the `age_frames` increment of the loop around it. -/
def predict (t : STrack K) : STrack K :=
  { t with kalman := t.kalman.predict, ageFrames := t.ageFrames + 1 }

/-- The state after a match that brings the hit count to `hits`. -/
def matchedState (state : TrackState) (hits : Nat) : TrackState :=
  if state = .lost then .confirmed
  else if state = .tentative ∧ hits ≥ trackMinHitsToConfirm then .confirmed
  else state

def markMatched (t : STrack K) (detection : Detection K) : Except Error (STrack K) := do
  let kalman ← t.kalman.update detection.box.asXyxy
  return { t with
    kalman := kalman
    hits := t.hits + 1
    timeSinceUpdate := 0
    lastConfidence := detection.confidence
    state := matchedState t.state (t.hits + 1) }

def markUnmatched (t : STrack K) : STrack K :=
  let timeSinceUpdate := t.timeSinceUpdate + 1
  { t with
    timeSinceUpdate := timeSinceUpdate
    state :=
      if t.state = .confirmed then .lost
      else if t.state = .tentative ∧ timeSinceUpdate > 0 then .removed
      else t.state }

variable [HasSqrt K]

def currentBox (t : STrack K) : Xyxy K := t.kalman.currentBox

def toTrack (frameId : String) (t : STrack K) : Track K :=
  let b := t.currentBox
  { trackId := t.trackId
    cameraId := t.cameraId
    frameId := frameId
    box := ⟨b.x1, b.y1, b.x2, b.y2⟩
    classId := t.classId
    className := t.className
    confidence := t.lastConfidence
    state := t.state
    hits := t.hits
    ageFrames := t.ageFrames }

end STrack

structure TrackIdAllocator where
  cameraId : String
  counter : Nat
  deriving DecidableEq, Repr

/-- `f"{camera_id}-{counter}"`. -/
def formatTrackId (cameraId : String) (counter : Nat) : String :=
  cameraId ++ "-" ++ toString counter

def TrackIdAllocator.nextId (a : TrackIdAllocator) : String × TrackIdAllocator :=
  let counter := a.counter + 1
  (formatTrackId a.cameraId counter, { a with counter := counter })

structure ByteTracker (K : Type) [Field K] [LinearOrder K] where
  cameraId : String
  tracks : Dict String (STrack K)
  idAllocator : TrackIdAllocator

def newTracker (cameraId : String) : ByteTracker K :=
  { cameraId := cameraId, tracks := .empty, idAllocator := ⟨cameraId, 0⟩ }

namespace ByteTracker

/-- `for track_pos, det_pos in matches: ...` of each association stage. -/
def markMatches (ids : List String) (detections : List (Detection K)) :
    List (Nat × Nat) → Dict String (STrack K) → List String →
      Except Error (Dict String (STrack K) × List String)
  | [], tracks, matchedTrackIds => return (tracks, matchedTrackIds)
  | (trackPos, detPos) :: rest, tracks, matchedTrackIds => do
    let trackId ← index ids trackPos
    let track ← tracks.getItem trackId
    let detection ← index detections detPos
    let track ← track.markMatched detection
    markMatches ids detections rest (tracks.set trackId track) (matchedTrackIds ++ [trackId])

variable [HasSqrt K]

/-- One association stage: the current boxes of the tracks `ids` against
`detections`, marking the tracks that found a partner. -/
def stage (solver : LinearSumAssignment K) (iouThreshold : K) (ids : List String)
    (detections : List (Detection K)) (tracks : Dict String (STrack K))
    (matchedTrackIds : List String) :
    Except Error (MatchResult × Dict String (STrack K) × List String) := do
  let boxes ← ids.mapM (fun tid => do
    let track ← tracks.getItem tid
    return track.currentBox)
  let result ← matchByIou solver boxes (detections.map (fun d => d.box.asXyxy)) iouThreshold
  let marked ← markMatches ids detections result.matches_ tracks matchedTrackIds
  return (result, marked)

/-- The local variables of `update` after stage 2. -/
structure TwoStages (K : Type) [Field K] [LinearOrder K] where
  highConf : List (Detection K)
  lowConf : List (Detection K)
  activeIds : List String
  stage1 : MatchResult
  remainingTrackIds : List String
  stage2 : MatchResult
  tracks : Dict String (STrack K)
  matchedTrackIds : List String

/-- The local variables of `update` after stage 3. -/
structure ThreeStages (K : Type) [Field K] [LinearOrder K] where
  tentativeIds : List String
  leftoverHigh : List (Detection K)
  stage3 : MatchResult
  tracks : Dict String (STrack K)
  matchedTrackIds : List String

def isHighConf (d : Detection K) : Bool := decide (d.confidence.val ≥ trackHighConfThreshold)

def isLowConf (d : Detection K) : Bool :=
  decide (trackLowConfThreshold ≤ d.confidence.val ∧ d.confidence.val < trackHighConfThreshold)

/-- `update` from the predict loop to the end of stage 2. -/
def firstStages (solver : LinearSumAssignment K) (self : ByteTracker K)
    (detections : List (Detection K)) : Except Error (TwoStages K) := do
  let tracks := self.tracks.mapValues (fun _ t => t.predict)
  let highConf := detections.filter isHighConf
  let lowConf := detections.filter isLowConf
  let activeIds := tracks.keys
  -- Stage 1: high-confidence detections vs. every active track.
  let (stage1, tracks, matchedTrackIds) ←
    stage solver trackMatchIouThreshold activeIds highConf tracks []
  -- Stage 2: low-confidence detections vs. tracks stage 1 left unmatched.
  let remainingTrackIds ← stage1.unmatchedTracks.mapM (fun i => index activeIds i)
  let (stage2, tracks, matchedTrackIds) ←
    stage solver trackLowConfMatchIouThreshold remainingTrackIds lowConf tracks matchedTrackIds
  return {
    highConf := highConf, lowConf := lowConf, activeIds := activeIds, stage1 := stage1
    remainingTrackIds := remainingTrackIds, stage2 := stage2, tracks := tracks
    matchedTrackIds := matchedTrackIds }

/-- Stage 3: leftover high-confidence detections vs. tentative tracks only. -/
def thirdStage (solver : LinearSumAssignment K) (a : TwoStages K) :
    Except Error (ThreeStages K) := do
  let stillUnmatchedTrackIds ← a.stage2.unmatchedTracks.mapM (fun i => index a.remainingTrackIds i)
  let states ← stillUnmatchedTrackIds.mapM (fun tid => do
    let track ← a.tracks.getItem tid
    return (tid, track.state))
  let tentativeIds := (states.filter (fun p => p.2 = .tentative)).map Prod.fst
  let leftoverHigh ← a.stage1.unmatchedDetections.mapM (fun i => index a.highConf i)
  let (stage3, tracks, matchedTrackIds) ←
    stage solver trackUnconfirmedMatchIouThreshold tentativeIds leftoverHigh a.tracks
      a.matchedTrackIds
  return {
    tentativeIds := tentativeIds, leftoverHigh := leftoverHigh, stage3 := stage3
    tracks := tracks, matchedTrackIds := matchedTrackIds }

/-- The association part of `update`. -/
def associate (solver : LinearSumAssignment K) (self : ByteTracker K)
    (detections : List (Detection K)) : Except Error (TwoStages K × ThreeStages K) := do
  let a ← firstStages solver self detections
  let b ← thirdStage solver a
  return (a, b)

/-- Age every track no stage matched. -/
def markUnmatchedTracks (activeIds matchedTrackIds : List String)
    (tracks : Dict String (STrack K)) : Except Error (Dict String (STrack K)) :=
  activeIds.foldlM (fun tracks tid =>
    if tid ∈ matchedTrackIds then return tracks
    else do
      let track ← tracks.getItem tid
      return tracks.set tid track.markUnmatched) tracks

/-- New tracks for the detections at `positions`. -/
def spawnTracks (cameraId : String) (leftoverHigh : List (Detection K)) (positions : List Nat)
    (tracks : Dict String (STrack K)) (idAllocator : TrackIdAllocator) :
    Except Error (Dict String (STrack K) × TrackIdAllocator) :=
  positions.foldlM (fun (tracks, idAllocator) detPos => do
    let detection ← index leftoverHigh detPos
    let (newId, idAllocator) := idAllocator.nextId
    return (tracks.set newId (.init newId cameraId detection), idAllocator)) (tracks, idAllocator)

def expired (t : STrack K) : Bool :=
  decide (t.state = .removed ∨ t.timeSinceUpdate > trackMaxLostFrames)

/-- Drop removed tracks and those lost for too long. -/
def dropExpired (tracks : Dict String (STrack K)) : Except Error (Dict String (STrack K)) :=
  tracks.keys.foldlM (fun tracks tid => do
    let track ← tracks.getItem tid
    return if expired track then tracks.erase tid else tracks) tracks

/-- `update` after its association stages: `positions` are the places in
`leftoverHigh` of the detections that become new tracks. -/
def finish (self : ByteTracker K) (activeIds matchedTrackIds : List String)
    (tracks : Dict String (STrack K)) (leftoverHigh : List (Detection K)) (positions : List Nat)
    (frameId : String) : Except Error (List (Track K) × ByteTracker K) := do
  let tracks ← markUnmatchedTracks activeIds matchedTrackIds tracks
  let (tracks, idAllocator) ←
    spawnTracks self.cameraId leftoverHigh positions tracks self.idAllocator
  let tracks ← dropExpired tracks
  return (tracks.values.map (STrack.toTrack frameId),
    { self with tracks := tracks, idAllocator := idAllocator })

/-- Advance the tracker one frame and return every non-removed track. -/
def update (solver : LinearSumAssignment K) (self : ByteTracker K)
    (detections : List (Detection K)) (frameId : String) :
    Except Error (List (Track K) × ByteTracker K) := do
  let (a, b) ← associate solver self detections
  finish self a.activeIds b.matchedTrackIds b.tracks b.leftoverHigh
    b.stage3.unmatchedDetections frameId

/-- Feed a tracker the frames of one camera in order. -/
def run (solver : LinearSumAssignment K) (self : ByteTracker K)
    (frames : List (List (Detection K) × String)) : Except Error (ByteTracker K) :=
  frames.foldlM (fun tracker f => do
    let (_, tracker) ← update solver tracker f.1 f.2
    return tracker) self

end ByteTracker
end CamTrack
