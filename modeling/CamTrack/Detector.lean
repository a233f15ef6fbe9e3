import CamTrack.Tracker

namespace CamTrack
open Python Matrix

variable {K : Type} [Field K] [LinearOrder K]

/-- `numpy.ndarray.argsort` with its default kind, which is not stable. -/
abbrev Argsort (K : Type) := List K → List Nat

/-- Indexing by a boolean mask, `xs[mask]`. -/
def maskSelect (xs : List α) (mask : List Bool) : List α :=
  (xs.zip mask).filterMap (fun p => if p.2 then some p.1 else none)

/-- A reduction with `axis=1`. An empty axis raises, also when there are no rows. -/
def reduceAxis1 (f : List K → Except Error α) (rows : List (Fin c → K)) : Except Error (List α) :=
  if c = 0 then .error .valueError else rows.mapM (fun row => f (List.ofFn row))

/-- The first position of the largest entry. -/
def argmax (xs : List K) : Except Error Nat :=
  match xs.max? with
  | some m => .ok (xs.idxOf m)
  | none => .error .valueError

def amax (xs : List K) : Except Error K :=
  match xs.max? with
  | some m => .ok m
  | none => .error .valueError

/-- The arrays `intersection` and `union` of `_iou_xyxy`. -/
def iouXyxyParts (a : Xyxy K) (b : List (Xyxy K)) : List K × List K :=
  let x1 := b.map (fun b => max a.x1 b.x1)
  let y1 := b.map (fun b => max a.y1 b.y1)
  let x2 := b.map (fun b => min a.x2 b.x2)
  let y2 := b.map (fun b => min a.y2 b.y2)
  let intersection := List.zipWith (· * ·) (List.zipWith (fun x2 x1 => max 0 (x2 - x1)) x2 x1)
    (List.zipWith (fun y2 y1 => max 0 (y2 - y1)) y2 y1)
  let areaA := (a.x2 - a.x1) * (a.y2 - a.y1)
  let areaB := b.map (fun b => (b.x2 - b.x1) * (b.y2 - b.y1))
  let union := List.zipWith (fun areaB intersection => areaA + areaB - intersection) areaB
    intersection
  (intersection, union)

/-- `_iou_xyxy`. -/
def iouXyxy (a : Xyxy K) (b : List (Xyxy K)) : List K :=
  let (intersection, union) := iouXyxyParts a b
  List.zipWith (fun intersection union => if union > 0 then intersection / union else 0)
    intersection union

theorem maskSelect_length_le (xs : List α) (mask : List Bool) :
    (maskSelect xs mask).length ≤ xs.length :=
  (List.length_filterMap_le _ _).trans (by simp)

/-- The `while order.size > 0` loop of `_nms`. -/
def nmsLoop (boxes : List (Xyxy K)) (iouThreshold : K) :
    List Nat → List Nat → Except Error (List Nat)
  | [], keep => return keep
  | current :: remaining, keep => do
    let keep := keep ++ [current]
    if remaining.isEmpty then return keep
    else
      let a ← index boxes current
      let b ← remaining.mapM (fun i => index boxes i)
      let ious := iouXyxy a b
      nmsLoop boxes iouThreshold (maskSelect remaining (ious.map (fun v => v ≤ iouThreshold))) keep
termination_by order => order.length
decreasing_by exact Nat.lt_succ_of_le (maskSelect_length_le _ _)

def nms (argsort : Argsort K) (boxes : List (Xyxy K)) (scores : List K) (iouThreshold : K) :
    Except Error (List Nat) :=
  nmsLoop boxes iouThreshold (argsort scores).reverse []

/-- `Detection`'s `Field(ge=0.0, le=1.0)`. -/
def validateConfidence (c : K) : Except Error (Confidence K) :=
  if h : 0 ≤ c ∧ c ≤ 1 then .ok ⟨c, h⟩ else .error .valueError

/-- Corners of a `(cx, cy, w, h)` row, in the model's input-pixel space. -/
def cornersOf (p : Fin 4 → K) : Xyxy K :=
  let cx := vecHead p
  let cy := vecHead (vecTail p)
  let w := vecHead (vecTail (vecTail p))
  let h := vecHead (vecTail (vecTail (vecTail p)))
  ⟨cx - w / (2 : ℕ), cy - h / (2 : ℕ), cx + w / (2 : ℕ), cy + h / (2 : ℕ)⟩

/-- `_decode_yolo_output` on a raw tensor of shape `(4 + c, n)`. -/
def decodeYoloOutput (argsort : Argsort K) (raw : Matrix (Fin (4 + c)) (Fin n) K)
    (frameId cameraId : String) (scaleX scaleY : K) (classNames : Dict Int String)
    (confidenceThreshold iouThreshold : K) : Except Error (List (Detection K)) := do
  let predictions := (List.finRange n).map (fun j k => rawᵀ j k)
  let boxParams := predictions.map (fun p k => p (Fin.castAdd c k))
  let classScores := predictions.map (fun p k => p (Fin.natAdd 4 k))
  let classIds ← reduceAxis1 argmax classScores
  let confidences ← reduceAxis1 amax classScores
  let keepMask := confidences.map (fun v => decide (v ≥ confidenceThreshold))
  if !keepMask.any id then return []
  else
    let boxParams := maskSelect boxParams keepMask
    let classIds := maskSelect classIds keepMask
    let confidences := maskSelect confidences keepMask
    let xyxy := boxParams.map cornersOf
    let keptIndices ← nms argsort xyxy confidences iouThreshold
    keptIndices.mapM fun idx => do
      let box ← index xyxy idx
      let classId ← index classIds idx
      let confidence ← validateConfidence (← index confidences idx)
      return {
        frameId := frameId
        cameraId := cameraId
        box := ⟨box.x1 * scaleX, box.y1 * scaleY, box.x2 * scaleX, box.y2 * scaleY⟩
        classId := classId
        className := (classNames.get? classId).getD (toString (classId : Int))
        confidence := confidence }

end CamTrack
