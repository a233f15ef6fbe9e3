import CamTrack.Proofs.FourFilters
import CamTrack.Proofs.Iou
import CamTrack.Proofs.Symmetry

namespace CamTrack
open Matrix Python

variable {K : Type} [Field K] [LinearOrder K]

/-- What moving the image by `(dx, dy)` adds to a measurement. -/
def boxShift (dx dy : K) : Fin 4 → K := ![dx, dy, 0, 0]

/-- What it adds to a state: its centre moves, nothing else does. -/
def stateShift (dx dy : K) : Fin 7 → K := ![dx, dy, 0, 0, 0, 0, 0]

def BoundingBox.translate (dx dy : K) (b : BoundingBox K) : BoundingBox K :=
  ⟨b.x1 + dx, b.y1 + dy, b.x2 + dx, b.y2 + dy⟩

def Detection.translate (dx dy : K) (d : Detection K) : Detection K :=
  { d with box := d.box.translate dx dy }

def Track.translate (dx dy : K) (t : Track K) : Track K :=
  { t with box := t.box.translate dx dy }

def BoxKalmanFilter.translate (dx dy : K) (f : BoxKalmanFilter K) : BoxKalmanFilter K :=
  { f with x := f.x + stateShift dx dy }

def STrack.translate (dx dy : K) (t : STrack K) : STrack K :=
  { t with kalman := t.kalman.translate dx dy }

theorem boxToMeasurement_translate (dx dy : K) (box : Xyxy K) :
    boxToMeasurement (box.translate dx dy) = boxToMeasurement box + boxShift dx dy := by
  funext k
  fin_cases k <;>
    simp [boxToMeasurement, Xyxy.translate, boxShift, add_sub_add_right_eq_sub] <;> ring

namespace BoxKalmanFilter
variable (dx dy : K) (f : BoxKalmanFilter K)

theorem init_translate (box : Xyxy K) :
    init (box.translate dx dy) = (init box).translate dx dy := by
  have hx : (init (box.translate dx dy)).x = (init box).x + stateShift dx dy := by
    funext i
    simp only [init, boxToMeasurement_translate]
    fin_cases i <;> simp [stateShift, boxShift]
  exact congrArg (fun x => BoxKalmanFilter.mk x (initialP K)) hx

theorem predict_translate : (f.translate dx dy).predict = f.predict.translate dx dy := by
  have hx : (f.translate dx dy).predict.x = f.predict.x + stateShift dx dy := by
    have hreset : (if (f.x + stateShift dx dy) 6 + (f.x + stateShift dx dy) 2 ≤ 0 then
          Function.update (f.x + stateShift dx dy) 6 0 else f.x + stateShift dx dy) =
        (if f.x 6 + f.x 2 ≤ 0 then Function.update f.x 6 0 else f.x) + stateShift dx dy := by
      have h6 : stateShift dx dy 6 = 0 := rfl
      have h2 : stateShift dx dy 2 = 0 := rfl
      simp only [Pi.add_apply, h6, h2, add_zero]
      split
      · funext i
        by_cases hi : i = 6
        · subst hi
          simp [h6]
        · simp [Function.update_of_ne hi]
      · rfl
    have hF : F K *ᵥ stateShift dx dy = stateShift dx dy := by
      funext i
      rw [F_mulVec_apply]
      fin_cases i <;> simp [stateShift]
    have hmove : F K *ᵥ (if (f.x + stateShift dx dy) 6 + (f.x + stateShift dx dy) 2 ≤ 0 then
          Function.update (f.x + stateShift dx dy) 6 0 else f.x + stateShift dx dy) =
        F K *ᵥ (if f.x 6 + f.x 2 ≤ 0 then Function.update f.x 6 0 else f.x) +
          stateShift dx dy := by
      rw [hreset, mulVec_add, hF]
    exact hmove
  exact congrArg (fun x => BoxKalmanFilter.mk x (F K * f.P * (F K)ᵀ + Q K)) hx

theorem update_translate (box : Xyxy K) :
    (f.translate dx dy).update (box.translate dx dy) =
      (f.update box).map (BoxKalmanFilter.translate dx dy) := by
  have hinnovation : boxToMeasurement (box.translate dx dy) - H K *ᵥ (f.x + stateShift dx dy) =
      boxToMeasurement box - H K *ᵥ f.x := by
    have hH : H K *ᵥ stateShift dx dy = boxShift dx dy := by
      funext k
      rw [H_mulVec_apply]
      fin_cases k <;> rfl
    rw [boxToMeasurement_translate, mulVec_add, hH, add_sub_add_right_eq_sub]
  have hgain : (f.translate dx dy).gain = f.gain := rfl
  rw [update_eq_gain, update_eq_gain, hgain]
  cases f.gain with
  | error e => rfl
  | ok gain =>
    have hx : f.x + stateShift dx dy + gain *ᵥ (boxToMeasurement (box.translate dx dy) -
        H K *ᵥ (f.x + stateShift dx dy)) =
        f.x + gain *ᵥ (boxToMeasurement box - H K *ᵥ f.x) + stateShift dx dy := by
      rw [hinnovation, add_right_comm]
    exact congrArg (fun x => Except.ok (BoxKalmanFilter.mk x ((1 - gain * H K) * f.P))) hx

theorem currentBox_translate [HasSqrt K] :
    (f.translate dx dy).currentBox = f.currentBox.translate dx dy := by
  have h0 : (f.x + stateShift dx dy) 0 = f.x 0 + dx := rfl
  have h1 : (f.x + stateShift dx dy) 1 = f.x 1 + dy := rfl
  have h2 : (f.x + stateShift dx dy) 2 = f.x 2 := add_zero _
  have h3 : (f.x + stateShift dx dy) 3 = f.x 3 := add_zero _
  simp only [currentBox, BoxKalmanFilter.translate, stateToBox, Xyxy.translate, h0, h1, h2, h3,
    sub_add_eq_add_sub, add_right_comm]

end BoxKalmanFilter

variable [HasSqrt K] [IsStrictOrderedRing K]

/-- Moving everything in the image. -/
def translation (dx dy : K) : Symmetry K where
  track := STrack.translate dx dy
  detection := Detection.translate dx dy
  result := Track.translate dx dy
  predict t := by
    simp only [STrack.predict, STrack.translate, BoxKalmanFilter.predict_translate]
  markMatched t d := by
    have hbox : (d.translate dx dy).box.asXyxy = d.box.asXyxy.translate dx dy := rfl
    simp only [STrack.markMatched, STrack.translate, hbox, BoxKalmanFilter.update_translate]
    cases t.kalman.update d.box.asXyxy <;> rfl
  markUnmatched t := rfl
  init k cameraId d :=
    congrArg (fun f => STrack.mk k cameraId d.classId d.className .tentative 1 1 0 d.confidence f)
      (BoxKalmanFilter.init_translate dx dy d.box.asXyxy)
  toTrack frameId t := by
    simp only [STrack.toTrack, STrack.currentBox, STrack.translate, Track.translate,
      BoxKalmanFilter.currentBox_translate, Xyxy.translate, BoundingBox.translate]
  state t := rfl
  timeSinceUpdate t := rfl
  confidence d := rfl
  iou t d := by
    have hbox : (d.translate dx dy).box.asXyxy = d.box.asXyxy.translate dx dy := rfl
    simp only [STrack.currentBox, STrack.translate, hbox, BoxKalmanFilter.currentBox_translate,
      iou_translate]

/-- Tracking does not depend on where in the image things happen. -/
theorem outputs_translate (solver : LinearSumAssignment K) (cameraId : String) (dx dy : K)
    (frames : List (List (Detection K) × String)) :
    (newTracker cameraId).outputs solver
        (frames.map (fun f => (f.1.map (Detection.translate dx dy), f.2))) =
      ((newTracker cameraId).outputs solver frames).map
        (List.map (List.map (Track.translate dx dy))) :=
  (translation dx dy).outputs_eq solver (newTracker cameraId) frames

theorem outputs_translate_squares :
    (newTracker "cam-1").outputs exhaustiveSolver
        ([([clearSquare, faintSquare], "f1"), ([clearSquare], "f2")].map
          (fun f => (f.1.map (Detection.translate 3 (-2)), f.2))) =
      ((newTracker "cam-1").outputs exhaustiveSolver
        [([clearSquare, faintSquare], "f1"), ([clearSquare], "f2")]).map
        (List.map (List.map (Track.translate 3 (-2)))) :=
  outputs_translate exhaustiveSolver "cam-1" 3 (-2) _

end CamTrack
