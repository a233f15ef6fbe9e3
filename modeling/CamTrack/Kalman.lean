import CamTrack.Schemas
import CamTrack.Lib.Dict

namespace CamTrack
open Matrix

/-- The one transcendental operation the filter uses, `np.sqrt`. -/
class HasSqrt (K : Type) where
  sqrt : K → K

/-- Exact on squares of rationals. -/
instance : HasSqrt ℚ := ⟨Rat.sqrt⟩

variable {K : Type} [Field K] [LinearOrder K]

/-- `np.linalg.inv` on the filter's 4 by 4 innovation covariance. -/
def linalgInv (S : Matrix (Fin 4) (Fin 4) K) : Except Python.Error (Matrix (Fin 4) (Fin 4) K) :=
  if S.det = 0 then .error .linAlgError else .ok (S.det⁻¹ • S.adjugate)

/-- `(x1, y1, x2, y2)` as the measurement `[u, v, s, r]`. -/
def boxToMeasurement (xyxy : Xyxy K) : Fin 4 → K :=
  let width := xyxy.x2 - xyxy.x1
  let height := xyxy.y2 - xyxy.y1
  let centerX := xyxy.x1 + width / 2
  let centerY := xyxy.y1 + height / 2
  let area := max width 0 * max height 0
  let aspectRatio := if height > 1e-6 then width / height else 0
  ![centerX, centerY, area, aspectRatio]

/-- The first four state components back as `(x1, y1, x2, y2)`. -/
def stateToBox [HasSqrt K] (centerX centerY area aspectRatio : K) : Xyxy K :=
  let area := max area 0
  let width := if aspectRatio > 0 then HasSqrt.sqrt (area * aspectRatio) else 0
  let height := if width > 1e-6 then area / width else 0
  ⟨centerX - width / 2, centerY - height / 2, centerX + width / 2, centerY + height / 2⟩

/-- State `x` and covariance `P`; the other attributes are constants. -/
structure BoxKalmanFilter (K : Type) where
  x : Fin 7 → K
  P : Matrix (Fin 7) (Fin 7) K

namespace BoxKalmanFilter

section Constants
variable (K : Type) [Field K]

/-- `u += u_dot`, `v += v_dot`, `s += s_dot`. -/
def F : Matrix (Fin 7) (Fin 7) K :=
  of fun i j => if i = j then 1 else if j.val = i.val + 4 then 1 else 0

def H : Matrix (Fin 4) (Fin 7) K :=
  of fun i j => if i.val = j.val then 1 else 0

def Q : Matrix (Fin 7) (Fin 7) K :=
  diagonal fun i => if 4 ≤ i.val then 1 * 0.01 else 1

def R : Matrix (Fin 4) (Fin 4) K :=
  diagonal fun i => if 2 ≤ i.val then 1 * 10.0 else 1

def initialP : Matrix (Fin 7) (Fin 7) K :=
  diagonal fun i => if 4 ≤ i.val then 10.0 * 1000.0 else 10.0

end Constants

/-- `BoxKalmanFilter(initial_xyxy)`. -/
def init (initialXyxy : Xyxy K) : BoxKalmanFilter K :=
  let z := boxToMeasurement initialXyxy
  { x := ![z 0, z 1, z 2, z 3, 0, 0, 0], P := initialP K }

/-- Advance one frame; a velocity that would make the area non-positive is
dropped first. -/
def predict (f : BoxKalmanFilter K) : BoxKalmanFilter K :=
  let x := if f.x 6 + f.x 2 ≤ 0 then Function.update f.x 6 0 else f.x
  { x := F K *ᵥ x, P := F K * f.P * (F K)ᵀ + Q K }

/-- Correct the state with an observed box. -/
def update (f : BoxKalmanFilter K) (measuredXyxy : Xyxy K) :
    Except Python.Error (BoxKalmanFilter K) := do
  let z := boxToMeasurement measuredXyxy
  let y := z - H K *ᵥ f.x
  let S := H K * f.P * (H K)ᵀ + R K
  let Sinv ← linalgInv S
  let gain := f.P * (H K)ᵀ * Sinv
  return { x := f.x + gain *ᵥ y, P := (1 - gain * H K) * f.P }

def currentBox [HasSqrt K] (f : BoxKalmanFilter K) : Xyxy K :=
  stateToBox (f.x 0) (f.x 1) (f.x 2) (f.x 3)

end BoxKalmanFilter
end CamTrack
