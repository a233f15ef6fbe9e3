import CamTrack.Proofs.Covariance

namespace CamTrack
open Matrix Python

/-- One call on a filter that is given measurements of type `μ`. -/
inductive FilterCall (μ : Type) where
  | predict
  | update (measured : μ)

def FilterCall.map (g : μ → ν) : FilterCall μ → FilterCall ν
  | .predict => .predict
  | .update measured => .update (g measured)

variable {K : Type} [Field K]

/-- A constant-velocity filter of one coordinate. -/
structure AxisFilter (K : Type) where
  pos : K
  vel : K
  cov : AxisCov K

namespace AxisFilter

def predict (a : AxisFilter K) : AxisFilter K := ⟨a.pos + a.vel, a.vel, a.cov.predict⟩

/-- Correction by a measurement `z` of variance `r`. -/
def update (r z : K) (a : AxisFilter K) : AxisFilter K :=
  ⟨a.pos + a.cov.pos / (a.cov.pos + r) * (z - a.pos),
    a.vel + a.cov.cross / (a.cov.pos + r) * (z - a.pos), a.cov.update r⟩

def call (r : K) (a : AxisFilter K) : FilterCall K → AxisFilter K
  | .predict => a.predict
  | .update z => a.update r z

variable [LinearOrder K]

/-- A velocity that would make the coordinate non-positive is dropped first. -/
def predictPositive (a : AxisFilter K) : AxisFilter K :=
  if a.vel + a.pos ≤ 0 then predict { a with vel := 0 } else a.predict

def callPositive (r : K) (a : AxisFilter K) : FilterCall K → AxisFilter K
  | .predict => a.predictPositive
  | .update z => a.update r z

end AxisFilter

/-- A filter of a constant. -/
structure StaticFilter (K : Type) where
  value : K
  var : K

namespace StaticFilter

def predict (a : StaticFilter K) : StaticFilter K := ⟨a.value, a.var + 1⟩

def update (r z : K) (a : StaticFilter K) : StaticFilter K :=
  ⟨a.value + a.var / (a.var + r) * (z - a.value), a.var * r / (a.var + r)⟩

def call (r : K) (a : StaticFilter K) : FilterCall K → StaticFilter K
  | .predict => a.predict
  | .update z => a.update r z

end StaticFilter

/-- `F` adds each velocity to its position. -/
theorem F_mulVec_apply (x : Fin 7 → K) (i : Fin 7) :
    (BoxKalmanFilter.F K *ᵥ x) i =
      x i + if h : i.val < 3 then x (Fin.natAdd 4 ⟨i.val, h⟩) else 0 := by
  rw [mulVec, dotProduct, Fin.sum_univ_seven]
  fin_cases i <;> simp [BoxKalmanFilter.F]

/-- `H` reads the first four components. -/
theorem H_mulVec_apply (x : Fin 7 → K) (k : Fin 4) :
    (BoxKalmanFilter.H K *ᵥ x) k = x (Fin.castAdd 3 k) := by
  rw [mulVec, dotProduct, Fin.sum_univ_seven]
  fin_cases k <;> simp [BoxKalmanFilter.H]

/-- The covariance moves with the kind of the call only. -/
def StateCov.call (c : StateCov K) : FilterCall μ → StateCov K
  | .predict => c.predict
  | .update _ => c.update

theorem StateCov.foldl_call_map (c : StateCov K) (g : μ → ν) (cs : List (FilterCall μ)) :
    (cs.map (FilterCall.map g)).foldl StateCov.call c = cs.foldl StateCov.call c := by
  induction cs generalizing c with
  | nil => rfl
  | cons k cs ih => cases k <;> exact ih _

/-- Separate filters for the centre, the area and the aspect ratio. -/
structure FourFilters (K : Type) where
  u : AxisFilter K
  v : AxisFilter K
  s : AxisFilter K
  r : StaticFilter K

namespace FourFilters

def state (g : FourFilters K) : Fin 7 → K :=
  ![g.u.pos, g.v.pos, g.s.pos, g.r.value, g.u.vel, g.v.vel, g.s.vel]

def cov (g : FourFilters K) : StateCov K := ⟨g.u.cov, g.v.cov, g.s.cov, g.r.var⟩

variable [LinearOrder K]

def init (z : Fin 4 → K) : FourFilters K where
  u := ⟨vecHead z, 0, StateCov.initial.u⟩
  v := ⟨vecHead (vecTail z), 0, StateCov.initial.v⟩
  s := ⟨vecHead (vecTail (vecTail z)), 0, StateCov.initial.s⟩
  r := ⟨vecHead (vecTail (vecTail (vecTail z))), StateCov.initial.r⟩

def call (g : FourFilters K) (c : FilterCall (Fin 4 → K)) : FourFilters K where
  u := g.u.call 1 (c.map vecHead)
  v := g.v.call 1 (c.map (fun z => vecHead (vecTail z)))
  s := g.s.callPositive (10 : ℕ) (c.map (fun z => vecHead (vecTail (vecTail z))))
  r := g.r.call (10 : ℕ) (c.map (fun z => vecHead (vecTail (vecTail (vecTail z)))))

theorem cov_call (g : FourFilters K) (c : FilterCall (Fin 4 → K)) :
    (g.call c).cov = g.cov.call c := by
  cases c with
  | predict =>
    simp only [call, cov, FilterCall.map, AxisFilter.call, AxisFilter.callPositive,
      AxisFilter.predict, AxisFilter.predictPositive, StateCov.call, StateCov.predict,
      StaticFilter.call, StaticFilter.predict]
    split <;> rfl
  | update z =>
    simp [call, cov, FilterCall.map, AxisFilter.call, AxisFilter.callPositive, AxisFilter.update,
      StateCov.call, StateCov.update, StaticFilter.call, StaticFilter.update]

theorem cov_calls (g : FourFilters K) (cs : List (FilterCall (Fin 4 → K))) :
    (cs.foldl call g).cov = cs.foldl StateCov.call g.cov := by
  induction cs generalizing g with
  | nil => rfl
  | cons c cs ih => rw [List.foldl_cons, List.foldl_cons, ih, cov_call]

/-- Each filter sees its own component of the measurements only. -/
theorem foldl_call (g : FourFilters K) (cs : List (FilterCall (Fin 4 → K))) :
    cs.foldl call g =
      { u := (cs.map (FilterCall.map vecHead)).foldl (AxisFilter.call 1) g.u
        v := (cs.map (FilterCall.map (fun z => vecHead (vecTail z)))).foldl (AxisFilter.call 1) g.v
        s := (cs.map (FilterCall.map (fun z => vecHead (vecTail (vecTail z))))).foldl
          (AxisFilter.callPositive (10 : ℕ)) g.s
        r := (cs.map (FilterCall.map (fun z => vecHead (vecTail (vecTail (vecTail z)))))).foldl
          (StaticFilter.call (10 : ℕ)) g.r } := by
  induction cs generalizing g with
  | nil => rfl
  | cons c cs ih => exact ih (g.call c)

end FourFilters

namespace BoxKalmanFilter
variable [LinearOrder K]

def call (f : BoxKalmanFilter K) : FilterCall (Xyxy K) → Except Error (BoxKalmanFilter K)
  | .predict => return f.predict
  | .update box => f.update box

/-- The state and the covariance are those of four separate filters. -/
structure Represents (f : BoxKalmanFilter K) (g : FourFilters K) : Prop where
  x : f.x = g.state
  P : f.P = g.cov.toMatrix
  definite : g.cov.Definite

/-- The gain of a correction, `P Hᵀ S⁻¹`. -/
def gain (f : BoxKalmanFilter K) : Except Error (Matrix (Fin 7) (Fin 4) K) := do
  let Sinv ← linalgInv (H K * f.P * (H K)ᵀ + R K)
  return f.P * (H K)ᵀ * Sinv

theorem update_eq_gain (f : BoxKalmanFilter K) (box : Xyxy K) : f.update box = (do
    let gain ← f.gain
    return { x := f.x + gain *ᵥ (boxToMeasurement box - H K *ᵥ f.x),
             P := (1 - gain * H K) * f.P }) := by
  simp only [update, gain]
  cases linalgInv (H K * f.P * (H K)ᵀ + R K) <;> rfl

variable [IsStrictOrderedRing K]

theorem init_represents (box : Xyxy K) :
    (init box).Represents (.init (boxToMeasurement box)) := by
  refine ⟨?_, StateCov.initial_toMatrix.symm, StateCov.initial_definite⟩
  ext i
  fin_cases i <;> rfl

theorem Represents.predict {f : BoxKalmanFilter K} {g : FourFilters K} (h : f.Represents g) :
    f.predict.Represents (g.call .predict) := by
  have hcov : (g.call .predict).cov = g.cov.predict := g.cov_call .predict
  refine ⟨?_, ?_, hcov ▸ h.definite.predict⟩
  · have hreset : (if f.x 6 + f.x 2 ≤ 0 then Function.update f.x 6 0 else f.x) =
        if g.s.vel + g.s.pos ≤ 0 then Function.update g.state 6 0 else g.state := by
      rw [h.x]
      rfl
    funext i
    simp only [BoxKalmanFilter.predict, hreset, FourFilters.call, FilterCall.map, AxisFilter.call,
      AxisFilter.callPositive, AxisFilter.predictPositive, StaticFilter.call]
    rw [F_mulVec_apply]
    split <;> fin_cases i <;>
      simp [FourFilters.state, AxisFilter.predict, StaticFilter.predict, Function.update]
  · rw [hcov, StateCov.predict_toMatrix, ← h.P]
    rfl

theorem Represents.gain {f : BoxKalmanFilter K} {g : FourFilters K} (h : f.Represents g) :
    f.gain = .ok g.cov.gain := by
  have hne : ∀ i, g.cov.innovation i ≠ 0 := fun i => (h.definite.innovation_pos i).ne'
  rw [BoxKalmanFilter.gain, h.P, StateCov.innovation_toMatrix, StateCov.linalgInv_diagonal _ hne]
  rfl

theorem Represents.update {f : BoxKalmanFilter K} {g : FourFilters K} (h : f.Represents g)
    (box : Xyxy K) :
    ∃ f', f.update box = .ok f' ∧ f'.Represents (g.call (.update (boxToMeasurement box))) := by
  have hne : ∀ i, g.cov.innovation i ≠ 0 := fun i => (h.definite.innovation_pos i).ne'
  have hcov : (g.call (.update (boxToMeasurement box))).cov = g.cov.update := g.cov_call _
  refine ⟨_, by rw [update_eq_gain, h.gain]; rfl, ?_, ?_, hcov ▸ h.definite.update⟩
  · funext i
    dsimp only
    rw [h.x, Pi.add_apply, mulVec, dotProduct, Fin.sum_univ_four]
    simp only [StateCov.gain_apply, Pi.sub_apply, H_mulVec_apply]
    fin_cases i <;>
      simp [FourFilters.state, FourFilters.cov, FourFilters.call, FilterCall.map, AxisFilter.call,
        AxisFilter.callPositive, AxisFilter.update, StaticFilter.call, StaticFilter.update,
        StateCov.observed, StateCov.innovation, vecHead, vecTail, div_eq_mul_inv]
  · rw [hcov, ← StateCov.update_toMatrix _ hne, h.P]

/-- A sequence of calls on one filter. -/
def calls (f : BoxKalmanFilter K) (cs : List (FilterCall (Xyxy K))) :
    Except Error (BoxKalmanFilter K) :=
  cs.foldlM call f

theorem Represents.calls {f : BoxKalmanFilter K} {g : FourFilters K} (h : f.Represents g)
    (cs : List (FilterCall (Xyxy K))) : ∃ f', f.calls cs = .ok f' ∧
      f'.Represents ((cs.map (FilterCall.map boxToMeasurement)).foldl FourFilters.call g) := by
  induction cs generalizing f g with
  | nil => exact ⟨f, rfl, h⟩
  | cons c cs ih =>
    cases c with
    | predict =>
      obtain ⟨f', hf', hr⟩ := ih h.predict
      exact ⟨f', by simpa [BoxKalmanFilter.calls, call] using hf', hr⟩
    | update box =>
      obtain ⟨f₁, hf₁, h₁⟩ := h.update box
      obtain ⟨f', hf', hr⟩ := ih h₁
      exact ⟨f', by simpa [BoxKalmanFilter.calls, call, hf₁] using hf', hr⟩

end BoxKalmanFilter

section Components
variable [LinearOrder K]

def measuredCenterX (box : Xyxy K) : K := vecHead (boxToMeasurement box)

def measuredCenterY (box : Xyxy K) : K := vecHead (vecTail (boxToMeasurement box))

def measuredArea (box : Xyxy K) : K := vecHead (vecTail (vecTail (boxToMeasurement box)))

def measuredRatio (box : Xyxy K) : K := vecHead (vecTail (vecTail (vecTail (boxToMeasurement box))))

/-- Four filters run apart, each on one component of the boxes. -/
def separateFilters (box : Xyxy K) (cs : List (FilterCall (Xyxy K))) : FourFilters K where
  u := (cs.map (FilterCall.map measuredCenterX)).foldl (AxisFilter.call 1)
    ⟨measuredCenterX box, 0, StateCov.initial.u⟩
  v := (cs.map (FilterCall.map measuredCenterY)).foldl (AxisFilter.call 1)
    ⟨measuredCenterY box, 0, StateCov.initial.v⟩
  s := (cs.map (FilterCall.map measuredArea)).foldl (AxisFilter.callPositive (10 : ℕ))
    ⟨measuredArea box, 0, StateCov.initial.s⟩
  r := (cs.map (FilterCall.map measuredRatio)).foldl (StaticFilter.call (10 : ℕ))
    ⟨measuredRatio box, StateCov.initial.r⟩

theorem FilterCall.map_map (g : μ → ν) (h : ν → ξ) (c : FilterCall μ) :
    (c.map g).map h = c.map (fun m => h (g m)) := by
  cases c <;> rfl

theorem separateFilters_eq (box : Xyxy K) (cs : List (FilterCall (Xyxy K))) :
    separateFilters box cs = (cs.map (FilterCall.map boxToMeasurement)).foldl FourFilters.call
      (.init (boxToMeasurement box)) := by
  simp only [FourFilters.foldl_call, List.map_map, Function.comp_def, FilterCall.map_map]
  rfl

/-- After any calls the filter is four filters side by side. -/
theorem calls_represents [IsStrictOrderedRing K] (box : Xyxy K) (cs : List (FilterCall (Xyxy K))) :
    ∃ f, (BoxKalmanFilter.init box).calls cs = .ok f ∧ f.Represents (separateFilters box cs) := by
  rw [separateFilters_eq]
  exact (BoxKalmanFilter.init_represents box).calls cs

/-- The 7-dimensional filter computes what four scalar filters compute. -/
theorem calls_eq_separate [IsStrictOrderedRing K] (box : Xyxy K)
    (cs : List (FilterCall (Xyxy K))) :
    ∃ f, (BoxKalmanFilter.init box).calls cs = .ok f ∧ f.x = (separateFilters box cs).state ∧
      f.P = (separateFilters box cs).cov.toMatrix := by
  obtain ⟨f, hf, hr⟩ := calls_represents box cs
  exact ⟨f, hf, hr.x, hr.P⟩

theorem calls_eq_separate_step : ∃ f,
    (BoxKalmanFilter.init (⟨0, 0, 1, 1⟩ : Xyxy ℚ)).calls [.predict, .update ⟨1, 0, 2, 1⟩] = .ok f ∧
    f.x = (separateFilters ⟨0, 0, 1, 1⟩ [.predict, .update ⟨1, 0, 2, 1⟩]).state ∧
    f.P = (separateFilters (⟨0, 0, 1, 1⟩ : Xyxy ℚ) [.predict, .update ⟨1, 0, 2, 1⟩]).cov.toMatrix :=
  calls_eq_separate ⟨0, 0, 1, 1⟩ [.predict, .update ⟨1, 0, 2, 1⟩]

end Components
end CamTrack
