import CamTrack.Kalman

namespace CamTrack
open Matrix

variable {K : Type} [Field K]

/-- Covariance of one coordinate and its velocity. -/
structure AxisCov (K : Type) where
  pos : K
  cross : K
  vel : K

namespace AxisCov

def predict (a : AxisCov K) : AxisCov K :=
  ⟨a.pos + a.cross + a.cross + a.vel + 1, a.cross + a.vel, a.vel + 0.01⟩

/-- Correction by a scalar measurement of variance `r`. -/
def update (r : K) (a : AxisCov K) : AxisCov K :=
  ⟨a.pos * r / (a.pos + r), a.cross * r / (a.pos + r), a.vel - a.cross * a.cross / (a.pos + r)⟩

variable [LinearOrder K]

/-- Positive definite as a symmetric 2 by 2 matrix. -/
structure Definite (a : AxisCov K) : Prop where
  pos : 0 < a.pos
  det : a.cross * a.cross < a.pos * a.vel

variable [IsStrictOrderedRing K]

theorem Definite.vel {a : AxisCov K} (h : Definite a) : 0 < a.vel := by
  have hd : 0 < a.pos * a.vel := lt_of_le_of_lt (mul_self_nonneg a.cross) h.det
  exact (pos_iff_pos_of_mul_pos hd).mp h.pos

theorem Definite.predict {a : AxisCov K} (h : Definite a) : Definite a.predict := by
  have hv := h.vel
  -- the quadratic form at (1, 1), cleared of denominators by `pos`
  have hq : 0 < a.pos + 2 * a.cross + a.vel := by
    have hm : 0 < a.pos * (a.pos + 2 * a.cross + a.vel) := by
      have := h.det
      nlinarith [mul_self_nonneg (a.pos + a.cross)]
    exact (mul_pos_iff_of_pos_left h.pos).mp hm
  refine ⟨by simp only [AxisCov.predict]; linarith, ?_⟩
  simp only [AxisCov.predict]
  have := h.det
  nlinarith

theorem Definite.update {a : AxisCov K} (h : Definite a) (hr : 0 < r) :
    Definite (a.update r) := by
  have hs : 0 < a.pos + r := add_pos h.pos hr
  refine ⟨div_pos (mul_pos h.pos hr) hs, ?_⟩
  have hdet : a.pos * r / (a.pos + r) * (a.vel - a.cross * a.cross / (a.pos + r)) -
      a.cross * r / (a.pos + r) * (a.cross * r / (a.pos + r)) =
      r * (a.pos * a.vel - a.cross * a.cross) / (a.pos + r) := by
    field_simp
    ring
  have hpos : 0 < r * (a.pos * a.vel - a.cross * a.cross) / (a.pos + r) :=
    div_pos (mul_pos hr (sub_pos.mpr h.det)) hs
  exact sub_pos.mp (hdet ▸ hpos)

end AxisCov

/-- The covariance of the whole state: three independent axes and the aspect
ratio, which has no velocity. -/
structure StateCov (K : Type) where
  u : AxisCov K
  v : AxisCov K
  s : AxisCov K
  r : K

namespace StateCov

def toMatrix (c : StateCov K) : Matrix (Fin 7) (Fin 7) K :=
  !![c.u.pos, 0, 0, 0, c.u.cross, 0, 0;
     0, c.v.pos, 0, 0, 0, c.v.cross, 0;
     0, 0, c.s.pos, 0, 0, 0, c.s.cross;
     0, 0, 0, c.r, 0, 0, 0;
     c.u.cross, 0, 0, 0, c.u.vel, 0, 0;
     0, c.v.cross, 0, 0, 0, c.v.vel, 0;
     0, 0, c.s.cross, 0, 0, 0, c.s.vel]

def predict (c : StateCov K) : StateCov K :=
  ⟨c.u.predict, c.v.predict, c.s.predict, c.r + 1⟩

def update (c : StateCov K) : StateCov K :=
  ⟨c.u.update 1, c.v.update 1, c.s.update 10, c.r * 10 / (c.r + 10)⟩

def initial : StateCov K :=
  ⟨⟨10, 0, 10000⟩, ⟨10, 0, 10000⟩, ⟨10, 0, 10000⟩, 10⟩

theorem initial_toMatrix [CharZero K] :
    (initial : StateCov K).toMatrix = BoxKalmanFilter.initialP K := by
  ext i j
  fin_cases i <;> fin_cases j <;>
    norm_num [toMatrix, initial, BoxKalmanFilter.initialP, diagonal]

/-- `F` adds each velocity to its position. -/
theorem F_mul_apply (M : Matrix (Fin 7) (Fin 7) K) (i j : Fin 7) :
    (BoxKalmanFilter.F K * M) i j =
      M i j + if h : i.val < 3 then M ⟨i.val + 4, by omega⟩ j else 0 := by
  rw [mul_apply, Fin.sum_univ_seven]
  fin_cases i <;> simp [BoxKalmanFilter.F]

theorem mul_F_transpose_apply (M : Matrix (Fin 7) (Fin 7) K) (i j : Fin 7) :
    (M * (BoxKalmanFilter.F K)ᵀ) i j =
      M i j + if h : j.val < 3 then M i ⟨j.val + 4, by omega⟩ else 0 := by
  have h := F_mul_apply Mᵀ j i
  rwa [← transpose_apply (BoxKalmanFilter.F K * Mᵀ), transpose_mul, transpose_transpose] at h

theorem predict_toMatrix (c : StateCov K) :
    c.predict.toMatrix =
      BoxKalmanFilter.F K * c.toMatrix * (BoxKalmanFilter.F K)ᵀ + BoxKalmanFilter.Q K := by
  ext i j
  rw [Matrix.add_apply, mul_F_transpose_apply]
  simp only [F_mul_apply]
  fin_cases i <;> fin_cases j <;>
    simp [toMatrix, predict, AxisCov.predict, BoxKalmanFilter.Q, diagonal] <;> ring

/-- `H P`, the observed rows of the covariance. -/
def observed (c : StateCov K) : Matrix (Fin 4) (Fin 7) K :=
  !![c.u.pos, 0, 0, 0, c.u.cross, 0, 0;
     0, c.v.pos, 0, 0, 0, c.v.cross, 0;
     0, 0, c.s.pos, 0, 0, 0, c.s.cross;
     0, 0, 0, c.r, 0, 0, 0]

theorem observed_eq (c : StateCov K) : BoxKalmanFilter.H K * c.toMatrix = c.observed := by
  ext i j
  fin_cases i <;> fin_cases j <;>
    simp [toMatrix, observed, BoxKalmanFilter.H, mul_apply, Fin.sum_univ_succ]

/-- Diagonal of the innovation covariance `S`. -/
def innovation (c : StateCov K) : Fin 4 → K := ![c.u.pos + 1, c.v.pos + 1, c.s.pos + 10, c.r + 10]

theorem innovation_toMatrix [CharZero K] (c : StateCov K) :
    BoxKalmanFilter.H K * c.toMatrix * (BoxKalmanFilter.H K)ᵀ + BoxKalmanFilter.R K =
      diagonal c.innovation := by
  ext i j
  rw [observed_eq, Matrix.add_apply, mul_apply]
  fin_cases i <;> fin_cases j <;>
    norm_num [observed, innovation, BoxKalmanFilter.H, BoxKalmanFilter.R, diagonal,
      Fin.sum_univ_succ]

theorem toMatrix_transpose (c : StateCov K) : c.toMatrixᵀ = c.toMatrix := by
  ext i j
  fin_cases i <;> fin_cases j <;> rfl

/-- `K = P Hᵀ S⁻¹` for a diagonal innovation covariance. -/
def gain (c : StateCov K) : Matrix (Fin 7) (Fin 4) K :=
  c.toMatrix * (BoxKalmanFilter.H K)ᵀ * diagonal (fun i => (c.innovation i)⁻¹)

theorem gain_apply (c : StateCov K) (i : Fin 7) (k : Fin 4) :
    c.gain i k = c.observed k i * (c.innovation k)⁻¹ := by
  have ht : c.toMatrix * (BoxKalmanFilter.H K)ᵀ = c.observedᵀ := by
    rw [← observed_eq, transpose_mul, toMatrix_transpose]
  rw [gain, ht, mul_diagonal, transpose_apply]

theorem update_toMatrix (c : StateCov K) (h : ∀ i, c.innovation i ≠ 0) :
    (1 - c.gain * BoxKalmanFilter.H K) * c.toMatrix = c.update.toMatrix := by
  have hu : c.u.pos + 1 ≠ 0 := h 0
  have hv : c.v.pos + 1 ≠ 0 := h 1
  have hs : c.s.pos + 10 ≠ 0 := h 2
  have hr : c.r + 10 ≠ 0 := h 3
  have hsplit : (1 - c.gain * BoxKalmanFilter.H K) * c.toMatrix =
      c.toMatrix - c.gain * c.observed := by
    rw [sub_mul, one_mul, Matrix.mul_assoc, observed_eq]
  rw [hsplit]
  ext i j
  simp only [Matrix.sub_apply, mul_apply, Fin.sum_univ_four, gain_apply]
  fin_cases i <;> fin_cases j <;>
    simp [toMatrix, observed, update, AxisCov.update, innovation] <;> field_simp <;> ring

variable [LinearOrder K]

theorem linalgInv_diagonal (d : Fin 4 → K) (h : ∀ i, d i ≠ 0) :
    linalgInv (diagonal d) = .ok (diagonal (fun i => (d i)⁻¹)) := by
  have hdet : (diagonal d).det ≠ 0 := by
    rw [det_diagonal]
    exact Finset.prod_ne_zero_iff.mpr (fun i _ => h i)
  have hinv : (diagonal d)⁻¹ = diagonal (fun i => (d i)⁻¹) := by
    apply inv_eq_right_inv
    rw [diagonal_mul_diagonal, ← diagonal_one]
    congr 1
    funext i
    exact mul_inv_cancel₀ (h i)
  rw [inv_def, Ring.inverse_eq_inv'] at hinv
  rw [linalgInv, if_neg hdet, hinv]

structure Definite (c : StateCov K) : Prop where
  u : c.u.Definite
  v : c.v.Definite
  s : c.s.Definite
  r : 0 < c.r

variable [IsStrictOrderedRing K]

theorem initial_definite : (initial : StateCov K).Definite := by
  have h : AxisCov.Definite (⟨10, 0, 10000⟩ : AxisCov K) := ⟨by norm_num, by norm_num⟩
  exact ⟨h, h, h, by norm_num [initial]⟩

theorem Definite.predict {c : StateCov K} (h : c.Definite) : c.predict.Definite :=
  ⟨h.u.predict, h.v.predict, h.s.predict, by simpa [StateCov.predict] using add_pos h.r one_pos⟩

theorem Definite.update {c : StateCov K} (h : c.Definite) : c.update.Definite := by
  refine ⟨h.u.update one_pos, h.v.update one_pos, h.s.update (by norm_num), ?_⟩
  have := h.r
  simp only [StateCov.update]
  positivity

theorem Definite.innovation_pos {c : StateCov K} (h : c.Definite) (i : Fin 4) :
    0 < c.innovation i := by
  have hu := h.u.pos
  have hv := h.v.pos
  have hs := h.s.pos
  have hr := h.r
  fin_cases i <;> simp [innovation] <;> positivity

end StateCov

/-- The covariance of the filter has independent definite blocks. Every filter
the program builds keeps this form, so the innovation covariance is invertible. -/
def BoxKalmanFilter.Healthy [LinearOrder K] (f : BoxKalmanFilter K) : Prop :=
  ∃ c : StateCov K, c.Definite ∧ f.P = c.toMatrix

namespace BoxKalmanFilter
variable [LinearOrder K] [IsStrictOrderedRing K]

theorem init_healthy (box : Xyxy K) : (init box).Healthy :=
  ⟨.initial, StateCov.initial_definite, StateCov.initial_toMatrix.symm⟩

theorem Healthy.predict {f : BoxKalmanFilter K} (h : f.Healthy) : f.predict.Healthy := by
  obtain ⟨c, hc, hP⟩ := h
  exact ⟨c.predict, hc.predict, by rw [c.predict_toMatrix, ← hP]; rfl⟩

/-- On a healthy filter the correction never raises, and stays healthy. -/
theorem Healthy.update {f : BoxKalmanFilter K} (h : f.Healthy) (box : Xyxy K) :
    ∃ f', f.update box = .ok f' ∧ f'.Healthy := by
  obtain ⟨c, hc, hP⟩ := h
  have hne : ∀ i, c.innovation i ≠ 0 := fun i => (hc.innovation_pos i).ne'
  have hinv : linalgInv (H K * f.P * (H K)ᵀ + R K) =
      .ok (diagonal (fun i => (c.innovation i)⁻¹)) := by
    rw [hP, c.innovation_toMatrix, StateCov.linalgInv_diagonal _ hne]
  have hgain : f.P * (H K)ᵀ * diagonal (fun i => (c.innovation i)⁻¹) = c.gain := by rw [hP]; rfl
  refine ⟨{ x := f.x + c.gain *ᵥ (boxToMeasurement box - H K *ᵥ f.x)
            P := (1 - c.gain * H K) * f.P },
    ?_, c.update, hc.update, ?_⟩
  · simp only [BoxKalmanFilter.update, hinv, hgain, Python.except_bind_ok, Python.except_pure]
  · rw [← c.update_toMatrix hne, hP]

end BoxKalmanFilter
end CamTrack
