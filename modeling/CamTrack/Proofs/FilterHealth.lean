import CamTrack.Proofs.FourFilters

namespace CamTrack
open Matrix Python

variable {K : Type} [Field K]

namespace AxisCov

/-- The quadratic form of a block, cleared of denominators by `pos`. -/
theorem pos_mul_form (a : AxisCov K) (x y : K) :
    a.pos * (a.pos * x * x + a.cross * x * y + a.cross * x * y + a.vel * y * y) =
      (a.pos * x + a.cross * y) * (a.pos * x + a.cross * y) +
        (a.pos * a.vel - a.cross * a.cross) * (y * y) := by
  ring

variable [LinearOrder K] [IsStrictOrderedRing K]

theorem Definite.form_nonneg {a : AxisCov K} (h : a.Definite) (x y : K) :
    0 ≤ a.pos * x * x + a.cross * x * y + a.cross * x * y + a.vel * y * y := by
  have hd := sub_pos.mpr h.det
  have hm := a.pos_mul_form x y
  have hr : 0 ≤ (a.pos * x + a.cross * y) * (a.pos * x + a.cross * y) +
      (a.pos * a.vel - a.cross * a.cross) * (y * y) :=
    add_nonneg (mul_self_nonneg _) (mul_nonneg hd.le (mul_self_nonneg y))
  exact (mul_nonneg_iff_of_pos_left h.pos).mp (hm ▸ hr)

theorem Definite.form_eq_zero {a : AxisCov K} (h : a.Definite) {x y : K}
    (h0 : a.pos * x * x + a.cross * x * y + a.cross * x * y + a.vel * y * y = 0) :
    x = 0 ∧ y = 0 := by
  have hd := sub_pos.mpr h.det
  have hm := a.pos_mul_form x y
  rw [h0, mul_zero] at hm
  obtain ⟨hx, hy⟩ := (add_eq_zero_iff_of_nonneg (mul_self_nonneg _)
    (mul_nonneg hd.le (mul_self_nonneg y))).mp hm.symm
  have hy : y = 0 := mul_self_eq_zero.mp ((mul_eq_zero_iff_left hd.ne').mp hy)
  subst hy
  have hx := mul_self_eq_zero.mp hx
  rw [mul_zero, add_zero] at hx
  exact ⟨(mul_eq_zero_iff_left h.pos.ne').mp hx, rfl⟩

end AxisCov

namespace StateCov

theorem toMatrix_form (c : StateCov K) (x : Fin 7 → K) : x ⬝ᵥ (c.toMatrix *ᵥ x) =
    (c.u.pos * x 0 * x 0 + c.u.cross * x 0 * x 4 + c.u.cross * x 0 * x 4 + c.u.vel * x 4 * x 4) +
    (c.v.pos * x 1 * x 1 + c.v.cross * x 1 * x 5 + c.v.cross * x 1 * x 5 + c.v.vel * x 5 * x 5) +
    (c.s.pos * x 2 * x 2 + c.s.cross * x 2 * x 6 + c.s.cross * x 2 * x 6 + c.s.vel * x 6 * x 6) +
    c.r * (x 3 * x 3) := by
  simp [toMatrix, mulVec, dotProduct, Fin.sum_univ_seven]
  ring

/-- The gain does not couple observed components. -/
theorem gain_off (c : StateCov K) {i k : Fin 4} (h : i ≠ k) : c.gain (Fin.castAdd 3 i) k = 0 := by
  rw [gain_apply]
  fin_cases i <;> fin_cases k <;> simp [observed] at h ⊢

variable [LinearOrder K] [IsStrictOrderedRing K]

theorem Definite.form_pos {c : StateCov K} (h : c.Definite) {x : Fin 7 → K} (hx : x ≠ 0) :
    0 < x ⬝ᵥ (c.toMatrix *ᵥ x) := by
  rw [toMatrix_form]
  have hu := h.u.form_nonneg (x 0) (x 4)
  have hv := h.v.form_nonneg (x 1) (x 5)
  have hs := h.s.form_nonneg (x 2) (x 6)
  have hr := mul_nonneg h.r.le (mul_self_nonneg (x 3))
  refine lt_of_le_of_ne (add_nonneg (add_nonneg (add_nonneg hu hv) hs) hr) (fun h0 => hx ?_)
  have hu0 := h.u.form_eq_zero (le_antisymm (by linarith) hu)
  have hv0 := h.v.form_eq_zero (le_antisymm (by linarith) hv)
  have hs0 := h.s.form_eq_zero (le_antisymm (by linarith) hs)
  have hr0 : c.r * (x 3 * x 3) = 0 := le_antisymm (by linarith) hr
  have hr0 := mul_self_eq_zero.mp ((mul_eq_zero_iff_left h.r.ne').mp hr0)
  funext i
  fin_cases i
  exacts [hu0.1, hv0.1, hs0.1, hr0, hu0.2, hv0.2, hs0.2]

theorem Definite.gain_between {c : StateCov K} (h : c.Definite) (k : Fin 4) :
    0 < c.gain (Fin.castAdd 3 k) k ∧ c.gain (Fin.castAdd 3 k) k < 1 := by
  have hpos := h.innovation_pos k
  have hobs : 0 < c.observed k (Fin.castAdd 3 k) ∧
      c.observed k (Fin.castAdd 3 k) < c.innovation k := by
    have hu := h.u.pos
    have hv := h.v.pos
    have hs := h.s.pos
    have hr := h.r
    fin_cases k <;> simp [observed, innovation, *]
  rw [gain_apply, ← div_eq_mul_inv]
  exact ⟨div_pos hobs.1 hpos, (div_lt_one hpos).mpr hobs.2⟩

theorem Definite.noise_lt {c : StateCov K} (h : c.Definite) (k : Fin 4) :
    BoxKalmanFilter.R K k k < c.innovation k := by
  have hu := h.u.pos
  have hv := h.v.pos
  have hs := h.s.pos
  have hr := h.r
  fin_cases k <;> norm_num [BoxKalmanFilter.R, diagonal, innovation] <;> assumption

end StateCov

/-- What the covariance guarantees the next correction. -/
structure SoundCovariance [LinearOrder K] (f : BoxKalmanFilter K) : Prop where
  symmetric : f.Pᵀ = f.P
  definite : ∀ x : Fin 7 → K, x ≠ 0 → 0 < x ⬝ᵥ (f.P *ᵥ x)
  innovation : ∃ d : Fin 4 → K,
    BoxKalmanFilter.H K * f.P * (BoxKalmanFilter.H K)ᵀ + BoxKalmanFilter.R K = diagonal d ∧
    ∀ k, BoxKalmanFilter.R K k k < d k
  gain : ∃ gain, f.gain = .ok gain ∧ (∀ i k, i ≠ k → gain (Fin.castAdd 3 i) k = 0) ∧
    (∀ k, 0 < gain (Fin.castAdd 3 k) k ∧ gain (Fin.castAdd 3 k) k < 1) ∧
    ∀ box, ∃ f', f.update box = .ok f' ∧ ∀ k, f'.x (Fin.castAdd 3 k) = f.x (Fin.castAdd 3 k) +
      gain (Fin.castAdd 3 k) k * (boxToMeasurement box k - f.x (Fin.castAdd 3 k))

theorem separateFilters_cov [LinearOrder K] (box : Xyxy K) (cs : List (FilterCall (Xyxy K))) :
    (separateFilters box cs).cov = cs.foldl StateCov.call .initial := by
  rw [separateFilters_eq, FourFilters.cov_calls, StateCov.foldl_call_map]
  rfl

namespace BoxKalmanFilter
variable [LinearOrder K] [IsStrictOrderedRing K]

theorem Represents.sound {f : BoxKalmanFilter K} {g : FourFilters K} (h : f.Represents g) :
    SoundCovariance f := by
  constructor
  case symmetric => rw [h.P, StateCov.toMatrix_transpose]
  case definite => exact fun x hx => h.P ▸ h.definite.form_pos hx
  case innovation => exact ⟨_, h.P ▸ g.cov.innovation_toMatrix, h.definite.noise_lt⟩
  case gain =>
    refine ⟨_, h.gain, fun i k hik => g.cov.gain_off hik, h.definite.gain_between, fun box => ?_⟩
    refine ⟨_, by rw [update_eq_gain, h.gain]; rfl, fun k => ?_⟩
    dsimp only
    rw [Pi.add_apply, mulVec, dotProduct, Finset.sum_eq_single k]
    · rw [Pi.sub_apply, H_mulVec_apply]
    · intro j _ hj
      rw [g.cov.gain_off hj.symm, zero_mul]
    · simp

/-- After any calls the covariance is sound, and it and the gain are those of
every other filter that saw the same kinds of calls. -/
theorem calls_sound (box : Xyxy K) (cs : List (FilterCall (Xyxy K))) :
    ∃ f, (init box).calls cs = .ok f ∧ SoundCovariance f ∧
      ∀ box' cs', cs'.map (FilterCall.map (fun _ => ())) = cs.map (FilterCall.map (fun _ => ())) →
        ∃ f', (init box').calls cs' = .ok f' ∧ f'.P = f.P ∧ f'.gain = f.gain := by
  obtain ⟨f, hf, hr⟩ := calls_represents box cs
  refine ⟨f, hf, hr.sound, fun box' cs' hkinds => ?_⟩
  obtain ⟨f', hf', hr'⟩ := calls_represents box' cs'
  have hcov : (separateFilters box' cs').cov = (separateFilters box cs).cov := by
    rw [separateFilters_cov, separateFilters_cov,
      ← StateCov.foldl_call_map _ (fun _ => ()), hkinds, StateCov.foldl_call_map]
  exact ⟨f', hf', by rw [hr'.P, hr.P, hcov], by rw [hr'.gain, hr.gain, hcov]⟩

/-- Two filters of different boxes, each of which predicts, corrects and predicts. -/
theorem calls_sound_two_boxes : ∃ f f',
    (init (⟨0, 0, 1, 1⟩ : Xyxy ℚ)).calls [.predict, .update ⟨1, 0, 2, 1⟩, .predict] = .ok f ∧
    SoundCovariance f ∧
    (init (⟨0, 0, 2, 1⟩ : Xyxy ℚ)).calls [.predict, .update ⟨5, 0, 9, 3⟩, .predict] = .ok f' ∧
    f'.P = f.P ∧ f'.gain = f.gain := by
  obtain ⟨f, hf, hsound, hother⟩ :=
    calls_sound (⟨0, 0, 1, 1⟩ : Xyxy ℚ) [.predict, .update ⟨1, 0, 2, 1⟩, .predict]
  obtain ⟨f', hf', hcov, hgain⟩ :=
    hother ⟨0, 0, 2, 1⟩ [.predict, .update ⟨5, 0, 9, 3⟩, .predict] rfl
  exact ⟨f, f', hf, hsound, hf', hcov, hgain⟩

end BoxKalmanFilter
end CamTrack
