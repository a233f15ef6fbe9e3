import CamTrack.Proofs.FourFilters
import CamTrack.Proofs.Iou
import CamTrack.Proofs.StageThree

namespace CamTrack
open Matrix Python Assignment Positions InferenceConstants

variable {K : Type} [Field K] [LinearOrder K]

/-- A square root that is positive on positive numbers. -/
def PositiveSqrt (K : Type) [Field K] [LinearOrder K] [HasSqrt K] : Prop :=
  ∀ x : K, 0 < x → 0 < HasSqrt.sqrt x

namespace BoxKalmanFilter

/-- The area component `s` of the state. -/
def stateArea (f : BoxKalmanFilter K) : K := vecHead (vecTail (vecTail f.x))

/-- The aspect-ratio component `r` of the state. -/
def stateRatio (f : BoxKalmanFilter K) : K := vecHead (vecTail (vecTail (vecTail f.x)))

/-- A state that describes a box that is not degenerate. -/
structure Shaped (f : BoxKalmanFilter K) : Prop where
  area : 0 < f.stateArea
  ratio : 0 < f.stateRatio

/-- A healthy filter is four filters side by side, whatever its state. -/
theorem Healthy.represents {f : BoxKalmanFilter K} (h : f.Healthy) : ∃ g, f.Represents g := by
  obtain ⟨c, hc, hP⟩ := h
  refine ⟨⟨⟨f.x 0, f.x 4, c.u⟩, ⟨f.x 1, f.x 5, c.v⟩, ⟨f.x 2, f.x 6, c.s⟩, ⟨f.x 3, c.r⟩⟩, ?_, hP, hc⟩
  funext i
  fin_cases i <;> rfl

theorem Represents.stateArea {f : BoxKalmanFilter K} {g : FourFilters K} (h : f.Represents g) :
    f.stateArea = g.s.pos := by
  rw [BoxKalmanFilter.stateArea, h.x]
  rfl

theorem Represents.stateRatio {f : BoxKalmanFilter K} {g : FourFilters K} (h : f.Represents g) :
    f.stateRatio = g.r.value := by
  rw [BoxKalmanFilter.stateRatio, h.x]
  rfl

variable [IsStrictOrderedRing K]

/-- Coasting keeps the shape: the velocity reset comes before the area is moved. -/
theorem Shaped.predict {f : BoxKalmanFilter K} (h : f.Shaped) (hf : f.Healthy) :
    f.predict.Shaped := by
  obtain ⟨g, hg⟩ := hf.represents
  have ha := hg.stateArea ▸ h.area
  refine ⟨?_, ?_⟩
  · rw [hg.predict.stateArea]
    simp only [FourFilters.call, FilterCall.map, AxisFilter.callPositive,
      AxisFilter.predictPositive]
    split
    · simpa [AxisFilter.predict] using ha
    case isFalse hpos =>
      rw [not_le, add_comm] at hpos
      exact hpos
  · rw [hg.predict.stateRatio]
    exact hg.stateRatio ▸ h.ratio

theorem Shaped.coast {f : BoxKalmanFilter K} (h : f.Shaped) (hf : f.Healthy) (n : Nat) :
    (BoxKalmanFilter.predict^[n] f).Shaped := by
  induction n generalizing f with
  | zero => exact h
  | succ n ih => exact ih (h.predict hf) hf.predict

/-- A correction lands between the prediction and the measurement. -/
theorem blend_pos {p z w : K} (hp : 0 < p) (hz : 0 ≤ z) (hw : 0 < w) (hw1 : w < 1) :
    0 < p + w * (z - p) := by
  have h1 : 0 < (1 - w) * p := mul_pos (sub_pos.mpr hw1) hp
  have h2 : 0 ≤ w * z := mul_nonneg hw.le hz
  linarith

theorem gain_between {p r : K} (hp : 0 < p) (hr : 0 < r) : 0 < p / (p + r) ∧ p / (p + r) < 1 :=
  ⟨div_pos hp (add_pos hp hr), (div_lt_one (add_pos hp hr)).mpr (lt_add_of_pos_right p hr)⟩

theorem Shaped.update {f f' : BoxKalmanFilter K} (h : f.Shaped) (hf : f.Healthy) {box : Xyxy K}
    (ha : 0 ≤ measuredArea box) (hr : 0 ≤ measuredRatio box) (hu : f.update box = .ok f') :
    f'.Shaped := by
  obtain ⟨g, hg⟩ := hf.represents
  obtain ⟨f'', hf'', hg'⟩ := hg.update box
  obtain rfl : f' = f'' := Except.ok.inj (hu.symm.trans hf'')
  have hten : (0 : K) < ((10 : ℕ) : K) := by norm_num
  obtain ⟨hs0, hs1⟩ := gain_between hg.definite.s.pos hten
  obtain ⟨hr0, hr1⟩ := gain_between hg.definite.r hten
  refine ⟨?_, ?_⟩
  · rw [hg'.stateArea]
    exact blend_pos (hg.stateArea ▸ h.area) ha hs0 hs1
  · rw [hg'.stateRatio]
    exact blend_pos (hg.stateRatio ▸ h.ratio) hr hr0 hr1

end BoxKalmanFilter

section Boxes
variable [IsStrictOrderedRing K]

theorem measurement_nonneg {box : Xyxy K} (h : box.Proper) :
    0 ≤ measuredArea box ∧ 0 ≤ measuredRatio box := by
  have hw := h.width_pos
  have hh := h.height_pos
  refine ⟨mul_nonneg (le_max_right _ _) (le_max_right _ _), ?_⟩
  change 0 ≤ (if box.height > 1e-6 then box.width / box.height else 0)
  split
  · exact (div_pos hw hh).le
  · exact le_refl 0

variable [HasSqrt K]

/-- Only a state with a shape gives a box with an inside. -/
theorem shape_of_proper {centerX centerY area aspectRatio : K}
    (h : (stateToBox centerX centerY area aspectRatio).Proper) : 0 < area ∧ 0 < aspectRatio := by
  obtain ⟨hx, hy⟩ := h
  simp only [stateToBox] at hx hy
  have hw : 0 < (if aspectRatio > 0 then HasSqrt.sqrt (max area 0 * aspectRatio) else 0) := by
    linarith
  have hh : 0 < (if (if aspectRatio > 0 then HasSqrt.sqrt (max area 0 * aspectRatio) else 0) > 1e-6
      then max area 0 / (if aspectRatio > 0 then HasSqrt.sqrt (max area 0 * aspectRatio) else 0)
      else 0) := by
    linarith
  have hratio : 0 < aspectRatio := by
    by_contra hneg
    rw [if_neg hneg] at hw
    exact lt_irrefl 0 hw
  simp only [if_pos hratio] at hw hh
  split at hh
  · have hmax : 0 < max area 0 := (div_pos_iff_of_pos_right hw).mp hh
    exact ⟨(lt_max_iff.mp hmax).resolve_right (lt_irrefl 0), hratio⟩
  · exact absurd hh (lt_irrefl _)

theorem box_of_shape (hsqrt : PositiveSqrt K) {centerX centerY area aspectRatio : K}
    (ha : 0 < area) (hr : 0 < aspectRatio) :
    (stateToBox centerX centerY area aspectRatio).x1 <
        (stateToBox centerX centerY area aspectRatio).x2 ∧
      (stateToBox centerX centerY area aspectRatio).y1 ≤
        (stateToBox centerX centerY area aspectRatio).y2 := by
  have hw : 0 < HasSqrt.sqrt (area * aspectRatio) := hsqrt _ (mul_pos ha hr)
  simp only [stateToBox, max_eq_left ha.le, if_pos hr]
  refine ⟨by linarith, ?_⟩
  split
  · have := div_pos ha hw
    linarith
  · linarith

end Boxes

section Tracks
variable [HasSqrt K] [IsStrictOrderedRing K] {solver : LinearSumAssignment K}
  {st st' : ByteTracker K} {ds : List (Detection K)} {a : ByteTracker.TwoStages K}
  {b : ByteTracker.ThreeStages K} {out : List (Track K)}

/-- Whichever stage matched a track, its predicted box overlaps the detection. -/
theorem ThirdStage.matched_overlap (h : FirstStages solver st ds a) (h3 : ThirdStage solver st a b)
    (hm : (k, d) ∈ matchedPairs a b) (hk : st.tracks.get? k = some t) :
    0 < iou t.predict.currentBox d.box.asXyxy := by
  have hpred : st.predicted.get? k = some t.predict := by
    simp [ByteTracker.predicted, hk]
  have hactive : ∀ id ∈ a.activeIds, id ∈ st.predicted.keys := by
    rw [h.activeIds, keys_predicted]
    exact fun _ hid => hid
  rw [matchedPairs, List.mem_append, List.mem_append] at hm
  rcases hm with (hm | hm) | hm
  · exact lt_of_lt_of_le trackMatchIouThreshold_pos (h.run1.overlap hactive hm hpred)
  · have hid := h.remaining_active k (assigned_keys_subset k (List.mem_map_of_mem hm))
    refine lt_of_lt_of_le ?_ (h.run2.overlap (fun id hr => ?_) hm
      ((get?_markAll_of_not_mem hid.2).trans hpred))
    · norm_num [trackLowConfMatchIouThreshold]
    · rw [keys_markAll]
      exact hactive id (h.remaining_active id hr).1
  · have hid := h3.tentative_unmatched h k (assigned_keys_subset k (List.mem_map_of_mem hm))
    refine lt_of_lt_of_le ?_ (h3.run3.overlap (fun id hr => ?_) hm
      (h.tracks ▸ (get?_markAll_of_not_mem hid.2).trans hpred))
    · norm_num [trackUnconfirmedMatchIouThreshold]
    · rw [h.tracks, keys_markAll]
      exact hactive id (h3.tentative_unmatched h id hr).1

/-- A track that was matched has a box with an inside. -/
def ShapedOnceMatched (st : ByteTracker K) : Prop :=
  ∀ k t, st.tracks.get? k = some t → 1 ≤ t.hits ∧ (2 ≤ t.hits → t.kalman.Shaped)

theorem matched_shaped {t : STrack K} (ht : t.kalman.Healthy) {d : Detection K}
    (ho : 0 < iou t.currentBox d.box.asXyxy) : (t.matched d).kalman.Shaped := by
  obtain ⟨htrack, hdet⟩ := proper_of_iou_pos ho
  obtain ⟨ha, hr⟩ := shape_of_proper htrack
  obtain ⟨hza, hzr⟩ := measurement_nonneg hdet
  obtain ⟨f, hf, _⟩ := ht.update d.box.asXyxy
  have hshape : f.Shaped := BoxKalmanFilter.Shaped.update ⟨ha, hr⟩ ht hza hzr hf
  simpa [STrack.matched, BoxKalmanFilter.corrected, hf] using hshape

theorem Updated.shaped (h : Updated solver st ds frameId a b out st') (hw : WellFormed st)
    (hs : ShapedOnceMatched st) : ShapedOnceMatched st' := by
  intro k t ht
  rcases h.origin hw ht with ⟨t₀, hk, rfl⟩ | ⟨_, d, _, _, rfl⟩
  · obtain ⟨hhits, hshape⟩ := hs k t₀ hk
    have hhealthy := hw.healthy k t₀ hk
    by_cases hm : k ∈ (matchedPairs a b).map Prod.fst
    · obtain ⟨e, hmem, rfl⟩ := List.mem_map.mp hm
      have ho := h.third.matched_overlap h.first (d := e.2) hmem hk
      rw [settle_of_mem (h.third.pairs_nodup h.first) (d := e.2) hmem]
      exact ⟨Nat.le_add_left 1 _, fun _ => matched_shaped (t := t₀.predict) hhealthy.predict ho⟩
    · rw [settle_of_not_mem hm]
      exact ⟨hhits, fun htwo => (hshape htwo).predict hhealthy⟩
  · exact ⟨le_refl 1, fun htwo => absurd htwo (by simp [STrack.init])⟩

theorem Reachable.shaped (hs : Assigns solver) (hr : Reachable solver cameraId st) :
    ShapedOnceMatched st := by
  induction hr with
  | new => exact fun k t ht => by simp [newTracker] at ht
  | update hr hu ih =>
    have hw := (hr.wellFormed hs).1
    obtain ⟨a, b, _, hspec⟩ := updated_of_ok hs hw hu
    exact hspec.shaped hw ih

/-- A track that was matched never degenerates, however long it coasts: the
clamp and the branch of `_state_to_box` for degenerate states are not taken. -/
theorem matched_never_degenerates (hsqrt : PositiveSqrt K) (hs : Assigns solver)
    (hr : Reachable solver cameraId st) :
    (∀ k t, st.tracks.get? k = some t → 2 ≤ t.hits → ∀ n,
      0 < (BoxKalmanFilter.predict^[n] t.kalman).stateArea ∧
      0 < (BoxKalmanFilter.predict^[n] t.kalman).stateRatio ∧
      (BoxKalmanFilter.predict^[n] t.kalman).currentBox.x1 <
        (BoxKalmanFilter.predict^[n] t.kalman).currentBox.x2 ∧
      (BoxKalmanFilter.predict^[n] t.kalman).currentBox.y1 ≤
        (BoxKalmanFilter.predict^[n] t.kalman).currentBox.y2) ∧
    ∀ ds frameId out st', st.update solver ds frameId = .ok (out, st') →
      ∀ track ∈ out, 2 ≤ track.hits → track.box.x1 < track.box.x2 ∧ track.box.y1 ≤ track.box.y2 := by
  refine ⟨fun k t ht hhits n => ?_, fun ds frameId out st' hu track htrack hhits => ?_⟩
  · have hshape := ((hr.shaped hs k t ht).2 hhits).coast ((hr.wellFormed hs).1.healthy k t ht) n
    exact ⟨hshape.area, hshape.ratio, box_of_shape hsqrt hshape.area hshape.ratio⟩
  · obtain ⟨a, b, _, hspec⟩ := updated_of_ok hs (hr.wellFormed hs).1 hu
    rw [hspec.out] at htrack
    obtain ⟨t, hvalue, rfl⟩ := List.mem_map.mp htrack
    obtain ⟨e, he, rfl⟩ := List.mem_map.mp hvalue
    have hshape := ((hr.update hu).shaped hs e.1 e.2 (Dict.get?_eq_some.mpr he)).2 hhits
    exact box_of_shape hsqrt hshape.area hshape.ratio

theorem positiveSqrt_rat : PositiveSqrt ℚ := by
  intro x hx
  have hnum : 0 < Nat.sqrt x.num.toNat :=
    Nat.sqrt_pos.mpr (by have := Rat.num_pos.mpr hx; omega)
  have hden : 0 < Nat.sqrt x.den := Nat.sqrt_pos.mpr x.den_pos
  change 0 < mkRat (Int.sqrt x.num) (Nat.sqrt x.den)
  rw [Rat.mkRat_eq_div, Int.sqrt]
  exact div_pos (by exact_mod_cast hnum) (by exact_mod_cast hden)

theorem matched_never_degenerates_square :
    (∀ k t, (ByteTracker.after exhaustiveSolver "cam-1"
        [([clearSquare], "f1"), ([clearSquare], "f2")]).tracks.get? k = some t → 2 ≤ t.hits → ∀ n,
      0 < (BoxKalmanFilter.predict^[n] t.kalman).stateArea ∧
      0 < (BoxKalmanFilter.predict^[n] t.kalman).stateRatio ∧
      (BoxKalmanFilter.predict^[n] t.kalman).currentBox.x1 <
        (BoxKalmanFilter.predict^[n] t.kalman).currentBox.x2 ∧
      (BoxKalmanFilter.predict^[n] t.kalman).currentBox.y1 ≤
        (BoxKalmanFilter.predict^[n] t.kalman).currentBox.y2) ∧
    ∀ ds frameId out st', (ByteTracker.after exhaustiveSolver "cam-1"
        [([clearSquare], "f1"), ([clearSquare], "f2")]).update exhaustiveSolver ds frameId =
          .ok (out, st') →
      ∀ track ∈ out, 2 ≤ track.hits → track.box.x1 < track.box.x2 ∧ track.box.y1 ≤ track.box.y2 :=
  matched_never_degenerates positiveSqrt_rat exhaustive_solves.toAssigns
    (after_reachable exhaustive_solves.toAssigns "cam-1" _)

end Tracks
end CamTrack
