import CamTrack.Proofs.Nms

namespace CamTrack
open Python Xyxy

variable {K : Type} [Field K] [LinearOrder K]

namespace Xyxy

/-- A side whose corners are in the wrong order. -/
def Inverted (a : Xyxy K) : Prop := a.x2 < a.x1 ∨ a.y2 < a.y1

def area (a : Xyxy K) : K := a.width * a.height

/-- A point lies within a box. -/
structure Inside (a : Xyxy K) (x y : K) : Prop where
  left : a.x1 < x
  right : x < a.x2
  top : a.y1 < y
  bottom : y < a.y2

/-- A point lies within both boxes. -/
def Overlap (a b : Xyxy K) : Prop := ∃ x y, a.Inside x y ∧ b.Inside x y

end Xyxy

/-- What the IoU of two boxes is, whatever their corners. -/
structure IsIou (a b : Xyxy K) (v : K) : Prop where
  nonneg : 0 ≤ v
  le_one : v ≤ 1
  inverted : a.Inverted ∨ b.Inverted → v = 0
  noArea : a.area = 0 ∨ b.area = 0 → v = 0
  apart : ¬ Overlap a b → v = 0
  one_iff : v = 1 ↔ a = b ∧ 0 < a.width ∧ 0 < a.height

section Values
variable [IsStrictOrderedRing K] {a b : Xyxy K}

omit [Field K] [IsStrictOrderedRing K] in
theorem Xyxy.Proper.not_inverted (h : a.Proper) : ¬ a.Inverted :=
  fun hi => hi.elim (lt_asymm h.1) (lt_asymm h.2)

theorem Xyxy.Proper.area_pos (h : a.Proper) : 0 < a.area := mul_pos h.width_pos h.height_pos

theorem overlap_of_intersection_pos (h : 0 < intersection a b) : Overlap a b := by
  obtain ⟨hx, hy⟩ := sides_of_intersection_pos h
  obtain ⟨x, hx1, hx2⟩ := exists_between hx
  obtain ⟨y, hy1, hy2⟩ := exists_between hy
  simp only [max_lt_iff, lt_min_iff] at hx1 hx2 hy1 hy2
  exact ⟨x, y, ⟨hx1.1, hx2.1, hy1.1, hy2.1⟩, ⟨hx1.2, hx2.2, hy1.2, hy2.2⟩⟩

/-- An IoU is 0, or it is that of two boxes which overlap. -/
theorem iou_cases (a b : Xyxy K) : iou a b = 0 ∨ a.Proper ∧ b.Proper ∧ Overlap a b := by
  rcases (iou_nonneg a b).eq_or_lt with hzero | hpos
  · exact .inl hzero.symm
  · have hi := intersection_pos_of_iou_pos hpos
    obtain ⟨ha, hb⟩ := proper_of_intersection_pos hi
    exact .inr ⟨ha, hb, overlap_of_intersection_pos hi⟩

theorem iou_eq_one_iff (a b : Xyxy K) : iou a b = 1 ↔ a = b ∧ 0 < a.width ∧ 0 < a.height := by
  constructor
  · intro hone
    rcases iou_cases a b with hzero | ⟨ha, hb, _⟩
    · exact absurd (hzero.symm.trans hone) zero_ne_one
    · refine ⟨?_, ha.width_pos, ha.height_pos⟩
      by_contra hne
      exact (iou_lt_one ha hb hne).ne hone
  · rintro ⟨rfl, hw, hh⟩
    exact iou_self ⟨sub_pos.mp hw, sub_pos.mp hh⟩

theorem iou_le_one (a b : Xyxy K) : iou a b ≤ 1 := by
  rcases iou_cases a b with hzero | ⟨ha, hb, _⟩
  · exact hzero ▸ zero_le_one
  · by_cases he : a = b
    · exact ((iou_eq_one_iff a b).mpr ⟨he, ha.width_pos, ha.height_pos⟩).le
    · exact (iou_lt_one ha hb he).le

theorem isIou (a b : Xyxy K) : IsIou a b (iou a b) := by
  refine ⟨iou_nonneg a b, iou_le_one a b, fun hi => ?_, fun harea => ?_, fun hapart => ?_,
    iou_eq_one_iff a b⟩
  · rcases iou_cases a b with hzero | ⟨ha, hb, _⟩
    · exact hzero
    · exact absurd hi (not_or.mpr ⟨ha.not_inverted, hb.not_inverted⟩)
  · rcases iou_cases a b with hzero | ⟨ha, hb, _⟩
    · exact hzero
    · exact absurd harea (not_or.mpr ⟨ha.area_pos.ne', hb.area_pos.ne'⟩)
  · rcases iou_cases a b with hzero | ⟨_, _, ho⟩
    · exact hzero
    · exact absurd ho hapart

end Values

/-- `np.divide` with `where=union > 0` at one position, where `divide` divides. -/
def divideWhere (divide : K → K → Except Error K) (intersection union : K) : Except Error K :=
  if union > 0 then divide intersection union else .ok 0

/-- `iou_matrix` with a division that may raise. -/
def iouMatrixBy (divide : K → K → Except Error K) (boxesA boxesB : List (Xyxy K)) :
    Except Error (List (List K)) :=
  if boxesA.isEmpty || boxesB.isEmpty then
    .ok (List.replicate boxesA.length (List.replicate boxesB.length 0))
  else
    boxesA.mapM (fun a => boxesB.mapM (fun b =>
      let x1 := max a.x1 b.x1
      let y1 := max a.y1 b.y1
      let x2 := min a.x2 b.x2
      let y2 := min a.y2 b.y2
      let intersection := max 0 (x2 - x1) * max 0 (y2 - y1)
      let areaA := (a.x2 - a.x1) * (a.y2 - a.y1)
      let areaB := (b.x2 - b.x1) * (b.y2 - b.y1)
      divideWhere divide intersection (areaA + areaB - intersection)))

/-- `_iou_xyxy` with a division that may raise. -/
def iouXyxyBy (divide : K → K → Except Error K) (a : Xyxy K) (b : List (Xyxy K)) :
    Except Error (List K) :=
  let (intersection, union) := iouXyxyParts a b
  (intersection.zip union).mapM (fun (intersection, union) =>
    divideWhere divide intersection union)

section Divisions
variable {divide : K → K → Except Error K}

/-- Only positive unions are divided by. -/
theorem divideWhere_eq (h : ∀ x y, 0 < y → divide x y = .ok (x / y)) (intersection union : K) :
    divideWhere divide intersection union =
      .ok (if union > 0 then intersection / union else 0) := by
  rw [divideWhere]
  split
  · rename_i hu
    exact h _ _ hu
  · rfl

theorem iouMatrixBy_eq (h : ∀ x y, 0 < y → divide x y = .ok (x / y)) (as bs : List (Xyxy K)) :
    iouMatrixBy divide as bs = .ok (iouMatrix as bs) := by
  unfold iouMatrixBy iouMatrix
  split
  · rfl
  · exact mapM_ok _ _ as (fun a _ => mapM_ok _ _ bs (fun b _ => divideWhere_eq h _ _))

theorem iouXyxyBy_eq (h : ∀ x y, 0 < y → divide x y = .ok (x / y)) (a : Xyxy K)
    (bs : List (Xyxy K)) : iouXyxyBy divide a bs = .ok (iouXyxy a bs) := by
  rw [iouXyxyBy, iouXyxy]
  dsimp only
  rw [← List.map_uncurry_zip_eq_zipWith]
  exact mapM_ok _ _ _ (fun p _ => divideWhere_eq h p.1 p.2)

end Divisions

/-- The two implementations have the same values, in either order of the boxes, and
a division that raises on unions that are not positive changes none of them. -/
structure IousAgree (as bs : List (Xyxy K)) : Prop where
  entries : ∀ (i j : Nat) (a b : Xyxy K), as[i]? = some a → bs[j]? = some b →
    ∃ rowA rowB v, (iouMatrix as bs)[i]? = some rowA ∧ rowA[j]? = some v ∧
      (iouXyxy a bs)[j]? = some v ∧ (iouMatrix bs as)[j]? = some rowB ∧ rowB[i]? = some v ∧
      IsIou a b v
  shape : IsRect as.length bs.length (iouMatrix as bs)
  length : ∀ a, (iouXyxy a bs).length = bs.length
  divisions : ∀ divide : K → K → Except Error K, (∀ x y, 0 < y → divide x y = .ok (x / y)) →
    iouMatrixBy divide as bs = .ok (iouMatrix as bs) ∧
      ∀ a, iouXyxyBy divide a bs = .ok (iouXyxy a bs)

/-- The two implementations of IoU agree on all boxes, inverted ones included. -/
theorem iou_implementations_agree [IsStrictOrderedRing K] (as bs : List (Xyxy K)) :
    IousAgree as bs := by
  refine ⟨fun i j a b ha hb => ?_, iouMatrix_rect as bs, fun a => by simp [iouXyxy_eq],
    fun divide h => ⟨iouMatrixBy_eq h as bs, fun a => iouXyxyBy_eq h a bs⟩⟩
  have hA : as.isEmpty = false := List.isEmpty_eq_false_iff.mpr (by rintro rfl; simp at ha)
  have hB : bs.isEmpty = false := List.isEmpty_eq_false_iff.mpr (by rintro rfl; simp at hb)
  refine ⟨bs.map (iou a), as.map (iou b), iou a b, ?_, ?_, ?_, ?_, ?_, isIou a b⟩
  · simp [iouMatrix, hA, hB, ha]
  · simp [hb]
  · simp [iouXyxy_eq, hb]
  · simp [iouMatrix, hA, hB, hb]
  · simp [ha, iou_comm]

theorem iou_implementations_agree_half :
    IousAgree [(⟨0, 0, 10, 10⟩ : Xyxy ℚ)] [⟨5, 0, 15, 10⟩, ⟨15, 0, 5, 10⟩] ∧
      iouMatrix [(⟨0, 0, 10, 10⟩ : Xyxy ℚ)] [⟨5, 0, 15, 10⟩, ⟨15, 0, 5, 10⟩] = [[1 / 3, 0]] :=
  ⟨iou_implementations_agree _ _, by decide +kernel⟩

end CamTrack
