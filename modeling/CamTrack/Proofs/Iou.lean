import CamTrack.Tracker

namespace CamTrack

variable {K : Type} [Field K] [LinearOrder K]

namespace Xyxy

def translate (dx dy : K) (a : Xyxy K) : Xyxy K := ⟨a.x1 + dx, a.y1 + dy, a.x2 + dx, a.y2 + dy⟩

def scale (scaleX scaleY : K) (a : Xyxy K) : Xyxy K :=
  ⟨a.x1 * scaleX, a.y1 * scaleY, a.x2 * scaleX, a.y2 * scaleY⟩

/-- Corners in order and apart. -/
def Proper (a : Xyxy K) : Prop := a.x1 < a.x2 ∧ a.y1 < a.y2

def width (a : Xyxy K) : K := a.x2 - a.x1

def height (a : Xyxy K) : K := a.y2 - a.y1

/-- The common width of two boxes, 0 when they do not meet. -/
def commonWidth (a b : Xyxy K) : K := max 0 (min a.x2 b.x2 - max a.x1 b.x1)

def commonHeight (a b : Xyxy K) : K := max 0 (min a.y2 b.y2 - max a.y1 b.y1)

end Xyxy

open Xyxy

/-- The area common to two boxes. -/
def intersection (a b : Xyxy K) : K := commonWidth a b * commonHeight a b

/-- The union as both functions compute it, with the signed areas of the boxes. -/
def union (a b : Xyxy K) : K := a.width * a.height + b.width * b.height - intersection a b

theorem iou_eq (a b : Xyxy K) :
    iou a b = if 0 < union a b then intersection a b / union a b else 0 := rfl

theorem iou_comm (a b : Xyxy K) : iou a b = iou b a := by
  simp only [iou, max_comm, min_comm, add_comm]

section
variable [IsStrictOrderedRing K]

theorem iou_translate (dx dy : K) (a b : Xyxy K) :
    iou (a.translate dx dy) (b.translate dx dy) = iou a b := by
  simp only [iou, Xyxy.translate, max_add_add_right, min_add_add_right, add_sub_add_right_eq_sub]

theorem overlap_mul {s : K} (hs : 0 < s) (a b c d : K) :
    max 0 (min (a * s) (b * s) - max (c * s) (d * s)) = max 0 (min a b - max c d) * s := by
  rw [max_mul_of_nonneg _ _ hs.le, zero_mul, sub_mul, min_mul_of_nonneg _ _ hs.le,
    max_mul_of_nonneg _ _ hs.le]

/-- Unequal scales cancel, also where a box is degenerate or inverted. -/
theorem iou_scale {scaleX scaleY : K} (hx : 0 < scaleX) (hy : 0 < scaleY) (a b : Xyxy K) :
    iou (a.scale scaleX scaleY) (b.scale scaleX scaleY) = iou a b := by
  have hw : ∀ c : Xyxy K, (c.scale scaleX scaleY).width = c.width * scaleX := by
    intro c
    simp only [Xyxy.scale, width, sub_mul]
  have hh : ∀ c : Xyxy K, (c.scale scaleX scaleY).height = c.height * scaleY := by
    intro c
    simp only [Xyxy.scale, height, sub_mul]
  have hcw : commonWidth (a.scale scaleX scaleY) (b.scale scaleX scaleY) =
      commonWidth a b * scaleX := overlap_mul hx a.x2 b.x2 a.x1 b.x1
  have hch : commonHeight (a.scale scaleX scaleY) (b.scale scaleX scaleY) =
      commonHeight a b * scaleY := overlap_mul hy a.y2 b.y2 a.y1 b.y1
  have hxy : 0 < scaleX * scaleY := mul_pos hx hy
  have hi : intersection (a.scale scaleX scaleY) (b.scale scaleX scaleY) =
      intersection a b * (scaleX * scaleY) := by
    rw [intersection, hcw, hch, intersection]
    ring
  have hu : union (a.scale scaleX scaleY) (b.scale scaleX scaleY) =
      union a b * (scaleX * scaleY) := by
    rw [union, hw, hh, hw, hh, hi, union]
    ring
  simp only [iou_eq, hi, hu, mul_pos_iff_of_pos_right hxy, mul_div_mul_right _ _ hxy.ne']

theorem Xyxy.Proper.width_pos {a : Xyxy K} (h : a.Proper) : 0 < a.width := sub_pos.mpr h.1

theorem Xyxy.Proper.height_pos {a : Xyxy K} (h : a.Proper) : 0 < a.height := sub_pos.mpr h.2

/-- Where boxes have area in common, their sides overlap. -/
theorem sides_of_intersection_pos {a b : Xyxy K} (h : 0 < intersection a b) :
    max a.x1 b.x1 < min a.x2 b.x2 ∧ max a.y1 b.y1 < min a.y2 b.y2 := by
  constructor
  · by_contra hle
    simp [intersection, commonWidth, max_eq_left (sub_nonpos.mpr (not_lt.mp hle))] at h
  · by_contra hle
    simp [intersection, commonHeight, max_eq_left (sub_nonpos.mpr (not_lt.mp hle))] at h

theorem proper_of_intersection_pos {a b : Xyxy K} (h : 0 < intersection a b) :
    a.Proper ∧ b.Proper := by
  obtain ⟨hx, hy⟩ := sides_of_intersection_pos h
  simp only [lt_min_iff, max_lt_iff] at hx hy
  exact ⟨⟨hx.1.1, hy.1.1⟩, ⟨hx.2.2, hy.2.2⟩⟩

theorem intersection_pos_of_iou_pos {a b : Xyxy K} (h : 0 < iou a b) : 0 < intersection a b := by
  rw [iou_eq] at h
  split at h
  case isTrue hu => exact (div_pos_iff_of_pos_right hu).mp h
  case isFalse => exact absurd h (lt_irrefl 0)

/-- Only boxes that are not degenerate overlap anything. -/
theorem proper_of_iou_pos {a b : Xyxy K} (h : 0 < iou a b) : a.Proper ∧ b.Proper :=
  proper_of_intersection_pos (intersection_pos_of_iou_pos h)

theorem iou_self {a : Xyxy K} (h : a.Proper) : iou a a = 1 := by
  have hw : commonWidth a a = a.width := by
    simp only [commonWidth, min_self, max_self]
    exact max_eq_right h.width_pos.le
  have hh : commonHeight a a = a.height := by
    simp only [commonHeight, min_self, max_self]
    exact max_eq_right h.height_pos.le
  have hpos : 0 < a.width * a.height := mul_pos h.width_pos h.height_pos
  rw [iou_eq, union, intersection, hw, hh, add_sub_cancel_right, if_pos hpos, div_self hpos.ne']

theorem overlap_le {a b c d : K} (h : c < a) : max 0 (min a b - max c d) ≤ a - c :=
  max_le (sub_pos.mpr h).le (sub_le_sub (min_le_left a b) (le_max_left c d))

/-- Two intervals that both equal their overlap are equal. -/
theorem interval_eq {a b c d : K} (h : c < a) (h1 : max 0 (min a b - max c d) = a - c)
    (h2 : max 0 (min a b - max c d) = b - d) : a = b ∧ c = d := by
  have hpos : 0 < max 0 (min a b - max c d) := h1 ▸ sub_pos.mpr h
  have heq : max 0 (min a b - max c d) = min a b - max c d := by
    refine max_eq_right (le_of_not_gt (fun hneg => ?_))
    rw [max_eq_left hneg.le] at hpos
    exact lt_irrefl 0 hpos
  have ha := min_le_left a b
  have hb := min_le_right a b
  have hc := le_max_left c d
  have hd := le_max_right c d
  constructor <;> linarith

theorem factors_eq {u v w h : K} (hu : 0 ≤ u) (huw : u ≤ w) (hvh : v ≤ h) (hw : 0 < w) (hh : 0 < h)
    (he : w * h ≤ u * v) : u = w ∧ v = h := by
  have huv : u * v ≤ u * h := mul_le_mul_of_nonneg_left hvh hu
  have heq : u = w := huw.antisymm (le_of_mul_le_mul_right (he.trans huv) hh)
  subst heq
  exact ⟨rfl, hvh.antisymm (le_of_mul_le_mul_left he hw)⟩

theorem commonWidth_le {a : Xyxy K} (h : a.Proper) (b : Xyxy K) :
    commonWidth a b ≤ a.width ∧ commonWidth b a ≤ a.width := by
  refine ⟨overlap_le h.1, ?_⟩
  rw [commonWidth, min_comm, max_comm b.x1]
  exact overlap_le h.1

theorem commonHeight_le {a : Xyxy K} (h : a.Proper) (b : Xyxy K) :
    commonHeight a b ≤ a.height ∧ commonHeight b a ≤ a.height := by
  refine ⟨overlap_le h.2, ?_⟩
  rw [commonHeight, min_comm, max_comm b.y1]
  exact overlap_le h.2

/-- The common area is part of either box. -/
theorem intersection_le {a : Xyxy K} (h : a.Proper) (b : Xyxy K) :
    intersection a b ≤ a.width * a.height ∧ intersection b a ≤ a.width * a.height :=
  ⟨mul_le_mul (commonWidth_le h b).1 (commonHeight_le h b).1 (le_max_left _ _) h.width_pos.le,
    mul_le_mul (commonWidth_le h b).2 (commonHeight_le h b).2 (le_max_left _ _) h.width_pos.le⟩

/-- Two different boxes never overlap completely. -/
theorem iou_lt_one {a b : Xyxy K} (ha : a.Proper) (hb : b.Proper) (hne : a ≠ b) : iou a b < 1 := by
  have hw0 : 0 ≤ commonWidth a b := le_max_left _ _
  have hla := (intersection_le ha b).1
  have hlb := (intersection_le hb a).2
  have hlt : intersection a b < union a b := by
    by_contra hge
    rw [union] at hge
    obtain ⟨h1, h2⟩ := factors_eq hw0 (commonWidth_le ha b).1 (commonHeight_le ha b).1
      ha.width_pos ha.height_pos (by rw [← intersection]; linarith)
    obtain ⟨h3, h4⟩ := factors_eq hw0 (commonWidth_le hb a).2 (commonHeight_le hb a).2
      hb.width_pos hb.height_pos (by rw [← intersection]; linarith)
    obtain ⟨hx2, hx1⟩ := interval_eq ha.1 h1 h3
    obtain ⟨hy2, hy1⟩ := interval_eq ha.2 h2 h4
    obtain ⟨_, _, _, _⟩ := a
    obtain ⟨_, _, _, _⟩ := b
    simp_all
  rw [iou_eq]
  split
  case isTrue hu => exact (div_lt_one hu).mpr hlt
  case isFalse => exact one_pos

end
end CamTrack
