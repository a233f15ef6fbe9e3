import CamTrack.Tracker
import CamTrack.Lib.Assignment

namespace CamTrack
open Python Assignment

variable {K : Type} [Field K] [LinearOrder K]

def entry (rows : List (List K)) (i j : Nat) : K := (rows.getD i []).getD j 0

def IsRect (n m : Nat) (rows : List (List K)) : Prop :=
  rows.length = n ∧ ∀ row ∈ rows, row.length = m

/-- What the tracker's bookkeeping relies on: every non-empty matrix gets a
complete assignment, as two arrays of one length. -/
structure Assigns (solver : LinearSumAssignment K) : Prop where
  complete : ∀ cost n m, 0 < n → 0 < m → IsRect n m cost →
    (solver cost).1.length = (solver cost).2.length ∧
    IsComplete n m ((solver cost).1.zip (solver cost).2)

/-- The documented behaviour of the solver: a complete assignment of least
total cost. Nothing is assumed about which one. -/
structure SolvesAssignment (solver : LinearSumAssignment K) : Prop extends Assigns solver where
  least : ∀ cost n m, 0 < n → 0 < m → IsRect n m cost →
    IsMinimum n m (entry cost) ((solver cost).1.zip (solver cost).2)

/-- An assignment solver that tries every assignment. -/
def exhaustiveSolver : LinearSumAssignment K := fun cost =>
  let ps := solve cost.length ((cost.head?.map List.length).getD 0) (entry cost)
  (ps.map Prod.fst, ps.map Prod.snd)

theorem exhaustive_solves : SolvesAssignment (exhaustiveSolver : LinearSumAssignment K) := by
  have hmin : ∀ (cost : List (List K)) n m, 0 < n → 0 < m → IsRect n m cost →
      IsMinimum n m (entry cost) ((exhaustiveSolver cost).1.zip (exhaustiveSolver cost).2) := by
    intro cost n m hn _ hr
    have hm : (cost.head?.map List.length).getD 0 = m := by
      cases cost with
      | nil => exact absurd hr.1 (by simp; omega)
      | cons row rows => exact hr.2 row List.mem_cons_self
    simp only [exhaustiveSolver, hm, hr.1, ← List.unzip_fst, ← List.unzip_snd, List.zip_unzip]
    exact solve_minimum n m (entry cost)
  refine ⟨⟨?_⟩, hmin⟩
  intro cost n m hn hm hr
  exact ⟨by simp [exhaustiveSolver], (hmin cost n m hn hm hr).toIsComplete⟩

/-- IoU of the boxes at two positions. -/
def pairIou (trackBoxes detectionBoxes : List (Xyxy K)) (i j : Nat) : K :=
  match trackBoxes[i]?, detectionBoxes[j]? with
  | some a, some b => iou a b
  | _, _ => 0

theorem pairIou_eq {as bs : List (Xyxy K)} (ha : as[i]? = some a) (hb : bs[j]? = some b) :
    pairIou as bs i j = iou a b := by
  simp [pairIou, ha, hb]

theorem iouMatrix_rect (as bs : List (Xyxy K)) : IsRect as.length bs.length (iouMatrix as bs) := by
  unfold iouMatrix
  split
  · exact ⟨by simp, fun row hrow => by simp [List.eq_of_mem_replicate hrow]⟩
  · refine ⟨by simp, fun row hrow => ?_⟩
    obtain ⟨a, _, rfl⟩ := List.mem_map.mp hrow
    simp

/-- Reading the matrix inside its shape never fails and gives the pair's IoU. -/
theorem iouMatrix_index {as bs : List (Xyxy K)} (hi : i < as.length) (hj : j < bs.length) :
    ∃ row, index (iouMatrix as bs) i = .ok row ∧ index row j = .ok (pairIou as bs i j) := by
  have ha : as.isEmpty = false := List.isEmpty_eq_false_iff.mpr (by rintro rfl; simp at hi)
  have hb : bs.isEmpty = false := List.isEmpty_eq_false_iff.mpr (by rintro rfl; simp at hj)
  refine ⟨bs.map (fun b => iou as[i] b), index_of_getElem? ?_, index_of_getElem? ?_⟩
  · simp [iouMatrix, ha, hb, hi]
  · simp [pairIou, hi, hj]

theorem entry_neg_iouMatrix {as bs : List (Xyxy K)} (hi : i < as.length) (hj : j < bs.length) :
    entry ((iouMatrix as bs).map (fun r => r.map (fun v => -v))) i j = -pairIou as bs i j := by
  have ha : as.isEmpty = false := List.isEmpty_eq_false_iff.mpr (by rintro rfl; simp at hi)
  have hb : bs.isEmpty = false := List.isEmpty_eq_false_iff.mpr (by rintro rfl; simp at hj)
  simp [entry, iouMatrix, pairIou, ha, hb, hi, hj]

/-- The tuple `match_by_iou` returns for the matches `ms`. -/
def gated (n m : Nat) (ms : List (Nat × Nat)) : MatchResult where
  matches_ := ms
  unmatchedTracks := (List.range n).filter (fun i => i ∉ ms.map Prod.fst)
  unmatchedDetections := (List.range m).filter (fun j => j ∉ ms.map Prod.snd)

theorem gatePairs_eq {as bs : List (Xyxy K)} (θ : K)
    (h : ∀ p ∈ ps, p.1 < as.length ∧ p.2 < bs.length) :
    gatePairs (iouMatrix as bs) θ ps =
      .ok (ps.filter (fun p => decide (pairIou as bs p.1 p.2 ≥ θ))) := by
  induction ps with
  | nil => rfl
  | cons p ps ih =>
    obtain ⟨hi, hj⟩ := h p List.mem_cons_self
    obtain ⟨row, hrow, hv⟩ := iouMatrix_index hi hj
    have ht := ih (fun q hq => h q (List.mem_cons_of_mem p hq))
    by_cases hge : pairIou as bs p.1 p.2 ≥ θ <;>
      simp [gatePairs, hrow, hv, ht, hge]

theorem complete_nil (h : n = 0 ∨ m = 0) : IsComplete n m [] :=
  ⟨⟨by simp, by simp, by simp⟩, by rcases h with rfl | rfl <;> simp⟩

/-- `match_by_iou` never raises. It solves the whole assignment first and only
then drops the pairs below the threshold. -/
theorem matchByIou_spec [IsStrictOrderedRing K] {solver : LinearSumAssignment K}
    (hs : Assigns solver) (as bs : List (Xyxy K)) (θ : K) :
    ∃ ps, IsComplete as.length bs.length ps ∧
      (SolvesAssignment solver → IsMaximum as.length bs.length (pairIou as bs) ps) ∧
      matchByIou solver as bs θ = .ok (gated as.length bs.length
        (ps.filter (fun p => decide (pairIou as bs p.1 p.2 ≥ θ)))) := by
  by_cases he : as.isEmpty || bs.isEmpty
  · have h0 : as.length = 0 ∨ bs.length = 0 := by simpa using he
    refine ⟨[], complete_nil h0, fun _ => ⟨complete_nil h0, ?_⟩, ?_⟩
    · intro qs hq
      have hlen : qs.length = 0 := by
        have := hq.size
        rcases h0 with h0 | h0 <;> simpa [h0] using this
      rw [List.length_eq_zero_iff.mp hlen]
    · simp [matchByIou, he, gated]
  · have hn : 0 < as.length ∧ 0 < bs.length := by
      simpa [List.length_pos_iff] using he
    have hrect : IsRect as.length bs.length
        ((iouMatrix as bs).map (fun r => r.map (fun v => -v))) := by
      obtain ⟨h1, h2⟩ := iouMatrix_rect as bs
      refine ⟨by simpa using h1, fun row hrow => ?_⟩
      obtain ⟨r, hr, rfl⟩ := List.mem_map.mp hrow
      simpa using h2 r hr
    obtain ⟨hlen, hc⟩ := hs.complete _ _ _ hn.1 hn.2 hrect
    refine ⟨_, hc, fun hsolve => ?_, ?_⟩
    · have hneg : ∀ qs, IsComplete as.length bs.length qs →
          total (entry ((iouMatrix as bs).map (fun r => r.map (fun v => -v)))) qs =
            total (fun i j => -pairIou as bs i j) qs := fun qs hq =>
        total_congr (fun p hp => entry_neg_iouMatrix (hq.inRange p hp).1 (hq.inRange p hp).2)
      have hleast := (hsolve.least _ _ _ hn.1 hn.2 hrect).least
      refine IsMinimum.maximum ⟨hc, fun qs hq => ?_⟩
      rw [← hneg _ hc, ← hneg _ hq]
      exact hleast qs hq
    · simp only [matchByIou, he, zipStrict, hlen, ↓reduceIte, except_bind_ok, except_pure,
        gatePairs_eq θ hc.inRange, gated]
      rfl

section Bounds
variable [IsStrictOrderedRing K]

theorem iou_nonneg (a b : Xyxy K) : 0 ≤ iou a b := by
  unfold iou
  dsimp only
  split
  · rename_i hu
    exact div_nonneg (mul_nonneg (le_max_left _ _) (le_max_left _ _)) (le_of_lt hu)
  · exact le_refl 0

theorem pairIou_nonneg (as bs : List (Xyxy K)) (i j : Nat) : 0 ≤ pairIou as bs i j := by
  unfold pairIou
  split
  · exact iou_nonneg _ _
  · exact le_refl 0

theorem mem_unmatchedTracks {n m : Nat} {ms : List (Nat × Nat)} :
    i ∈ (gated n m ms).unmatchedTracks ↔ i < n ∧ i ∉ ms.map Prod.fst := by
  simp [gated]

theorem mem_unmatchedDetections {n m : Nat} {ms : List (Nat × Nat)} :
    j ∈ (gated n m ms).unmatchedDetections ↔ j < m ∧ j ∉ ms.map Prod.snd := by
  simp [gated]

/-- A pair whose two ends leave the matching unmatched but which the gate would
have accepted: the solver gave both ends to worse partners, and swapping loses. -/
theorem stranded_pair {w : Nat → Nat → K} {θ : K} (hmax : IsMaximum n m w ps)
    (ht : i ∈ (gated n m (ps.filter (fun p => decide (w p.1 p.2 ≥ θ)))).unmatchedTracks)
    (hd : j ∈ (gated n m (ps.filter (fun p => decide (w p.1 p.2 ≥ θ)))).unmatchedDetections)
    (hge : θ ≤ w i j) :
    ∃ i' j', i' ≠ i ∧ j' ≠ j ∧ (i, j') ∈ ps ∧ (i', j) ∈ ps ∧ w i j' < θ ∧ w i' j < θ ∧
      w i j + w i' j' ≤ w i j' + w i' j := by
  obtain ⟨hin, hir⟩ := mem_unmatchedTracks.mp ht
  obtain ⟨hjm, hjr⟩ := mem_unmatchedDetections.mp hd
  -- a pair of the assignment at either end was dropped by the gate
  have hrow : ∀ j', (i, j') ∈ ps → w i j' < θ := by
    intro j' hp
    by_contra hlt
    exact hir (List.mem_map.mpr ⟨(i, j'), List.mem_filter.mpr ⟨hp, by simpa using hlt⟩, rfl⟩)
  have hcol : ∀ i', (i', j) ∈ ps → w i' j < θ := by
    intro i' hp
    by_contra hlt
    exact hjr (List.mem_map.mpr ⟨(i', j), List.mem_filter.mpr ⟨hp, by simpa using hlt⟩, rfl⟩)
  have hout : (i, j) ∉ ps := fun hp => absurd (hrow j hp) (not_lt.mpr hge)
  rcases hmax.stranded hin hjm hout with ⟨j', hp, _, hle⟩ | ⟨i', hp, _, hle⟩ |
    ⟨i', j', hp, hq, hi, hj, hle⟩
  · exact absurd (hrow j' hp) (not_lt.mpr (hge.trans hle))
  · exact absurd (hcol i' hp) (not_lt.mpr (hge.trans hle))
  · exact ⟨i', j', hi, hj, hp, hq, hrow j' hp, hcol i' hq, hle⟩

/-- Two unmatched ends overlap by less than twice the threshold. -/
theorem unmatched_lt {w : Nat → Nat → K} {θ : K} (hmax : IsMaximum n m w ps)
    (hw : ∀ i j, 0 ≤ w i j) (hθ : 0 < θ)
    (ht : i ∈ (gated n m (ps.filter (fun p => decide (w p.1 p.2 ≥ θ)))).unmatchedTracks)
    (hd : j ∈ (gated n m (ps.filter (fun p => decide (w p.1 p.2 ≥ θ)))).unmatchedDetections) :
    w i j < θ + θ := by
  rcases lt_or_ge (w i j) θ with hlt | hge
  · linarith
  · obtain ⟨i', j', _, _, _, _, h1, h2, hle⟩ := stranded_pair hmax ht hd hge
    have := hw i' j'
    linarith

end Bounds
end CamTrack
