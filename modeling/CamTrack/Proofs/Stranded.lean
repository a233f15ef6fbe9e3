import CamTrack.Proofs.StageThree

namespace CamTrack
open Python Assignment Positions InferenceConstants

variable {K : Type} [Field K] [LinearOrder K]

/-- The pair the assignment took at either end of `(i, j)` fell below the gate. -/
def Displaced (w : Nat → Nat → K) (θ : K) (ps : List (Nat × Nat)) (i j : Nat) : Prop :=
  ∃ i' j', i' ≠ i ∧ j' ≠ j ∧ (i, j') ∈ ps ∧ (i', j) ∈ ps ∧ w i j' < θ ∧ w i' j < θ ∧
    w i j + w i' j' ≤ w i j' + w i' j

omit [Field K] in
theorem not_mem_filter_fst {w : Nat → Nat → K} {θ : K} (h : IsMatching n m ps) (hp : (i, j) ∈ ps)
    (hlt : w i j < θ) : i ∉ (ps.filter (fun p => decide (w p.1 p.2 ≥ θ))).map Prod.fst := by
  intro hm
  obtain ⟨j', hj'⟩ := exists_col hm
  obtain ⟨hmem, hge⟩ := List.mem_filter.mp hj'
  obtain rfl := h.col_unique hp hmem
  exact absurd hlt (not_lt.mpr (by simpa using hge))

omit [Field K] in
theorem not_mem_filter_snd {w : Nat → Nat → K} {θ : K} (h : IsMatching n m ps) (hp : (i, j) ∈ ps)
    (hlt : w i j < θ) : j ∉ (ps.filter (fun p => decide (w p.1 p.2 ≥ θ))).map Prod.snd := by
  intro hm
  obtain ⟨i', hi'⟩ := exists_row hm
  obtain ⟨hmem, hge⟩ := List.mem_filter.mp hi'
  obtain rfl := h.row_unique hp hmem
  exact absurd hlt (not_lt.mpr (by simpa using hge))

variable [IsStrictOrderedRing K]

/-- Which pairs the gate would have accepted are left over all the same. -/
theorem stranded_iff {w : Nat → Nat → K} {θ : K} (hmax : IsMaximum n m w ps) (hi : i < n)
    (hj : j < m) (hge : θ ≤ w i j) :
    (i ∈ (gated n m (ps.filter (fun p => decide (w p.1 p.2 ≥ θ)))).unmatchedTracks ∧
      j ∈ (gated n m (ps.filter (fun p => decide (w p.1 p.2 ≥ θ)))).unmatchedDetections) ↔
    Displaced w θ ps i j := by
  constructor
  · intro hx
    obtain ⟨ht, hd⟩ := hx
    exact stranded_pair hmax ht hd hge
  · intro hx
    obtain ⟨i', j', _, _, hp, hq, h1, h2, _⟩ := hx
    exact ⟨mem_unmatchedTracks.mpr ⟨hi, not_mem_filter_fst hmax.toIsMatching hp h1⟩,
      mem_unmatchedDetections.mpr ⟨hj, not_mem_filter_snd hmax.toIsMatching hq h2⟩⟩

/-- Displaced ends need two boxes on either side and less than twice the gate. -/
theorem Displaced.bounds {as bs : List (Xyxy K)} {θ : K}
    (hm : IsMatching as.length bs.length ps) (h : Displaced (pairIou as bs) θ ps i j) :
    2 ≤ as.length ∧ 2 ≤ bs.length ∧ pairIou as bs i j < θ + θ := by
  obtain ⟨i', j', hi, hj, hp, hq, h1, h2, hle⟩ := h
  have hp' := hm.inRange _ hp
  have hq' := hm.inRange _ hq
  have h0 := pairIou_nonneg as bs i' j'
  exact ⟨by omega, by omega, by linarith⟩

section Update
variable [HasSqrt K] {solver : LinearSumAssignment K} {st : ByteTracker K}
  {ds : List (Detection K)} {a : ByteTracker.TwoStages K} {b : ByteTracker.ThreeStages K}

/-- A track no stage matched and a detection that starts a new one. -/
theorem lost_spawned_lt (hs : SolvesAssignment solver) (h : FirstStages solver st ds a)
    (h3 : ThirdStage solver st a b) (hk : st.predicted.get? k = some t)
    (hn : k ∉ b.matchedTrackIds) (hd : d ∈ b.spawned) :
    iou t.currentBox d.box.asXyxy <
      (trackMatchIouThreshold : K) + trackMatchIouThreshold := by
  have hactive : k ∈ a.activeIds := by
    rw [h.activeIds, ← keys_predicted]
    exact Dict.mem_keys_of_get? hk
  have hn1 : k ∉ a.pairs1.map Prod.fst := fun hm => hn (by
    rw [h3.matched, matchedPairs, List.append_assoc, List.map_append]
    exact List.mem_append_left _ hm)
  obtain ⟨i, hi, hu⟩ := h.unmatched_position hactive hn1
  have hleft : d ∈ b.leftoverHigh := by
    obtain ⟨j, _, hj⟩ := mem_pick.mp hd
    exact List.mem_of_getElem? hj
  obtain ⟨j, hj, hv⟩ := h3.leftover_position hleft
  rw [← h.stage1Iou_eq hi hk hj]
  exact h.leftover_lt hs hu hv

/-- `match_by_iou` strands an admissible pair exactly when the assignment gave
both ends to partners below the gate; a frame therefore never loses a track and
spawns from a detection that overlaps it by twice the gate. -/
theorem admissible_pairs (hs : SolvesAssignment solver) (as bs : List (Xyxy K)) (θ : K)
    (hr : Reachable solver cameraId st) (ds : List (Detection K)) :
    (∃ ps r, matchByIou solver as bs θ = .ok r ∧
      IsMaximum as.length bs.length (pairIou as bs) ps ∧
      r.matches_ = ps.filter (fun p => decide (pairIou as bs p.1 p.2 ≥ θ)) ∧
      ∀ i j x y, as[i]? = some x → bs[j]? = some y → θ ≤ iou x y →
        ((i ∈ r.unmatchedTracks ∧ j ∈ r.unmatchedDetections) ↔
          Displaced (pairIou as bs) θ ps i j) ∧
        (i ∈ r.unmatchedTracks ∧ j ∈ r.unmatchedDetections →
          2 ≤ as.length ∧ 2 ≤ bs.length ∧ iou x y < θ + θ)) ∧
    ∃ a b, ByteTracker.associate solver st ds = .ok (a, b) ∧
      ∀ k t, st.predicted.get? k = some t → k ∉ b.matchedTrackIds → ∀ d ∈ b.spawned,
        iou t.currentBox d.box.asXyxy <
          (trackMatchIouThreshold : K) + trackMatchIouThreshold := by
  constructor
  · obtain ⟨ps, _, hmax, hok⟩ := matchByIou_spec hs.toAssigns as bs θ
    refine ⟨ps, _, hok, hmax hs, rfl, ?_⟩
    intro i j x y hx hy hge
    rw [← pairIou_eq hx hy] at hge ⊢
    have hiff := stranded_iff (hmax hs) (List.getElem?_eq_some_iff.mp hx).1
      (List.getElem?_eq_some_iff.mp hy).1 hge
    exact ⟨hiff, fun h => (hiff.mp h).bounds (hmax hs).toIsMatching⟩
  · obtain ⟨a, b, _, _, ha, _, h⟩ := update_ok hs.toAssigns (hr.wellFormed hs.toAssigns).1 ds ""
    exact ⟨a, b, ha, fun k t hk hn d hd => lost_spawned_lt hs h.first h.third hk hn hd⟩

end Update

/-- Unit squares moved along the first axis by hundredths. -/
def shifted (x : ℚ) : Xyxy ℚ := ⟨x / 100, 0, x / 100 + 1, 1⟩

def shiftedDetection (x : ℚ) : Detection ℚ :=
  { clearSquare with box := ⟨x / 100, 0, x / 100 + 1, 1⟩ }

/-- A tracker that has seen two squares 103 hundredths apart. -/
def twoSquares : ByteTracker ℚ :=
  .after exhaustiveSolver "cam-1" [([shiftedDetection 0, shiftedDetection 103], "f1")]

theorem twoSquares_reachable : Reachable exhaustiveSolver "cam-1" twoSquares :=
  after_reachable exhaustive_solves.toAssigns _ _

/-- The first track and the first detection overlap by 52/148, yet giving each of
them the other's neighbour, at 45/155 twice, is worth more; the gate drops both
pairs. In a frame both tracks are then lost while both detections spawn. -/
theorem admissible_pair_stranded :
    (¬ ∀ solver : LinearSumAssignment ℚ, SolvesAssignment solver →
      ∀ (as bs : List (Xyxy ℚ)) (θ : ℚ), 0 < θ → θ ≤ 1 →
      ∀ r, matchByIou solver as bs θ = .ok r →
      ∀ i ∈ r.unmatchedTracks, ∀ j ∈ r.unmatchedDetections, pairIou as bs i j < θ) ∧
    ¬ ∀ (st : ByteTracker ℚ), Reachable exhaustiveSolver "cam-1" st → ∀ ds a b,
      ByteTracker.associate exhaustiveSolver st ds = .ok (a, b) →
      ∀ k t, st.predicted.get? k = some t → k ∉ b.matchedTrackIds → ∀ d ∈ b.spawned,
        iou t.currentBox d.box.asXyxy < trackMatchIouThreshold := by
  constructor
  · intro h
    have hmatch : matchByIou exhaustiveSolver [shifted 0, shifted 103] [shifted 48, shifted (-55)]
        (3 / 10) = .ok ⟨[], [0, 1], [0, 1]⟩ := by decide +kernel
    have hlt := h _ exhaustive_solves _ _ _ (by decide +kernel) (by decide +kernel) _ hmatch
      0 (by decide) 0 (by decide)
    exact absurd hlt (by decide +kernel)
  · intro h
    obtain ⟨a, b, _, _, ha, _⟩ := update_ok exhaustive_solves.toAssigns
      (twoSquares_reachable.wellFormed exhaustive_solves.toAssigns).1
      [shiftedDetection 48, shiftedDetection (-55)] "f2"
    have hlocals : (ByteTracker.associate exhaustiveSolver twoSquares
        [shiftedDetection 48, shiftedDetection (-55)]).map
          (fun p => (p.2.matchedTrackIds, p.2.spawned)) =
        .ok ([], [shiftedDetection 48, shiftedDetection (-55)]) := by decide +kernel
    have hbox : (twoSquares.predicted.get? "cam-1-1").map STrack.currentBox = some (shifted 0) := by
      decide +kernel
    obtain ⟨t, ht, hb⟩ := Option.map_eq_some_iff.mp hbox
    rw [ha] at hlocals
    obtain ⟨hm, hsp⟩ := Prod.mk.inj (Except.ok.inj hlocals)
    have hlt := h twoSquares twoSquares_reachable _ a b ha _ t ht (by rw [hm]; simp)
      (shiftedDetection 48) (by rw [hsp]; simp)
    rw [hb] at hlt
    exact absurd hlt (by decide +kernel)

/-- The reachable state and the boxes of the counterexample. -/
theorem admissible_pairs_twoSquares :
    ∃ ps r, matchByIou exhaustiveSolver [shifted 0, shifted 103] [shifted 48, shifted (-55)]
        (3 / 10) = .ok r ∧
      IsMaximum 2 2 (pairIou [shifted 0, shifted 103] [shifted 48, shifted (-55)]) ps ∧
      Displaced (pairIou [shifted 0, shifted 103] [shifted 48, shifted (-55)]) (3 / 10) ps 0 0 := by
  obtain ⟨⟨ps, r, hr, hmax, _, hiff⟩, _⟩ := admissible_pairs exhaustive_solves
    [shifted 0, shifted 103] [shifted 48, shifted (-55)] (3 / 10) twoSquares_reachable []
  refine ⟨ps, r, hr, hmax, (hiff 0 0 _ _ rfl rfl (by decide +kernel)).1.mp ?_⟩
  have hmatch : matchByIou exhaustiveSolver [shifted 0, shifted 103] [shifted 48, shifted (-55)]
      (3 / 10) = .ok ⟨[], [0, 1], [0, 1]⟩ := by decide +kernel
  rw [hmatch] at hr
  cases hr
  exact ⟨by decide, by decide⟩

end CamTrack
