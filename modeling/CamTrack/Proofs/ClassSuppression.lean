import CamTrack.Proofs.Decode

namespace CamTrack
open Python Greedy Matrix

variable {K : Type} [Field K] [LinearOrder K]

/-- Overlap within one class, the only overlap that suppresses per class. -/
abbrev OverlapsInClass (raw : Matrix (Fin (4 + c)) (Fin n) K) (iouThreshold : K)
    (i j : Fin n) : Prop :=
  bestClass raw i = bestClass raw j ∧ Overlaps raw iouThreshold i j

/-- What per-class suppression keeps of the columns, visited in this order. -/
def perClass (raw : Matrix (Fin (4 + c)) (Fin n) K) (iouThreshold : K) (order : List (Fin n)) :
    List (Fin n) :=
  greedy (OverlapsInClass raw iouThreshold) order

/-- Every candidate column without a detection overlaps a detection of its own
class that is at least as confident. -/
def SameClassSuppression (raw : Matrix (Fin (4 + c)) (Fin n) K) (frameId cameraId : String)
    (scaleX scaleY : K) (classNames : Dict Int String) (θ iouThreshold : K)
    (ds : List (Detection K)) : Prop :=
  ∃ cols : List (Fin n), cols.Nodup ∧
    List.Forall₂ (DecodedFrom raw frameId cameraId scaleX scaleY classNames) cols ds ∧
    ∀ j ∉ cols, θ ≤ bestScore raw j →
      ∃ d ∈ ds, d.classId = bestClass raw j ∧ bestScore raw j ≤ d.confidence.val ∧
        iouThreshold < iou d.box.asXyxy (scaledBox raw scaleX scaleY j)

/-- The candidates can be listed by descending confidence such that per-class
suppression keeps no two overlapping boxes of different classes, and whatever it
drops overlaps a kept box that `_nms` visits earlier. -/
def ClassesApart (argsort : Argsort K) (raw : Matrix (Fin (4 + c)) (Fin n) K)
    (θ iouThreshold : K) : Prop :=
  ∃ order : List (Fin n), order.Perm (candidates raw θ) ∧
    order.Pairwise (fun i j => bestScore raw j ≤ bestScore raw i) ∧
    (∀ i ∈ perClass raw iouThreshold order, ∀ j ∈ perClass raw iouThreshold order,
      bestClass raw i ≠ bestClass raw j → ¬ Overlaps raw iouThreshold i j) ∧
    ∀ j ∈ candidates raw θ, j ∉ perClass raw iouThreshold order →
      ∃ i ∈ perClass raw iouThreshold order,
        Before (visited raw argsort θ) i j ∧ Overlaps raw iouThreshold i j

section
variable {raw : Matrix (Fin (4 + c)) (Fin n) K} {iouThreshold : K}

theorem overlaps_symm (i j : Fin n) (h : Overlaps raw iouThreshold i j) :
    Overlaps raw iouThreshold j i := by
  rwa [Overlaps, iou_comm]

/-- Per-class survivors of one class are apart anyway. -/
theorem perClass_apart {order : List (Fin n)} (hn : order.Nodup) :
    (∀ i ∈ perClass raw iouThreshold order, ∀ j ∈ perClass raw iouThreshold order,
      bestClass raw i ≠ bestClass raw j → ¬ Overlaps raw iouThreshold i j) ↔
    ∀ i ∈ perClass raw iouThreshold order, ∀ j ∈ perClass raw iouThreshold order,
      i ≠ j → ¬ Overlaps raw iouThreshold i j := by
  have hind := greedy_independent (r := OverlapsInClass raw iouThreshold) hn
    (fun i j h => ⟨h.1.symm, overlaps_symm i j h.2⟩)
  constructor
  · intro h i hi j hj hne ho
    by_cases hc : bestClass raw i = bestClass raw j
    · exact hind i hi j hj hne ⟨hc, ho⟩
    · exact h i hi j hj hc ho
  · intro h i hi j hj hc
    exact h i hi j hj (fun he => hc (he ▸ rfl))

theorem classesApart_iff {argsort : Argsort K} (ha : IsArgsort argsort) (θ : K) :
    ClassesApart argsort raw θ iouThreshold ↔
      ∀ j ∈ candidates raw θ, j ∉ returnedColumns raw argsort θ iouThreshold →
        ∃ i ∈ returnedColumns raw argsort θ iouThreshold,
          OverlapsInClass raw iouThreshold i j ∧ bestScore raw j ≤ bestScore raw i := by
  have hperm := visited_perm ha raw θ
  have hiff := dominated_within_iff (s := OverlapsInClass raw iouThreshold) (bestScore raw)
    (visited_nodup ha raw θ) overlaps_symm (fun _ _ h => h.2)
  simp only [hperm.mem_iff] at hiff
  refine Iff.trans ?_ hiff.symm
  refine exists_congr (fun order => ?_)
  constructor
  · rintro ⟨hp, hsort, hapart, hdom⟩
    have hn := hp.nodup_iff.mpr (candidates_nodup θ)
    exact ⟨hp.trans hperm.symm, hsort, (perClass_apart hn).mp hapart, hdom⟩
  · rintro ⟨hp, hsort, hapart, hdom⟩
    have hp := hp.trans hperm
    have hn := hp.nodup_iff.mpr (candidates_nodup θ)
    exact ⟨hp, hsort, (perClass_apart hn).mpr hapart, hdom⟩

/-- Without ties, `_nms` respects classes exactly if the per-class survivors of
different classes do not overlap. -/
theorem classesApart_iff_of_distinct {argsort : Argsort K} (ha : IsArgsort argsort) {θ : K}
    (hinj : ∀ i ∈ candidates raw θ, ∀ j ∈ candidates raw θ, bestScore raw i = bestScore raw j →
      i = j) :
    ClassesApart argsort raw θ iouThreshold ↔
      ∀ i ∈ perClass raw iouThreshold (visited raw argsort θ),
        ∀ j ∈ perClass raw iouThreshold (visited raw argsort θ),
          bestClass raw i ≠ bestClass raw j → ¬ Overlaps raw iouThreshold i j := by
  have hn := visited_nodup ha raw θ
  simp only [← (visited_perm ha raw θ).mem_iff] at hinj
  have hiff := dominated_within_iff_of_injOn (s := OverlapsInClass raw iouThreshold)
    (bestScore raw) hn overlaps_symm (fun _ _ h => h.2) (visited_descending ha raw θ) hinj
  simp only [(visited_perm ha raw θ).mem_iff] at hiff
  rw [classesApart_iff ha, perClass_apart hn]
  exact hiff

variable [IsStrictOrderedRing K]

/-- Which columns back the detections does not matter: two columns that could
back one detection overlap whatever the other overlaps. -/
theorem sameClass_iff_returned {argsort : Argsort K} (ha : IsArgsort argsort) (hc : 0 < c)
    (hscores : ∀ j k, 0 ≤ classScore raw j k ∧ classScore raw j k ≤ 1) (frameId cameraId : String)
    {scaleX scaleY : K} (hx : 0 < scaleX) (hy : 0 < scaleY) (classNames : Dict Int String) (θ : K) :
    (∃ ds, decodeYoloOutput argsort raw frameId cameraId scaleX scaleY classNames θ iouThreshold =
        .ok ds ∧
      SameClassSuppression raw frameId cameraId scaleX scaleY classNames θ iouThreshold ds) ↔
      ∀ j ∈ candidates raw θ, j ∉ returnedColumns raw argsort θ iouThreshold →
        ∃ i ∈ returnedColumns raw argsort θ iouThreshold,
          OverlapsInClass raw iouThreshold i j ∧ bestScore raw j ≤ bestScore raw i := by
  obtain ⟨ds, hds, hfrom⟩ := decode_eq ha hc hscores frameId cameraId scaleX scaleY classNames θ
    iouThreshold
  have hker := returned_kernel ha raw θ iouThreshold
  have hscale : ∀ i j : Fin n, iou (scaledBox raw scaleX scaleY i) (scaledBox raw scaleX scaleY j) =
      iou (columnBox raw i) (columnBox raw j) := fun i j => iou_scale hx hy _ _
  constructor
  · rintro ⟨ds', hds', cols, _, hcols, hdom⟩ j hj hnot
    obtain rfl : ds' = ds := Except.ok.inj (hds'.symm.trans hds)
    by_cases hjc : j ∈ cols
    · obtain ⟨d, hd, hdj⟩ := forall₂_mem hcols hjc
      obtain ⟨i, hi, hdi⟩ := forall₂_mem hfrom.flip hd
      obtain ⟨k, hk, _, ho⟩ :=
        hker.dominated ((mem_visited ha raw θ).mpr (mem_candidates.mp hj)) hnot
      have hbox : scaledBox raw scaleX scaleY i = scaledBox raw scaleX scaleY j :=
        hdi.box.symm.trans hdj.box
      have hki : Overlaps raw iouThreshold k i := by
        rw [Overlaps, ← hscale, hbox, hscale]
        exact ho
      obtain rfl : k = i := by
        by_contra hne
        exact greedy_independent (visited_nodup ha raw θ) overlaps_symm k hk i hi hne hki
      refine ⟨k, hk, ⟨?_, ho⟩, (hdj.confidence.symm.trans hdi.confidence).le⟩
      exact_mod_cast hdi.classId.symm.trans hdj.classId
    · obtain ⟨d, hd, hclass, hle, ho⟩ := hdom j hjc (mem_candidates.mp hj)
      obtain ⟨i, hi, h⟩ := forall₂_mem hfrom.flip hd
      refine ⟨i, hi, ⟨?_, ?_⟩, h.confidence ▸ hle⟩
      · exact_mod_cast h.classId.symm.trans hclass
      · rwa [h.box, hscale] at ho
  · intro hdom
    refine ⟨ds, hds, _, hker.sublist.nodup (visited_nodup ha raw θ), hfrom, fun j hj hs => ?_⟩
    obtain ⟨i, hi, ⟨hclass, ho⟩, hle⟩ := hdom j (mem_candidates.mpr hs) hj
    obtain ⟨d, hd, h⟩ := forall₂_mem hfrom hi
    refine ⟨d, hd, by rw [h.classId, hclass], h.confidence ▸ hle, ?_⟩
    rw [h.box, hscale]
    exact ho

end

/-- `_decode_yolo_output` returns the person only, and nothing of the bicycle's
class accounts for the bicycle. -/
theorem bicycle_suppressed : ∃ ds,
    decodeYoloOutput insertionArgsort personOnBicycle "frame" "cam-1" 1 1 Dict.empty (1 / 4)
      (9 / 20) = .ok ds ∧
    ¬ SameClassSuppression personOnBicycle "frame" "cam-1" 1 1 Dict.empty (1 / 4) (9 / 20) ds := by
  obtain ⟨ds, hds, _⟩ := decode_eq insertionArgsort_isArgsort Nat.two_pos personOnBicycle_scores
    "frame" "cam-1" 1 1 Dict.empty (1 / 4) (9 / 20)
  refine ⟨ds, hds, fun hsame => ?_⟩
  have hdom := (sameClass_iff_returned insertionArgsort_isArgsort Nat.two_pos personOnBicycle_scores
    "frame" "cam-1" one_pos one_pos Dict.empty (1 / 4)).mp ⟨ds, hds, hsame⟩
  have hvisited : visited personOnBicycle insertionArgsort (1 / 4) = [0, 1] := by decide +kernel
  have hover : Overlaps personOnBicycle (9 / 20) 0 1 := by decide +kernel
  have hreturned : returnedColumns personOnBicycle insertionArgsort (1 / 4) (9 / 20) = [0] := by
    rw [returnedColumns, hvisited, greedy]
    simp [compatible, hover, greedy]
  rw [hreturned] at hdom
  obtain ⟨i, hi, ⟨hclass, _⟩, _⟩ := hdom 1 (mem_candidates.mpr (by decide +kernel)) (by simp)
  rw [List.mem_singleton.mp hi] at hclass
  exact absurd hclass (by decide +kernel)

/-- `_nms` sees no classes, and this is when that makes no difference. -/
theorem decode_same_class_iff [IsStrictOrderedRing K] {argsort : Argsort K} (ha : IsArgsort argsort)
    {raw : Matrix (Fin (4 + c)) (Fin n) K} (hc : 0 < c)
    (hscores : ∀ j k, 0 ≤ classScore raw j k ∧ classScore raw j k ≤ 1) (frameId cameraId : String)
    {scaleX scaleY : K} (hx : 0 < scaleX) (hy : 0 < scaleY) (classNames : Dict Int String)
    (θ iouThreshold : K) :
    (∃ ds, decodeYoloOutput argsort raw frameId cameraId scaleX scaleY classNames θ iouThreshold =
        .ok ds ∧
      SameClassSuppression raw frameId cameraId scaleX scaleY classNames θ iouThreshold ds) ↔
      ClassesApart argsort raw θ iouThreshold :=
  (sameClass_iff_returned ha hc hscores frameId cameraId hx hy classNames θ).trans
    (classesApart_iff ha θ).symm

/-- A person found twice in one place, and a bicycle beside it. -/
def besideBicycle : Matrix (Fin (4 + 2)) (Fin 3) ℚ :=
  of ![![50, 52, 150], ![50, 50, 50], ![20, 20, 20], ![20, 20, 20], ![9 / 10, 8 / 10, 0],
    ![0, 0, 7 / 10]]

theorem besideBicycle_apart :
    ClassesApart insertionArgsort besideBicycle (1 / 4) (9 / 20) := by
  have hcandidates : candidates besideBicycle (1 / 4) = [0, 1, 2] := by decide +kernel
  have hvisited : visited besideBicycle insertionArgsort (1 / 4) = [0, 1, 2] := by decide +kernel
  have hsame : OverlapsInClass besideBicycle (9 / 20) 0 1 := by decide +kernel
  have hkept : perClass besideBicycle (9 / 20) [0, 1, 2] = [0, 2] := by
    have hdropped : compatible (OverlapsInClass besideBicycle (9 / 20)) 0 [1, 2] = [2] := by
      decide +kernel
    rw [perClass, greedy, hdropped, greedy_of_pairwise _ (List.pairwise_singleton _ _)]
  rw [ClassesApart, hcandidates, hvisited]
  refine ⟨[0, 1, 2], List.Perm.refl _, by decide +kernel, ?_, ?_⟩
  · rw [hkept]
    decide +kernel
  · rw [hkept]
    intro j hj hnot
    obtain rfl : j = 1 := by
      revert j
      decide
    exact ⟨0, by simp, List.sublist_append_left [0, 1] [2], hsame.2⟩

theorem decode_same_class_iff_beside : ∃ ds,
    decodeYoloOutput insertionArgsort besideBicycle "frame" "cam-1" 1 1 Dict.empty (1 / 4)
      (9 / 20) = .ok ds ∧
    SameClassSuppression besideBicycle "frame" "cam-1" 1 1 Dict.empty (1 / 4) (9 / 20) ds := by
  have hscores : ∀ j k, 0 ≤ classScore besideBicycle j k ∧ classScore besideBicycle j k ≤ 1 := by
    decide +kernel
  exact (decode_same_class_iff insertionArgsort_isArgsort Nat.two_pos hscores "frame" "cam-1"
    one_pos one_pos Dict.empty (1 / 4) (9 / 20)).mpr besideBicycle_apart

end CamTrack
