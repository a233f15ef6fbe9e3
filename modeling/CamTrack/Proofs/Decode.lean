import CamTrack.Proofs.Nms

namespace CamTrack
open Python Greedy Positions Matrix

variable {K : Type} [Field K] [LinearOrder K]

section Columns
variable (raw : Matrix (Fin (4 + c)) (Fin n) K)

/-- The score of class `k` in a column. -/
def classScore (j : Fin n) (k : Fin c) : K := raw (Fin.natAdd 4 k) j

def columnScores (j : Fin n) : List K := List.ofFn (classScore raw j)

def bestScore (j : Fin n) : K := (columnScores raw j).max?.getD 0

def bestClass (j : Fin n) : Nat := (columnScores raw j).idxOf (bestScore raw j)

/-- The box of a column in the model's input-pixel space. -/
def columnBox (j : Fin n) : Xyxy K := cornersOf (fun k => raw (Fin.castAdd c k) j)

/-- The columns that pass the confidence threshold. -/
def candidates (confidenceThreshold : K) : List (Fin n) :=
  (List.finRange n).filter (fun j => confidenceThreshold ≤ bestScore raw j)

/-- The candidates in the order `_nms` visits them. -/
def visited (argsort : Argsort K) (confidenceThreshold : K) : List (Fin n) :=
  pick (candidates raw confidenceThreshold)
    (descending argsort ((candidates raw confidenceThreshold).map (bestScore raw)))

/-- Column `i` overlaps column `j` by more than the threshold. -/
abbrev Overlaps (iouThreshold : K) (i j : Fin n) : Prop :=
  iouThreshold < iou (columnBox raw i) (columnBox raw j)

/-- The columns that suppression leaves, in the order it visits them. -/
def returnedColumns (argsort : Argsort K) (confidenceThreshold iouThreshold : K) : List (Fin n) :=
  greedy (Overlaps raw iouThreshold) (visited raw argsort confidenceThreshold)

end Columns

section Scores
variable {raw : Matrix (Fin (4 + c)) (Fin n) K}

theorem bestScore_spec (raw : Matrix (Fin (4 + c)) (Fin n) K) (hc : 0 < c) (j : Fin n) :
    (columnScores raw j).max? = some (bestScore raw j) ∧ bestScore raw j ∈ columnScores raw j ∧
      ∀ k, classScore raw j k ≤ bestScore raw j := by
  obtain ⟨m, hm⟩ : ∃ m, (columnScores raw j).max? = some m := by
    refine Option.isSome_iff_exists.mp (List.isSome_max?_of_ne_nil ?_)
    intro hnil
    have hlen := congrArg List.length hnil
    simp [columnScores] at hlen
    omega
  have hbest : bestScore raw j = m := by simp [bestScore, hm]
  rw [hbest]
  obtain ⟨hmem, hle⟩ := List.max?_eq_some_iff.mp hm
  exact ⟨hm, hmem, fun k => hle _ ((List.mem_ofFn' _ _).mpr ⟨k, rfl⟩)⟩

theorem bestClass_spec (raw : Matrix (Fin (4 + c)) (Fin n) K) (hc : 0 < c) (j : Fin n) :
    ∃ k : Fin c, bestClass raw j = k ∧ classScore raw j k = bestScore raw j := by
  obtain ⟨_, hmem, _⟩ := bestScore_spec raw hc j
  have hlt : bestClass raw j < (columnScores raw j).length := List.idxOf_lt_length_of_mem hmem
  have hget : (columnScores raw j)[bestClass raw j] = bestScore raw j := List.getElem_idxOf hlt
  refine ⟨⟨bestClass raw j, by simpa [columnScores] using hlt⟩, rfl, ?_⟩
  simpa [columnScores] using hget

theorem mem_candidates {θ : K} : j ∈ candidates raw θ ↔ θ ≤ bestScore raw j := by
  simp [candidates]

theorem candidates_nodup (θ : K) : (candidates raw θ).Nodup :=
  (List.nodup_finRange n).filter _

end Scores

section Order
variable {argsort : Argsort K} (ha : IsArgsort argsort) (raw : Matrix (Fin (4 + c)) (Fin n) K)
  (θ : K)
include ha

theorem visited_perm : (visited raw argsort θ).Perm (candidates raw θ) := by
  have hperm := pick_perm (candidates raw θ)
    (ha.descending_perm ((candidates raw θ).map (bestScore raw)))
  rwa [List.length_map, pick_range] at hperm

theorem visited_nodup : (visited raw argsort θ).Nodup :=
  (visited_perm ha raw θ).nodup_iff.mpr (candidates_nodup θ)

theorem mem_visited : j ∈ visited raw argsort θ ↔ θ ≤ bestScore raw j :=
  (visited_perm ha raw θ).mem_iff.trans mem_candidates

theorem visited_descending :
    (visited raw argsort θ).Pairwise (fun i j => bestScore raw j ≤ bestScore raw i) := by
  have hsort := ha.pick_descending ((candidates raw θ).map (bestScore raw))
  rw [pick_map, List.pairwise_map] at hsort
  exact hsort

end Order

/-- The box of a column in original-image coordinates. -/
def scaledBox (raw : Matrix (Fin (4 + c)) (Fin n) K) (scaleX scaleY : K) (j : Fin n) : Xyxy K :=
  (columnBox raw j).scale scaleX scaleY

/-- A detection read off one column. -/
structure DecodedFrom (raw : Matrix (Fin (4 + c)) (Fin n) K) (frameId cameraId : String)
    (scaleX scaleY : K) (classNames : Dict Int String) (j : Fin n) (d : Detection K) : Prop where
  frame : d.frameId = frameId
  camera : d.cameraId = cameraId
  box : d.box.asXyxy = scaledBox raw scaleX scaleY j
  classId : d.classId = bestClass raw j
  className : d.className = (classNames.get? d.classId).getD (toString d.classId)
  confidence : d.confidence.val = bestScore raw j

theorem reduceAxis1_eq {f : List α → Except Error β} {g : Fin n → β} {rows : Fin n → Fin c → α}
    (hc : 0 < c) (h : ∀ j, f (List.ofFn (rows j)) = .ok (g j)) :
    reduceAxis1 f ((List.finRange n).map rows) = .ok ((List.finRange n).map g) := by
  rw [reduceAxis1, if_neg hc.ne', List.mapM_map]
  exact mapM_ok _ g _ (fun j _ => h j)

/-- Suppression of the candidates' boxes, read as a selection of columns. -/
theorem pick_candidates {argsort : Argsort K} (ha : IsArgsort argsort)
    (raw : Matrix (Fin (4 + c)) (Fin n) K) (θ iouThreshold : K) :
    pick (candidates raw θ)
      (greedy (Suppresses ((candidates raw θ).map (columnBox raw)) iouThreshold)
        (descending argsort ((candidates raw θ).map (bestScore raw)))) =
      returnedColumns raw argsort θ iouThreshold := by
  refine pick_greedy (fun i hi => ?_) (fun i j a b hi hj => ?_)
  · simpa using (ha.mem_descending _).mp hi
  · rw [Suppresses, pairIou_eq (a := columnBox raw a) (b := columnBox raw b) (by simp [hi])
      (by simp [hj])]

theorem forall₂_pick {xs : List α} {is : List Nat} {ys : List β} {R : α → β → Prop}
    (h : List.Forall₂ (fun i y => ∃ x, xs[i]? = some x ∧ R x y) is ys) :
    List.Forall₂ R (pick xs is) ys := by
  induction h with
  | nil => exact .nil
  | cons hr _ ih =>
    obtain ⟨x, hx, hr⟩ := hr
    simpa [pick, hx] using List.Forall₂.cons hr ih

theorem bestScore_bound {raw : Matrix (Fin (4 + c)) (Fin n) K} (hc : 0 < c)
    (hscores : ∀ j k, 0 ≤ classScore raw j k ∧ classScore raw j k ≤ 1) (j : Fin n) :
    0 ≤ bestScore raw j ∧ bestScore raw j ≤ 1 := by
  obtain ⟨k, _, hk⟩ := bestClass_spec raw hc j
  exact hk ▸ hscores j k

/-- `_decode_yolo_output` returns one detection for each selected column. -/
theorem decode_eq {argsort : Argsort K} (ha : IsArgsort argsort)
    {raw : Matrix (Fin (4 + c)) (Fin n) K} (hc : 0 < c)
    (hscores : ∀ j k, 0 ≤ classScore raw j k ∧ classScore raw j k ≤ 1) (frameId cameraId : String)
    (scaleX scaleY : K) (classNames : Dict Int String) (θ iouThreshold : K) :
    ∃ ds, decodeYoloOutput argsort raw frameId cameraId scaleX scaleY classNames θ iouThreshold =
        .ok ds ∧
      List.Forall₂ (DecodedFrom raw frameId cameraId scaleX scaleY classNames)
        (returnedColumns raw argsort θ iouThreshold) ds := by
  have hrows : ((List.finRange n).map (fun j k => rawᵀ j k)).map (fun p k => p (Fin.natAdd 4 k)) =
      (List.finRange n).map (classScore raw) := by
    rw [List.map_map]
    rfl
  have hids : reduceAxis1 argmax ((List.finRange n).map (classScore raw)) =
      .ok ((List.finRange n).map (bestClass raw)) := by
    refine reduceAxis1_eq hc (fun j => ?_)
    rw [argmax, ← columnScores, (bestScore_spec raw hc j).1, bestClass]
  have hconf : reduceAxis1 amax ((List.finRange n).map (classScore raw)) =
      .ok ((List.finRange n).map (bestScore raw)) := by
    refine reduceAxis1_eq hc (fun j => ?_)
    rw [amax, ← columnScores, (bestScore_spec raw hc j).1]
  have hmask : ((List.finRange n).map (bestScore raw)).map (fun v => decide (v ≥ θ)) =
      (List.finRange n).map (fun j => decide (θ ≤ bestScore raw j)) := by
    rw [List.map_map]
    rfl
  simp only [decodeYoloOutput, hrows, hids, hconf, hmask, except_bind_ok]
  split
  case isTrue hnone =>
    have hnil : candidates raw θ = [] := by
      refine List.filter_eq_nil_iff.mpr (fun j hj => ?_)
      simp at hnone
      simpa using hnone j
    have hperm := visited_perm ha raw θ
    rw [hnil, List.perm_nil] at hperm
    exact ⟨[], rfl, by rw [returnedColumns, hperm, greedy]; exact .nil⟩
  case isFalse =>
    have hxyxy : (maskSelect (((List.finRange n).map (fun j k => rawᵀ j k)).map
          (fun p k => p (Fin.castAdd c k)))
          ((List.finRange n).map (fun j => decide (θ ≤ bestScore raw j)))).map cornersOf =
        (candidates raw θ).map (columnBox raw) := by
      rw [List.map_map, maskSelect_map, List.map_map]
      rfl
    have hclasses := maskSelect_map (bestClass raw) (fun j => decide (θ ≤ bestScore raw j))
      (List.finRange n)
    have hconfs := maskSelect_map (bestScore raw) (fun j => decide (θ ≤ bestScore raw j))
      (List.finRange n)
    rw [← candidates] at hclasses hconfs
    have hsize : ((candidates raw θ).map (columnBox raw)).length =
        ((candidates raw θ).map (bestScore raw)).length := by simp
    have hnms := nms_eq ha hsize iouThreshold
    simp only [hxyxy, hclasses, hconfs, hnms, except_bind_ok]
    rw [← pick_candidates ha]
    refine Exists.imp (fun ds h => ⟨h.1, forall₂_pick h.2⟩) (mapM_forall₂ (fun i hi => ?_))
    have hlt : i < (candidates raw θ).length := by
      simpa using (ha.mem_descending _).mp ((greedy_sublist _ _).subset hi)
    obtain ⟨j, hj⟩ : ∃ j, (candidates raw θ)[i]? = some j := ⟨_, List.getElem?_eq_getElem hlt⟩
    have hget : ∀ {β : Type} (g : Fin n → β),
        index ((candidates raw θ).map g) i = .ok (g j) :=
      fun g => index_of_getElem? (by simp [hj])
    have hbound := bestScore_bound hc hscores j
    simp only [hget, except_bind_ok, validateConfidence, dif_pos hbound, except_pure]
    refine ⟨_, rfl, j, hj, ?_⟩
    constructor <;> rfl

theorem forall₂_pairwise {R : α → β → Prop} {P : α → α → Prop} {Q : β → β → Prop} {xs : List α}
    {ys : List β} (h : List.Forall₂ R xs ys) (hp : xs.Pairwise P)
    (hpq : ∀ x y x' y', R x y → R x' y' → P x x' → Q y y') : ys.Pairwise Q := by
  induction h with
  | nil => exact .nil
  | cons hr hrs ih =>
    obtain ⟨hx, hp⟩ := List.pairwise_cons.mp hp
    refine List.pairwise_cons.mpr ⟨fun y' hy' => ?_, ih hp⟩
    obtain ⟨x', hx', hr'⟩ := forall₂_mem (List.Forall₂.flip hrs) hy'
    exact hpq _ _ _ _ hr hr' (hx x' hx')

section Returned
variable {argsort : Argsort K} (ha : IsArgsort argsort) {raw : Matrix (Fin (4 + c)) (Fin n) K}
  {θ iouThreshold : K}
include ha

/-- The columns that suppression selects are the kernel of the visiting order. -/
theorem returned_kernel (raw : Matrix (Fin (4 + c)) (Fin n) K) (θ iouThreshold : K) :
    IsKernel (Overlaps raw iouThreshold) (visited raw argsort θ)
      (returnedColumns raw argsort θ iouThreshold) :=
  greedy_kernel _ (visited_nodup ha raw θ)

theorem best_of_before (h : Before (visited raw argsort θ) i j) :
    bestScore raw j ≤ bestScore raw i :=
  h.rel (visited_descending ha raw θ)

end Returned

/-- What the detections `ds`, read off the columns `cols`, have in common with
the raw tensor. -/
structure Decoded (raw : Matrix (Fin (4 + c)) (Fin n) K) (scaleX scaleY θ iouThreshold : K)
    (cols : List (Fin n)) (ds : List (Detection K)) : Prop where
  distinct : cols.Nodup
  box : List.Forall₂ (fun j d => d.box.asXyxy = scaledBox raw scaleX scaleY j) cols ds
  best : List.Forall₂ (fun j d => ∃ k : Fin c, d.classId = (k.val : Int) ∧
    d.confidence.val = classScore raw j k ∧ ∀ k', classScore raw j k' ≤ d.confidence.val) cols ds
  confident : ∀ d ∈ ds, θ ≤ d.confidence.val
  descending : ds.Pairwise (fun d d' => d'.confidence.val ≤ d.confidence.val)
  separated : ds.Pairwise (fun d d' => iou d.box.asXyxy d'.box.asXyxy ≤ iouThreshold)
  dominated : ∀ j ∉ cols, ∀ k, θ ≤ classScore raw j k →
    ∃ d ∈ ds, iouThreshold < iou d.box.asXyxy (scaledBox raw scaleX scaleY j) ∧
      ∀ k', classScore raw j k' ≤ d.confidence.val

theorem decode_correct [IsStrictOrderedRing K] {argsort : Argsort K} (ha : IsArgsort argsort)
    {raw : Matrix (Fin (4 + c)) (Fin n) K} (hc : 0 < c)
    (hscores : ∀ j k, 0 ≤ classScore raw j k ∧ classScore raw j k ≤ 1) (frameId cameraId : String)
    {scaleX scaleY : K} (hx : 0 < scaleX) (hy : 0 < scaleY) (classNames : Dict Int String)
    (θ iouThreshold : K) :
    ∃ ds cols, decodeYoloOutput argsort raw frameId cameraId scaleX scaleY classNames θ
      iouThreshold = .ok ds ∧ Decoded raw scaleX scaleY θ iouThreshold cols ds := by
  obtain ⟨ds, hds, hfrom⟩ := decode_eq ha hc hscores frameId cameraId scaleX scaleY classNames θ
    iouThreshold
  have hker := returned_kernel ha raw θ iouThreshold
  refine ⟨ds, returnedColumns raw argsort θ iouThreshold, hds, ?_⟩
  constructor
  case distinct => exact hker.sublist.nodup (visited_nodup ha raw θ)
  case box => exact hfrom.imp (fun _ _ h => h.box)
  case best =>
    refine hfrom.imp (fun j d h => ?_)
    obtain ⟨k, hk, hs⟩ := bestClass_spec raw hc j
    exact ⟨k, by rw [h.classId, hk], by rw [h.confidence, hs],
      fun k' => h.confidence ▸ (bestScore_spec raw hc j).2.2 k'⟩
  case confident =>
    intro d hd
    obtain ⟨j, hj, h⟩ := forall₂_mem hfrom.flip hd
    exact h.confidence ▸ (mem_visited ha raw θ).mp (hker.sublist.subset hj)
  case descending =>
    refine forall₂_pairwise hfrom ((visited_descending ha raw θ).sublist hker.sublist) ?_
    intro j d j' d' h h' hle
    rwa [h.confidence, h'.confidence]
  case separated =>
    refine forall₂_pairwise hfrom hker.pairwise ?_
    intro j d j' d' h h' hnot
    rw [h.box, h'.box, scaledBox, scaledBox, iou_scale hx hy]
    exact not_lt.mp hnot
  case dominated =>
    intro j hj k hk
    have hcand := hk.trans ((bestScore_spec raw hc j).2.2 k)
    obtain ⟨i, hi, hbefore, hr⟩ := hker.dominated ((mem_visited ha raw θ).mpr hcand) hj
    obtain ⟨d, hd, h⟩ := forall₂_mem hfrom hi
    refine ⟨d, hd, ?_, fun k' => ?_⟩
    · rw [h.box, scaledBox, scaledBox, iou_scale hx hy]
      exact hr
    · rw [h.confidence]
      exact ((bestScore_spec raw hc j).2.2 k').trans (best_of_before ha hbefore)

/-- A person and a bicycle in one place, the person slightly more confident. -/
def personOnBicycle : Matrix (Fin (4 + 2)) (Fin 2) ℚ :=
  of ![![50, 50], ![50, 50], ![20, 20], ![20, 20], ![9 / 10, 0], ![0, 8 / 10]]

theorem personOnBicycle_scores : ∀ j k,
    0 ≤ classScore personOnBicycle j k ∧ classScore personOnBicycle j k ≤ 1 := by
  decide +kernel

theorem decode_correct_bicycle : ∃ ds cols,
    decodeYoloOutput insertionArgsort personOnBicycle "frame" "cam-1" 2 1 Dict.empty (1 / 4)
      (9 / 20) = .ok ds ∧ Decoded personOnBicycle 2 1 (1 / 4) (9 / 20) cols ds :=
  decode_correct insertionArgsort_isArgsort Nat.two_pos personOnBicycle_scores "frame" "cam-1"
    two_pos one_pos Dict.empty (1 / 4) (9 / 20)

end CamTrack
