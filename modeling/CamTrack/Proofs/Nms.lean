import CamTrack.Detector
import CamTrack.Lib.Greedy
import CamTrack.Lib.Positions
import CamTrack.Proofs.Iou
import CamTrack.Proofs.Matching

namespace CamTrack
open Python Greedy Positions

/-- The documented behaviour of `argsort`: positions in the order of their
values. Which of several equal values comes first is left open. -/
structure IsArgsort {K : Type} [LinearOrder K] (argsort : Argsort K) : Prop where
  perm : ∀ scores, (argsort scores).Perm (List.range scores.length)
  sorted : ∀ scores, (pick scores (argsort scores)).Pairwise (· ≤ ·)

/-- The order `_nms` visits the candidates in. -/
def descending {K : Type} (argsort : Argsort K) (scores : List K) : List Nat :=
  (argsort scores).reverse

namespace IsArgsort
variable {K : Type} [LinearOrder K] {argsort : Argsort K} (ha : IsArgsort argsort) (scores : List K)
include ha

theorem descending_perm : (descending argsort scores).Perm (List.range scores.length) :=
  (List.reverse_perm _).trans (ha.perm scores)

theorem descending_nodup : (descending argsort scores).Nodup :=
  (ha.descending_perm scores).nodup_iff.mpr List.nodup_range

theorem mem_descending : i ∈ descending argsort scores ↔ i < scores.length :=
  (ha.descending_perm scores).mem_iff.trans List.mem_range

theorem pick_descending : (pick scores (descending argsort scores)).Pairwise (· ≥ ·) := by
  have hrev : pick scores (descending argsort scores) = (pick scores (argsort scores)).reverse := by
    simp [pick, descending, List.filterMap_reverse]
  rw [hrev, List.pairwise_reverse]
  exact ha.sorted scores

/-- What is visited ahead has at least the score. -/
theorem descending_le [Zero K] (h : Before (descending argsort scores) j i) :
    scores.getD i 0 ≤ scores.getD j 0 := by
  have hi : i < scores.length := (ha.mem_descending scores).mp h.right
  have hj : j < scores.length := (ha.mem_descending scores).mp h.left
  have hpair : (pick scores [j, i]).Sublist (pick scores (descending argsort scores)) :=
    pick_sublist scores h
  have hle := List.pairwise_iff_forall_sublist.mp (ha.pick_descending scores)
    (show [scores[j], scores[i]].Sublist _ by simpa [pick, hi, hj] using hpair)
  simpa [hi, hj] using hle

/-- Distinct scores leave one way to list scored elements in descending order. -/
theorem pick_zip_unique {xs xs' : List α} {scores scores' : List K}
    (hlen : xs.length = scores.length) (hlen' : xs'.length = scores'.length)
    (hp : (xs'.zip scores').Perm (xs.zip scores)) (hn : scores.Nodup) :
    pick (xs'.zip scores') (descending argsort scores') =
      pick (xs.zip scores) (descending argsort scores) := by
  have hall : ∀ (ys : List α) (ss : List K), ys.length = ss.length →
      (pick (ys.zip ss) (descending argsort ss)).Perm (ys.zip ss) ∧
      (pick (ys.zip ss) (descending argsort ss)).Pairwise (fun a b => a.2 ≥ b.2) := by
    intro ys ss hl
    have hsnd : (ys.zip ss).map Prod.snd = ss := List.map_snd_zip hl.ge
    refine ⟨?_, ?_⟩
    · have hperm := pick_perm (ys.zip ss) (ha.descending_perm ss)
      have hsize : (ys.zip ss).length = ss.length := by simp [hl]
      rwa [← hsize, pick_range] at hperm
    · have hsort := ha.pick_descending ss
      rw [← hsnd, pick_map, hsnd, List.pairwise_map] at hsort
      exact hsort
  obtain ⟨hperm, hsort⟩ := hall xs scores hlen
  obtain ⟨hperm', hsort'⟩ := hall xs' scores' hlen'
  refine (hperm'.trans (hp.trans hperm.symm)).eq_of_pairwise ?_ hsort' hsort
  intro a b hma hmb hab hba
  have hnd : ((xs.zip scores).map Prod.snd).Nodup := by rwa [List.map_snd_zip hlen.ge]
  exact List.inj_on_of_nodup_map hnd (hp.mem_iff.mp (hperm'.mem_iff.mp hma)) (hperm.mem_iff.mp hmb)
    (le_antisymm hba hab)

end IsArgsort

variable {K : Type} [Field K] [LinearOrder K]

/-- An argsort by insertion, which happens to be stable. -/
def insertionArgsort : Argsort K := fun scores =>
  (List.range scores.length).insertionSort (fun i j => scores.getD i 0 ≤ scores.getD j 0)

theorem insertionArgsort_isArgsort : IsArgsort (insertionArgsort : Argsort K) := by
  refine ⟨fun scores => List.perm_insertionSort _ _, fun scores => ?_⟩
  have : Std.Total (fun i j => scores.getD i 0 ≤ scores.getD j 0) := ⟨fun i j => le_total _ _⟩
  have : IsTrans Nat (fun i j => scores.getD i 0 ≤ scores.getD j 0) :=
    ⟨fun i j k hij hjk => le_trans hij hjk⟩
  have hsort := List.pairwise_insertionSort (fun i j => scores.getD i 0 ≤ scores.getD j 0)
    (List.range scores.length)
  refine List.Pairwise.filterMap _ (fun i j hij a ha b hb => ?_) hsort
  simpa [ha, hb] using hij

theorem maskSelect_map (f : α → β) (p : α → Bool) (xs : List α) :
    maskSelect (xs.map f) (xs.map p) = (xs.filter p).map f := by
  induction xs with
  | nil => rfl
  | cons x xs ih =>
    rw [List.filter_cons]
    cases hp : p x <;> simp [maskSelect, hp] at ih ⊢ <;> exact ih

theorem pairIou_comm (bs : List (Xyxy K)) (i j : Nat) : pairIou bs bs i j = pairIou bs bs j i := by
  simp only [pairIou]
  cases bs[i]? <;> cases bs[j]? <;> simp [iou_comm]

/-- One box suppresses another, by position. -/
abbrev Suppresses (boxes : List (Xyxy K)) (iouThreshold : K) (i j : Nat) : Prop :=
  iouThreshold < pairIou boxes boxes i j

theorem not_suppresses_symm {boxes : List (Xyxy K)} {θ : K} {ks : List Nat}
    (h : ks.Pairwise (fun i j => ¬ Suppresses boxes θ i j)) :
    ∀ i ∈ ks, ∀ j ∈ ks, i ≠ j → pairIou boxes boxes i j ≤ θ := by
  have hsymm : Std.Symm (fun i j => ¬ Suppresses boxes θ i j) :=
    ⟨fun i j hij => by rwa [Suppresses, pairIou_comm]⟩
  intro i hi j hj hne
  exact not_lt.mp (h.forall hi hj hne)

theorem iouXyxyParts_eq (a : Xyxy K) (bs : List (Xyxy K)) :
    iouXyxyParts a bs = (bs.map (intersection a), bs.map (union a)) := by
  simp only [iouXyxyParts, List.zipWith_self, List.zipWith_map_left, List.zipWith_map_right]
  rfl

/-- The second copy of the formula. -/
theorem iouXyxy_eq (a : Xyxy K) (bs : List (Xyxy K)) : iouXyxy a bs = bs.map (iou a) := by
  simp only [iouXyxy, iouXyxyParts_eq, List.zipWith_self, List.zipWith_map_left,
    List.zipWith_map_right]
  rfl

/-- The loop appends the greedy selection of what is left of the order. -/
theorem nmsLoop_eq (boxes : List (Xyxy K)) (θ : K) (order keep : List Nat)
    (h : ∀ i ∈ order, i < boxes.length) :
    nmsLoop boxes θ order keep = .ok (keep ++ greedy (Suppresses boxes θ) order) := by
  fun_induction greedy (Suppresses boxes θ) order generalizing keep with
  | case1 => simp [nmsLoop]
  | case2 i order ih =>
    have hi := h i List.mem_cons_self
    have ht : ∀ j ∈ order, j < boxes.length := fun j hj => h j (List.mem_cons_of_mem i hj)
    by_cases he : order.isEmpty
    · have hnil : order = [] := List.isEmpty_iff.mp he
      subst hnil
      simp [nmsLoop, compatible, greedy]
    · have hmask : maskSelect order ((iouXyxy boxes[i] (pick boxes order)).map (fun v => v ≤ θ)) =
          compatible (Suppresses boxes θ) i order := by
        have hrow : iouXyxy boxes[i] (pick boxes order) = order.map (pairIou boxes boxes i) := by
          clear ih he h
          induction order with
          | nil => rfl
          | cons j js ihj =>
            have hj := ht j List.mem_cons_self
            rw [pick_cons hj, List.map_cons, ← ihj (fun k hk => ht k (List.mem_cons_of_mem j hk))]
            simp [iouXyxy_eq, pairIou, hi, hj]
        rw [hrow, List.map_map]
        have hsel := maskSelect_map id (fun j => decide (pairIou boxes boxes i j ≤ θ)) order
        rw [List.map_id, List.map_id] at hsel
        refine hsel.trans (List.filter_congr (fun j _ => ?_))
        simp [Suppresses]
      rw [nmsLoop]
      simp only [he, Bool.false_eq_true, if_false, index_of_lt hi, mapM_index ht, except_bind_ok,
        hmask]
      rw [ih _ (fun j hj => ht j (List.mem_of_mem_filter hj))]
      simp

theorem nms_eq {argsort : Argsort K} (ha : IsArgsort argsort) {boxes : List (Xyxy K)}
    {scores : List K} (hlen : boxes.length = scores.length) (θ : K) :
    nms argsort boxes scores θ = .ok (greedy (Suppresses boxes θ) (descending argsort scores)) := by
  simpa [nms, descending] using nmsLoop_eq boxes θ (descending argsort scores) []
    (fun i hi => hlen ▸ (ha.mem_descending scores).mp hi)

/-- Selecting positions greedily is selecting the elements there greedily. -/
theorem pick_greedy {r : Nat → Nat → Prop} {s : α → α → Prop} [DecidableRel r] [DecidableRel s]
    {xs : List α} {is : List Nat} (hlt : ∀ i ∈ is, i < xs.length)
    (h : ∀ i j a b, xs[i]? = some a → xs[j]? = some b → (r i j ↔ s a b)) :
    pick xs (greedy r is) = greedy s (pick xs is) := by
  fun_induction greedy r is with
  | case1 => simp [greedy]
  | case2 i is ih =>
    have hi := hlt i List.mem_cons_self
    have ht : ∀ j ∈ is, j < xs.length := fun j hj => hlt j (List.mem_cons_of_mem i hj)
    have hrest : pick xs (compatible r i is) = compatible s xs[i] (pick xs is) := by
      refine pick_filter (fun j hj => ?_)
      have hj' := ht j hj
      refine ⟨xs[j], by simp [hj'], ?_⟩
      simp [h i j xs[i] xs[j] (by simp [hi]) (by simp [hj'])]
    rw [pick_cons hi, pick_cons hi, greedy, ← hrest,
      ih (fun j hj => ht j (List.mem_of_mem_filter hj))]

/-- The boxes with their scores, in the order the loop visits them. -/
theorem pick_kept {boxes : List (Xyxy K)} {scores : List K} (hlen : boxes.length = scores.length)
    (θ : K) {order : List Nat} (h : ∀ i ∈ order, i < boxes.length) :
    pick boxes (greedy (Suppresses boxes θ) order) =
      (greedy (fun a b => θ < iou a.1 b.1) (pick (boxes.zip scores) order)).map Prod.fst := by
  rw [← pick_greedy (r := Suppresses boxes θ), ← pick_map, List.map_fst_zip hlen.le]
  · simpa [hlen] using h
  · intro i j a b hi hj
    obtain ⟨hai, _⟩ := List.getElem?_zip_eq_some.mp hi
    obtain ⟨hbj, _⟩ := List.getElem?_zip_eq_some.mp hj
    rw [Suppresses, pairIou_eq hai hbj]

theorem pairIou_pick {boxes : List (Xyxy K)} {ks : List Nat} (h : ∀ i ∈ ks, i < boxes.length)
    (hi : ks[i]? = some a) (hj : ks[j]? = some b) :
    pairIou (pick boxes ks) (pick boxes ks) i j = pairIou boxes boxes a b := by
  simp [pairIou, getElem?_pick h, hi, hj]

/-- Everything `_nms` promises about the positions `ks` it returns. -/
structure Suppression (argsort : Argsort K) (boxes : List (Xyxy K)) (scores : List K) (θ : K)
    (ks : List Nat) : Prop where
  kernel : IsKernel (Suppresses boxes θ) (descending argsort scores) ks
  unique : ∀ ks', IsKernel (Suppresses boxes θ) (descending argsort scores) ks' → ks' = ks
  descending : (pick scores ks).Pairwise (· ≥ ·)
  nodup : ks.Nodup
  separated : ∀ i ∈ ks, ∀ j ∈ ks, i ≠ j → pairIou boxes boxes i j ≤ θ
  dominated : ∀ i < boxes.length, i ∉ ks →
    ∃ j ∈ ks, θ < pairIou boxes boxes j i ∧ scores.getD i 0 ≤ scores.getD j 0
  rerun : ∃ all, nms argsort (pick boxes ks) (pick scores ks) θ = .ok all ∧
    all.Perm (List.range ks.length)
  permuted : scores.Nodup → ∀ boxes' scores', boxes'.length = scores'.length →
    (boxes'.zip scores').Perm (boxes.zip scores) →
    ∃ ks', nms argsort boxes' scores' θ = .ok ks' ∧ pick boxes' ks' = pick boxes ks

theorem nms_rerun {argsort : Argsort K} (ha : IsArgsort argsort) {boxes : List (Xyxy K)}
    {scores : List K} (hlen : boxes.length = scores.length) {θ : K} {ks : List Nat}
    (hlt : ∀ i ∈ ks, i < boxes.length) (hnd : ks.Nodup)
    (hsep : ∀ i ∈ ks, ∀ j ∈ ks, i ≠ j → pairIou boxes boxes i j ≤ θ) :
    ∃ all, nms argsort (pick boxes ks) (pick scores ks) θ = .ok all ∧
      all.Perm (List.range ks.length) := by
  have hboxes := pick_length hlt
  have hscores : (pick scores ks).length = ks.length :=
    pick_length (fun i hi => hlen ▸ hlt i hi)
  refine ⟨_, nms_eq ha (hboxes.trans hscores.symm) θ, ?_⟩
  have hapart : (descending argsort (pick scores ks)).Pairwise
      (fun i j => ¬ Suppresses (pick boxes ks) θ i j) := by
    refine (ha.descending_nodup _).pairwise_of_forall_ne (fun i hi j hj hne => ?_)
    have hi : i < ks.length := hscores ▸ (ha.mem_descending _).mp hi
    have hj : j < ks.length := hscores ▸ (ha.mem_descending _).mp hj
    rw [Suppresses, pairIou_pick hlt (List.getElem?_eq_getElem hi) (List.getElem?_eq_getElem hj),
      not_lt]
    exact hsep _ (List.getElem_mem hi) _ (List.getElem_mem hj)
      (fun he => hne ((hnd.getElem_inj_iff).mp he))
  rw [greedy_of_pairwise _ hapart, ← hscores]
  exact ha.descending_perm _

theorem nms_suppression {argsort : Argsort K} (ha : IsArgsort argsort) {boxes : List (Xyxy K)}
    {scores : List K} (hlen : boxes.length = scores.length) (θ : K) :
    ∃ ks, nms argsort boxes scores θ = .ok ks ∧ Suppression argsort boxes scores θ ks := by
  have hnd := ha.descending_nodup scores
  have hker := greedy_kernel (Suppresses boxes θ) hnd
  have hlt : ∀ i ∈ greedy (Suppresses boxes θ) (descending argsort scores), i < boxes.length :=
    fun i hi => hlen ▸ (ha.mem_descending scores).mp (hker.sublist.subset hi)
  have hsep := not_suppresses_symm hker.pairwise
  refine ⟨_, nms_eq ha hlen θ, ?_⟩
  constructor
  case kernel => exact hker
  case unique => exact fun ks' h => h.unique hker hnd
  case descending => exact (ha.pick_descending scores).sublist (pick_sublist scores hker.sublist)
  case nodup => exact hker.sublist.nodup hnd
  case separated => exact hsep
  case dominated =>
    intro i hi hk
    obtain ⟨j, hj, hbefore, hr⟩ :=
      hker.dominated ((ha.mem_descending scores).mpr (hlen ▸ hi)) hk
    exact ⟨j, hj, hr, ha.descending_le scores hbefore⟩
  case rerun =>
    exact nms_rerun ha hlen hlt (hker.sublist.nodup hnd) hsep
  case permuted =>
    intro hn boxes' scores' hlen' hp
    refine ⟨_, nms_eq ha hlen' θ, ?_⟩
    rw [pick_kept hlen' θ (fun i hi => hlen' ▸ (ha.mem_descending scores').mp hi),
      pick_kept hlen θ (fun i hi => hlen ▸ (ha.mem_descending scores).mp hi),
      ha.pick_zip_unique hlen hlen' hp hn]

/-- A chain, whose ends overlap its middle only; the middle comes first. -/
def chain : List (Xyxy ℚ) := [⟨1, 0, 4, 1⟩, ⟨2, 0, 5, 1⟩, ⟨0, 0, 3, 1⟩]

/-- The middle, more confident than one end, is dropped for the other, and both ends are kept. -/
theorem nms_suppression_chain :
    nms insertionArgsort chain [8 / 10, 7 / 10, 9 / 10] (1 / 4) = .ok [2, 1] ∧
      Suppression insertionArgsort chain [8 / 10, 7 / 10, 9 / 10] (1 / 4) [2, 1] := by
  have hlen : chain.length = [8 / 10, 7 / 10, (9 / 10 : ℚ)].length := rfl
  have hkept : nms insertionArgsort chain [8 / 10, 7 / 10, 9 / 10] (1 / 4) = .ok [2, 1] := by
    decide +kernel
  obtain ⟨ks, hks, h⟩ := nms_suppression insertionArgsort_isArgsort hlen (1 / 4)
  obtain rfl : [2, 1] = ks := Except.ok.inj (hkept.symm.trans hks)
  exact ⟨hkept, h⟩

end CamTrack
