import CamTrack.Lib.Dict

/-! Grouped counts, as a query makes them, and sums by key, as a dictionary collects them. -/

namespace Grouping
open Python

section Count
variable {α κ τ : Type*} [DecidableEq κ] [DecidableEq τ] (key : α → κ) (label : α → τ)

/-- `COUNT(DISTINCT label)`. -/
def countDistinct (xs : List α) : Nat := (xs.map label).dedup.length

/-- `SELECT key, COUNT(DISTINCT label) ... GROUP BY key`. -/
def groupCount (xs : List α) : List (κ × Nat) :=
  (xs.map key).dedup.map (fun k => (k, countDistinct label (xs.filter (fun x => key x = k))))

variable {key label} {xs ys : List α}

theorem countDistinct_eq_card : countDistinct label xs = (xs.map label).toFinset.card := by
  rw [countDistinct, List.card_toFinset]

theorem countDistinct_congr (h : ∀ t, t ∈ xs.map label ↔ t ∈ ys.map label) :
    countDistinct label xs = countDistinct label ys := by
  rw [countDistinct_eq_card, countDistinct_eq_card]
  exact congrArg Finset.card (Finset.ext (by simpa using h))

theorem countDistinct_pos {x : α} (h : x ∈ xs) : 0 < countDistinct label xs := by
  rw [countDistinct_eq_card, Finset.card_pos]
  exact ⟨label x, by simpa using ⟨x, h, rfl⟩⟩

theorem exists_mem_of_countDistinct (h : 0 < countDistinct label xs) : ∃ x, x ∈ xs := by
  rw [countDistinct_eq_card, Finset.card_pos] at h
  obtain ⟨t, ht⟩ := h
  obtain ⟨x, hx, _⟩ := List.mem_map.mp (List.mem_toFinset.mp ht)
  exact ⟨x, hx⟩

theorem groupCount_keys (xs : List α) :
    (groupCount key label xs).map Prod.fst = (xs.map key).dedup := by
  simp [groupCount, Function.comp_def]

theorem groupCount_nodup (xs : List α) : ((groupCount key label xs).map Prod.fst).Nodup := by
  rw [groupCount_keys]
  exact List.nodup_dedup _

theorem mem_groupCount {k : κ} {count : Nat} : (k, count) ∈ groupCount key label xs ↔
    0 < count ∧ count = countDistinct label (xs.filter (fun x => key x = k)) := by
  simp only [groupCount, List.mem_map, List.mem_dedup, Prod.mk.injEq]
  constructor
  · rintro ⟨_, ⟨x, hx, rfl⟩, rfl, rfl⟩
    exact ⟨countDistinct_pos (List.mem_filter.mpr ⟨hx, by simp⟩), rfl⟩
  · rintro ⟨hpos, rfl⟩
    obtain ⟨x, hx⟩ := exists_mem_of_countDistinct hpos
    obtain ⟨hmem, hkey⟩ := List.mem_filter.mp hx
    exact ⟨k, ⟨x, hmem, by simpa using hkey⟩, rfl, rfl⟩

/-- Labels that tell the same elements apart are as many. -/
theorem countDistinct_eq_of_iff {τ' : Type*} [DecidableEq τ'] {label' : α → τ'}
    (h : ∀ x ∈ xs, ∀ y ∈ xs, label x = label y ↔ label' x = label' y) :
    countDistinct label xs = countDistinct label' xs := by
  let pairs := (xs.map (fun x => (label x, label' x))).toFinset
  have hpairs : ∀ q ∈ pairs, ∃ x ∈ xs, (label x, label' x) = q := by
    intro q hq
    exact List.mem_map.mp (List.mem_toFinset.mp hq)
  have hfst : (xs.map label).toFinset = pairs.image Prod.fst := by
    ext t
    simp [pairs]
  have hsnd : (xs.map label').toFinset = pairs.image Prod.snd := by
    ext t
    simp [pairs]
  rw [countDistinct_eq_card, countDistinct_eq_card, hfst, hsnd, Finset.card_image_of_injOn,
    Finset.card_image_of_injOn]
  · rintro q hq q' hq' heq
    obtain ⟨x, hx, rfl⟩ := hpairs q hq
    obtain ⟨y, hy, rfl⟩ := hpairs q' hq'
    exact Prod.ext ((h x hx y hy).mpr heq) heq
  · rintro q hq q' hq' heq
    obtain ⟨x, hx, rfl⟩ := hpairs q hq
    obtain ⟨y, hy, rfl⟩ := hpairs q' hq'
    exact Prod.ext heq ((h x hx y hy).mp heq)

/-- Counted key by key, over keys that miss none, the labels are as many as counted with
their keys. -/
theorem sum_countDistinct {ks : List κ} (hks : ks.Nodup) (hcover : ∀ x ∈ xs, key x ∈ ks) :
    (ks.map (fun k => countDistinct label (xs.filter (fun x => key x = k)))).sum =
      countDistinct (fun x => (key x, label x)) xs := by
  have hfiber := Finset.card_eq_sum_card_fiberwise (f := Prod.fst)
    (s := (xs.map (fun x => (key x, label x))).toFinset) (t := ks.toFinset) (by
      intro q hq
      simp only [List.coe_toFinset, List.mem_map, Set.mem_ofPred_eq] at hq
      obtain ⟨x, hx, rfl⟩ := hq
      simpa using hcover x hx)
  rw [countDistinct_eq_card, hfiber, ← List.sum_toFinset _ hks]
  refine Finset.sum_congr rfl (fun k _ => ?_)
  rw [countDistinct_eq_card, ← Finset.card_image_of_injective _ (Prod.mk_right_injective k)]
  congr 1
  ext ⟨k', t⟩
  simp only [Finset.mem_image, List.mem_toFinset, List.mem_map, List.mem_filter,
    Finset.mem_filter, Prod.mk.injEq, decide_eq_true_eq]
  constructor
  · rintro ⟨_, ⟨x, ⟨hx, hkey⟩, rfl⟩, rfl, rfl⟩
    exact ⟨⟨x, hx, hkey, rfl⟩, rfl⟩
  · rintro ⟨⟨x, hx, hkey, hlabel⟩, rfl⟩
    exact ⟨t, ⟨x, ⟨hx, hkey⟩, hlabel⟩, rfl, rfl⟩

/-- The groups that pass a test count all the pairs of a key and a label that do. -/
theorem sum_groupCount (p : κ → Bool) (xs : List α) :
    (((groupCount key label xs).filter (fun g => p g.1)).map Prod.snd).sum =
      countDistinct (fun x => (key x, label x)) (xs.filter (fun x => p (key x))) := by
  have hcover : ∀ x ∈ xs.filter (fun x => p (key x)), key x ∈ (xs.map key).dedup.filter p := by
    intro x hx
    obtain ⟨hmem, hp⟩ := List.mem_filter.mp hx
    exact List.mem_filter.mpr ⟨List.mem_dedup.mpr (List.mem_map_of_mem hmem), hp⟩
  rw [← sum_countDistinct ((List.nodup_dedup _).filter _) hcover, groupCount, List.filter_map,
    List.map_map]
  congr 1
  refine List.map_congr_left (fun k hk => congrArg (countDistinct label) ?_)
  have hp : p k = true := (List.mem_filter.mp hk).2
  rw [List.filter_filter]
  refine List.filter_congr (fun x _ => ?_)
  by_cases hkey : key x = k
  · simp [hkey, hp]
  · simp [hkey]

end Count

section Tally
variable {κ : Type*} [DecidableEq κ]

/-- `totals[k] = totals.get(k, 0) + n`, for every entry. -/
def tally (xs : List (κ × Nat)) : Dict κ Nat :=
  xs.foldl (fun totals x => totals.set x.1 ((totals.get? x.1).getD 0 + x.2)) .empty

theorem get?_tally (xs : List (κ × Nat)) (k : κ) : (tally xs).get? k =
    if k ∈ xs.map Prod.fst then some ((xs.filter (fun x => x.1 = k)).map Prod.snd).sum
    else none := by
  induction xs using List.reverseRecOn with
  | nil => rfl
  | append_singleton xs x ih =>
    have hstep : tally (xs ++ [x]) =
        (tally xs).set x.1 (((tally xs).get? x.1).getD 0 + x.2) := by
      simp [tally]
    rw [hstep, Dict.get?_set]
    by_cases hk : k = x.1
    · subst hk
      rw [ih]
      by_cases hmem : x.1 ∈ xs.map Prod.fst
      · simp [hmem]
      · have hnone : xs.filter (fun y => y.1 = x.1) = [] := by
          rw [List.filter_eq_nil_iff]
          intro y hy heq
          exact hmem (List.mem_map.mpr ⟨y, hy, by simpa using heq⟩)
        simp [hmem, hnone]
    · have hmem : k ∈ (xs ++ [x]).map Prod.fst ↔ k ∈ xs.map Prod.fst := by simp [hk]
      have hfilter : (xs ++ [x]).filter (fun y => y.1 = k) = xs.filter (fun y => y.1 = k) := by
        simp [Ne.symm hk]
      rw [if_neg hk, ih, hfilter]
      exact if_congr hmem.symm rfl rfl

end Tally

section Sorted
variable {α κ : Type*} [LinearOrder κ]

/-- `ORDER BY key`. -/
def sortOn (key : α → κ) (xs : List α) : List α :=
  xs.mergeSort (fun a b => decide (key a ≤ key b))

theorem sortOn_perm (key : α → κ) (xs : List α) : (sortOn key xs).Perm xs :=
  List.mergeSort_perm _ _

theorem mem_sortOn {key : α → κ} {xs : List α} {x : α} : x ∈ sortOn key xs ↔ x ∈ xs :=
  (sortOn_perm key xs).mem_iff

theorem sortOn_sorted {key : α → κ} {xs : List α} (h : (xs.map key).Nodup) :
    (sortOn key xs).Pairwise (fun a b => key a < key b) := by
  have hle : (sortOn key xs).Pairwise (fun a b => key a ≤ key b) := by
    have htrans : ∀ a b c : α, decide (key a ≤ key b) = true → decide (key b ≤ key c) = true →
        decide (key a ≤ key c) = true := by
      simpa using fun a b c => le_trans
    have htotal : ∀ a b : α, (decide (key a ≤ key b) || decide (key b ≤ key a)) = true := by
      simpa using fun a b => le_total (key a) (key b)
    exact (List.pairwise_mergeSort htrans htotal xs).imp of_decide_eq_true
  have hne : (sortOn key xs).Pairwise (fun a b => key a ≠ key b) :=
    List.pairwise_map.mp (((sortOn_perm key xs).map key).nodup_iff.mpr h)
  exact hle.imp₂ (fun _ _ hab hne => lt_of_le_of_ne hab hne) hne

end Sorted

end Grouping
