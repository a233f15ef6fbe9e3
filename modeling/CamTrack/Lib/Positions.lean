import CamTrack.Lib.Assignment
import CamTrack.Lib.Dict

/-! Lists of positions into other lists, as index bookkeeping produces them. -/

namespace Positions
open Python Assignment

/-- The elements of `xs` at the positions `is`, in the order of `is`. -/
def pick (xs : List α) (is : List Nat) : List α := is.filterMap (fun i => xs[i]?)

@[simp] theorem pick_nil (xs : List α) : pick xs [] = [] := rfl

theorem pick_cons {xs : List α} (h : i < xs.length) (is : List Nat) :
    pick xs (i :: is) = xs[i] :: pick xs is := by
  simp [pick, h]

theorem pick_range (xs : List α) : pick xs (List.range xs.length) = xs := by
  induction xs with
  | nil => rfl
  | cons x xs ih =>
    rw [List.length_cons, List.range_succ_eq_map, pick_cons (by simp)]
    simpa [pick, List.filterMap_map, Function.comp_def] using ih

theorem pick_perm (xs : List α) {is js : List Nat} (h : is.Perm js) :
    (pick xs is).Perm (pick xs js) :=
  h.filterMap _

theorem pick_append (xs : List α) (is js : List Nat) :
    pick xs (is ++ js) = pick xs is ++ pick xs js := by
  simp [pick]

theorem pick_length {xs : List α} {is : List Nat} (h : ∀ i ∈ is, i < xs.length) :
    (pick xs is).length = is.length := by
  induction is with
  | nil => rfl
  | cons i is ih =>
    rw [pick_cons (h i List.mem_cons_self)]
    simp [ih (fun j hj => h j (List.mem_cons_of_mem i hj))]

theorem mem_pick {xs : List α} {is : List Nat} {x : α} :
    x ∈ pick xs is ↔ ∃ i ∈ is, xs[i]? = some x := by
  simp [pick]

theorem pick_sublist (xs : List α) {is js : List Nat} (h : is.Sublist js) :
    (pick xs is).Sublist (pick xs js) :=
  h.filterMap _

/-- A test on positions that agrees with a test on elements. -/
theorem pick_filter {xs : List α} {is : List Nat} {q : Nat → Bool} {p : α → Bool}
    (h : ∀ i ∈ is, ∃ x, xs[i]? = some x ∧ q i = p x) :
    pick xs (is.filter q) = (pick xs is).filter p := by
  induction is with
  | nil => rfl
  | cons i is ih =>
    obtain ⟨x, hx, hq⟩ := h i List.mem_cons_self
    obtain ⟨hi, rfl⟩ := List.getElem?_eq_some_iff.mp hx
    have ht := ih (fun j hj => h j (List.mem_cons_of_mem i hj))
    rw [pick_cons hi, List.filter_cons, List.filter_cons, hq]
    split
    · rw [pick_cons hi, ht]
    · exact ht

theorem getElem?_pick {xs : List α} {is : List Nat} (h : ∀ i ∈ is, i < xs.length) (j : Nat) :
    (pick xs is)[j]? = (is[j]?).bind (fun i => xs[i]?) := by
  induction is generalizing j with
  | nil => simp
  | cons i is ih =>
    have hi := h i List.mem_cons_self
    rw [pick_cons hi]
    cases j with
    | zero => simp [hi]
    | succ j => simpa using ih (fun k hk => h k (List.mem_cons_of_mem i hk)) j

/-- Picking from a pick composes the positions. -/
theorem pick_pick {xs : List α} {is : List Nat} (h : ∀ i ∈ is, i < xs.length) (js : List Nat) :
    pick (pick xs is) js = pick xs (pick is js) := by
  induction js with
  | nil => rfl
  | cons j js ih =>
    have hget := getElem?_pick h j
    simp only [pick, List.filterMap_cons] at ih hget ⊢
    rw [hget]
    cases hj : is[j]? with
    | none => simpa using ih
    | some i =>
      have hi : i < xs.length := h i (List.mem_of_getElem? hj)
      simpa [hi] using ih

theorem pick_map (f : α → β) (xs : List α) (is : List Nat) :
    pick (xs.map f) is = (pick xs is).map f := by
  simp [pick, List.map_filterMap]

/-- Lists that are permutations of each other, read through a renumbering of
their positions. -/
theorem exists_reindex {xs ys : List α} (h : ys.Perm xs) :
    ∃ β : Equiv.Perm ℕ, (∀ j : Nat, ys[j]? = xs[β j]?) ∧ ∀ j, xs.length ≤ j → β j = j := by
  induction h with
  | nil => exact ⟨Equiv.refl ℕ, fun _ => rfl, fun _ _ => rfl⟩
  | cons x h ih =>
    obtain ⟨β, hget, hfix⟩ := ih
    let up (f : ℕ → ℕ) (j : ℕ) : ℕ := j.casesOn 0 (fun i => f i + 1)
    have hinverse : ∀ f g : ℕ → ℕ, Function.LeftInverse f g →
        Function.LeftInverse (up f) (up g) := by
      intro f g hfg j
      cases j with
      | zero => rfl
      | succ j => exact congrArg (· + 1) (hfg j)
    refine ⟨⟨up β, up β.symm, hinverse _ _ β.left_inv, hinverse _ _ β.right_inv⟩, ?_, ?_⟩
    · intro j
      cases j with
      | zero => rfl
      | succ j => simpa [up] using hget j
    · intro j hj
      cases j with
      | zero => rfl
      | succ j => exact congrArg (· + 1) (hfix j (by simpa using hj))
  | swap x y l =>
    refine ⟨Equiv.swap 0 1, fun j => ?_, fun j hj => ?_⟩
    · match j with
      | 0 => simp
      | 1 => simp
      | j + 2 => rw [Equiv.swap_apply_of_ne_of_ne (by omega) (by omega)]; simp
    · simp only [List.length_cons] at hj
      exact Equiv.swap_apply_of_ne_of_ne (by omega) (by omega)
  | trans h1 h2 ih1 ih2 =>
    obtain ⟨β, hget, hfix⟩ := ih1
    obtain ⟨γ, hget', hfix'⟩ := ih2
    refine ⟨β.trans γ, fun j => ?_, fun j hj => ?_⟩
    · rw [hget j, hget' (β j)]
      rfl
    · rw [Equiv.trans_apply, hfix j (by rw [h2.length_eq]; exact hj), hfix' j hj]

theorem reindex_lt {xs ys : List α} {β : Equiv.Perm ℕ} (h : ∀ j : Nat, ys[j]? = xs[β j]?) (j : ℕ) :
    β j < xs.length ↔ j < ys.length := by
  rw [← not_le, ← not_le, not_iff_not, ← List.getElem?_eq_none_iff, ← List.getElem?_eq_none_iff, h]

theorem perm_of_reindex {xs ys : List α} {β : Equiv.Perm ℕ} (h : ∀ j : Nat, ys[j]? = xs[β j]?)
    (hlen : ys.length = xs.length) : ys.Perm xs := by
  have hrange : ((List.range ys.length).map β).Perm (List.range xs.length) := by
    refine perm_range (List.nodup_range.map β.injective) (fun i hi => ?_) (by simp [hlen])
    obtain ⟨j, hj, rfl⟩ := List.mem_map.mp hi
    exact (reindex_lt h j).mpr (List.mem_range.mp hj)
  have hys : pick xs ((List.range ys.length).map β) = ys := by
    conv_rhs => rw [← pick_range ys]
    simp [pick, List.filterMap_map, h]
  have hperm := pick_perm xs hrange
  rwa [hys, pick_range] at hperm

/-- A comprehension of in-range lookups. -/
theorem mapM_index {xs : List α} {is : List Nat} (h : ∀ i ∈ is, i < xs.length) :
    is.mapM (fun i => index xs i) = .ok (pick xs is) := by
  induction is with
  | nil => rfl
  | cons i is ih =>
    have hi := h i List.mem_cons_self
    rw [List.mapM_cons, index_of_lt hi, ih (fun j hj => h j (List.mem_cons_of_mem i hj)),
      pick_cons hi]
    rfl

/-- The pairs of elements named by pairs of positions. -/
def assigned (xs : List α) (ys : List β) (ps : List (Nat × Nat)) : List (α × β) :=
  ps.filterMap (fun p => (xs[p.1]?).bind (fun x => (ys[p.2]?).map (fun y => (x, y))))

theorem assigned_cons {xs : List α} {ys : List β} {p : Nat × Nat} (h1 : p.1 < xs.length)
    (h2 : p.2 < ys.length) (ps : List (Nat × Nat)) :
    assigned xs ys (p :: ps) = (xs[p.1], ys[p.2]) :: assigned xs ys ps := by
  simp [assigned, h1, h2]

/-- Pairs named by renumbered positions. -/
theorem assigned_reindex {xs xs' : List α} {ys ys' : List β} {f g : ℕ → ℕ}
    (hx : ∀ i : Nat, xs'[i]? = xs[f i]?) (hy : ∀ j : Nat, ys'[j]? = ys[g j]?)
    (ps : List (Nat × Nat)) : assigned xs' ys' ps = assigned xs ys (ps.map (Prod.map f g)) := by
  simp [assigned, List.filterMap_map, hx, hy]

theorem assigned_map_fst (f : α → γ) (xs : List α) (ys : List β) (ps : List (Nat × Nat)) :
    assigned (xs.map f) ys ps = (assigned xs ys ps).map (Prod.map f id) := by
  simp only [assigned, List.map_filterMap, List.getElem?_map]
  refine List.filterMap_congr (fun p _ => ?_)
  cases xs[p.1]? <;> cases ys[p.2]? <;> rfl

section Matching
variable {xs : List α} {ys : List β} {ps : List (Nat × Nat)}

theorem mem_assigned {x : α} {y : β} :
    (x, y) ∈ assigned xs ys ps ↔ ∃ i j, (i, j) ∈ ps ∧ xs[i]? = some x ∧ ys[j]? = some y := by
  simp only [assigned, List.mem_filterMap, Option.bind_eq_some_iff, Option.map_eq_some_iff,
    Prod.exists, Prod.mk.injEq]
  constructor
  · intro hx
    obtain ⟨i, j, hp, x', hx, y', hy, rfl, rfl⟩ := hx
    exact ⟨i, j, hp, hx, hy⟩
  · intro hx
    obtain ⟨i, j, hp, hx, hy⟩ := hx
    exact ⟨i, j, hp, x, hx, y, hy, rfl, rfl⟩

theorem assigned_fst (h : IsMatching xs.length ys.length ps) :
    (assigned xs ys ps).map Prod.fst = pick xs (ps.map Prod.fst) := by
  have hr := h.inRange
  clear h
  induction ps with
  | nil => rfl
  | cons p ps ih =>
    obtain ⟨h1, h2⟩ := hr p List.mem_cons_self
    rw [assigned_cons h1 h2, List.map_cons, List.map_cons, pick_cons h1,
      ih (fun q hq => hr q (List.mem_cons_of_mem p hq))]

theorem assigned_snd (h : IsMatching xs.length ys.length ps) :
    (assigned xs ys ps).map Prod.snd = pick ys (ps.map Prod.snd) := by
  have hr := h.inRange
  clear h
  induction ps with
  | nil => rfl
  | cons p ps ih =>
    obtain ⟨h1, h2⟩ := hr p List.mem_cons_self
    rw [assigned_cons h1 h2, List.map_cons, List.map_cons, pick_cons h2,
      ih (fun q hq => hr q (List.mem_cons_of_mem p hq))]

theorem pick_nodup {is : List Nat} (hx : xs.Nodup) (hi : is.Nodup) : (pick xs is).Nodup := by
  apply hi.filterMap
  intro i j x hxi hxj
  obtain ⟨hi', rfl⟩ := List.getElem?_eq_some_iff.mp hxi
  obtain ⟨hj', he⟩ := List.getElem?_eq_some_iff.mp hxj
  exact (hx.getElem_inj_iff.mp he).symm

theorem assigned_fst_nodup (hx : xs.Nodup) (h : IsMatching xs.length ys.length ps) :
    ((assigned xs ys ps).map Prod.fst).Nodup := by
  rw [assigned_fst h]
  exact pick_nodup hx h.rows

theorem assigned_snd_nodup (hy : ys.Nodup) (h : IsMatching xs.length ys.length ps) :
    ((assigned xs ys ps).map Prod.snd).Nodup := by
  rw [assigned_snd h]
  exact pick_nodup hy h.cols

/-- Matched and left-over positions partition the range. -/
theorem range_perm {n : Nat} {is : List Nat} (hn : is.Nodup) (hlt : ∀ i ∈ is, i < n) :
    (List.range n).Perm (is ++ (List.range n).filter (fun i => i ∉ is)) := by
  rw [List.perm_ext_iff_of_nodup List.nodup_range]
  · intro i
    by_cases hi : i ∈ is <;> simp [hi, hlt]
  · rw [List.nodup_append]
    refine ⟨hn, List.nodup_range.filter _, ?_⟩
    intro a ha b hb he
    subst he
    simp [ha] at hb

/-- No detection is lost: those of the matched pairs and those left over are
together the list that was offered. -/
theorem assigned_snd_perm (h : IsMatching xs.length ys.length ps) :
    ys.Perm ((assigned xs ys ps).map Prod.snd ++
      pick ys ((List.range ys.length).filter (fun j => j ∉ ps.map Prod.snd))) := by
  have hp := pick_perm ys (range_perm h.cols h.cols_lt)
  rw [pick_range, pick_append] at hp
  rwa [assigned_snd h]

/-- The rows left over, in order, are those that no pair names. -/
theorem pick_unmatched [DecidableEq α] (hx : xs.Nodup) (h : IsMatching xs.length ys.length ps) :
    pick xs ((List.range xs.length).filter (fun i => i ∉ ps.map Prod.fst)) =
      xs.filter (fun x => x ∉ (assigned xs ys ps).map Prod.fst) := by
  have hkey : ∀ i (hi : i < xs.length),
      (i ∈ ps.map Prod.fst ↔ xs[i] ∈ (assigned xs ys ps).map Prod.fst) := by
    intro i hi
    rw [assigned_fst h, mem_pick]
    constructor
    · intro hm
      exact ⟨i, hm, List.getElem?_eq_getElem hi⟩
    · intro hx
      obtain ⟨k, hk, hkx⟩ := hx
      obtain ⟨hk', he⟩ := List.getElem?_eq_some_iff.mp hkx
      exact hx.getElem_inj_iff.mp he ▸ hk
  rw [pick_filter (p := fun x => decide (x ∉ (assigned xs ys ps).map Prod.fst)), pick_range]
  intro i hi
  have hlt := List.mem_range.mp hi
  exact ⟨xs[i], List.getElem?_eq_getElem hlt, decide_eq_decide.mpr (not_congr (hkey i hlt))⟩

/-- The pairs of a matching that gives every column a row of its own. -/
theorem assigned_own {own : β → α} {row : Nat → Nat}
    (h : ∀ j y, ys[j]? = some y → xs[row j]? = some (own y)) :
    assigned xs ys ((List.range ys.length).map (fun j => (row j, j))) =
      ys.map (fun y => (own y, y)) := by
  have hpick := pick_range ys
  rw [assigned, List.filterMap_map]
  conv_rhs => rw [← hpick, pick, List.map_filterMap]
  refine List.filterMap_congr (fun j _ => ?_)
  cases hy : ys[j]? with
  | none => simp [hy]
  | some y => simp [hy, h j y hy]

end Matching

/-- Positions of the elements that satisfy a test. -/
def positions (p : α → Bool) (xs : List α) : List Nat :=
  (List.range xs.length).filter (fun i => ((xs[i]?).map p).getD false)

theorem mem_positions {p : α → Bool} {xs : List α} :
    i ∈ positions p xs ↔ ∃ x, xs[i]? = some x ∧ p x = true := by
  simp only [positions, List.mem_filter, List.mem_range]
  constructor
  · intro hx
    obtain ⟨hi, hp⟩ := hx
    exact ⟨xs[i], List.getElem?_eq_getElem hi, by simpa [hi] using hp⟩
  · intro hx
    obtain ⟨x, hx, hp⟩ := hx
    obtain ⟨hi, rfl⟩ := List.getElem?_eq_some_iff.mp hx
    exact ⟨hi, by simpa [hi] using hp⟩

theorem positions_lt {p : α → Bool} {xs : List α} (h : i ∈ positions p xs) : i < xs.length := by
  obtain ⟨x, hx, _⟩ := mem_positions.mp h
  exact (List.getElem?_eq_some_iff.mp hx).1

theorem positions_nodup (p : α → Bool) (xs : List α) : (positions p xs).Nodup :=
  List.nodup_range.filter _

theorem positions_sorted (p : α → Bool) (xs : List α) : (positions p xs).Pairwise (· < ·) :=
  List.pairwise_lt_range.filter _

theorem pick_positions (p : α → Bool) (xs : List α) : pick xs (positions p xs) = xs.filter p := by
  rw [positions, pick_filter (p := p), pick_range]
  intro i hi
  have hlt := List.mem_range.mp hi
  exact ⟨xs[i], List.getElem?_eq_getElem hlt, by simp [hlt]⟩

theorem positions_length (p : α → Bool) (xs : List α) :
    (positions p xs).length = (xs.filter p).length := by
  rw [← pick_positions, pick_length (fun i hi => positions_lt hi)]

end Positions
