import Mathlib

namespace Assignment

/-- Distinct rows go to distinct columns of an `n` by `m` matrix. -/
structure IsMatching (n m : Nat) (ps : List (Nat × Nat)) : Prop where
  rows : (ps.map Prod.fst).Nodup
  cols : (ps.map Prod.snd).Nodup
  inRange : ∀ p ∈ ps, p.1 < n ∧ p.2 < m

/-- A matching that covers the smaller side. -/
structure IsComplete (n m : Nat) (ps : List (Nat × Nat)) : Prop extends IsMatching n m ps where
  size : ps.length = min n m

theorem IsMatching.filter (h : IsMatching n m ps) (p : Nat × Nat → Bool) :
    IsMatching n m (ps.filter p) :=
  ⟨h.rows.sublist (List.filter_sublist.map Prod.fst),
    h.cols.sublist (List.filter_sublist.map Prod.snd),
    fun q hq => h.inRange q (List.mem_filter.mp hq).1⟩

theorem IsMatching.perm (h : IsMatching n m ps) (hp : ps.Perm qs) : IsMatching n m qs :=
  ⟨(hp.map Prod.fst).nodup_iff.mp h.rows, (hp.map Prod.snd).nodup_iff.mp h.cols,
    fun q hq => h.inRange q (hp.mem_iff.mpr hq)⟩

theorem IsComplete.perm (h : IsComplete n m ps) (hp : ps.Perm qs) : IsComplete n m qs :=
  ⟨h.toIsMatching.perm hp, hp.length_eq ▸ h.size⟩

/-- A matched row has one partner. -/
theorem IsMatching.col_unique (h : IsMatching n m ps) (ha : (t, d) ∈ ps) (hb : (t, d') ∈ ps) :
    d = d' := by
  have he := List.inj_on_of_nodup_map h.rows ha hb rfl
  exact congrArg Prod.snd he

theorem IsMatching.row_unique (h : IsMatching n m ps) (ha : (t, d) ∈ ps) (hb : (t', d) ∈ ps) :
    t = t' := by
  have he := List.inj_on_of_nodup_map h.cols ha hb rfl
  exact congrArg Prod.fst he

theorem IsMatching.rows_lt (h : IsMatching n m ps) : ∀ i ∈ ps.map Prod.fst, i < n := by
  intro i hi
  obtain ⟨p, hp, rfl⟩ := List.mem_map.mp hi
  exact (h.inRange p hp).1

theorem IsMatching.cols_lt (h : IsMatching n m ps) : ∀ j ∈ ps.map Prod.snd, j < m := by
  intro j hj
  obtain ⟨p, hp, rfl⟩ := List.mem_map.mp hj
  exact (h.inRange p hp).2

theorem exists_col {ps : List (Nat × Nat)} (h : t ∈ ps.map Prod.fst) : ∃ d, (t, d) ∈ ps := by
  obtain ⟨⟨i, d⟩, hp, he⟩ := List.mem_map.mp h
  exact ⟨d, he ▸ hp⟩

theorem exists_row {ps : List (Nat × Nat)} (h : d ∈ ps.map Prod.snd) : ∃ t, (t, d) ∈ ps := by
  obtain ⟨⟨t, j⟩, hp, he⟩ := List.mem_map.mp h
  exact ⟨t, he ▸ hp⟩

theorem nodup_length_lt {n : Nat} {is : List Nat} (hn : is.Nodup) (hlt : ∀ i ∈ is, i < n)
    (hi : i < n) (hni : i ∉ is) : is.length < n := by
  have hsub : i :: is ⊆ List.range n := by
    intro j hj
    rcases List.mem_cons.mp hj with rfl | hj
    · exact List.mem_range.mpr hi
    · exact List.mem_range.mpr (hlt j hj)
  have hlen := (List.nodup_cons.mpr ⟨hni, hn⟩).length_le_of_subset hsub
  rw [List.length_cons, List.length_range] at hlen
  omega

theorem perm_range {n : Nat} {is : List Nat} (hn : is.Nodup) (hlt : ∀ i ∈ is, i < n)
    (hlen : is.length = n) : is.Perm (List.range n) :=
  (List.subperm_of_subset hn (fun i hi => List.mem_range.mpr (hlt i hi))).perm_of_length_le
    (by simp [hlen])

/-- No row and column are both left out of a complete matching. -/
theorem IsComplete.covered (h : IsComplete n m ps) (ht : t < n) (hd : d < m) :
    t ∈ ps.map Prod.fst ∨ d ∈ ps.map Prod.snd := by
  by_contra hc
  obtain ⟨hr, hcol⟩ := not_or.mp hc
  have h1 := nodup_length_lt h.rows h.rows_lt ht hr
  have h2 := nodup_length_lt h.cols h.cols_lt hd hcol
  have := h.size
  simp only [List.length_map] at h1 h2
  omega

/-- Rows and columns of a matching under new numbers. -/
theorem IsMatching.reindex (h : IsMatching n m ps) {α β : Equiv.Perm ℕ} (hα : ∀ i < n, α i < n)
    (hβ : ∀ j < m, β j < m) : IsMatching n m (ps.map (Prod.map α β)) := by
  refine ⟨?_, ?_, ?_⟩
  · simpa [Function.comp_def] using h.rows.map α.injective
  · simpa [Function.comp_def] using h.cols.map β.injective
  · intro p hp
    obtain ⟨q, hq, rfl⟩ := List.mem_map.mp hp
    exact ⟨hα _ (h.inRange q hq).1, hβ _ (h.inRange q hq).2⟩

theorem IsComplete.reindex (h : IsComplete n m ps) {α β : Equiv.Perm ℕ} (hα : ∀ i < n, α i < n)
    (hβ : ∀ j < m, β j < m) : IsComplete n m (ps.map (Prod.map α β)) :=
  ⟨h.toIsMatching.reindex hα hβ, by rw [List.length_map, h.size]⟩

section Weights
variable {K : Type*} [AddCommGroup K]

def total (w : Nat → Nat → K) (ps : List (Nat × Nat)) : K := (ps.map (fun p => w p.1 p.2)).sum

@[simp] theorem total_cons (w : Nat → Nat → K) (p : Nat × Nat) (ps : List (Nat × Nat)) :
    total w (p :: ps) = w p.1 p.2 + total w ps := by
  simp [total]

theorem total_perm (w : Nat → Nat → K) (hp : ps.Perm qs) : total w ps = total w qs :=
  (hp.map _).sum_eq

theorem total_neg (w : Nat → Nat → K) (ps : List (Nat × Nat)) :
    total (fun i j => -w i j) ps = -total w ps := by
  induction ps with
  | nil => simp [total]
  | cons p ps ih => simp [ih, add_comm]

theorem total_congr {w w' : Nat → Nat → K} (h : ∀ p ∈ ps, w p.1 p.2 = w' p.1 p.2) :
    total w ps = total w' ps := by
  unfold total
  rw [List.map_congr_left h]

theorem total_reindex (w : Nat → Nat → K) (α β : Equiv.Perm ℕ) (ps : List (Nat × Nat)) :
    total w (ps.map (Prod.map α β)) = total (fun i j => w (α i) (β j)) ps := by
  simp [total, Function.comp_def]

variable [LinearOrder K]

/-- A complete matching of least total cost. -/
structure IsMinimum (n m : Nat) (cost : Nat → Nat → K) (ps : List (Nat × Nat)) : Prop
    extends IsComplete n m ps where
  least : ∀ qs, IsComplete n m qs → total cost ps ≤ total cost qs

/-- A complete matching of greatest total weight. -/
structure IsMaximum (n m : Nat) (w : Nat → Nat → K) (ps : List (Nat × Nat)) : Prop
    extends IsComplete n m ps where
  greatest : ∀ qs, IsComplete n m qs → total w qs ≤ total w ps

/-- Maximum matchings do not depend on how rows and columns are numbered. -/
theorem IsMaximum.reindex {w : Nat → Nat → K} {α β : Equiv.Perm ℕ}
    (h : IsMaximum n m (fun i j => w (α i) (β j)) ps) (hα : ∀ i, α i < n ↔ i < n)
    (hβ : ∀ j, β j < m ↔ j < m) : IsMaximum n m w (ps.map (Prod.map α β)) := by
  refine ⟨h.toIsComplete.reindex (fun i hi => (hα i).mpr hi) (fun j hj => (hβ j).mpr hj),
    fun qs hq => ?_⟩
  have hback := hq.reindex (α := α.symm) (β := β.symm)
    (fun i hi => (hα _).mp (by simpa using hi)) (fun j hj => (hβ _).mp (by simpa using hj))
  have hround : (qs.map (Prod.map α.symm β.symm)).map (Prod.map α β) = qs := by
    simp [Function.comp_def, Prod.map]
  have hg := h.greatest _ hback
  rwa [← total_reindex, ← total_reindex, hround] at hg

variable [IsOrderedAddMonoid K]

theorem IsMinimum.maximum {w : Nat → Nat → K} (h : IsMinimum n m (fun i j => -w i j) ps) :
    IsMaximum n m w ps :=
  ⟨h.toIsComplete, fun qs hq => by
    have := h.least qs hq
    rwa [total_neg, total_neg, neg_le_neg_iff] at this⟩

variable {w : Nat → Nat → K}

/-- Replacing part of a maximum matching cannot gain weight. -/
theorem IsMaximum.replace (h : IsMaximum n m w ps) (hp : ps.Perm (old ++ rest))
    (hnew : IsComplete n m (new ++ rest)) : total w new ≤ total w old := by
  have hg := h.greatest _ hnew
  rw [total_perm w hp] at hg
  simpa [total] using hg

/-- Two matched pairs weigh at least as much as with their columns swapped. -/
theorem IsMaximum.exchange (h : IsMaximum n m w ps) (h1 : (t, d') ∈ ps) (h2 : (t', d) ∈ ps)
    (hne : t ≠ t') : w t d + w t' d' ≤ w t d' + w t' d := by
  have hp1 := List.perm_cons_erase h1
  have hmem : (t', d) ∈ ps.erase (t, d') := by
    rcases List.mem_cons.mp (hp1.mem_iff.mp h2) with he | hm
    · exact absurd (congrArg Prod.fst he).symm hne
    · exact hm
  have hp : ps.Perm ([(t, d'), (t', d)] ++ (ps.erase (t, d')).erase (t', d)) :=
    hp1.trans ((List.perm_cons_erase hmem).cons _)
  have hc := h.toIsComplete.perm hp
  have hnew : IsComplete n m ([(t, d), (t', d')] ++ (ps.erase (t, d')).erase (t', d)) := by
    refine ⟨⟨by simpa using hc.rows, ?_, ?_⟩, by simpa using hc.size⟩
    · have := (List.Perm.swap d d' (((ps.erase (t, d')).erase (t', d)).map Prod.snd)).nodup_iff.mp
        (by simpa using hc.cols)
      simpa using this
    · intro q hq
      have ht := hc.inRange (t, d') (by simp)
      have ht' := hc.inRange (t', d) (by simp)
      simp only [List.cons_append, List.nil_append, List.mem_cons] at hq
      rcases hq with rfl | rfl | hq
      · exact ⟨ht.1, ht'.2⟩
      · exact ⟨ht'.1, ht.2⟩
      · exact hc.inRange q (by simp [hq])
  simpa [total] using h.replace hp hnew

/-- A matched row cannot do better with a column nobody took. -/
theorem IsMaximum.free_col (h : IsMaximum n m w ps) (h1 : (t, d') ∈ ps) (hd : d < m)
    (hfree : d ∉ ps.map Prod.snd) : w t d ≤ w t d' := by
  have hp : ps.Perm ([(t, d')] ++ ps.erase (t, d')) := List.perm_cons_erase h1
  have hc := h.toIsComplete.perm hp
  have hnew : IsComplete n m ([(t, d)] ++ ps.erase (t, d')) := by
    refine ⟨⟨by simpa using hc.rows, ?_, ?_⟩, by simpa using hc.size⟩
    · have hn : d ∉ (ps.erase (t, d')).map Prod.snd := fun hm =>
        hfree (((List.erase_sublist).map Prod.snd).subset hm)
      have hcols := hc.cols
      simp only [List.cons_append, List.nil_append, List.map_cons, List.nodup_cons] at hcols ⊢
      exact ⟨hn, hcols.2⟩
    · intro q hq
      rcases List.mem_cons.mp hq with rfl | hq
      · exact ⟨(hc.inRange (t, d') (by simp)).1, hd⟩
      · exact hc.inRange q (List.mem_cons_of_mem _ hq)
  simpa [total] using h.replace hp hnew

/-- A matched column cannot do better with a row nobody took. -/
theorem IsMaximum.free_row (h : IsMaximum n m w ps) (h1 : (t', d) ∈ ps) (ht : t < n)
    (hfree : t ∉ ps.map Prod.fst) : w t d ≤ w t' d := by
  have hp : ps.Perm ([(t', d)] ++ ps.erase (t', d)) := List.perm_cons_erase h1
  have hc := h.toIsComplete.perm hp
  have hnew : IsComplete n m ([(t, d)] ++ ps.erase (t', d)) := by
    refine ⟨⟨?_, by simpa using hc.cols, ?_⟩, by simpa using hc.size⟩
    · have hn : t ∉ (ps.erase (t', d)).map Prod.fst := fun hm =>
        hfree (((List.erase_sublist).map Prod.fst).subset hm)
      have hrows := hc.rows
      simp only [List.cons_append, List.nil_append, List.map_cons, List.nodup_cons] at hrows ⊢
      exact ⟨hn, hrows.2⟩
    · intro q hq
      rcases List.mem_cons.mp hq with rfl | hq
      · exact ⟨ht, (hc.inRange (t', d) (by simp)).2⟩
      · exact hc.inRange q (List.mem_cons_of_mem _ hq)
  simpa [total] using h.replace hp hnew

/-- Why a pair is left out of a maximum matching: one end is free and the other
has a partner at least as heavy, or both have partners and swapping loses. -/
theorem IsMaximum.stranded (h : IsMaximum n m w ps) (ht : t < n) (hd : d < m) (hout : (t, d) ∉ ps) :
    (∃ d', (t, d') ∈ ps ∧ d' ≠ d ∧ w t d ≤ w t d') ∨
    (∃ t', (t', d) ∈ ps ∧ t' ≠ t ∧ w t d ≤ w t' d) ∨
    (∃ t' d', (t, d') ∈ ps ∧ (t', d) ∈ ps ∧ t' ≠ t ∧ d' ≠ d ∧
      w t d + w t' d' ≤ w t d' + w t' d) := by
  by_cases hrow : t ∈ ps.map Prod.fst
  · obtain ⟨d', hp⟩ := exists_col hrow
    have hdd : d' ≠ d := by
      intro hx
      subst hx
      exact hout hp
    by_cases hcol : d ∈ ps.map Prod.snd
    · obtain ⟨t', hq⟩ := exists_row hcol
      have htt : t' ≠ t := by
        intro hx
        subst hx
        exact hout hq
      exact Or.inr (Or.inr ⟨t', d', hp, hq, htt, hdd, h.exchange hp hq htt.symm⟩)
    · exact Or.inl ⟨d', hp, hdd, h.free_col hp hd hcol⟩
  · obtain ⟨t', hq⟩ := exists_row ((h.covered ht hd).resolve_left hrow)
    have htt : t' ≠ t := by
      intro hx
      subst hx
      exact hout hq
    exact Or.inr (Or.inl ⟨t', hq, htt, h.free_row hq ht hrow⟩)

/-- When every column has a row of its own that is strictly best for it, a
maximum matching gives each column that row. -/
theorem IsMaximum.own_rows (h : IsMaximum n m w ps) (row : Nat → Nat) (hrow : ∀ j < m, row j < n)
    (hinj : ∀ i < m, ∀ j < m, row i = row j → i = j)
    (hbest : ∀ i < n, ∀ j < m, i ≠ row j → w i j < w (row j) j) :
    ps.Perm ((List.range m).map (fun j => (row j, j))) := by
  have hrows : ((List.range m).map row).Nodup :=
    List.Nodup.map_on (fun i hi j hj => hinj i (List.mem_range.mp hi) j (List.mem_range.mp hj))
      List.nodup_range
  have hle : m ≤ n := by
    have hsub : (List.range m).map row ⊆ List.range n := by
      intro i hi
      obtain ⟨j, hj, rfl⟩ := List.mem_map.mp hi
      exact List.mem_range.mpr (hrow j (List.mem_range.mp hj))
    simpa using hrows.length_le_of_subset hsub
  have hown : IsComplete n m ((List.range m).map (fun j => (row j, j))) := by
    refine ⟨⟨?_, ?_, ?_⟩, by simp [hle]⟩
    · simpa [Function.comp_def] using hrows
    · simpa [Function.comp_def] using List.nodup_range
    · intro p hp
      obtain ⟨j, hj, rfl⟩ := List.mem_map.mp hp
      exact ⟨hrow j (List.mem_range.mp hj), List.mem_range.mp hj⟩
  have hcols : (ps.map Prod.snd).Perm (List.range m) :=
    perm_range h.cols h.cols_lt (by simp [h.size, hle])
  have hbound : total w ((List.range m).map (fun j => (row j, j))) =
      (ps.map (fun p => w (row p.2) p.2)).sum := by
    have hsum := (hcols.map (fun j => w (row j) j)).sum_eq
    simpa [total, Function.comp_def] using hsum.symm
  have hall : ∀ p ∈ ps, p = (row p.2, p.2) := by
    intro p hp
    by_contra hne
    have hrange := h.inRange p hp
    have hlt : total w ps < (ps.map (fun p => w (row p.2) p.2)).sum := by
      refine List.sum_lt_sum _ _ (fun q hq => ?_) ⟨p, hp, ?_⟩
      · by_cases he : q.1 = row q.2
        · exact (congrArg (fun i => w i q.2) he).le
        · exact (hbest _ (h.inRange q hq).1 _ (h.inRange q hq).2 he).le
      · exact hbest _ hrange.1 _ hrange.2 (fun he => hne (Prod.ext he rfl))
    exact absurd (h.greatest _ hown) (not_le.mpr (hbound ▸ hlt))
  have hps : ps = (ps.map Prod.snd).map (fun j => (row j, j)) := by
    rw [List.map_map]
    exact (List.map_id ps).symm.trans (List.map_congr_left hall)
  rw [hps]
  exact hcols.map _

end Weights

/-! An exhaustive solver: it shows the specification has a computable instance. -/

/-- Every way to give the rows of a list distinct columns of another. -/
def injections : List Nat → List Nat → List (List (Nat × Nat))
  | [], _ => [[]]
  | r :: rs, cols => cols.flatMap (fun c => (injections rs (cols.erase c)).map ((r, c) :: ·))

theorem injections_sound {rs cols : List Nat} (hc : cols.Nodup) (h : q ∈ injections rs cols) :
    q.map Prod.fst = rs ∧ (q.map Prod.snd).Nodup ∧ ∀ j ∈ q.map Prod.snd, j ∈ cols := by
  induction rs generalizing cols q with
  | nil =>
    have : q = [] := by simpa [injections] using h
    subst this
    simp
  | cons r rs ih =>
    obtain ⟨c, hcm, hq⟩ := List.mem_flatMap.mp h
    obtain ⟨q', hq', rfl⟩ := List.mem_map.mp hq
    obtain ⟨h1, h2, h3⟩ := ih (hc.erase c) hq'
    refine ⟨by simp [h1], ?_, ?_⟩
    · simp only [List.map_cons, List.nodup_cons]
      exact ⟨fun hm => (hc.mem_erase_iff.mp (h3 c hm)).1 rfl, h2⟩
    · intro j hj
      rcases List.mem_cons.mp hj with rfl | hj
      · exact hcm
      · exact List.mem_of_mem_erase (h3 j hj)

theorem injections_complete {q : List (Nat × Nat)} {rs cols : List Nat}
    (hr : (q.map Prod.fst).Perm rs)
    (hn : (q.map Prod.snd).Nodup) (hsub : ∀ j ∈ q.map Prod.snd, j ∈ cols) :
    ∃ q' ∈ injections rs cols, q.Perm q' := by
  induction rs generalizing cols q with
  | nil =>
    have : q = [] := by simpa using hr.eq_nil
    subst this
    exact ⟨[], by simp [injections], .refl _⟩
  | cons r rs ih =>
    obtain ⟨c, hm⟩ := exists_col (hr.mem_iff.mpr List.mem_cons_self)
    have hp := List.perm_cons_erase hm
    have hrest : ((q.erase (r, c)).map Prod.fst).Perm rs :=
      ((hp.map Prod.fst).symm.trans hr).cons_inv
    have hcols := (hp.map Prod.snd).nodup_iff.mp hn
    simp only [List.map_cons, List.nodup_cons] at hcols
    have hin : ∀ j ∈ (q.erase (r, c)).map Prod.snd, j ∈ cols.erase c := by
      intro j hj
      have hjc : j ≠ c := fun he => hcols.1 (he ▸ hj)
      exact (List.mem_erase_of_ne hjc).mpr (hsub j ((List.erase_sublist.map Prod.snd).subset hj))
    obtain ⟨q', hq', hpq⟩ := ih hrest hcols.2 hin
    refine ⟨(r, c) :: q', ?_, hp.trans (hpq.cons _)⟩
    exact List.mem_flatMap.mpr ⟨c, hsub c (List.mem_map.mpr ⟨_, hm, rfl⟩),
      List.mem_map.mpr ⟨q', hq', rfl⟩⟩

/-- All complete matchings, up to order. -/
def assignments (n m : Nat) : List (List (Nat × Nat)) :=
  if n ≤ m then injections (List.range n) (List.range m)
  else (injections (List.range m) (List.range n)).map (fun q => q.map Prod.swap)

theorem IsComplete.swap (h : IsComplete n m ps) : IsComplete m n (ps.map Prod.swap) := by
  refine ⟨⟨?_, ?_, ?_⟩, by simpa [min_comm] using h.size⟩
  · simpa [Function.comp_def] using h.cols
  · simpa [Function.comp_def] using h.rows
  · intro p hp
    obtain ⟨q, hq, rfl⟩ := List.mem_map.mp hp
    exact (h.inRange q hq).symm

theorem injections_range (hnm : n ≤ m) (h : q ∈ injections (List.range n) (List.range m)) :
    IsComplete n m q := by
  obtain ⟨h1, h2, h3⟩ := injections_sound List.nodup_range h
  refine ⟨⟨h1 ▸ List.nodup_range, h2, ?_⟩, ?_⟩
  · intro p hp
    have hf : p.1 ∈ List.range n := h1 ▸ List.mem_map_of_mem hp
    exact ⟨List.mem_range.mp hf, List.mem_range.mp (h3 _ (List.mem_map_of_mem hp))⟩
  · have := congrArg List.length h1
    simp only [List.length_map, List.length_range] at this
    omega

theorem range_injections (hnm : n ≤ m) (h : IsComplete n m ps) :
    ∃ q ∈ injections (List.range n) (List.range m), ps.Perm q := by
  have hlen : (ps.map Prod.fst).length = n := by
    have := h.size
    simp only [List.length_map]
    omega
  exact injections_complete (perm_range h.rows h.rows_lt hlen) h.cols
    (fun j hj => List.mem_range.mpr (h.cols_lt j hj))

theorem assignments_sound (h : q ∈ assignments n m) : IsComplete n m q := by
  unfold assignments at h
  split at h
  · exact injections_range (by assumption) h
  · obtain ⟨q', hq', rfl⟩ := List.mem_map.mp h
    exact (injections_range (by omega) hq').swap

theorem assignments_complete (h : IsComplete n m ps) : ∃ q ∈ assignments n m, ps.Perm q := by
  unfold assignments
  split
  · exact range_injections (by assumption) h
  · obtain ⟨q, hq, hp⟩ := range_injections (by omega) h.swap
    refine ⟨q.map Prod.swap, List.mem_map_of_mem hq, ?_⟩
    simpa [Function.comp_def] using hp.map Prod.swap

section Solver
variable {K : Type*} [AddCommGroup K] [LinearOrder K]

/-- A complete matching of least cost, rows in increasing order. -/
def solve (n m : Nat) (cost : Nat → Nat → K) : List (Nat × Nat) :=
  (((assignments n m).argmin (total cost)).getD []).insertionSort (fun p q => p.1 ≤ q.1)

theorem solve_minimum (n m : Nat) (cost : Nat → Nat → K) :
    IsMinimum n m cost (solve n m cost) := by
  have hne : (assignments n m).argmin (total cost) ≠ none := by
    intro hn
    have hempty := List.argmin_eq_none.mp hn
    have hdiag : IsComplete n m ((List.range (min n m)).map (fun i => (i, i))) := by
      refine ⟨⟨?_, ?_, ?_⟩, by simp⟩
      · simpa [Function.comp_def] using List.nodup_range
      · simpa [Function.comp_def] using List.nodup_range
      · intro p hp
        obtain ⟨i, hi, rfl⟩ := List.mem_map.mp hp
        have := List.mem_range.mp hi
        simp only
        omega
    obtain ⟨q, hq, _⟩ := assignments_complete hdiag
    simp [hempty] at hq
  obtain ⟨q, hq⟩ := Option.ne_none_iff_exists'.mp hne
  have hperm : q.Perm (solve n m cost) := by
    simp only [solve, hq, Option.getD_some]
    exact (List.perm_insertionSort _ q).symm
  refine ⟨(assignments_sound (List.argmin_mem hq)).perm hperm, ?_⟩
  intro qs hqs
  obtain ⟨q', hq', hp⟩ := assignments_complete hqs
  rw [← total_perm cost hperm, total_perm cost hp]
  exact List.le_of_mem_argmin hq' hq

end Solver
end Assignment
