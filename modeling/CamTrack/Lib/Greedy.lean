import Mathlib.Data.List.Induction
import Mathlib.Data.List.Nodup
import Mathlib.Data.List.Pairwise
import Mathlib.Data.List.Perm.Basic
import Mathlib.Data.List.Sort
import Mathlib.Data.Prod.Lex
import Mathlib.Logic.Function.Basic
import Mathlib.Tactic.Common

/-! Greedy selection along a list: an element is taken unless one taken earlier
excludes it. -/

namespace Greedy

variable {α β : Type*}

/-- What `a` does not exclude. -/
def compatible (r : α → α → Prop) [DecidableRel r] (a : α) (l : List α) : List α :=
  l.filter (fun b => ¬ r a b)

/-- Take the head, drop what it excludes, go on. -/
def greedy (r : α → α → Prop) [DecidableRel r] : List α → List α
  | [] => []
  | a :: l => a :: greedy r (compatible r a l)
termination_by l => l.length
decreasing_by exact Nat.lt_succ_of_le (List.length_filter_le _ l)

/-- `b` occurs ahead of `a`. -/
def Before (l : List α) (b a : α) : Prop := [b, a].Sublist l

theorem before_cons {l : List α} : Before (c :: l) b a ↔ (b = c ∧ a ∈ l) ∨ Before l b a := by
  constructor
  · intro h
    rcases List.sublist_cons_iff.mp h with h | ⟨r, hr, h⟩
    · exact Or.inr h
    · obtain ⟨rfl, rfl⟩ := List.cons.inj hr
      exact Or.inl ⟨rfl, List.singleton_sublist.mp h⟩
  · rintro (⟨rfl, h⟩ | h)
    · exact (List.singleton_sublist.mpr h).cons_cons b
    · exact h.cons c

namespace Before
variable {l : List α}

theorem left (h : Before l b a) : b ∈ l := h.subset List.mem_cons_self

theorem right (h : Before l b a) : a ∈ l := h.subset (List.mem_cons_of_mem b List.mem_cons_self)

theorem rel {R : α → α → Prop} (h : Before l b a) (hp : l.Pairwise R) : R b a :=
  List.pairwise_iff_forall_sublist.mp hp h

theorem ne (h : Before l b a) (hl : l.Nodup) : b ≠ a := h.rel hl

theorem filter_iff {p : α → Bool} : Before (l.filter p) b a ↔ Before l b a ∧ p b ∧ p a := by
  induction l with
  | nil => simp [Before]
  | cons c l ih =>
    by_cases hc : p c
    · rw [List.filter_cons_of_pos hc, before_cons, before_cons, ih, List.mem_filter]
      constructor
      · rintro (⟨rfl, ha, hp⟩ | ⟨h, hp⟩)
        · exact ⟨Or.inl ⟨rfl, ha⟩, hc, hp⟩
        · exact ⟨Or.inr h, hp⟩
      · rintro ⟨⟨rfl, ha⟩ | h, hp⟩
        · exact Or.inl ⟨rfl, ha, hp.2⟩
        · exact Or.inr ⟨h, hp⟩
    · rw [List.filter_cons_of_neg hc, before_cons, ih]
      constructor
      · exact fun h => ⟨Or.inr h.1, h.2⟩
      · rintro ⟨⟨rfl, _⟩ | h, hp⟩
        · exact absurd hp.1 hc
        · exact ⟨h, hp⟩

theorem mem_prefix {pre post : List α} (hl : (pre ++ a :: post).Nodup)
    (h : Before (pre ++ a :: post) b a) : b ∈ pre := by
  induction pre with
  | nil =>
    have ha := (List.nodup_cons.mp hl).1
    rcases before_cons.mp h with ⟨_, hm⟩ | h
    · exact absurd hm ha
    · exact absurd h.right ha
  | cons c pre ih =>
    rcases before_cons.mp h with ⟨rfl, _⟩ | h
    · exact List.mem_cons_self
    · exact List.mem_cons_of_mem c (ih (List.nodup_cons.mp hl).2 h)

theorem total (ha : a ∈ l) (hb : b ∈ l) (hne : b ≠ a) : Before l b a ∨ Before l a b := by
  induction l with
  | nil => cases ha
  | cons c l ih =>
    rw [before_cons, before_cons]
    rcases List.mem_cons.mp ha with rfl | hal
    · exact Or.inr (Or.inl ⟨rfl, (List.mem_cons.mp hb).resolve_left hne⟩)
    · rcases List.mem_cons.mp hb with rfl | hbl
      · exact Or.inl (Or.inl ⟨rfl, hal⟩)
      · rcases ih hal hbl with h | h
        · exact Or.inl (Or.inr h)
        · exact Or.inr (Or.inr h)

end Before

/-- The kernel of `r` along `l`: an element belongs to it exactly if none of the
members ahead of it excludes it. -/
structure IsKernel (r : α → α → Prop) (l ks : List α) : Prop where
  sublist : ks.Sublist l
  mem_iff : ∀ a ∈ l, (a ∈ ks ↔ ∀ b ∈ ks, Before l b a → ¬ r b a)

theorem greedy_sublist (r : α → α → Prop) [DecidableRel r] (l : List α) :
    (greedy r l).Sublist l := by
  fun_induction greedy r l with
  | case1 => exact .slnil
  | case2 a l ih => exact (ih.trans List.filter_sublist).cons_cons a

theorem greedy_kernel (r : α → α → Prop) [DecidableRel r] {l : List α} (hl : l.Nodup) :
    IsKernel r l (greedy r l) := by
  refine ⟨greedy_sublist r l, ?_⟩
  fun_induction greedy r l with
  | case1 => simp
  | case2 a l ih =>
    intro x hx
    obtain ⟨hal, hl⟩ := List.nodup_cons.mp hl
    have hsub := (greedy_sublist r (compatible r a l)).subset
    rcases List.mem_cons.mp hx with rfl | hx
    · refine iff_of_true List.mem_cons_self (fun b _ hb => ?_)
      rcases before_cons.mp hb with ⟨_, hm⟩ | hb
      · exact absurd hm hal
      · exact absurd hb.right hal
    · have hxa : x ≠ a := fun he => hal (he ▸ hx)
      by_cases hr : r a x
      · refine iff_of_false ?_ (fun h =>
          h a List.mem_cons_self (before_cons.mpr (Or.inl ⟨rfl, hx⟩)) hr)
        intro hm
        have hm := hsub ((List.mem_cons.mp hm).resolve_left hxa)
        simp [compatible, hr] at hm
      · rw [List.mem_cons, or_iff_right hxa,
          ih (hl.filter _) x (List.mem_filter.mpr ⟨hx, by simpa using hr⟩)]
        constructor
        · intro h b hb hbx
          rcases List.mem_cons.mp hb with rfl | hb
          · exact hr
          · have hc := List.mem_filter.mp (hsub hb)
            rcases before_cons.mp hbx with ⟨rfl, _⟩ | hbx
            · exact absurd hc.1 hal
            · exact h b hb (Before.filter_iff.mpr ⟨hbx, hc.2, by simpa using hr⟩)
        · intro h b hb hbx
          exact h b (List.mem_cons_of_mem a hb)
            (before_cons.mpr (Or.inr (Before.filter_iff.mp hbx).1))

theorem filter_mem_of_sublist [DecidableEq α] {l ks : List α} (h : ks.Sublist l) (hl : l.Nodup) :
    l.filter (fun a => a ∈ ks) = ks := by
  induction h with
  | slnil => rfl
  | cons a h ih =>
    obtain ⟨ha, hl⟩ := List.nodup_cons.mp hl
    have hk : a ∉ _ := fun hm => ha (h.subset hm)
    simp [hk, ih hl]
  | cons_cons a h ih =>
    obtain ⟨ha, hl⟩ := List.nodup_cons.mp hl
    rw [List.filter_cons_of_pos (by simp)]
    congr 1
    refine Eq.trans (List.filter_congr (fun b hb => ?_)) (ih hl)
    have hne : b ≠ a := by rintro rfl; exact ha hb
    simp [hne]

namespace IsKernel
variable {r : α → α → Prop} {l ks ks' : List α}

theorem unique (h : IsKernel r l ks) (h' : IsKernel r l ks') (hl : l.Nodup) : ks = ks' := by
  classical
  -- membership of an element is settled by the elements ahead of it
  have hmem : ∀ pre post, l = pre ++ post → ∀ a ∈ pre, (a ∈ ks ↔ a ∈ ks') := by
    intro pre
    induction pre using List.reverseRecOn with
    | nil => simp
    | append_singleton pre c ih =>
      intro post he a ha
      have hsplit : l = pre ++ c :: post := by simp [he]
      rcases List.mem_append.mp ha with ha | ha
      · exact ih (c :: post) hsplit a ha
      obtain rfl := List.mem_singleton.mp ha
      have hahead : ∀ b, Before l b a → (b ∈ ks ↔ b ∈ ks') := fun b hb =>
        ih (a :: post) hsplit b (Before.mem_prefix (hsplit ▸ hl) (hsplit ▸ hb))
      have hal : a ∈ l := by simp [hsplit]
      rw [h.mem_iff a hal, h'.mem_iff a hal]
      constructor
      · exact fun hk b hb hba => hk b ((hahead b hba).mpr hb) hba
      · exact fun hk b hb hba => hk b ((hahead b hba).mp hb) hba
  rw [← filter_mem_of_sublist h.sublist hl, ← filter_mem_of_sublist h'.sublist hl]
  refine List.filter_congr (fun a ha => ?_)
  simp [hmem l [] (by simp) a ha]

theorem eq_greedy [DecidableRel r] (h : IsKernel r l ks) (hl : l.Nodup) : ks = greedy r l :=
  h.unique (greedy_kernel r hl) hl

/-- No member excludes a later one. -/
theorem pairwise (h : IsKernel r l ks) : ks.Pairwise (fun a b => ¬ r a b) := by
  refine List.pairwise_iff_forall_sublist.mpr (fun {a b} hab => ?_)
  have hbefore : Before l a b := hab.trans h.sublist
  exact (h.mem_iff b hbefore.right).mp (Before.right hab) a (Before.left hab) hbefore

/-- What is left out is excluded by a member ahead of it. -/
theorem dominated (h : IsKernel r l ks) (ha : a ∈ l) (hk : a ∉ ks) :
    ∃ b ∈ ks, Before l b a ∧ r b a := by
  have hnot := mt (h.mem_iff a ha).mpr hk
  push Not at hnot
  exact hnot

/-- Independence and domination along the list make a kernel. -/
theorem of_dominating (hs : ks.Sublist l) (hl : l.Nodup)
    (hind : ∀ a ∈ ks, ∀ b ∈ ks, a ≠ b → ¬ r a b)
    (hdom : ∀ a ∈ l, a ∉ ks → ∃ b ∈ ks, Before l b a ∧ r b a) : IsKernel r l ks := by
  refine ⟨hs, fun a ha => ⟨fun hk b hb hba => hind b hb a hk (hba.ne hl), fun h => ?_⟩⟩
  by_contra hk
  obtain ⟨b, hb, hba, hr⟩ := hdom a ha hk
  exact h b hb hba hr

end IsKernel

theorem greedy_independent {r : α → α → Prop} [DecidableRel r] {l : List α} (hl : l.Nodup)
    (hr : ∀ a b, r a b → r b a) :
    ∀ a ∈ greedy r l, ∀ b ∈ greedy r l, a ≠ b → ¬ r a b := by
  have : Std.Symm (fun a b => ¬ r a b) := ⟨fun a b hab hba => hab (hr b a hba)⟩
  intro a ha b hb hne
  exact (greedy_kernel r hl).pairwise.forall ha hb hne

/-- Any list can be listed by descending score with the elements of `p` ahead
of the others of their score. -/
theorem exists_sorted [LinearOrder γ] (score : α → γ) (p : α → Prop) [DecidablePred p]
    (l : List α) : ∃ l' : List α, l'.Perm l ∧
      l'.Pairwise (fun a b => score b ≤ score a ∧ (score a = score b → p b → p a)) := by
  let key : α → γᵒᵈ ×ₗ Bool := fun a => toLex (OrderDual.toDual (score a), decide (¬ p a))
  have : Std.Total (fun a b => key a ≤ key b) := ⟨fun a b => le_total _ _⟩
  have : IsTrans α (fun a b => key a ≤ key b) := ⟨fun a b c hab hbc => le_trans hab hbc⟩
  refine ⟨l.insertionSort (fun a b => key a ≤ key b), List.perm_insertionSort _ l,
    (List.pairwise_insertionSort _ l).imp (fun {a b} h => ?_)⟩
  rcases Prod.Lex.toLex_le_toLex.mp h with hlt | ⟨he, hle⟩
  · have hlt : score b < score a := hlt
    exact ⟨hlt.le, fun he => absurd he hlt.ne'⟩
  · have he : score a = score b := he
    refine ⟨he.ge, fun _ hb => ?_⟩
    by_contra ha
    simp only [ha, hb, not_true_eq_false, not_false_eq_true, decide_false, decide_true] at hle
    exact absurd hle (not_le_of_gt Bool.false_lt_true)

/-- When a finer relation `s` accounts for everything that selection by `r` drops. -/
theorem dominated_within_iff [LinearOrder γ] {r s : α → α → Prop} [DecidableRel r] [DecidableRel s]
    (score : α → γ) {l : List α} (hl : l.Nodup) (hr : ∀ a b, r a b → r b a)
    (hsr : ∀ a b, s a b → r a b) :
    (∀ a ∈ l, a ∉ greedy r l → ∃ b ∈ greedy r l, s b a ∧ score a ≤ score b) ↔
    ∃ l' : List α, l'.Perm l ∧ l'.Pairwise (fun a b => score b ≤ score a) ∧
      (∀ a ∈ greedy s l', ∀ b ∈ greedy s l', a ≠ b → ¬ r a b) ∧
      ∀ a ∈ l, a ∉ greedy s l' → ∃ b ∈ greedy s l', Before l b a ∧ r b a := by
  classical
  have hker := greedy_kernel r hl
  constructor
  · intro hdom
    obtain ⟨l', hp, hsort⟩ := exists_sorted score (· ∈ greedy r l) l
    have hl' : l'.Nodup := hp.nodup_iff.mpr hl
    have hkept : IsKernel s l' (l'.filter (· ∈ greedy r l)) := by
      refine IsKernel.of_dominating List.filter_sublist hl' (fun a ha b hb hne hs => ?_)
        (fun a ha hna => ?_)
      · have ha := (List.mem_filter.mp ha).2
        have hb := (List.mem_filter.mp hb).2
        exact greedy_independent hl hr a (by simpa using ha) b (by simpa using hb) hne (hsr a b hs)
      · have hna : a ∉ greedy r l := fun hm => hna (List.mem_filter.mpr ⟨ha, by simpa using hm⟩)
        obtain ⟨b, hb, hs, hle⟩ := hdom a (hp.mem_iff.mp ha) hna
        have hbl' : b ∈ l' := hp.mem_iff.mpr (hker.sublist.subset hb)
        refine ⟨b, List.mem_filter.mpr ⟨hbl', by simpa using hb⟩, ?_, hs⟩
        have hne : b ≠ a := fun he => hna (he ▸ hb)
        refine (Before.total ha hbl' hne).resolve_right (fun hab => ?_)
        obtain ⟨hge, htie⟩ := hab.rel hsort
        exact hna (htie (hle.antisymm hge) hb)
    have hmem : ∀ a ∈ l, (a ∈ greedy s l' ↔ a ∈ greedy r l) := by
      intro a ha
      rw [← hkept.eq_greedy hl', List.mem_filter]
      simp [hp.mem_iff.mpr ha]
    have hsub : ∀ a ∈ greedy s l', a ∈ l := fun a ha =>
      hp.mem_iff.mp ((greedy_sublist s l').subset ha)
    refine ⟨l', hp, hsort.imp (fun h => h.1), fun a ha b hb hne => ?_, fun a ha hna => ?_⟩
    · exact greedy_independent hl hr a ((hmem a (hsub a ha)).mp ha) b
        ((hmem b (hsub b hb)).mp hb) hne
    · obtain ⟨b, hb, hba, hrb⟩ := hker.dominated ha (fun hm => hna ((hmem a ha).mpr hm))
      exact ⟨b, (hmem b hba.left).mpr hb, hba, hrb⟩
  · rintro ⟨l', hp, hsort, hapart, hdom⟩
    have hl' : l'.Nodup := hp.nodup_iff.mpr hl
    have hkept : IsKernel r l (l.filter (· ∈ greedy s l')) := by
      refine IsKernel.of_dominating List.filter_sublist hl (fun a ha b hb hne => ?_)
        (fun a ha hna => ?_)
      · have ha := (List.mem_filter.mp ha).2
        have hb := (List.mem_filter.mp hb).2
        exact hapart a (by simpa using ha) b (by simpa using hb) hne
      · obtain ⟨b, hb, hba, hrb⟩ :=
          hdom a ha (fun hm => hna (List.mem_filter.mpr ⟨ha, by simpa using hm⟩))
        exact ⟨b, List.mem_filter.mpr ⟨hba.left, by simpa using hb⟩, hba, hrb⟩
    intro a ha hna
    rw [← hkept.eq_greedy hl] at hna
    have hna : a ∉ greedy s l' := fun hm => hna (List.mem_filter.mpr ⟨ha, by simpa using hm⟩)
    obtain ⟨b, hb, hba, hs⟩ := (greedy_kernel s hl').dominated (hp.mem_iff.mpr ha) hna
    refine ⟨b, ?_, hs, hba.rel hsort⟩
    rw [← hkept.eq_greedy hl]
    exact List.mem_filter.mpr ⟨hp.mem_iff.mp hba.left, by simpa using hb⟩

/-- Without ties there is one order to try, and it only has to keep what `r`
would keep. -/
theorem dominated_within_iff_of_injOn [LinearOrder γ] {r s : α → α → Prop} [DecidableRel r]
    [DecidableRel s] (score : α → γ) {l : List α} (hl : l.Nodup) (hr : ∀ a b, r a b → r b a)
    (hsr : ∀ a b, s a b → r a b) (hsort : l.Pairwise (fun a b => score b ≤ score a))
    (hinj : ∀ a ∈ l, ∀ b ∈ l, score a = score b → a = b) :
    (∀ a ∈ l, a ∉ greedy r l → ∃ b ∈ greedy r l, s b a ∧ score a ≤ score b) ↔
    ∀ a ∈ greedy s l, ∀ b ∈ greedy s l, a ≠ b → ¬ r a b := by
  rw [dominated_within_iff score hl hr hsr]
  constructor
  · rintro ⟨l', hp, hsort', hapart, _⟩
    have hll : l' = l := hp.eq_of_pairwise
      (fun a b ha hb hab hba => hinj a (hp.mem_iff.mp ha) b hb (hba.antisymm hab)) hsort' hsort
    exact hll ▸ hapart
  · intro hapart
    refine ⟨l, .refl l, hsort, hapart, fun a ha hna => ?_⟩
    obtain ⟨b, hb, hba, hs⟩ := (greedy_kernel s hl).dominated ha hna
    exact ⟨b, hb, hba, hsr b a hs⟩

theorem greedy_of_pairwise (r : α → α → Prop) [DecidableRel r] {l : List α}
    (h : l.Pairwise (fun a b => ¬ r a b)) : greedy r l = l := by
  fun_induction greedy r l with
  | case1 => rfl
  | case2 a l ih =>
    obtain ⟨ha, hl⟩ := List.pairwise_cons.mp h
    have hkeep : compatible r a l = l :=
      List.filter_eq_self.mpr (fun b hb => by simpa using ha b hb)
    rw [hkeep] at ih ⊢
    rw [ih hl]

end Greedy
