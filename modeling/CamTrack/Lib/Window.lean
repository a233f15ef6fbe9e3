import Mathlib

/-! The last few live values under each key of a history, where a value that has
ceased to be live never comes before one that still is. -/

namespace Window
variable {κ υ : Type*}

/-- What is live stays so further down the list. -/
def Ordered (live : υ → Bool) (l : List υ) : Prop := l.Pairwise (fun a b => live a → live b)

theorem Ordered.sublist {live : υ → Bool} {l l' : List υ} (h : Ordered live l) (hs : l'.Sublist l) :
    Ordered live l' :=
  List.Pairwise.sublist hs h

/-- Dropping what is no longer live, and keeping the last `n`, can be done in any order. -/
theorem filter_rtake {live : υ → Bool} {l : List υ} (n : Nat) (h : Ordered live l) :
    (l.rtake n).filter live = (l.filter live).rtake n := by
  induction l using List.reverseRecOn generalizing n with
  | nil => simp
  | append_singleton l a ih =>
    obtain ⟨hl, _, hlast⟩ := List.pairwise_append.mp h
    cases n with
    | zero => simp
    | succ n =>
      rw [List.rtake_concat_succ, List.filter_append, ih n hl, List.filter_append]
      cases ha : live a with
      | true => rw [List.filter_singleton, ha, Bool.cond_true, List.rtake_concat_succ]
      | false =>
        have hnone : l.filter live = [] := by
          apply List.filter_eq_nil_iff.mpr
          intro x hx hlive
          have := hlast x hx a (List.mem_singleton_self a) hlive
          rw [ha] at this
          cases this
        rw [hnone, List.filter_singleton, ha]
        simp

theorem rtake_rtake_concat (n : Nat) (l : List υ) (v : υ) :
    (l.rtake n ++ [v]).rtake n = (l ++ [v]).rtake n := by
  cases n with
  | zero => simp
  | succ n =>
    rw [List.rtake_concat_succ, List.rtake_concat_succ]
    congr 1
    simp only [List.rtake, List.drop_drop, List.length_drop]
    congr 1
    omega

theorem rtake_ne_nil {n : Nat} {l : List υ} (hn : 0 < n) (h : l ≠ []) : l.rtake n ≠ [] := by
  cases l using List.reverseRecOn with
  | nil => exact absurd rfl h
  | append_singleton l a =>
    obtain ⟨m, rfl⟩ := Nat.exists_eq_add_of_lt hn
    rw [Nat.zero_add, List.rtake_concat_succ]
    simp

/-- Dropping the oldest value for a new one changes the list, unless all are alike. -/
theorem eq_of_rtake_concat {l : List υ} {a : υ} {n : Nat}
    (h : (l ++ [a]).rtake n = l) : ∀ x ∈ l, x = a := by
  cases l with
  | nil => simp
  | cons y l =>
    have hlength := congrArg List.length h
    simp only [List.rtake, List.length_drop, List.length_append, List.length_cons,
      List.length_nil] at hlength
    have hone : l.length + 1 + (0 + 1) - n = 1 := by omega
    simp only [List.rtake, List.length_append, List.length_cons, List.length_nil, hone,
      List.cons_append, List.drop_succ_cons, List.drop_zero] at h
    clear hlength hone
    induction l generalizing y with
    | nil =>
      cases h
      simp
    | cons z l ih =>
      obtain ⟨rfl, htail⟩ := List.cons.inj h
      intro x hx
      have hz := ih _ htail
      rcases List.mem_cons.mp hx with rfl | hx
      · exact hz _ List.mem_cons_self
      · exact hz x hx

section
variable [DecidableEq κ]

/-- Where no two elements have one key, the element at a position is the one with its key. -/
theorem modify_eq_map {key : υ → κ} {l : List υ} {i : Nat} {x : υ} {f : υ → υ}
    (hn : (l.map key).Nodup) (hi : l[i]? = some x) :
    l.modify i f = l.map (fun y => if key y = key x then f y else y) := by
  induction l generalizing i with
  | nil => simp at hi
  | cons y l ih =>
    obtain ⟨hy, hn⟩ := List.nodup_cons.mp hn
    cases i with
    | zero =>
      obtain rfl : y = x := by simpa using hi
      have hrest : l.map (fun z => if key z = key y then f z else z) = l := by
        apply (List.map_congr_left _).trans (List.map_id l)
        intro z hz
        have hne : key z ≠ key y := fun he => hy (he ▸ List.mem_map_of_mem hz)
        rw [if_neg hne, id_eq]
      rw [List.modify_zero_cons, List.map_cons, if_pos rfl, hrest]
    | succ i =>
      rw [List.getElem?_cons_succ] at hi
      have hne : key y ≠ key x :=
        fun he => hy (he ▸ List.mem_map_of_mem (List.mem_of_getElem? hi))
      rw [List.modify_succ_cons, List.map_cons, if_neg hne, ih hn hi]

/-- The keys, each where it occurs first. -/
def firstSeen (keys : List κ) : List κ := keys.reverse.dedup.reverse

theorem mem_firstSeen {keys : List κ} {k : κ} : k ∈ firstSeen keys ↔ k ∈ keys := by
  simp [firstSeen]

theorem nodup_firstSeen (keys : List κ) : (firstSeen keys).Nodup :=
  List.nodup_reverse.mpr (List.nodup_dedup _)

theorem firstSeen_concat_of_mem {keys : List κ} {k : κ} (h : k ∈ keys) :
    firstSeen (keys ++ [k]) = firstSeen keys := by
  rw [firstSeen, List.reverse_concat', List.dedup_cons_of_mem (List.mem_reverse.mpr h), firstSeen]

theorem firstSeen_concat_of_not_mem {keys : List κ} {k : κ} (h : k ∉ keys) :
    firstSeen (keys ++ [k]) = firstSeen keys ++ [k] := by
  have hr : k ∉ keys.reverse := fun hk => h (List.mem_reverse.mp hk)
  rw [firstSeen, List.reverse_concat', List.dedup_cons_of_notMem hr, List.reverse_cons, firstSeen]

/-- The last `n` live values under a key. -/
def window (n : Nat) (live : υ → Bool) (history : List (κ × υ)) (k : κ) : List υ :=
  (((history.filter (fun e => e.1 = k)).map Prod.snd).filter live).rtake n

/-- The keys that have a live value, by their first occurrence, with their windows. -/
def groups (n : Nat) (live : υ → Bool) (history : List (κ × υ)) : List (κ × List υ) :=
  ((firstSeen (history.map Prod.fst)).map (fun k => (k, window n live history k))).filter
    (fun g => !g.2.isEmpty)

variable {n : Nat} {live live' : υ → Bool} {history : List (κ × υ)} {k : κ} {v : υ}

theorem window_expire (hle : ∀ v, live' v → live v) (h : Ordered live' (history.map Prod.snd)) :
    (window n live history k).filter live' = window n live' history k := by
  have hvalues : Ordered live' (((history.filter (fun e => e.1 = k)).map Prod.snd).filter live) :=
    h.sublist (List.filter_sublist.trans (List.filter_sublist.map Prod.snd))
  rw [window, filter_rtake n hvalues, List.filter_filter, window]
  congr 1
  apply List.filter_congr
  intro v _
  cases hv : live' v with
  | false => rfl
  | true => rw [hle v hv, Bool.and_true]

theorem window_concat_self (hv : live v) :
    window n live (history ++ [(k, v)]) k = (window n live history k ++ [v]).rtake n := by
  simp only [window, rtake_rtake_concat]
  simp [hv]

theorem window_concat_of_ne {k' : κ} (hne : k' ≠ k) :
    window n live (history ++ [(k, v)]) k' = window n live history k' := by
  simp [window, Ne.symm hne]

theorem window_of_not_mem (hk : k ∉ history.map Prod.fst) : window n live history k = [] := by
  have hnone : history.filter (fun e => e.1 = k) = [] :=
    List.filter_eq_nil_iff.mpr (fun e he hek =>
      hk (of_decide_eq_true hek ▸ List.mem_map_of_mem (f := Prod.fst) he))
  simp [window, hnone]

theorem window_ne_nil (hn : 0 < n) :
    window n live history k ≠ [] ↔ ∃ v, (k, v) ∈ history ∧ live v := by
  constructor
  · intro h
    obtain ⟨v, hv⟩ := List.exists_mem_of_ne_nil _ h
    obtain ⟨hmem, hlive⟩ := List.mem_filter.mp (List.mem_of_mem_drop hv)
    obtain ⟨e, he, rfl⟩ := List.mem_map.mp hmem
    obtain ⟨he, hek⟩ := List.mem_filter.mp he
    exact ⟨e.2, of_decide_eq_true hek ▸ he, hlive⟩
  · rintro ⟨v, hmem, hlive⟩
    apply rtake_ne_nil hn
    apply List.ne_nil_of_mem (a := v)
    refine List.mem_filter.mpr ⟨List.mem_map.mpr ⟨(k, v), ?_, rfl⟩, hlive⟩
    exact List.mem_filter.mpr ⟨hmem, decide_eq_true rfl⟩

theorem mem_groups {g : κ × List υ} (hn : 0 < n) : g ∈ groups n live history ↔
    g.2 = window n live history g.1 ∧ ∃ v, (g.1, v) ∈ history ∧ live v := by
  rw [← window_ne_nil hn]
  constructor
  · intro h
    obtain ⟨hmem, hne⟩ := List.mem_filter.mp h
    obtain ⟨k, _, rfl⟩ := List.mem_map.mp hmem
    exact ⟨rfl, by simpa using hne⟩
  · rintro ⟨hg, hne⟩
    obtain ⟨v, hmem, _⟩ := (window_ne_nil hn).mp hne
    refine List.mem_filter.mpr ⟨List.mem_map.mpr ⟨g.1, ?_, by rw [← hg]⟩, by simpa [hg] using hne⟩
    exact mem_firstSeen.mpr (List.mem_map_of_mem (f := Prod.fst) hmem)

theorem groups_nodup : ((groups n live history).map Prod.fst).Nodup := by
  have hall : (((firstSeen (history.map Prod.fst)).map
      (fun k => (k, window n live history k))).map Prod.fst).Nodup := by
    simpa only [List.map_map, Function.comp_def, List.map_id'] using nodup_firstSeen _
  exact hall.sublist (List.filter_sublist.map Prod.fst)

/-- Windows can be pruned in place as their values expire. -/
theorem groups_expire (hle : ∀ v, live' v → live v) (h : Ordered live' (history.map Prod.snd)) :
    ((groups n live history).map (fun g => (g.1, g.2.filter live'))).filter
      (fun g => !g.2.isEmpty) = groups n live' history := by
  simp only [groups]
  induction firstSeen (history.map Prod.fst) with
  | nil => rfl
  | cons k keys ih =>
    simp only [List.map_cons, List.filter_cons]
    cases hw : (window n live history k).isEmpty with
    | true =>
      have hnil : window n live' history k = [] := by
        rw [← window_expire hle h, List.isEmpty_iff.mp hw]
        rfl
      simpa [hnil] using ih
    | false =>
      simp only [Bool.not_false, if_true, List.map_cons, List.filter_cons, window_expire hle h, ih]

/-- A live value under a key that has a window. -/
theorem groups_concat_of_mem (hn : 0 < n) (hv : live v)
    (hk : k ∈ (groups n live history).map Prod.fst) : groups n live (history ++ [(k, v)]) =
      (groups n live history).map (fun g => if g.1 = k then (g.1, (g.2 ++ [v]).rtake n) else g) := by
  have hmem : k ∈ history.map Prod.fst := by
    obtain ⟨g, hg, rfl⟩ := List.mem_map.mp hk
    obtain ⟨_, v, hv, _⟩ := (mem_groups hn).mp hg
    exact List.mem_map_of_mem (f := Prod.fst) hv
  have hwindow : window n live history k ≠ [] := by
    obtain ⟨g, hg, rfl⟩ := List.mem_map.mp hk
    exact (window_ne_nil hn).mpr ((mem_groups hn).mp hg).2
  simp only [groups, List.map_append, List.map_cons, List.map_nil, firstSeen_concat_of_mem hmem]
  induction firstSeen (history.map Prod.fst) with
  | nil => rfl
  | cons key keys ih =>
    simp only [List.map_cons, List.filter_cons]
    by_cases hkey : key = k
    · subst hkey
      have hne : (window n live history key ++ [v]).rtake n ≠ [] := rtake_ne_nil hn (by simp)
      simp [window_concat_self hv, hne, hwindow, ih]
    · rw [window_concat_of_ne hkey, ih]
      cases (window n live history key).isEmpty with
      | true => simp
      | false => simp [hkey]

/-- A live value under a key of its own. -/
theorem groups_concat_of_not_mem (hn : 0 < n) (hv : live v) (hk : k ∉ history.map Prod.fst) :
    groups n live (history ++ [(k, v)]) = groups n live history ++ [(k, [v])] := by
  have hself : window n live (history ++ [(k, v)]) k = [v] := by
    obtain ⟨m, rfl⟩ := Nat.exists_eq_add_of_lt hn
    rw [window_concat_self hv, window_of_not_mem hk, Nat.zero_add, List.rtake_concat_succ]
    simp
  have hothers : (firstSeen (history.map Prod.fst)).map
      (fun key => (key, window n live (history ++ [(k, v)]) key)) =
      (firstSeen (history.map Prod.fst)).map (fun key => (key, window n live history key)) := by
    apply List.map_congr_left
    intro key hkey
    have hne : key ≠ k := by
      rintro rfl
      exact hk (mem_firstSeen.mp hkey)
    rw [window_concat_of_ne hne]
  rw [groups, List.map_append, List.map_singleton, firstSeen_concat_of_not_mem hk, List.map_append,
    List.filter_append, hothers, List.map_singleton, hself]
  rfl

end

end Window
