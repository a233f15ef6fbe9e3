import Mathlib

namespace Python

/-- The exceptions that the code can raise. -/
inductive Error where
  | indexError
  | keyError
  | valueError
  | linAlgError
  | typeError
  | fileNotFoundError
  | databaseError
  | connectionError
  deriving DecidableEq, Repr

/-- `xs[i]` for a non-negative index. -/
def index (xs : List α) (i : Nat) : Except Error α :=
  match xs[i]? with
  | some x => .ok x
  | none => .error .indexError

/-- `zip(xs, ys, strict=True)`. -/
def zipStrict (xs : List α) (ys : List β) : Except Error (List (α × β)) :=
  if xs.length = ys.length then .ok (xs.zip ys) else .error .valueError

@[simp] theorem except_pure (x : α) : (pure x : Except ε α) = .ok x := rfl

@[simp] theorem except_bind_ok (x : α) (f : α → Except ε β) :
    ((.ok x : Except ε α) >>= f) = f x := rfl

@[simp] theorem except_bind_error (e : ε) (f : α → Except ε β) :
    ((.error e : Except ε α) >>= f) = .error e := rfl

theorem bind_eq_ok {x : Except ε α} {f : α → Except ε β} {b : β} :
    x >>= f = .ok b ↔ ∃ a, x = .ok a ∧ f a = .ok b := by
  cases x <;> simp

theorem map_eq_ok {x : Except ε α} {f : α → β} {b : β} :
    x.map f = .ok b ↔ ∃ a, x = .ok a ∧ f a = b := by
  cases x <;> simp [Except.map]

theorem index_of_getElem? {xs : List α} {i : Nat} {x : α} (h : xs[i]? = some x) :
    index xs i = .ok x := by
  simp [index, h]

theorem index_of_lt {xs : List α} {i : Nat} (h : i < xs.length) : index xs i = .ok xs[i] :=
  index_of_getElem? (List.getElem?_eq_getElem h)

/-- A comprehension whose body never raises is an ordinary map. -/
theorem mapM_ok (f : α → Except ε β) (g : α → β) (xs : List α)
    (h : ∀ x ∈ xs, f x = .ok (g x)) : xs.mapM f = .ok (xs.map g) := by
  induction xs with
  | nil => rfl
  | cons x xs ih =>
    have hs := ih (fun y hy => h y (List.mem_cons_of_mem x hy))
    simp [List.mapM_cons, h x List.mem_cons_self, hs]

/-- A comprehension whose body never raises yields one result for each element. -/
theorem mapM_forall₂ {f : α → Except ε β} {P : α → β → Prop} {xs : List α}
    (h : ∀ x ∈ xs, ∃ y, f x = .ok y ∧ P x y) :
    ∃ ys, xs.mapM f = .ok ys ∧ List.Forall₂ P xs ys := by
  induction xs with
  | nil => exact ⟨[], rfl, .nil⟩
  | cons x xs ih =>
    obtain ⟨y, hy, hp⟩ := h x List.mem_cons_self
    obtain ⟨ys, hys, hps⟩ := ih (fun z hz => h z (List.mem_cons_of_mem x hz))
    exact ⟨y :: ys, by simp [List.mapM_cons, hy, hys], .cons hp hps⟩

/-- A comprehension that returns has evaluated its body on every element. -/
theorem mapM_eq_ok {f : α → Except ε β} {xs : List α} {ys : List β} (h : xs.mapM f = .ok ys) :
    List.Forall₂ (fun x y => f x = .ok y) xs ys := by
  induction xs generalizing ys with
  | nil =>
    cases h
    exact .nil
  | cons x xs ih =>
    rw [List.mapM_cons] at h
    obtain ⟨y, hy, h⟩ := bind_eq_ok.mp h
    obtain ⟨rest, hrest, h⟩ := bind_eq_ok.mp h
    cases h
    exact .cons hy (ih hrest)

theorem forall₂_mem {R : α → β → Prop} {xs : List α} {ys : List β} (h : List.Forall₂ R xs ys)
    (hx : x ∈ xs) : ∃ y ∈ ys, R x y := by
  induction h with
  | nil => cases hx
  | cons hr _ ih =>
    rcases List.mem_cons.mp hx with rfl | hx
    · exact ⟨_, List.mem_cons_self, hr⟩
    · obtain ⟨y, hy, hr⟩ := ih hx
      exact ⟨y, List.mem_cons_of_mem _ hy, hr⟩

/-- An insertion-ordered dictionary. No key occurs twice. -/
structure Dict (κ υ : Type*) where
  entries : List (κ × υ)
  nodup : (entries.map Prod.fst).Nodup

namespace Dict
variable {κ υ : Type*}

def empty : Dict κ υ := ⟨[], List.nodup_nil⟩

def keys (d : Dict κ υ) : List κ := d.entries.map Prod.fst

def values (d : Dict κ υ) : List υ := d.entries.map Prod.snd

theorem ext_entries {d d' : Dict κ υ} (h : d.entries = d'.entries) : d = d' := by
  obtain ⟨es, _⟩ := d
  obtain ⟨es', _⟩ := d'
  cases h
  rfl

theorem keys_nodup (d : Dict κ υ) : d.keys.Nodup := d.nodup

theorem keys_eq_nil {d : Dict κ υ} : d.keys = [] ↔ d.entries = [] := List.map_eq_nil_iff

@[simp] theorem keys_empty : (empty : Dict κ υ).keys = [] := rfl

/-- Rewriting every stored value in place, as a loop over `values()` does. -/
def mapValues (d : Dict κ υ) (f : κ → υ → υ') : Dict κ υ' :=
  ⟨d.entries.map (fun e => (e.1, f e.1 e.2)), by
    simpa only [List.map_map, Function.comp_def] using d.nodup⟩

@[simp] theorem keys_mapValues (d : Dict κ υ) (f : κ → υ → υ') :
    (d.mapValues f).keys = d.keys := by
  simp [mapValues, keys, Function.comp_def]

/-- Keeping the entries that satisfy a test, in their order. -/
def filter (d : Dict κ υ) (p : κ → υ → Bool) : Dict κ υ :=
  ⟨d.entries.filter (fun e => p e.1 e.2),
    d.nodup.sublist (List.filter_sublist.map Prod.fst)⟩

section Lookup
variable [DecidableEq κ]

/-- `d.get(k)`. -/
def get? (d : Dict κ υ) (k : κ) : Option υ :=
  (d.entries.find? (fun e => e.1 == k)).map Prod.snd

/-- `d[k]`. -/
def getItem (d : Dict κ υ) (k : κ) : Except Error υ :=
  match d.get? k with
  | some v => .ok v
  | none => .error .keyError

theorem find_of_mem {es : List (κ × υ)} (hn : (es.map Prod.fst).Nodup) {k : κ} {v : υ}
    (h : (k, v) ∈ es) : es.find? (fun e => e.1 == k) = some (k, v) := by
  induction es with
  | nil => simp at h
  | cons e es ih =>
    simp only [List.map_cons, List.nodup_cons] at hn
    rcases List.mem_cons.mp h with rfl | h
    · simp
    · have hne : e.1 ≠ k := by
        intro he
        exact hn.1 (he ▸ List.mem_map_of_mem (f := Prod.fst) h)
      simpa [hne] using ih hn.2 h

theorem get?_eq_some {d : Dict κ υ} {k : κ} {v : υ} :
    d.get? k = some v ↔ (k, v) ∈ d.entries := by
  constructor
  · intro h
    obtain ⟨e, he, rfl⟩ := Option.map_eq_some_iff.mp h
    have hk : e.1 = k := by simpa using List.find?_some he
    exact hk ▸ List.mem_of_find?_eq_some he
  · intro h
    simp [get?, find_of_mem d.nodup h]

theorem get?_eq_none {d : Dict κ υ} {k : κ} : d.get? k = none ↔ k ∉ d.keys := by
  simp only [get?, keys, Option.map_eq_none_iff, List.find?_eq_none, List.mem_map, not_exists,
    not_and, beq_iff_eq]

theorem mem_keys_iff {d : Dict κ υ} {k : κ} : k ∈ d.keys ↔ ∃ v, d.get? k = some v := by
  rw [← Option.isSome_iff_exists, ← not_iff_not, ← get?_eq_none]
  cases d.get? k <;> simp

theorem mem_keys_of_get? {d : Dict κ υ} {k : κ} {v : υ} (h : d.get? k = some v) : k ∈ d.keys :=
  mem_keys_iff.mpr ⟨v, h⟩

theorem getItem_eq_ok {d : Dict κ υ} {k : κ} {v : υ} : d.getItem k = .ok v ↔ d.get? k = some v := by
  unfold getItem
  cases d.get? k <;> simp

@[simp] theorem get?_empty (k : κ) : (empty : Dict κ υ).get? k = none := rfl

@[simp] theorem get?_mapValues (d : Dict κ υ) (f : κ → υ → υ') (k : κ) :
    (d.mapValues f).get? k = (d.get? k).map (f k) := by
  cases h : d.get? k with
  | none => simpa [get?_eq_none] using h
  | some v =>
    simp only [Option.map_some, get?_eq_some]
    exact List.mem_map.mpr ⟨(k, v), get?_eq_some.mp h, rfl⟩

@[simp] theorem get?_filter (d : Dict κ υ) (p : κ → υ → Bool) (k : κ) :
    (d.filter p).get? k = (d.get? k).filter (p k) := by
  ext v
  simp [get?_eq_some, filter, Option.filter_eq_some_iff]

/-- Dictionaries with the same key order and the same lookups are equal. -/
theorem ext_get? {d d' : Dict κ υ} (hk : d.keys = d'.keys)
    (hg : ∀ k ∈ d.keys, d.get? k = d'.get? k) : d = d' := by
  have main : ∀ es es' : List (κ × υ), es.map Prod.fst = es'.map Prod.fst →
      (∀ k v, (k, v) ∈ es → (k, v) ∈ es') → (es'.map Prod.fst).Nodup → es = es' := by
    intro es es' hke hin hn
    apply List.ext_getElem (by simpa using congrArg List.length hke)
    intro i hi hi'
    have hki : es[i].1 = es'[i].1 := by
      have h := congrArg (fun ks : List κ => ks[i]?) hke
      simpa [hi, hi'] using h
    have hm : (es[i].1, es[i].2) ∈ es' := hin _ _ (List.getElem_mem hi)
    have hm' : (es'[i].1, es'[i].2) ∈ es' := List.getElem_mem hi'
    rw [hki] at hm
    have hf := Option.some.inj ((find_of_mem hn hm).symm.trans (find_of_mem hn hm'))
    exact Prod.ext hki (congrArg Prod.snd hf :)
  obtain ⟨es, hn⟩ := d
  obtain ⟨es', hn'⟩ := d'
  have he : es = es' := by
    apply main es es' hk ?_ hn'
    intro k v hm
    have hd : (⟨es, hn⟩ : Dict κ υ).get? k = some v := get?_eq_some.mpr hm
    rw [hg k (mem_keys_of_get? hd)] at hd
    exact get?_eq_some.mp hd
  exact ext_entries he

/-- `d[k] = v`: an existing key keeps its place, a new one goes to the end. -/
def set (d : Dict κ υ) (k : κ) (v : υ) : Dict κ υ :=
  if hk : k ∈ d.keys then d.mapValues (fun j w => if j = k then v else w)
  else ⟨d.entries ++ [(k, v)], by
    rw [List.map_append, List.nodup_append]
    refine ⟨d.nodup, by simp, ?_⟩
    intro a ha b hb he
    simp only [List.map_cons, List.map_nil, List.mem_singleton] at hb
    exact hk (hb ▸ he ▸ ha)⟩

theorem keys_set_of_mem {d : Dict κ υ} {k : κ} (hk : k ∈ d.keys) (v : υ) :
    (d.set k v).keys = d.keys := by
  simp [set, hk]

theorem entries_set_of_not_mem {d : Dict κ υ} {k : κ} (hk : k ∉ d.keys) (v : υ) :
    (d.set k v).entries = d.entries ++ [(k, v)] := by
  simp [set, hk]

theorem keys_set_of_not_mem {d : Dict κ υ} {k : κ} (hk : k ∉ d.keys) (v : υ) :
    (d.set k v).keys = d.keys ++ [k] := by
  simp [keys, entries_set_of_not_mem hk]

theorem get?_set (d : Dict κ υ) (k j : κ) (v : υ) :
    (d.set k v).get? j = if j = k then some v else d.get? j := by
  by_cases hk : k ∈ d.keys
  · simp only [set, hk, ↓reduceDIte, get?_mapValues]
    by_cases hj : j = k
    · obtain ⟨w, hw⟩ := mem_keys_iff.mp hk
      simp [hj, hw]
    · cases d.get? j <;> simp [hj]
  · have hnone : d.get? k = none := get?_eq_none.mpr hk
    simp only [set, hk, ↓reduceDIte, get?, List.find?_append]
    by_cases hj : j = k
    · subst hj
      have hf : d.entries.find? (fun e => e.1 == j) = none := by
        simpa [get?] using hnone
      simp [hf]
    · have hkj : (k == j) = false := by simpa using Ne.symm hj
      cases d.entries.find? (fun e => e.1 == j) <;> simp [hj, hkj]

@[simp] theorem get?_set_self (d : Dict κ υ) (k : κ) (v : υ) : (d.set k v).get? k = some v := by
  simp [get?_set]

theorem set_set (d : Dict κ υ) (k : κ) (v v' : υ) : (d.set k v).set k v' = d.set k v' := by
  have hmem : k ∈ (d.set k v).keys := mem_keys_of_get? (get?_set_self d k v)
  apply ext_get?
  · rw [keys_set_of_mem hmem]
    by_cases hk : k ∈ d.keys
    · rw [keys_set_of_mem hk, keys_set_of_mem hk]
    · rw [keys_set_of_not_mem hk, keys_set_of_not_mem hk]
  · intro j _
    rw [get?_set, get?_set, get?_set]
    split <;> rfl

/-- Storing what is there already changes nothing. -/
theorem set_eq_self {d : Dict κ υ} {k : κ} {v : υ} (h : d.get? k = some v) : d.set k v = d := by
  have hk := mem_keys_of_get? h
  apply ext_get? (keys_set_of_mem hk v)
  intro j _
  rw [get?_set]
  split
  · rename_i hj
    rw [hj, h]
  · rfl

/-- `del d[k]` for a key that is present. -/
def erase (d : Dict κ υ) (k : κ) : Dict κ υ := d.filter (fun j _ => decide (j ≠ k))

theorem keys_erase (d : Dict κ υ) (k : κ) :
    (d.erase k).keys = d.keys.filter (fun j => decide (j ≠ k)) := by
  simp [erase, filter, keys, List.filter_map, Function.comp_def]

end Lookup

section Loops
variable {κ υ : Type u} [DecidableEq κ]

/-- A loop over keys that rewrites the values it does not pass over. -/
theorem foldlM_set {ks : List κ} (hn : ks.Nodup) (d : Dict κ υ) (hsub : ∀ k ∈ ks, k ∈ d.keys)
    (p : κ → Prop) [DecidablePred p] (f : υ → υ) :
    ks.foldlM (fun (d : Dict κ υ) k =>
      if p k then return d
      else do
        let v ← d.getItem k
        return d.set k (f v)) d =
      .ok (d.mapValues (fun k v => if k ∈ ks ∧ ¬ p k then f v else v)) := by
  induction ks generalizing d with
  | nil =>
    have he : d.mapValues (fun _ v => v) = d := ext_get? (by simp) (by simp)
    simp [he]
  | cons k ks ih =>
    obtain ⟨hk, hn⟩ := List.nodup_cons.mp hn
    obtain ⟨v, hv⟩ := mem_keys_iff.mp (hsub k List.mem_cons_self)
    have hrest : ∀ j ∈ ks, j ∈ d.keys := fun j hj => hsub j (List.mem_cons_of_mem k hj)
    rw [List.foldlM_cons]
    by_cases hp : p k
    · rw [if_pos hp, except_pure, except_bind_ok, ih hn d hrest]
      congr 1
      apply ext_get? (by simp)
      intro j _
      simp only [get?_mapValues]
      congr 1
      funext w
      by_cases hj : j = k
      · simp [hj, hp]
      · simp [hj]
    · have hkeys := keys_set_of_mem (mem_keys_of_get? hv) (f v)
      rw [if_neg hp, getItem_eq_ok.mpr hv, except_bind_ok, except_pure, except_bind_ok,
        ih hn _ (by rwa [hkeys])]
      congr 1
      apply ext_get? (by simp [hkeys])
      intro j _
      simp only [get?_mapValues, get?_set]
      by_cases hj : j = k
      · subst hj
        simp [hv, hk, hp]
      · simp [hj]

/-- A loop over keys that deletes those whose values satisfy a test. -/
theorem foldlM_erase {ks : List κ} (hn : ks.Nodup) (d : Dict κ υ) (hsub : ∀ k ∈ ks, k ∈ d.keys)
    (p : υ → Bool) :
    ks.foldlM (fun (d : Dict κ υ) k => do
      let v ← d.getItem k
      return if p v then d.erase k else d) d =
      .ok (d.filter (fun k v => !(decide (k ∈ ks) && p v))) := by
  induction ks generalizing d with
  | nil => exact congrArg Except.ok (ext_entries (by simp [filter]))
  | cons k ks ih =>
    obtain ⟨hk, hn⟩ := List.nodup_cons.mp hn
    obtain ⟨v, hv⟩ := mem_keys_iff.mp (hsub k List.mem_cons_self)
    have hrest : ∀ j ∈ ks, j ∈ d.keys := fun j hj => hsub j (List.mem_cons_of_mem k hj)
    have huniq : ∀ e ∈ d.entries, e.1 = k → e.2 = v := by
      intro e he hek
      subst hek
      exact Option.some.inj ((get?_eq_some.mpr he).symm.trans hv)
    have hkeep : ∀ j ∈ ks, j ∈ (d.erase k).keys := by
      intro j hj
      rw [keys_erase]
      exact List.mem_filter.mpr ⟨hrest j hj, by simpa using fun he : j = k => hk (he ▸ hj)⟩
    rw [List.foldlM_cons]
    refine bind_eq_ok.mpr ⟨_, bind_eq_ok.mpr ⟨v, getItem_eq_ok.mpr hv, rfl⟩, ?_⟩
    cases hp : p v with
    | true =>
      rw [if_pos rfl, ih hn _ hkeep]
      refine congrArg Except.ok (ext_entries ?_)
      simp only [filter, erase, List.filter_filter]
      apply List.filter_congr
      intro e he
      by_cases hek : e.1 = k
      · simp [hek, huniq e he hek, hp]
      · simp [hek]
    | false =>
      rw [if_neg (by simp), ih hn d hrest]
      refine congrArg Except.ok (ext_entries ?_)
      apply List.filter_congr
      intro e he
      by_cases hek : e.1 = k
      · simp [hek, huniq e he hek, hp]
      · simp [hek]

/-- Over all keys of a dictionary, such a loop is a filter. -/
theorem foldlM_erase_keys (d : Dict κ υ) (p : υ → Bool) :
    d.keys.foldlM (fun (d : Dict κ υ) k => do
      let v ← d.getItem k
      return if p v then d.erase k else d) d = .ok (d.filter (fun _ v => !p v)) := by
  rw [foldlM_erase d.keys_nodup d (fun _ hk => hk)]
  refine congrArg Except.ok (ext_entries ?_)
  apply List.filter_congr
  intro e he
  have hmem : e.1 ∈ d.keys := List.mem_map_of_mem he
  simp [hmem]

end Loops
end Dict
end Python
