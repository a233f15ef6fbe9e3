import CamTrack.CrossCameraMatcher
import CamTrack.Lib.Window

namespace CamTrack
open Python

theorem argmax_map {α β γ : Type*} [LinearOrder γ] (f : β → γ) (g : α → β) (l : List α) :
    (l.map g).argmax f = (l.argmax (f ∘ g)).map g := by
  induction l using List.reverseRecOn with
  | nil => rfl
  | append_singleton l a ih =>
    rw [List.map_append, List.map_singleton, List.argmax_concat, List.argmax_concat, ih]
    cases l.argmax (f ∘ g) with
    | none => rfl
    | some b =>
      simp only [Option.map_some, Function.comp_apply]
      split <;> rfl

theorem argmax_congr {α γ : Type*} [LinearOrder γ] {f g : α → γ} {l : List α}
    (h : ∀ a ∈ l, f a = g a) : l.argmax f = l.argmax g := by
  induction l using List.reverseRecOn with
  | nil => rfl
  | append_singleton l a ih =>
    rw [List.argmax_concat, List.argmax_concat, ih (fun b hb => h b (List.mem_append_left _ hb))]
    cases hb : l.argmax g with
    | none => rfl
    | some b =>
      simp only [h a (by simp), h b (List.mem_append_left _ (List.argmax_mem hb))]

/-- The first of the elements that score highest. -/
theorem argmax_first {α γ : Type*} [LinearOrder γ] {f : α → γ} {l : List α} {a : α} :
    l.argmax f = some a ↔ ∃ before after, l = before ++ a :: after ∧
      (∀ x ∈ before, f x < f a) ∧ ∀ x ∈ after, f x ≤ f a := by
  constructor
  · intro h
    induction l using List.reverseRecOn with
    | nil => cases h
    | append_singleton l b ih =>
      rw [List.argmax_concat] at h
      cases hl : l.argmax f with
      | none =>
        rw [hl] at h
        cases h
        rw [List.argmax_eq_none.mp hl]
        exact ⟨[], [], rfl, by simp, by simp⟩
      | some c =>
        simp only [hl] at h
        split at h
        · rename_i hlt
          cases h
          refine ⟨l, [], rfl, ?_, by simp⟩
          intro x hx
          exact (List.le_of_mem_argmax hx hl).trans_lt hlt
        · rename_i hle
          cases h
          obtain ⟨before, after, rfl, hbefore, hafter⟩ := ih hl
          refine ⟨before, after ++ [b], by simp, hbefore, ?_⟩
          intro x hx
          rcases List.mem_append.mp hx with hx | hx
          · exact hafter x hx
          · rw [List.mem_singleton.mp hx]
            exact not_lt.mp hle
  · rintro ⟨before, after, rfl, hbefore, hafter⟩
    induction after using List.reverseRecOn with
    | nil =>
      rw [List.argmax_concat]
      cases hl : before.argmax f with
      | none => rfl
      | some c => exact if_pos (hbefore c (List.argmax_mem hl))
    | append_singleton after b ih =>
      have ih := ih (fun x hx => hafter x (List.mem_append_left _ hx))
      rw [← List.cons_append, ← List.append_assoc, List.argmax_concat, ih]
      exact if_neg (not_lt.mpr (hafter b (by simp)))

section Scored
variable {K ε : Type}

/-- The entries of the `i`-th identity, each with its similarity. -/
def scoredEntries (value : ε → ε → K) (embedding : ε) (identity : Identity K ε) (i : Nat) :
    List (Best K ε) :=
  identity.entries.map (fun entry => ⟨i, identity, entry, value embedding entry.embedding⟩)

/-- The entries of a gallery in the order of the scan. -/
def scored (value : ε → ε → K) (embedding : ε) (identities : List (Identity K ε)) :
    List (Best K ε) :=
  identities.zipIdx.flatMap (fun (identity, i) => scoredEntries value embedding identity i)

/-- What is scored is an entry of the gallery. -/
theorem mem_scored {value : ε → ε → K} {embedding : ε} {identities : List (Identity K ε)}
    {best : Best K ε} (h : best ∈ scored value embedding identities) :
    identities[best.index]? = some best.identity ∧ best.entry ∈ best.identity.entries ∧
      best.similarity = value embedding best.entry.embedding := by
  obtain ⟨⟨identity, i⟩, hi, hb⟩ := List.mem_flatMap.mp h
  obtain ⟨entry, he, rfl⟩ := List.mem_map.mp hb
  exact ⟨List.mem_zipIdx_iff_getElem?.mp hi, he, rfl⟩

end Scored

section Scan
variable {K ε : Type} [Field K] [LinearOrder K] {similarity : ε → ε → Except Error K}
  {value : ε → ε → K} {embedding : ε} {identities : List (Identity K ε)}

/-- One turn of the scan. -/
def better (best : Option (Best K ε)) (candidate : Best K ε) : Option (Best K ε) :=
  if candidate.similarity > bestSimilarity best then some candidate else best

theorem scanEntries_ok {identity : Identity K ε} (i : Nat) (best : Option (Best K ε))
    (h : ∀ entry ∈ identity.entries,
      similarity embedding entry.embedding = .ok (value embedding entry.embedding)) :
    scanEntries similarity embedding identity i best =
      .ok ((scoredEntries value embedding identity i).foldl better best) := by
  rw [scanEntries, scoredEntries]
  revert h
  induction identity.entries generalizing best with
  | nil =>
    intro _
    rfl
  | cons entry entries ih =>
    intro h
    rw [List.foldlM_cons, h entry List.mem_cons_self, List.map_cons, List.foldl_cons]
    exact ih _ (fun e he => h e (List.mem_cons_of_mem _ he))

/-- A scan in which no similarity raises. -/
theorem nearest_ok
    (h : ∀ identity ∈ identities, ∀ entry ∈ identity.entries,
      similarity embedding entry.embedding = .ok (value embedding entry.embedding)) :
    nearest similarity embedding identities =
      .ok ((scored value embedding identities).foldl better none) := by
  have hindexed : ∀ e ∈ identities.zipIdx, ∀ entry ∈ e.1.entries,
      similarity embedding entry.embedding = .ok (value embedding entry.embedding) :=
    fun e he => h e.1 (List.fst_mem_of_mem_zipIdx he)
  rw [nearest, scored]
  revert hindexed
  generalize (none : Option (Best K ε)) = best
  induction identities.zipIdx generalizing best with
  | nil =>
    intro _
    rfl
  | cons e indexed ih =>
    intro hindexed
    have hfirst := scanEntries_ok e.2 best (hindexed e List.mem_cons_self)
    rw [List.foldlM_cons, List.flatMap_cons, List.foldl_append]
    simp only [hfirst]
    exact ih _ (fun e he => hindexed e (List.mem_cons_of_mem _ he))

/-- The scan finds the first of the most similar entries, where it beats `-1.0`. -/
theorem foldl_better (candidates : List (Best K ε)) : candidates.foldl better none =
    (candidates.argmax Best.similarity).filter (fun best => -1 < best.similarity) := by
  induction candidates using List.reverseRecOn with
  | nil => rfl
  | append_singleton candidates c ih =>
    rw [List.foldl_append, ih, List.argmax_concat]
    cases candidates.argmax Best.similarity with
    | none => simp [better, bestSimilarity, Option.filter]
    | some best =>
      by_cases hbest : -1 < best.similarity
      · by_cases hc : best.similarity < c.similarity
        · simp [better, bestSimilarity, Option.filter, hbest, hc, hbest.trans hc]
        · simp [better, bestSimilarity, Option.filter, hbest, hc]
      · by_cases hc : -1 < c.similarity
        · have hlt : best.similarity < c.similarity := (not_lt.mp hbest).trans_lt hc
          simp [better, bestSimilarity, Option.filter, hbest, hc, hlt]
        · by_cases hlt : best.similarity < c.similarity
          · simp [better, bestSimilarity, Option.filter, hbest, hc, hlt]
          · simp [better, bestSimilarity, Option.filter, hbest, hc, hlt]

theorem threshold_pos [IsStrictOrderedRing K] :
    (-1 : K) < ReidConstants.cosineSimilarityMatchThreshold := by
  unfold ReidConstants.cosineSimilarityMatchThreshold
  norm_num

/-- A gallery in which no similarity raises has for an embedding its most similar
entry, and of these the first, where that is similar enough. -/
theorem resolve_ok [IsStrictOrderedRing K]
    (h : ∀ identity ∈ identities, ∀ entry ∈ identity.entries,
      similarity embedding entry.embedding = .ok (value embedding entry.embedding)) :
    resolve similarity embedding identities =
      .ok (((scored value embedding identities).argmax Best.similarity).filter (fun best =>
        ReidConstants.cosineSimilarityMatchThreshold ≤ best.similarity)) := by
  rw [resolve, nearest_ok h, foldl_better]
  cases (scored value embedding identities).argmax Best.similarity with
  | none => rfl
  | some best =>
    by_cases hbest : ReidConstants.cosineSimilarityMatchThreshold ≤ best.similarity
    · simp [Option.filter, hbest, threshold_pos.trans_le hbest]
    · by_cases hlow : -1 < best.similarity <;> simp [Option.filter, hbest, hlow]

end Scan

namespace CrossCameraMatcher
variable {K ε : Type}

theorem gallery_set (m : CrossCameraMatcher K ε) (zone other : String)
    (identities : List (Identity K ε)) :
    gallery { m with galleries := m.galleries.set zone identities } other =
      if other = zone then identities else m.gallery other := by
  simp only [gallery, Dict.get?_set]
  split <;> rfl

section Observe
variable [Field K] [LinearOrder K] {similarity : ε → ε → Except Error K} {uuid : Nat → String}
  {m : CrossCameraMatcher K ε} {o : Observation K ε}

/-- The gallery that a call scans. -/
def scanned (m : CrossCameraMatcher K ε) (o : Observation K ε) : List (Identity K ε) :=
  prune o.now (m.gallery o.zone)

/-- A matcher in the middle of a call, with the gallery that it scans. -/
def pruned (m : CrossCameraMatcher K ε) (o : Observation K ε) : CrossCameraMatcher K ε :=
  { m with galleries := m.galleries.set o.zone (m.scanned o) }

/-- A call whose scan raises. -/
theorem observe_raised {e : Error} (h : resolve similarity o.embedding (m.scanned o) = .error e) :
    m.observe similarity uuid o = (m.pruned o, .error e) := by
  rw [scanned] at h
  simp only [observe, pruneAndGet, h]
  rfl

/-- A call that finds the observation an identity. -/
theorem observe_matched {best : Best K ε}
    (h : resolve similarity o.embedding (m.scanned o) = .ok (some best)) :
    m.observe similarity uuid o =
      ({ m.pruned o with
          galleries := (m.pruned o).galleries.set o.zone
            ((m.scanned o).modify best.index (Identity.addEntry o.entry))
          lastResolvedId := best.identity.globalIdentityId },
        if best.entry.cameraId ≠ o.cameraId then (reidMatch o best).map some else .ok none) := by
  rw [scanned] at h
  simp only [observe, pruneAndGet, h]
  split <;> rfl

/-- A call that starts a new identity. -/
theorem observe_fresh (h : resolve similarity o.embedding (m.scanned o) = .ok none) :
    m.observe similarity uuid o =
      ({ galleries := (m.pruned o).galleries.set o.zone
          (m.scanned o ++ [⟨uuid m.generated, [o.entry]⟩])
         lastResolvedId := uuid m.generated
         generated := m.generated + 1 }, .ok none) := by
  rw [scanned] at h
  simp only [observe, pruneAndGet, h]
  rfl

theorem gallery_matched {best : Best K ε}
    (h : resolve similarity o.embedding (m.scanned o) = .ok (some best)) :
    (m.observe similarity uuid o).1.gallery o.zone =
      (m.scanned o).modify best.index (Identity.addEntry o.entry) := by
  simp [observe_matched h, gallery]

theorem gallery_fresh (h : resolve similarity o.embedding (m.scanned o) = .ok none) :
    (m.observe similarity uuid o).1.gallery o.zone =
      m.scanned o ++ [⟨uuid m.generated, [o.entry]⟩] := by
  simp [observe_fresh h, gallery]

/-- A call leaves the galleries of the other zones alone. -/
theorem observe_other {zone : String} (hne : zone ≠ o.zone) :
    (m.observe similarity uuid o).1.gallery zone = m.gallery zone := by
  cases h : resolve similarity o.embedding (m.scanned o) with
  | error e => simp [observe_raised h, pruned, gallery_set, hne]
  | ok resolved =>
    cases resolved with
    | none => simp [observe_fresh h, pruned, gallery, Dict.get?_set, hne]
    | some best => simp [observe_matched h, pruned, gallery, Dict.get?_set, hne]

end Observe

end CrossCameraMatcher
end CamTrack
