import CamTrack.Proofs.SlidingWindow

namespace CamTrack
open Python

variable {K ε : Type}

/-- An identity under another name. -/
def Identity.rename (ρ : String → String) (identity : Identity K ε) : Identity K ε :=
  { identity with globalIdentityId := ρ identity.globalIdentityId }

def Best.rename (ρ : String → String) (best : Best K ε) : Best K ε :=
  { best with identity := best.identity.rename ρ }

section Rename
variable {ρ : String → String}

theorem rename_congr {ρ' : String → String} {identities : List (Identity K ε)}
    (h : ∀ identity ∈ identities, ρ' identity.globalIdentityId = ρ identity.globalIdentityId) :
    identities.map (Identity.rename ρ') = identities.map (Identity.rename ρ) := by
  apply List.map_congr_left
  intro identity hi
  rw [Identity.rename, h identity hi, Identity.rename]

theorem modify_rename (identities : List (Identity K ε)) (i : Nat) (entry : GalleryEntry K ε) :
    (identities.map (Identity.rename ρ)).modify i (Identity.addEntry entry) =
      (identities.modify i (Identity.addEntry entry)).map (Identity.rename ρ) := by
  induction identities generalizing i with
  | nil => simp
  | cons identity identities ih =>
    cases i with
    | zero => rfl
    | succ i => rw [List.map_cons, List.modify_succ_cons, ih, List.modify_succ_cons, List.map_cons]

theorem scored_rename (value : ε → ε → K) (embedding : ε) (identities : List (Identity K ε)) :
    scored value embedding (identities.map (Identity.rename ρ)) =
      (scored value embedding identities).map (Best.rename ρ) := by
  simp only [scored, List.zipIdx_map, List.flatMap_map, List.map_flatMap, scoredEntries,
    List.map_map]
  rfl

variable [Field K] [LinearOrder K]

theorem prune_rename (now : K) (identities : List (Identity K ε)) :
    prune now (identities.map (Identity.rename ρ)) =
      (prune now identities).map (Identity.rename ρ) := by
  simp only [prune, List.map_map, List.filter_map]
  rfl

/-- Names do not matter to the scan. -/
theorem resolve_rename [IsStrictOrderedRing K] {similarity : ε → ε → Except Error K}
    {value : ε → ε → K} {embedding : ε} {identities : List (Identity K ε)}
    (h : ∀ identity ∈ identities, ∀ entry ∈ identity.entries,
      similarity embedding entry.embedding = .ok (value embedding entry.embedding)) :
    resolve similarity embedding (identities.map (Identity.rename ρ)) =
      (resolve similarity embedding identities).map (Option.map (Best.rename ρ)) := by
  have hrenamed : ∀ identity ∈ identities.map (Identity.rename ρ), ∀ entry ∈ identity.entries,
      similarity embedding entry.embedding = .ok (value embedding entry.embedding) := by
    intro identity hi
    obtain ⟨original, ho, rfl⟩ := List.mem_map.mp hi
    exact h original ho
  rw [resolve_ok hrenamed, resolve_ok h, scored_rename, argmax_map]
  have hsame : Best.similarity ∘ Best.rename ρ = (Best.similarity : Best K ε → K) := rfl
  rw [hsame]
  cases (scored value embedding identities).argmax Best.similarity with
  | none => rfl
  | some best =>
    by_cases hbest : ReidConstants.cosineSimilarityMatchThreshold ≤ best.similarity <;>
      simp [Option.filter, Best.rename, hbest, Except.map]

end Rename

namespace CrossCameraMatcher

/-- A matcher that has seen every zone, and one that has seen only this one: the names
of the second, which it drew itself, stand for names that the first drew. -/
structure Alike (uuid uuid' : Nat → String) (ρ : String → String) (zone : String)
    (m a : CrossCameraMatcher K ε) : Prop where
  gallery : m.gallery zone = (a.gallery zone).map (Identity.rename ρ)
  drawn : ∀ j < a.generated, ∃ i < m.generated, ρ (uuid' j) = uuid i
  distinct : ∀ j < a.generated, ∀ j' < a.generated, ρ (uuid' j) = ρ (uuid' j') → j = j'

section Simulation
variable {uuid uuid' : Nat → String} {m a : CrossCameraMatcher K ε} {ρ : String → String}
  {zone : String}

/-- The name that the second draws is made to stand for the one that the first draws. -/
theorem Alike.draw (huuid : Function.Injective uuid) (huuid' : Function.Injective uuid')
    (h : Alike uuid uuid' ρ zone m a) :
    let ρ' := Function.update ρ (uuid' a.generated) (uuid m.generated)
    (∀ j < a.generated, ρ' (uuid' j) = ρ (uuid' j)) ∧
      (∀ j < a.generated + 1, ∃ i < m.generated + 1, ρ' (uuid' j) = uuid i) ∧
      ∀ j < a.generated + 1, ∀ j' < a.generated + 1, ρ' (uuid' j) = ρ' (uuid' j') → j = j' := by
  intro ρ'
  have hself : ρ' (uuid' a.generated) = uuid m.generated := Function.update_self ..
  have hold : ∀ j < a.generated, ρ' (uuid' j) = ρ (uuid' j) := by
    intro j hj
    apply Function.update_of_ne
    intro he
    exact absurd (huuid' he) (Nat.ne_of_lt hj)
  have hnew : ∀ j < a.generated, ρ' (uuid' j) ≠ uuid m.generated := by
    intro j hj he
    obtain ⟨i, hi, hi'⟩ := h.drawn j hj
    rw [hold j hj, hi'] at he
    exact absurd (huuid he) (Nat.ne_of_lt hi)
  refine ⟨hold, ?_, ?_⟩
  · intro j hj
    rcases Nat.lt_succ_iff_lt_or_eq.mp hj with hj | rfl
    · obtain ⟨i, hi, hi'⟩ := h.drawn j hj
      exact ⟨i, hi.trans (Nat.lt_succ_self _), (hold j hj).trans hi'⟩
    · exact ⟨m.generated, Nat.lt_succ_self _, hself⟩
  · intro j hj j' hj' he
    rcases Nat.lt_succ_iff_lt_or_eq.mp hj with hj | rfl <;>
      rcases Nat.lt_succ_iff_lt_or_eq.mp hj' with hj' | rfl
    · rw [hold j hj, hold j' hj'] at he
      exact h.distinct j hj j' hj' he
    · exact absurd (he.trans hself) (hnew j hj)
    · exact absurd (he.symm.trans hself) (hnew j' hj')
    · rfl

variable [Field K] [LinearOrder K] {similarity : ε → ε → Except Error K} {value : ε → ε → K}
  {Sized : ε → Prop} {sightings : List (Sighting K ε)} {o : Observation K ε}

theorem generated_le : m.generated ≤ (m.observe similarity uuid o).1.generated := by
  cases h : resolve similarity o.embedding (m.scanned o) with
  | error e =>
    rw [observe_raised h]
    exact Nat.le_refl _
  | ok resolved =>
    cases resolved with
    | none =>
      rw [observe_fresh h]
      exact Nat.le_succ _
    | some best =>
      rw [observe_matched h]
      exact Nat.le_refl _

/-- A call for another zone. -/
theorem Alike.elsewhere (h : Alike uuid uuid' ρ zone m a) (hne : zone ≠ o.zone) :
    Alike uuid uuid' ρ zone (m.observe similarity uuid o).1 a := by
  refine ⟨?_, ?_, h.distinct⟩
  · rw [observe_other hne]
    exact h.gallery
  · intro j hj
    obtain ⟨i, hi, he⟩ := h.drawn j hj
    exact ⟨i, hi.trans_le generated_le, he⟩

variable [IsStrictOrderedRing K]

/-- A call for the zone, made on both: they resolve to names that stand for each other. -/
theorem Alike.observe
    (hsim : ∀ a b, Sized a → Sized b → similarity a b = .ok (value a b))
    (huuid : Function.Injective uuid) (huuid' : Function.Injective uuid')
    (h : Alike uuid uuid' ρ o.zone m a) (ha : a.Remembers uuid' Sized sightings)
    (hnow : ∀ s ∈ sightings, s.entry.observedAtS ≤ o.now) (ho : Sized o.embedding) :
    ∃ ρ', Alike uuid uuid' ρ' o.zone (m.observe similarity uuid o).1
        (a.observe similarity uuid' o).1 ∧
      (∀ s ∈ sightings, ρ' s.globalIdentityId = ρ s.globalIdentityId) ∧
      (m.observe similarity uuid o).1.resolveIdentityId =
        ρ' (a.observe similarity uuid' o).1.resolveIdentityId := by
  have hscanned : m.scanned o = (a.scanned o).map (Identity.rename ρ) := by
    rw [scanned, h.gallery, prune_rename, scanned]
  have htotal : ∀ identity ∈ a.scanned o, ∀ entry ∈ identity.entries,
      similarity o.embedding entry.embedding = .ok (value o.embedding entry.embedding) := by
    rw [ha.scanned_eq hnow]
    intro identity hi entry he
    exact hsim _ _ ho (ha.sized _ (mem_entries hi he).1)
  have hrenamed : resolve similarity o.embedding (m.scanned o) =
      (resolve similarity o.embedding (a.scanned o)).map (Option.map (Best.rename ρ)) := by
    rw [hscanned]
    exact resolve_rename htotal
  have hresolve := resolve_ok htotal
  cases hbest : ((scored value o.embedding (a.scanned o)).argmax Best.similarity).filter
      (fun best => ReidConstants.cosineSimilarityMatchThreshold ≤ best.similarity) with
  | none =>
    rw [hbest] at hresolve
    rw [hresolve] at hrenamed
    obtain ⟨hold, hdrawn, hdistinct⟩ := h.draw huuid huuid'
    have hsightings : ∀ s ∈ sightings, Function.update ρ (uuid' a.generated) (uuid m.generated)
        s.globalIdentityId = ρ s.globalIdentityId := by
      intro s hs
      obtain ⟨j, hj, he⟩ := ha.drawn s hs
      rw [he, hold j hj]
    have hnamed : (a.scanned o).map (Identity.rename
        (Function.update ρ (uuid' a.generated) (uuid m.generated))) =
        (a.scanned o).map (Identity.rename ρ) := by
      apply rename_congr
      rw [ha.scanned_eq hnow]
      intro identity hi
      obtain ⟨entry, hentry⟩ := mem_slidingWindow hi
      exact hsightings _ hentry
    refine ⟨Function.update ρ (uuid' a.generated) (uuid m.generated), ⟨?_, ?_, ?_⟩, hsightings, ?_⟩
    · rw [gallery_fresh hresolve, gallery_fresh hrenamed, List.map_append, hnamed, hscanned]
      simp [Identity.rename]
    · rw [observe_fresh hresolve, observe_fresh hrenamed]
      exact hdrawn
    · rw [observe_fresh hresolve]
      exact hdistinct
    · rw [observe_fresh hresolve, observe_fresh hrenamed]
      simp [resolveIdentityId]
  | some best =>
    rw [hbest] at hresolve
    rw [hresolve] at hrenamed
    refine ⟨ρ, ⟨?_, ?_, ?_⟩, fun _ _ => rfl, ?_⟩
    · rw [gallery_matched hresolve, gallery_matched hrenamed, hscanned]
      exact modify_rename _ _ _
    · rw [observe_matched hresolve, observe_matched hrenamed]
      exact h.drawn
    · rw [observe_matched hresolve]
      exact h.distinct
    · rw [observe_matched hresolve, observe_matched hrenamed]
      rfl

/-- The calls for a zone, on a matcher of their own. -/
theorem alike
    (hsim : ∀ a b, Sized a → Sized b → similarity a b = .ok (value a b))
    (huuid : Function.Injective uuid) (huuid' : Function.Injective uuid')
    {os : List (Observation K ε)} (hsized : ∀ o ∈ os, Sized o.embedding)
    (hclock : os.Pairwise (fun a b => a.now ≤ b.now)) (zone : String) :
    ∃ ρ, Alike uuid uuid' ρ zone (observeAll similarity uuid new os)
        (observeAll similarity uuid' new (os.filter (fun o => o.zone = zone))) ∧
      ofZone zone (history similarity uuid new os) =
        (ofZone zone (history similarity uuid' new (os.filter (fun o => o.zone = zone)))).map
          (fun e => (ρ e.1, e.2)) := by
  induction os using List.reverseRecOn with
  | nil => exact ⟨id, ⟨rfl, fun j hj => absurd hj (Nat.not_lt_zero j),
      fun j hj => absurd hj (Nat.not_lt_zero j)⟩, rfl⟩
  | append_singleton os o ih =>
    obtain ⟨hearlier, _, hlast⟩ := List.pairwise_append.mp hclock
    obtain ⟨ρ, h, hzone⟩ := ih (fun o ho => hsized o (List.mem_append_left _ ho)) hearlier
    rw [List.filter_append, history_concat, observeAll_concat]
    by_cases ho : o.zone = zone
    · subst ho
      have hself : [o].filter (fun a => a.zone = o.zone) = [o] := by simp
      have ha := remembers hsim huuid'
        (fun a ha => hsized a (List.mem_append_left _ (List.mem_of_mem_filter ha)))
        (hearlier.sublist (List.filter_sublist (p := fun a => a.zone = o.zone)))
      have hnow : ∀ s ∈ history similarity uuid' new (os.filter (fun a => a.zone = o.zone)),
          s.entry.observedAtS ≤ o.now := by
        intro s hs
        obtain ⟨a, ha, he⟩ := entry_of_history hs
        rw [he]
        exact hlast a (List.mem_of_mem_filter ha) o (List.mem_singleton_self o)
      obtain ⟨ρ', h', hold, hid⟩ := h.observe hsim huuid huuid' ha hnow (hsized o (by simp))
      rw [hself, history_concat, observeAll_concat]
      refine ⟨ρ', h', ?_⟩
      rw [ofZone_concat_self, ofZone_concat_self, List.map_append, hzone, hid]
      congr 1
      apply List.map_congr_left
      intro e he
      rw [hold _ (mem_ofZone.mp he)]
    · have hnone : [o].filter (fun a => a.zone = zone) = [] := by simp [ho]
      rw [hnone, List.append_nil, ofZone_concat_of_ne ho]
      exact ⟨ρ, h.elsewhere (Ne.symm ho), hzone⟩

end Simulation
end CrossCameraMatcher
end CamTrack
