import CamTrack.Proofs.ZoneIsolation

namespace CamTrack
open Python

variable {K : Type} [Field K] [LinearOrder K]

/-- The cosine similarity of two vectors of one length. -/
def cosine [HasSqrt K] (a b : List K) : K := (List.zipWith (· * ·) a b).sum / denom a b

/-- Roots that are exact. -/
def ExactSqrt (K : Type) [Field K] [LinearOrder K] [HasSqrt K] : Prop :=
  ∀ x : K, 0 ≤ x → 0 ≤ HasSqrt.sqrt x ∧ HasSqrt.sqrt x * HasSqrt.sqrt x = x

omit [LinearOrder K] in
theorem zipWith_mul {a b : List K} (h : a.length = b.length) :
    List.zipWith (· * ·) a b = List.ofFn (fun i : Fin a.length => a[i] * b[i]) := by
  apply List.ext_getElem
  · simp [h]
  · intro i _ _
    simp

/-- The inequality of Cauchy and Schwarz. -/
theorem sum_mul_sq_le [IsStrictOrderedRing K] {a b : List K} (h : a.length = b.length) :
    (List.zipWith (· * ·) a b).sum ^ 2 ≤
      (a.map (fun x => x * x)).sum * (b.map (fun x => x * x)).sum := by
  have ha : a.map (fun x => x * x) = List.ofFn (fun i : Fin a.length => a[i] ^ 2) := by
    apply List.ext_getElem
    · simp
    · intro i _ _
      simp [sq]
  have hb : b.map (fun x => x * x) = List.ofFn (fun i : Fin a.length => b[i] ^ 2) := by
    apply List.ext_getElem
    · simp [h]
    · intro i _ _
      simp [sq]
  rw [zipWith_mul h, ha, hb, List.sum_ofFn, List.sum_ofFn, List.sum_ofFn]
  exact Finset.sum_mul_sq_le_sq_mul_sq _ _ _

/-- An exact similarity is at most one. -/
theorem cosine_le_one [IsStrictOrderedRing K] [HasSqrt K] (hsqrt : ExactSqrt K) {a b : List K}
    (h : a.length = b.length) : cosine a b ≤ 1 := by
  have hsquares : ∀ l : List K, 0 ≤ (l.map (fun x => x * x)).sum := by
    intro l
    apply List.sum_nonneg
    intro y hy
    obtain ⟨x, _, rfl⟩ := List.mem_map.mp hy
    exact mul_self_nonneg x
  obtain ⟨ha, ha'⟩ := hsqrt _ (hsquares a)
  obtain ⟨hb, hb'⟩ := hsqrt _ (hsquares b)
  have hnorms : 0 ≤ norm a * norm b := mul_nonneg ha hb
  have hsq : (List.zipWith (· * ·) a b).sum ^ 2 ≤ (norm a * norm b) ^ 2 := by
    calc (List.zipWith (· * ·) a b).sum ^ 2
        ≤ (a.map (fun x => x * x)).sum * (b.map (fun x => x * x)).sum := sum_mul_sq_le h
      _ = (norm a * norm a) * (norm b * norm b) := by rw [norm, norm, ha', hb']
      _ = (norm a * norm b) ^ 2 := by ring
  have hle := (abs_le_of_sq_le_sq' hsq hnorms).2
  by_cases hzero : norm a * norm b = 0
  · rw [hzero] at hle
    rw [cosine, denom, if_pos hzero]
    exact (div_nonpos_of_nonpos_of_nonneg hle (by norm_num)).trans zero_le_one
  · rw [cosine, denom, if_neg hzero]
    exact (div_le_one (lt_of_le_of_ne hnorms (Ne.symm hzero))).mpr hle

/-- A vector of the length that all have. -/
def OfLength (length : Nat) (a : List K) : Prop := a.length = length

theorem cosineSimilarity_ok [HasSqrt K] {a b : List K} (h : a.length = b.length) :
    cosineSimilarity a b = .ok (cosine a b) := by
  simp [cosineSimilarity, dot, h, cosine]

section
variable {ε : Type}

/-- The entries of a gallery in order, each under its identity. -/
def entriesOf (identities : List (Identity K ε)) : List (String × GalleryEntry K ε) :=
  identities.flatMap (fun identity => identity.entries.map (identity.globalIdentityId, ·))

omit [Field K] [LinearOrder K] in
theorem scored_entries (value : ε → ε → K) (embedding : ε) (identities : List (Identity K ε)) :
    (scored value embedding identities).map
        (fun best => (best.identity.globalIdentityId, best.entry)) = entriesOf identities := by
  have hall : ∀ k, (identities.zipIdx k).flatMap (fun e =>
      (scoredEntries value embedding e.1 e.2).map
        (fun best => (best.identity.globalIdentityId, best.entry))) = entriesOf identities := by
    induction identities with
    | nil =>
      intro k
      rfl
    | cons identity identities ih =>
      intro k
      rw [List.zipIdx_cons, List.flatMap_cons, ih, entriesOf, entriesOf, List.flatMap_cons]
      simp [scoredEntries]
  rw [scored, List.map_flatMap]
  exact hall 0

/-- The identity that an observation should be assigned to: that of the first of the
most similar entries, where it is similar enough, and else one never seen. -/
structure Assigned (value : ε → ε → K) (embedding : ε) (identities : List (Identity K ε))
    (sightings : List (Sighting K ε)) (id : String) : Prop where
  known : ∀ e, (entriesOf identities).argmax (fun e => value embedding e.2.embedding) = some e →
    ReidConstants.cosineSimilarityMatchThreshold ≤ value embedding e.2.embedding → id = e.1
  fresh : (∀ e ∈ entriesOf identities, value embedding e.2.embedding <
    ReidConstants.cosineSimilarityMatchThreshold) → ∀ s ∈ sightings, s.globalIdentityId ≠ id

omit [Field K] in
/-- The scan finds the first of the most similar entries. -/
theorem argmax_entries (value : ε → ε → K) (embedding : ε) (identities : List (Identity K ε)) :
    (entriesOf identities).argmax (fun e => value embedding e.2.embedding) =
      ((scored value embedding identities).argmax Best.similarity).map
        (fun best => (best.identity.globalIdentityId, best.entry)) := by
  rw [← scored_entries value embedding identities, argmax_map]
  congr 1
  exact argmax_congr (fun best hb => (mem_scored hb).2.2.symm)

end

namespace CrossCameraMatcher
variable [IsStrictOrderedRing K]

section
variable {ε : Type} {similarity : ε → ε → Except Error K} {value : ε → ε → K}
  {uuid : Nat → String} {Sized : ε → Prop} {m : CrossCameraMatcher K ε}
  {sightings : List (Sighting K ε)} {o : Observation K ε}

/-- A call assigns the observation as it should. -/
theorem Remembers.assigned
    (hsim : ∀ a b, Sized a → Sized b → similarity a b = .ok (value a b))
    (huuid : Function.Injective uuid) (h : m.Remembers uuid Sized sightings)
    (hnow : ∀ s ∈ sightings, s.entry.observedAtS ≤ o.now) (ho : Sized o.embedding) :
    Assigned value o.embedding (slidingWindow o.now o.zone sightings) sightings
      (m.observe similarity uuid o).1.resolveIdentityId := by
  rcases h.observe_cases hsim hnow ho with ⟨best, hbest, hle, _, hid, _⟩ | ⟨hlow, _, hid, _⟩
  · have hscore := (mem_scored (List.argmax_mem hbest)).2.2
    constructor
    · intro e he _
      rw [argmax_entries, hbest] at he
      cases he
      exact hid
    · intro hnone
      have hmem : (best.identity.globalIdentityId, best.entry) ∈
          entriesOf (slidingWindow o.now o.zone sightings) := by
        rw [← scored_entries value o.embedding]
        exact List.mem_map.mpr ⟨best, List.argmax_mem hbest, rfl⟩
      rw [hscore] at hle
      exact absurd hle (not_le.mpr (hnone _ hmem))
  · constructor
    · intro e he hle
      rw [argmax_entries] at he
      obtain ⟨best, hbest, rfl⟩ := Option.map_eq_some_iff.mp he
      rw [← (mem_scored (List.argmax_mem hbest)).2.2] at hle
      exact absurd hle (hlow best hbest)
    · intro _
      rw [hid]
      exact h.fresh huuid

end

/-- After every call the gallery of its zone is the sliding window over the zone's
history, the observation goes to the identity of the first of the most similar live
entries or to a new one, no id occurs in two zones, and the calls for other zones
change nothing in a zone but the names drawn there. -/
theorem gallery_is_sliding_window [HasSqrt K] {uuid : Nat → String}
    (huuid : Function.Injective uuid) {length : Nat} {os : List (Observation K (List K))}
    {o : Observation K (List K)} (hlength : ∀ a ∈ os ++ [o], a.embedding.length = length)
    (hclock : (os ++ [o]).Pairwise (fun a b => a.now ≤ b.now)) :
    let m := observeAll cosineSimilarity uuid new os
    let m' := observeAll cosineSimilarity uuid new (os ++ [o])
    let before := history cosineSimilarity uuid new os
    let after := history cosineSimilarity uuid new (os ++ [o])
    m'.gallery o.zone = slidingWindow o.now o.zone after ∧
      Assigned cosine o.embedding (slidingWindow o.now o.zone before) before
        m'.resolveIdentityId ∧
      (∀ s ∈ after, ∀ s' ∈ after, s.globalIdentityId = s'.globalIdentityId → s.zone = s'.zone) ∧
      (∀ zone, ∀ identity ∈ m'.gallery zone,
        ∃ entry, ⟨zone, identity.globalIdentityId, entry⟩ ∈ after) ∧
      (∀ zone, zone ≠ o.zone → m'.gallery zone = m.gallery zone) ∧
      ∀ zone (uuid' : Nat → String), Function.Injective uuid' →
        let own := (os ++ [o]).filter (fun a => a.zone = zone)
        ∃ ρ : String → String,
          Set.InjOn ρ {id | ∃ s ∈ history cosineSimilarity uuid' new own,
            s.globalIdentityId = id} ∧
          m'.gallery zone =
            ((observeAll cosineSimilarity uuid' new own).gallery zone).map (Identity.rename ρ) ∧
          ofZone zone after =
            (ofZone zone (history cosineSimilarity uuid' new own)).map (fun e => (ρ e.1, e.2)) := by
  have hsim : ∀ a b : List K, OfLength length a → OfLength length b →
      cosineSimilarity a b = .ok (cosine a b) :=
    fun a b ha hb => cosineSimilarity_ok (ha.trans hb.symm)
  obtain ⟨hearlier, _, hlast⟩ := List.pairwise_append.mp hclock
  have hbefore := remembers hsim huuid
    (fun a ha => hlength a (List.mem_append_left _ ha)) hearlier
  have hafter := remembers hsim huuid hlength hclock
  have ho := hlength o (by simp)
  have hnow : ∀ s ∈ history cosineSimilarity uuid new os, s.entry.observedAtS ≤ o.now := by
    intro s hs
    obtain ⟨a, ha, he⟩ := entry_of_history hs
    rw [he]
    exact hlast a ha o (List.mem_singleton_self o)
  refine ⟨?_, ?_, hafter.zones, hafter.named, ?_, ?_⟩
  · rw [history_concat, observeAll_concat]
    exact hbefore.gallery_eq hsim huuid hnow ho
  · rw [observeAll_concat]
    exact hbefore.assigned hsim huuid hnow ho
  · intro zone hne
    rw [observeAll_concat]
    exact observe_other hne
  · intro zone uuid' huuid' own
    obtain ⟨ρ, halike, hzone⟩ := alike hsim huuid huuid'
      hlength hclock zone
    refine ⟨ρ, ?_, halike.gallery, hzone⟩
    have hown := remembers hsim huuid'
      (fun a ha => hlength a (List.mem_of_mem_filter ha))
      (hclock.sublist (List.filter_sublist (p := fun a => a.zone = zone)))
    rintro _ ⟨s, hs, rfl⟩ _ ⟨s', hs', rfl⟩ he
    obtain ⟨j, hj, hid⟩ := hown.drawn s hs
    obtain ⟨j', hj', hid'⟩ := hown.drawn s' hs'
    rw [hid, hid'] at he ⊢
    rw [halike.distinct j hj j' hj' he]

section Runs

/-- A sighting of one appearance in one zone. -/
def seenBy (cameraId trackId : String) (now : ℚ) : Observation ℚ (List ℚ) :=
  { zone := "zone-a", cameraId := cameraId, trackId := trackId, embedding := [3, 4], now := now }

/-- The second camera's sighting joins the identity that the first one started. -/
theorem second_camera_joins :
    let m := observeAll cosineSimilarity Nat.repr new
      ([seenBy "cam-1" "track-1" 0] ++ [seenBy "cam-2" "track-9" 1])
    m.gallery "zone-a" = slidingWindow 1 "zone-a" (history cosineSimilarity Nat.repr new
        ([seenBy "cam-1" "track-1" 0] ++ [seenBy "cam-2" "track-9" 1])) ∧
      (m.gallery "zone-a").map (fun i => (i.globalIdentityId, i.entries.map GalleryEntry.cameraId)) =
        [("0", ["cam-1", "cam-2"])] := by
  have hlength : ∀ a ∈ [seenBy "cam-1" "track-1" 0] ++ [seenBy "cam-2" "track-9" 1],
      a.embedding.length = 2 := by decide
  have hwindow := gallery_is_sliding_window (fun _ _ h => Nat.repr_injective h) hlength
    (by decide +kernel)
  exact ⟨hwindow.1, by decide +kernel⟩

end Runs

end CrossCameraMatcher
end CamTrack
