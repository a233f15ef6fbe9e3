import CamTrack.Proofs.Gallery

namespace CamTrack
open Python CrossCameraMatcher

variable {K ε : Type} [Field K] [LinearOrder K]

/-- A scan that ends has found the similarity of every entry. -/
theorem scanEntries_total {similarity : ε → ε → Except Error K} {embedding : ε}
    {identity : Identity K ε} {i : Nat} {best result : Option (Best K ε)}
    (h : scanEntries similarity embedding identity i best = .ok result) :
    ∀ entry ∈ identity.entries, ∃ v, similarity embedding entry.embedding = .ok v := by
  rw [scanEntries] at h
  revert h
  induction identity.entries generalizing best with
  | nil => simp
  | cons entry entries ih =>
    intro h other ho
    rw [List.foldlM_cons] at h
    obtain ⟨next, hnext, h⟩ := bind_eq_ok.mp h
    obtain ⟨v, hv, _⟩ := bind_eq_ok.mp hnext
    rcases List.mem_cons.mp ho with rfl | ho
    · exact ⟨v, hv⟩
    · exact ih h other ho

theorem nearest_total {similarity : ε → ε → Except Error K} {embedding : ε}
    {identities : List (Identity K ε)} {result : Option (Best K ε)}
    (h : nearest similarity embedding identities = .ok result) :
    ∀ identity ∈ identities, ∀ entry ∈ identity.entries,
      ∃ v, similarity embedding entry.embedding = .ok v := by
  have hall : ∀ e ∈ identities.zipIdx, ∀ entry ∈ e.1.entries,
      ∃ v, similarity embedding entry.embedding = .ok v := by
    rw [nearest] at h
    revert h
    generalize (none : Option (Best K ε)) = best
    induction identities.zipIdx generalizing best with
    | nil => simp
    | cons e indexed ih =>
      intro h other ho
      rw [List.foldlM_cons] at h
      obtain ⟨next, hnext, h⟩ := bind_eq_ok.mp h
      rcases List.mem_cons.mp ho with rfl | ho
      · exact scanEntries_total hnext
      · exact ih next h other ho
  intro identity hi
  obtain ⟨i, hi⟩ := List.mem_iff_getElem?.mp hi
  exact hall (identity, i) (List.mem_zipIdx_iff_getElem?.mpr hi)

omit [LinearOrder K] in
theorem exists_value {similarity : ε → ε → Except Error K} {embedding : ε}
    {identities : List (Identity K ε)}
    (h : ∀ identity ∈ identities, ∀ entry ∈ identity.entries,
      ∃ v, similarity embedding entry.embedding = .ok v) :
    ∃ value : ε → ε → K, ∀ identity ∈ identities, ∀ entry ∈ identity.entries,
      similarity embedding entry.embedding = .ok (value embedding entry.embedding) := by
  refine ⟨fun a b => (similarity a b).toOption.getD 0, fun identity hi entry he => ?_⟩
  obtain ⟨v, hv⟩ := h identity hi entry he
  simp only [hv, Except.toOption, Option.getD_some]

/-- A scan that ends has a similarity for every entry. -/
theorem resolve_total {similarity : ε → ε → Except Error K} {embedding : ε}
    {identities : List (Identity K ε)} {result : Option (Best K ε)}
    (h : resolve similarity embedding identities = .ok result) :
    ∃ value : ε → ε → K, ∀ identity ∈ identities, ∀ entry ∈ identity.entries,
      similarity embedding entry.embedding = .ok (value embedding entry.embedding) := by
  obtain ⟨nearest, hnearest, _⟩ := bind_eq_ok.mp h
  exact exists_value (nearest_total hnearest)

namespace CrossCameraMatcher
variable {similarity : ε → ε → Except Error K} {uuid : Nat → String}
  {m : CrossCameraMatcher K ε} {o : Observation K ε}

/-- The call returns a match exactly when the identity that it assigns its observation
to was last seen on another camera, and the match names that sighting. -/
structure TellsChange (similarity : ε → ε → Except Error K) (uuid : Nat → String)
    (m : CrossCameraMatcher K ε) (o : Observation K ε) : Prop where
  told : (∃ found, (m.observe similarity uuid o).2 = .ok (some found)) ↔
    ∃ best last, resolve similarity o.embedding (m.scanned o) = .ok (some best) ∧
      best.identity.entries.getLast? = some last ∧ last.cameraId ≠ o.cameraId
  named : ∀ found best last, (m.observe similarity uuid o).2 = .ok (some found) →
    resolve similarity o.embedding (m.scanned o) = .ok (some best) →
    best.identity.entries.getLast? = some last →
    found.matchedCameraId = last.cameraId ∧ found.matchedTrackId = last.trackId

/-- The most similar entry says the same of the change of camera as the latest entry of
its identity: both lie on the camera of the observation, or both on one other camera
and track. A similarity that is rounded beyond one is told of by nobody. -/
def SaysTheSame (o : Observation K ε) (similarity : K) (entry last : GalleryEntry K ε) : Prop :=
  last.cameraId = o.cameraId ∧ (entry.cameraId = o.cameraId ∨ 1 < similarity) ∨
    last.cameraId ≠ o.cameraId ∧ similarity ≤ 1 ∧
      entry.cameraId = last.cameraId ∧ entry.trackId = last.trackId

/-- Where the first of the most similar live entries is similar enough, it says the same
as the latest live entry of its identity. -/
def LatestAgrees (similarity : ε → ε → Except Error K) (m : CrossCameraMatcher K ε)
    (o : Observation K ε) : Prop :=
  ∀ value : ε → ε → K,
    (∀ identity ∈ m.scanned o, ∀ entry ∈ identity.entries,
      similarity o.embedding entry.embedding = .ok (value o.embedding entry.embedding)) →
    ∀ best last, (scored value o.embedding (m.scanned o)).argmax Best.similarity = some best →
      ReidConstants.cosineSimilarityMatchThreshold ≤ best.similarity →
      best.identity.entries.getLast? = some last →
      SaysTheSame o best.similarity best.entry last

theorem reidMatch_ok {best : Best K ε} (h : 0 ≤ best.similarity ∧ best.similarity ≤ 1) :
    ∃ found, reidMatch o best = .ok found := by
  simp [reidMatch, h]

theorem of_reidMatch {best : Best K ε} {found : ReidMatch K} (h : reidMatch o best = .ok found) :
    best.similarity ≤ 1 ∧ found.matchedCameraId = best.entry.cameraId ∧
      found.matchedTrackId = best.entry.trackId := by
  unfold reidMatch at h
  split at h
  · rename_i hrange
    cases h
    exact ⟨hrange.2, rfl, rfl⟩
  · cases h

/-- A match is returned for an entry of another camera, if it can be built. -/
theorem returns_iff {best : Best K ε} {found : ReidMatch K}
    (h : resolve similarity o.embedding (m.scanned o) = .ok (some best)) :
    (m.observe similarity uuid o).2 = .ok (some found) ↔
      best.entry.cameraId ≠ o.cameraId ∧ reidMatch o best = .ok found := by
  rw [observe_matched h]
  by_cases hcamera : best.entry.cameraId = o.cameraId
  · simp [hcamera]
  · cases hmatch : reidMatch o best with
    | error e => simp [hcamera, Except.map]
    | ok found' => simp [hcamera, Except.map]

/-- Where no identity is found, no match is returned. -/
theorem returns_none (h : ∀ best, resolve similarity o.embedding (m.scanned o) ≠ .ok (some best))
    (found : ReidMatch K) : (m.observe similarity uuid o).2 ≠ .ok (some found) := by
  cases hresolve : resolve similarity o.embedding (m.scanned o) with
  | error e =>
    rw [observe_raised hresolve]
    exact fun he => nomatch he
  | ok resolved =>
    cases resolved with
    | none =>
      rw [observe_fresh hresolve]
      exact fun he => nomatch he
    | some best => exact absurd hresolve (h best)

variable [IsStrictOrderedRing K]

theorem threshold_nonneg : (0 : K) ≤ ReidConstants.cosineSimilarityMatchThreshold := by
  unfold ReidConstants.cosineSimilarityMatchThreshold
  norm_num

/-- What a call tells is what its two entries say. -/
theorem tells_matched {best : Best K ε} {last : GalleryEntry K ε}
    (h : resolve similarity o.embedding (m.scanned o) = .ok (some best))
    (hle : ReidConstants.cosineSimilarityMatchThreshold ≤ best.similarity)
    (hlast : best.identity.entries.getLast? = some last) :
    TellsChange similarity uuid m o ↔ SaysTheSame o best.similarity best.entry last := by
  have hfound : (∃ found, (m.observe similarity uuid o).2 = .ok (some found)) ↔
      best.entry.cameraId ≠ o.cameraId ∧ best.similarity ≤ 1 := by
    constructor
    · rintro ⟨found, hfound⟩
      obtain ⟨hne, hmatch⟩ := (returns_iff h).mp hfound
      exact ⟨hne, (of_reidMatch hmatch).1⟩
    · rintro ⟨hne, hle1⟩
      obtain ⟨found, hmatch⟩ := reidMatch_ok (o := o) ⟨threshold_nonneg.trans hle, hle1⟩
      exact ⟨found, (returns_iff h).mpr ⟨hne, hmatch⟩⟩
  constructor
  · intro ht
    by_cases hcamera : last.cameraId = o.cameraId
    · left
      refine ⟨hcamera, ?_⟩
      by_contra hn
      obtain ⟨hne, hle1⟩ := not_or.mp hn
      obtain ⟨best', last', hbest', hlast', hne'⟩ :=
        ht.told.mp (hfound.mpr ⟨hne, not_lt.mp hle1⟩)
      cases h.symm.trans hbest'
      cases hlast.symm.trans hlast'
      exact hne' hcamera
    · right
      obtain ⟨found, hreturned⟩ := ht.told.mpr ⟨best, last, h, hlast, hcamera⟩
      obtain ⟨hne, hmatch⟩ := (returns_iff h).mp hreturned
      obtain ⟨hle1, hcam, htrack⟩ := of_reidMatch hmatch
      obtain ⟨hcam', htrack'⟩ := ht.named found best last hreturned h hlast
      exact ⟨hcamera, hle1, hcam.symm.trans hcam', htrack.symm.trans htrack'⟩
  · rintro (⟨hcamera, hsays⟩ | ⟨hcamera, hle1, hcam, htrack⟩)
    · have hnone : ¬ ∃ found, (m.observe similarity uuid o).2 = .ok (some found) := by
        intro hf
        obtain ⟨hne, hle1⟩ := hfound.mp hf
        rcases hsays with hsays | hsays
        · exact hne hsays
        · exact absurd hle1 (not_le.mpr hsays)
      constructor
      · refine ⟨fun hf => absurd hf hnone, ?_⟩
        rintro ⟨best', last', hbest', hlast', hne'⟩
        cases h.symm.trans hbest'
        cases hlast.symm.trans hlast'
        exact absurd hcamera hne'
      · intro found _ _ hf _ _
        exact absurd ⟨found, hf⟩ hnone
    · constructor
      · exact ⟨fun _ => ⟨best, last, h, hlast, hcamera⟩, fun _ => hfound.mpr ⟨hcam ▸ hcamera, hle1⟩⟩
      · intro found best' last' hf hbest' hlast'
        cases h.symm.trans hbest'
        cases hlast.symm.trans hlast'
        obtain ⟨_, hmatch⟩ := (returns_iff h).mp hf
        obtain ⟨_, hc, ht⟩ := of_reidMatch hmatch
        exact ⟨hc.trans hcam, ht.trans htrack⟩

/-- The scan of a call finds an entry exactly when it is the first of the most similar
ones, and similar enough. -/
theorem resolve_iff {value : ε → ε → K} {best : Best K ε}
    (h : ∀ identity ∈ m.scanned o, ∀ entry ∈ identity.entries,
      similarity o.embedding entry.embedding = .ok (value o.embedding entry.embedding)) :
    resolve similarity o.embedding (m.scanned o) = .ok (some best) ↔
      (scored value o.embedding (m.scanned o)).argmax Best.similarity = some best ∧
        ReidConstants.cosineSimilarityMatchThreshold ≤ best.similarity := by
  rw [resolve_ok h, Except.ok.injEq, Option.filter_eq_some_iff, decide_eq_true_eq]

/-- A call tells of a change of camera as it should exactly when the most similar entry
and the latest one agree. -/
theorem tells_iff : TellsChange similarity uuid m o ↔ LatestAgrees similarity m o := by
  by_cases hfound : ∃ best, resolve similarity o.embedding (m.scanned o) = .ok (some best)
  · obtain ⟨best, hbest⟩ := hfound
    obtain ⟨value, htotal⟩ := resolve_total hbest
    obtain ⟨hmax, hle⟩ := (resolve_iff htotal).mp hbest
    have hentries := List.ne_nil_of_mem (mem_scored (List.argmax_mem hmax)).2.1
    rw [tells_matched hbest hle (List.getLast?_eq_some_getLast hentries)]
    constructor
    · intro hsays value' hvalue best' last hmax' hle' hlast
      cases hbest.symm.trans ((resolve_iff hvalue).mpr ⟨hmax', hle'⟩)
      cases (List.getLast?_eq_some_getLast hentries).symm.trans hlast
      exact hsays
    · intro hagrees
      exact hagrees _ htotal best _ hmax hle (List.getLast?_eq_some_getLast hentries)
  · have hnone : ∀ best, resolve similarity o.embedding (m.scanned o) ≠ .ok (some best) :=
      fun best hb => hfound ⟨best, hb⟩
    constructor
    · intro _ value hvalue best last hmax hle _
      exact absurd ((resolve_iff hvalue).mpr ⟨hmax, hle⟩) (hnone best)
    · intro _
      constructor
      · constructor
        · rintro ⟨found, hf⟩
          exact absurd hf (returns_none hnone found)
        · rintro ⟨best, _, hb, _⟩
          exact absurd hb (hnone best)
      · intro found best _ _ hb _
        exact absurd hb (hnone best)

/-- Where roots are exact, no call on vectors of one length raises. -/
theorem observe_returns [HasSqrt K] (hsqrt : ExactSqrt K) {m : CrossCameraMatcher K (List K)}
    {o : Observation K (List K)} {sightings : List (Sighting K (List K))} {length : Nat}
    (h : m.Remembers uuid (OfLength length) sightings)
    (hnow : ∀ s ∈ sightings, s.entry.observedAtS ≤ o.now) (ho : OfLength length o.embedding) :
    ∃ result, (m.observe cosineSimilarity uuid o).2 = .ok result := by
  have htotal : ∀ identity ∈ m.scanned o, ∀ entry ∈ identity.entries,
      cosineSimilarity o.embedding entry.embedding = .ok (cosine o.embedding entry.embedding) := by
    rw [h.scanned_eq hnow]
    intro identity hi entry he
    exact cosineSimilarity_ok (ho.trans (h.sized _ (mem_entries hi he).1).symm)
  have hresolve := resolve_ok htotal
  cases hbest : ((scored cosine o.embedding (m.scanned o)).argmax Best.similarity).filter
      (fun best => ReidConstants.cosineSimilarityMatchThreshold ≤ best.similarity) with
  | none =>
    rw [hbest] at hresolve
    rw [observe_fresh hresolve]
    exact ⟨none, rfl⟩
  | some best =>
    rw [hbest] at hresolve
    obtain ⟨hmax, hle⟩ := (resolve_iff htotal).mp hresolve
    obtain ⟨hindex, he, hscore⟩ := mem_scored (List.argmax_mem hmax)
    have hone : best.similarity ≤ 1 := by
      rw [hscore]
      rw [h.scanned_eq hnow] at hindex
      have hsized := h.sized _ (mem_entries (List.mem_of_getElem? hindex) he).1
      exact cosine_le_one hsqrt (ho.trans hsized.symm)
    obtain ⟨found, hfound⟩ := reidMatch_ok (o := o) ⟨threshold_nonneg.trans hle, hone⟩
    rw [observe_matched hresolve, hfound]
    by_cases hcamera : best.entry.cameraId = o.cameraId
    · exact ⟨none, by simp [hcamera]⟩
    · exact ⟨some found, by simp [hcamera, Except.map]⟩

/-- In every run, all calls tell of a change of camera as they should exactly when at
each of them the most similar entry and the latest one agree. -/
theorem tells_changes_iff (similarity : ε → ε → Except Error K) (uuid : Nat → String)
    (os : List (Observation K ε)) :
    (∀ before o after, os = before ++ o :: after →
        TellsChange similarity uuid (observeAll similarity uuid new before) o) ↔
      ∀ before o after, os = before ++ o :: after →
        LatestAgrees similarity (observeAll similarity uuid new before) o := by
  simp only [tells_iff]

section Runs

/-- A sighting on each of two cameras. -/
def onTwoCameras : CrossCameraMatcher ℚ (List ℚ) :=
  observeAll cosineSimilarity Nat.repr new
    [seenBy "cam-1" "track-1" 0, seenBy "cam-2" "track-9" 1]

theorem resolved_of_any {α : Type} {x : Except Error (Option α)} {p : α → Bool}
    (h : x.toOption.join.any p) : ∃ best, x = .ok (some best) ∧ p best := by
  cases x with
  | error e => cases h
  | ok resolved =>
    cases resolved with
    | none => cases h
    | some best => exact ⟨best, rfl, h⟩

/-- A third sighting, on the camera of the second, is told of as a match with the first. -/
theorem same_camera_told :
    ¬ ∀ (os : List (Observation ℚ (List ℚ))) (o : Observation ℚ (List ℚ)),
      TellsChange cosineSimilarity Nat.repr (observeAll cosineSimilarity Nat.repr new os) o := by
  intro h
  have hcall : TellsChange cosineSimilarity Nat.repr onTwoCameras (seenBy "cam-2" "track-9" 2) :=
    h _ _
  obtain ⟨best, hbest, hfacts⟩ := resolved_of_any (x := resolve cosineSimilarity [3, 4]
      (onTwoCameras.scanned (seenBy "cam-2" "track-9" 2)))
    (p := fun best => best.similarity = 1 ∧ best.entry.cameraId = "cam-1" ∧
      best.identity.entries.getLast?.map GalleryEntry.cameraId = some "cam-2") (by decide +kernel)
  obtain ⟨hone, hfirst, hlast⟩ := of_decide_eq_true hfacts
  obtain ⟨last, hlast, hcamera⟩ := Option.map_eq_some_iff.mp hlast
  have hle : ReidConstants.cosineSimilarityMatchThreshold ≤ best.similarity := by
    rw [hone]
    unfold ReidConstants.cosineSimilarityMatchThreshold
    norm_num
  rcases (tells_matched hbest hle hlast).mp hcall with ⟨_, hsays | hsays⟩ | ⟨hother, _⟩
  · rw [hfirst] at hsays
    exact absurd hsays (by decide)
  · rw [hone] at hsays
    exact absurd hsays (lt_irrefl 1)
  · exact hother hcamera

/-- A second sighting, on another camera, is told of as the change that it is. -/
theorem second_camera_told :
    TellsChange cosineSimilarity Nat.repr
      (observeAll cosineSimilarity Nat.repr new [seenBy "cam-1" "track-1" 0])
      (seenBy "cam-2" "track-9" 1) := by
  refine (tells_changes_iff cosineSimilarity Nat.repr
    [seenBy "cam-1" "track-1" 0, seenBy "cam-2" "track-9" 1]).mpr ?_ [_] _ [] rfl
  intro before o after h value hvalue best last hmax hle hlast
  obtain ⟨hindex, he, hscore⟩ := mem_scored (List.argmax_mem hmax)
  have hi := List.mem_of_getElem? hindex
  rcases before with _ | ⟨a, _ | ⟨b, before⟩⟩
  · cases h
    cases hi
  · cases h
    have hfacts : ∀ identity ∈ (observeAll cosineSimilarity Nat.repr new
          [seenBy "cam-1" "track-1" 0]).scanned (seenBy "cam-2" "track-9" 1),
        identity.entries.length = 1 ∧ ∀ entry ∈ identity.entries, entry.cameraId ≠ "cam-2" ∧
          (cosineSimilarity [3, 4] entry.embedding).toOption = some 1 := by decide +kernel
    obtain ⟨hlength, hentries⟩ := hfacts _ hi
    obtain ⟨entry, hentry⟩ := List.length_eq_one_iff.mp hlength
    have hlast' : best.entry = last := by
      rw [hentry] at he hlast
      cases List.mem_singleton.mp he
      exact Option.some.inj hlast
    obtain ⟨hcamera, hone⟩ := hentries _ he
    have hsimilarity : best.similarity = 1 := by
      rw [show cosineSimilarity [3, 4] best.entry.embedding = _ from hvalue _ hi _ he] at hone
      rw [hscore]
      exact Option.some.inj hone
    exact .inr ⟨hlast' ▸ hcamera, hsimilarity.le, hlast' ▸ rfl, hlast' ▸ rfl⟩
  · simp at h

end Runs

end CrossCameraMatcher
end CamTrack
