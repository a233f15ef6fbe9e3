import CamTrack.Proofs.CameraChange

namespace CamTrack
open Python

section
variable {K ε : Type}

theorem scored_entry (value : ε → ε → K) (embedding : ε) (identities : List (Identity K ε)) :
    (scored value embedding identities).map Best.entry =
      identities.flatMap Identity.entries := by
  have hentries := congrArg (List.map Prod.snd) (scored_entries value embedding identities)
  rw [List.map_map] at hentries
  refine hentries.trans ?_
  simp [entriesOf, List.map_flatMap]

theorem argmax_entry [LinearOrder K] (value : ε → ε → K) (embedding : ε)
    (identities : List (Identity K ε)) :
    (identities.flatMap Identity.entries).argmax (fun e => value embedding e.embedding) =
      ((scored value embedding identities).argmax Best.similarity).map Best.entry := by
  rw [← scored_entry value embedding identities, argmax_map]
  congr 1
  exact argmax_congr (fun best hb => (mem_scored hb).2.2.symm)

theorem addEntry_ne {identity : Identity K ε} {entry other : GalleryEntry K ε}
    (h : other ∈ identity.entries) (hne : other ≠ entry) :
    identity.addEntry entry ≠ identity := by
  intro he
  have hentries := congrArg Identity.entries he
  rw [addEntry_entries] at hentries
  exact hne (Window.eq_of_rtake_concat hentries other h)

variable [Field K] [LinearOrder K] [IsStrictOrderedRing K]

theorem live_mono {now now' : K} (h : now ≤ now') {entry : GalleryEntry K ε}
    (hl : entry.live now') : entry.live now := by
  simp only [GalleryEntry.live, decide_eq_true_eq] at *
  exact (sub_le_sub_right h _).trans hl

omit [IsStrictOrderedRing K] in
theorem prune_cons (now : K) (identity : Identity K ε) (identities : List (Identity K ε)) :
    prune now (identity :: identities) =
      if (identity.entries.filter (GalleryEntry.live now)).isEmpty then prune now identities
      else { identity with entries := identity.entries.filter (GalleryEntry.live now) } ::
        prune now identities := by
  rw [prune, List.map_cons, List.filter_cons]
  cases (identity.entries.filter (GalleryEntry.live now)).isEmpty <;> rfl

/-- What is dropped earlier would be dropped later. -/
theorem prune_prune {now now' : K} (h : now ≤ now') (identities : List (Identity K ε)) :
    prune now' (prune now identities) = prune now' identities := by
  have hfilter : ∀ entries : List (GalleryEntry K ε),
      (entries.filter (GalleryEntry.live now)).filter (GalleryEntry.live now') =
        entries.filter (GalleryEntry.live now') := by
    intro entries
    rw [List.filter_filter]
    apply List.filter_congr
    intro entry _
    cases hl : entry.live now' with
    | false => rfl
    | true => rw [live_mono h hl]; rfl
  induction identities with
  | nil => rfl
  | cons identity identities ih =>
    rw [prune_cons now]
    split
    · rename_i hempty
      have hnone : (identity.entries.filter (GalleryEntry.live now')).isEmpty := by
        rw [← hfilter, List.isEmpty_iff.mp hempty]
        rfl
      rw [ih, prune_cons, if_pos hnone]
    · rw [prune_cons, hfilter, ih, prune_cons]

end

namespace CrossCameraMatcher
variable {K ε : Type} [Field K] [LinearOrder K] {similarity : ε → ε → Except Error K}
  {uuid : Nat → String} {m : CrossCameraMatcher K ε} {o : Observation K ε}

/-- What a failed call leaves behind: no identity has been assigned, of the galleries only
expired entries are gone, and a later call for the zone, such as the same call made again,
does to the galleries what it would have done without the failed one. -/
structure LeavesIntact (similarity : ε → ε → Except Error K) (uuid : Nat → String)
    (m : CrossCameraMatcher K ε) (o : Observation K ε) : Prop where
  resolved : (m.observe similarity uuid o).1.resolveIdentityId = m.resolveIdentityId
  gallery : ∀ zone, (m.observe similarity uuid o).1.gallery zone =
    if zone = o.zone then m.scanned o else m.gallery zone
  retried : ∀ later : Observation K ε, later.zone = o.zone → o.now ≤ later.now → ∀ zone,
    ((m.observe similarity uuid o).1.observe similarity uuid later).1.gallery zone =
      (m.observe similarity uuid later).1.gallery zone

/-- A call that raises leaves the matcher as it was. -/
def FailsIntact (similarity : ε → ε → Except Error K) (uuid : Nat → String)
    (m : CrossCameraMatcher K ε) (o : Observation K ε) : Prop :=
  ∀ e, (m.observe similarity uuid o).2 = .error e → LeavesIntact similarity uuid m o

/-- The first of the most similar live entries of the zone lies on another camera, and its
similarity is rounded beyond one. -/
def Oversized (similarity : ε → ε → Except Error K) (m : CrossCameraMatcher K ε)
    (o : Observation K ε) : Prop :=
  ∃ before entry after s, (m.scanned o).flatMap Identity.entries = before ++ entry :: after ∧
    entry.cameraId ≠ o.cameraId ∧ similarity o.embedding entry.embedding = .ok s ∧ 1 < s ∧
    (∀ x ∈ before, ∃ r, similarity o.embedding x.embedding = .ok r ∧ r < s) ∧
    ∀ x ∈ after, ∃ r, similarity o.embedding x.embedding = .ok r ∧ r ≤ s

theorem reidMatch_raises {best : Best K ε} (h : 1 < best.similarity) :
    reidMatch o best = .error .valueError :=
  dif_neg (fun hrange => absurd hrange.2 (not_le.mpr h))

/-- What a call leaves in the gallery of its zone. -/
theorem gallery_own : (m.observe similarity uuid o).1.gallery o.zone =
    match resolve similarity o.embedding (m.scanned o) with
    | .error _ => m.scanned o
    | .ok (some best) => (m.scanned o).modify best.index (Identity.addEntry o.entry)
    | .ok none => m.scanned o ++ [⟨uuid m.generated, [o.entry]⟩] := by
  cases h : resolve similarity o.embedding (m.scanned o) with
  | error e => simp [observe_raised h, pruned, gallery_set]
  | ok resolved =>
    cases resolved with
    | none => exact gallery_fresh h
    | some best => exact gallery_matched h

theorem Oversized.total (h : Oversized similarity m o) :
    ∃ value : ε → ε → K, ∀ identity ∈ m.scanned o, ∀ entry ∈ identity.entries,
      similarity o.embedding entry.embedding = .ok (value o.embedding entry.embedding) := by
  obtain ⟨before, entry, after, s, hlive, _, hs, _, hbefore, hafter⟩ := h
  apply exists_value
  intro identity hi x hx
  have hmem : x ∈ before ++ entry :: after :=
    hlive ▸ List.mem_flatMap.mpr ⟨identity, hi, hx⟩
  rcases List.mem_append.mp hmem with hmem | hmem
  · obtain ⟨r, hr, _⟩ := hbefore x hmem
    exact ⟨r, hr⟩
  · rcases List.mem_cons.mp hmem with rfl | hmem
    · exact ⟨s, hs⟩
    · obtain ⟨r, hr, _⟩ := hafter x hmem
      exact ⟨r, hr⟩

theorem oversized_iff_argmax {value : ε → ε → K}
    (h : ∀ identity ∈ m.scanned o, ∀ entry ∈ identity.entries,
      similarity o.embedding entry.embedding = .ok (value o.embedding entry.embedding)) :
    Oversized similarity m o ↔
      ∃ entry, ((m.scanned o).flatMap Identity.entries).argmax
          (fun e => value o.embedding e.embedding) = some entry ∧
        entry.cameraId ≠ o.cameraId ∧ 1 < value o.embedding entry.embedding := by
  have hvalue : ∀ x ∈ (m.scanned o).flatMap Identity.entries,
      similarity o.embedding x.embedding = .ok (value o.embedding x.embedding) := by
    intro x hx
    obtain ⟨identity, hi, he⟩ := List.mem_flatMap.mp hx
    exact h identity hi x he
  constructor
  · rintro ⟨before, entry, after, s, hlive, hcamera, hs, hone, hbefore, hafter⟩
    rw [hlive] at hvalue
    have hsame : ∀ x ∈ before ++ entry :: after, ∀ r,
        similarity o.embedding x.embedding = .ok r → value o.embedding x.embedding = r :=
      fun x hx r hr => Except.ok.inj ((hvalue x hx).symm.trans hr)
    have hmost := hsame entry (by simp) s hs
    refine ⟨entry, argmax_first.mpr ⟨before, after, hlive, ?_, ?_⟩, hcamera, hmost ▸ hone⟩
    · intro x hx
      obtain ⟨r, hr, hlt⟩ := hbefore x hx
      rw [hsame x (by simp [hx]) r hr, hmost]
      exact hlt
    · intro x hx
      obtain ⟨r, hr, hle⟩ := hafter x hx
      rw [hsame x (by simp [hx]) r hr, hmost]
      exact hle
  · rintro ⟨entry, hmax, hcamera, hone⟩
    obtain ⟨before, after, hlive, hbefore, hafter⟩ := argmax_first.mp hmax
    rw [hlive] at hvalue
    exact ⟨before, entry, after, _, hlive, hcamera, hvalue entry (by simp), hone,
      fun x hx => ⟨_, hvalue x (by simp [hx]), hbefore x hx⟩,
      fun x hx => ⟨_, hvalue x (by simp [hx]), hafter x hx⟩⟩

variable [IsStrictOrderedRing K]

theorem threshold_le_one : (ReidConstants.cosineSimilarityMatchThreshold : K) ≤ 1 := by
  unfold ReidConstants.cosineSimilarityMatchThreshold
  norm_num

/-- To a later call the matcher of a call that raised in its scan is the one before. -/
theorem pruned_retried {later : Observation K ε} (hzone : later.zone = o.zone)
    (hnow : o.now ≤ later.now) (zone : String) :
    ((m.pruned o).observe similarity uuid later).1.gallery zone =
      (m.observe similarity uuid later).1.gallery zone := by
  have hscanned : (m.pruned o).scanned later = m.scanned later := by
    simp only [scanned, pruned, gallery_set, hzone, if_true]
    exact prune_prune hnow _
  by_cases hsame : zone = later.zone
  · subst hsame
    rw [gallery_own, gallery_own, hscanned]
    rfl
  · rw [observe_other hsame, observe_other hsame, pruned, gallery_set, if_neg (hzone ▸ hsame)]

/-- A call whose scan raises has changed nothing. -/
theorem raised_intact {e : Error} (h : resolve similarity o.embedding (m.scanned o) = .error e) :
    LeavesIntact similarity uuid m o := by
  have hraised : m.observe similarity uuid o = (m.pruned o, .error e) := observe_raised h
  constructor
  · rw [hraised]
    rfl
  · intro zone
    rw [hraised]
    exact gallery_set m o.zone zone (m.scanned o)
  · intro later hzone hnow zone
    rw [hraised]
    exact pruned_retried hzone hnow zone

/-- A match counts the sighting. -/
theorem matched_counted {best : Best K ε}
    (h : resolve similarity o.embedding (m.scanned o) = .ok (some best))
    (hcamera : best.entry.cameraId ≠ o.cameraId) :
    (m.observe similarity uuid o).1.gallery o.zone ≠ m.scanned o := by
  obtain ⟨value, htotal⟩ := resolve_total h
  obtain ⟨hindex, he, _⟩ := mem_scored (List.argmax_mem ((resolve_iff htotal).mp h).1)
  have hne : best.entry ≠ o.entry := fun he => hcamera (congrArg GalleryEntry.cameraId he)
  intro hsame
  rw [gallery_matched h] at hsame
  have hidentity := congrArg (·[best.index]?) hsame
  simp only [List.getElem?_modify_eq, hindex] at hidentity
  exact addEntry_ne he hne (Option.some.inj hidentity)

/-- The scan finds an entry of another camera that is too similar exactly when the first
of the most similar ones is. -/
theorem oversized_iff : Oversized similarity m o ↔
    ∃ best, resolve similarity o.embedding (m.scanned o) = .ok (some best) ∧
      best.entry.cameraId ≠ o.cameraId ∧ 1 < best.similarity := by
  constructor
  · intro hover
    obtain ⟨value, htotal⟩ := hover.total
    obtain ⟨entry, hfirst, hcamera, hone⟩ := (oversized_iff_argmax htotal).mp hover
    rw [argmax_entry] at hfirst
    obtain ⟨best, hmax, rfl⟩ := Option.map_eq_some_iff.mp hfirst
    rw [← (mem_scored (List.argmax_mem hmax)).2.2] at hone
    exact ⟨best, (resolve_iff htotal).mpr ⟨hmax, threshold_le_one.trans hone.le⟩, hcamera, hone⟩
  · rintro ⟨best, hbest, hcamera, hone⟩
    obtain ⟨value, htotal⟩ := resolve_total hbest
    obtain ⟨hmax, _⟩ := (resolve_iff htotal).mp hbest
    refine (oversized_iff_argmax htotal).mpr ⟨best.entry, ?_, hcamera, ?_⟩
    · rw [argmax_entry, hmax, Option.map_some]
    · rw [← (mem_scored (List.argmax_mem hmax)).2.2]
      exact hone

/-- A call that raises leaves the matcher as it was exactly when it does not raise for a
similarity beyond one. -/
theorem failsIntact_iff : FailsIntact similarity uuid m o ↔ ¬ Oversized similarity m o := by
  constructor
  · intro hfails hover
    obtain ⟨best, hbest, hcamera, hone⟩ := oversized_iff.mp hover
    have hraises : (m.observe similarity uuid o).2 = .error .valueError := by
      rw [observe_matched hbest, reidMatch_raises hone]
      exact if_pos hcamera
    have hgallery := (hfails _ hraises).gallery o.zone
    rw [if_pos rfl] at hgallery
    exact matched_counted hbest hcamera hgallery
  · intro hnot e he
    cases h : resolve similarity o.embedding (m.scanned o) with
    | error e => exact raised_intact h
    | ok resolved =>
      cases resolved with
      | none =>
        rw [observe_fresh h] at he
        cases he
      | some best =>
        rw [observe_matched h] at he
        obtain ⟨value, htotal⟩ := resolve_total h
        have hle := ((resolve_iff htotal).mp h).2
        by_cases hcamera : best.entry.cameraId = o.cameraId
        · rw [if_neg (not_not.mpr hcamera)] at he
          cases he
        · have hone : best.similarity ≤ 1 :=
            not_lt.mp (fun hone => hnot (oversized_iff.mpr ⟨best, h, hcamera, hone⟩))
          obtain ⟨found, hfound⟩ := reidMatch_ok (o := o) ⟨threshold_nonneg.trans hle, hone⟩
          rw [if_pos hcamera, hfound] at he
          cases he

/-- In every run, each call that raises leaves the matcher as it was exactly when no call
finds on another camera the first of the most similar entries, rounded beyond one. -/
theorem failing_observes_intact_iff (similarity : ε → ε → Except Error K) (uuid : Nat → String)
    (os : List (Observation K ε)) :
    (∀ before o after, os = before ++ o :: after →
        FailsIntact similarity uuid (observeAll similarity uuid new before) o) ↔
      ∀ before o after, os = before ++ o :: after →
        ¬ Oversized similarity (observeAll similarity uuid new before) o := by
  simp only [failsIntact_iff]

section Runs

/-- Roots rounded down to the 52 binary places of a float between one and two. -/
def roundedSqrt (x : ℚ) : ℚ := Nat.sqrt (x.num.toNat * 2 ^ 104 / x.den) / 2 ^ 52

/-- The cosine similarity with rounded roots. -/
def roundedCosine : List ℚ → List ℚ → Except Error ℚ := @cosineSimilarity ℚ _ ⟨roundedSqrt⟩ _

/-- A sighting of the appearance whose norm is the root of three. -/
def onesSeenBy (cameraId trackId : String) (now : ℚ) : Observation ℚ (List ℚ) :=
  { seenBy cameraId trackId now with embedding := [1, 1, 1] }

def onOneCamera : CrossCameraMatcher ℚ (List ℚ) :=
  observeAll roundedCosine Nat.repr new [onesSeenBy "cam-1" "track-1" 0]

/-- The second camera's sighting raises, but it has joined the identity. -/
theorem failing_observe_counts :
    ¬ ∀ (os : List (Observation ℚ (List ℚ))) (o : Observation ℚ (List ℚ)),
      FailsIntact roundedCosine Nat.repr (observeAll roundedCosine Nat.repr new os) o := by
  intro h
  have hcall : FailsIntact roundedCosine Nat.repr onOneCamera (onesSeenBy "cam-2" "track-9" 1) :=
    h _ _
  have hraises : (onOneCamera.observe roundedCosine Nat.repr
      (onesSeenBy "cam-2" "track-9" 1)).2.isOk = false := by decide +kernel
  cases hresult : (onOneCamera.observe roundedCosine Nat.repr
      (onesSeenBy "cam-2" "track-9" 1)).2 with
  | ok found =>
    rw [hresult] at hraises
    cases hraises
  | error e =>
    have hgallery := congrArg (List.map (fun i => i.entries.length))
      ((hcall e hresult).gallery "zone-a")
    exact absurd hgallery (by decide +kernel)

/-- A sighting whose embedding has another length raises in the scan, and is not counted. -/
theorem mismatched_observe_intact :
    let m := observeAll cosineSimilarity Nat.repr new [seenBy "cam-1" "track-1" 0]
    let o := { seenBy "cam-2" "track-9" 1 with embedding := [1] }
    (m.observe cosineSimilarity Nat.repr o).2.isOk = false ∧
      FailsIntact cosineSimilarity Nat.repr m o := by
  intro m o
  refine ⟨by decide +kernel, ?_⟩
  refine (failing_observes_intact_iff cosineSimilarity Nat.repr
    [seenBy "cam-1" "track-1" 0, o]).mpr ?_ [_] _ [] rfl
  rintro before o' after h ⟨earlier, entry, later, s, hlive, _, hs, _⟩
  have hmem : entry ∈ ((observeAll cosineSimilarity Nat.repr new before).scanned o').flatMap
      Identity.entries := hlive ▸ by simp
  rcases before with _ | ⟨a, _ | ⟨b, before⟩⟩
  · cases h
    cases hmem
  · cases h
    have hfacts : ∀ entry ∈ (m.scanned o).flatMap Identity.entries,
        (cosineSimilarity [1] entry.embedding).isOk = false := by decide +kernel
    have hraises := hfacts entry hmem
    rw [show cosineSimilarity [1] entry.embedding = .ok s from hs] at hraises
    cases hraises
  · simp at h

end Runs

end CrossCameraMatcher
end CamTrack
