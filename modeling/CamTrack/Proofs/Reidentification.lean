import CamTrack.Lib.Session
import CamTrack.Proofs.CameraChange

namespace CamTrack
open Python CrossCameraMatcher ReidConstants

variable {K ε α : Type} [Field K] [LinearOrder K]

/-- In which zone a sighting was made, and what it showed. -/
def Sighting.key (look : ε → α) (s : Sighting K ε) : String × α := (s.zone, look s.entry.embedding)

/-- The identities of the sightings, as sessions of what looks alike in a zone. -/
abbrev SeenInSessions (look : ε → α) (sightings : List (Sighting K ε)) : Prop :=
  Session.Sessions (Sighting.key look) Sighting.globalIdentityId (fun s => s.entry.observedAtS)
    galleryMaxAgeSeconds sightings

/-- Embeddings are similar enough to match exactly when they show the same. -/
def Separates (value : ε → ε → K) (look : ε → α) (Sized : ε → Prop) : Prop :=
  ∀ a b, Sized a → Sized b → (cosineSimilarityMatchThreshold ≤ value a b ↔ look a = look b)

/-- What is not too old still has its identity in the gallery. -/
theorem exists_live_identity {now : K} {s : Sighting K ε} {sightings : List (Sighting K ε)}
    (hs : s ∈ sightings) (hlive : s.entry.live now) :
    ∃ identity ∈ slidingWindow now s.zone sightings,
      identity.globalIdentityId = s.globalIdentityId ∧ ∃ entry, entry ∈ identity.entries := by
  have hvalue : ∃ v, (s.globalIdentityId, v) ∈ ofZone s.zone sightings ∧ v.live now :=
    ⟨s.entry, mem_ofZone.mpr hs, hlive⟩
  have hgroup : (s.globalIdentityId, Window.window galleryMaxEntriesPerIdentity
      (GalleryEntry.live now) (ofZone s.zone sightings) s.globalIdentityId) ∈
      Window.groups galleryMaxEntriesPerIdentity (GalleryEntry.live now)
        (ofZone s.zone sightings) := (Window.mem_groups maxEntries_pos).mpr ⟨rfl, hvalue⟩
  exact ⟨_, List.mem_map_of_mem hgroup, rfl,
    List.exists_mem_of_ne_nil _ ((Window.window_ne_nil maxEntries_pos).mpr hvalue)⟩

namespace CrossCameraMatcher

/-- What has been observed by now has been seen by now. -/
theorem history_le {similarity : ε → ε → Except Error K} {uuid : Nat → String}
    {m : CrossCameraMatcher K ε} {os : List (Observation K ε)} {now : K}
    (h : ∀ o ∈ os, o.now ≤ now) :
    ∀ s ∈ history similarity uuid m os, s.entry.observedAtS ≤ now := by
  intro s hs
  obtain ⟨o, ho, he⟩ := entry_of_history hs
  rw [he]
  exact h o ho

section Step
variable [IsStrictOrderedRing K] {similarity : ε → ε → Except Error K} {value : ε → ε → K}
  {uuid : Nat → String} {Sized : ε → Prop} {look : ε → α} {m : CrossCameraMatcher K ε}
  {sightings : List (Sighting K ε)} {o : Observation K ε}

/-- Something live that shows the same is found, and nothing else is. -/
theorem Remembers.joins (hsim : ∀ a b, Sized a → Sized b → similarity a b = .ok (value a b))
    (hlook : Separates value look Sized) (huuid : Function.Injective uuid)
    (h : m.Remembers uuid Sized sightings) (hsessions : SeenInSessions look sightings)
    (hnow : ∀ s ∈ sightings, s.entry.observedAtS ≤ o.now) (ho : Sized o.embedding) :
    Session.Joins (Sighting.key look) Sighting.globalIdentityId (fun s => s.entry.observedAtS)
      galleryMaxAgeSeconds sightings
      ⟨o.zone, (m.observe similarity uuid o).1.resolveIdentityId, o.entry⟩ := by
  rcases h.observe_cases hsim hnow ho with
    ⟨best, hbest, hle, _, hid, _⟩ | ⟨hnone, _, hid, _⟩
  · obtain ⟨hindex, he, hscore⟩ := mem_scored (List.argmax_mem hbest)
    obtain ⟨hmem, hlive⟩ := mem_entries (List.mem_of_getElem? hindex) he
    rw [hscore] at hle
    have hsame : look best.entry.embedding = look o.embedding :=
      ((hlook _ _ ho (h.sized _ hmem)).mp hle).symm
    have hgap := of_decide_eq_true hlive
    have hkeys : Sighting.key look ⟨o.zone, best.identity.globalIdentityId, best.entry⟩ =
        Sighting.key look ⟨o.zone, best.identity.globalIdentityId, o.entry⟩ := Prod.ext rfl hsame
    rw [hid]
    refine ⟨hnow, fun a ha hkey hgap' => ?_, fun hnot => ?_, fun a ha hsession => ?_⟩
    · have hjoins := hsessions.recent_eq hnow a ha _ hmem (hkey.trans hkeys.symm) hgap' hgap
      exact hjoins
    · exact absurd hgap (hnot _ hmem hkeys)
    · exact (hsessions.key_eq a ha _ hmem hsession).trans hkeys
  · rw [hid]
    have hfresh := h.fresh huuid
    refine ⟨hnow, fun a ha hkey hgap => ?_, fun _ => hfresh, fun a ha he => absurd he (hfresh a ha)⟩
    have hzone : a.zone = o.zone := congrArg Prod.fst hkey
    have hsame : look a.entry.embedding = look o.embedding := congrArg Prod.snd hkey
    obtain ⟨identity, hidentity, hname, entry, he⟩ := exists_live_identity ha (decide_eq_true hgap)
    rw [hzone] at hidentity
    obtain ⟨hmem, _⟩ := mem_entries hidentity he
    have hshows : look entry.embedding = look o.embedding :=
      (congrArg Prod.snd (hsessions.key_eq _ hmem a ha hname)).trans hsame
    have hsimilar := (hlook _ _ ho (h.sized _ hmem)).mpr hshows.symm
    obtain ⟨i, hi⟩ := List.mem_iff_getElem?.mp hidentity
    have hscored : (⟨i, identity, entry, value o.embedding entry.embedding⟩ : Best K ε) ∈
        scored value o.embedding (slidingWindow o.now o.zone sightings) :=
      List.mem_flatMap.mpr ⟨(identity, i), List.mem_zipIdx_iff_getElem?.mpr hi,
        List.mem_map.mpr ⟨entry, he, rfl⟩⟩
    cases hbest : (scored value o.embedding (slidingWindow o.now o.zone sightings)).argmax
        Best.similarity with
    | none =>
      rw [List.argmax_eq_none.mp hbest] at hscored
      cases hscored
    | some best =>
      have hmost := List.le_of_mem_argmax hscored hbest
      exact absurd (hsimilar.trans hmost) (hnone best hbest)

/-- The identities that a run assigns are the sessions of what looks alike in a zone. -/
theorem seen_in_sessions (hsim : ∀ a b, Sized a → Sized b → similarity a b = .ok (value a b))
    (hlook : Separates value look Sized) (huuid : Function.Injective uuid)
    {os : List (Observation K ε)} (hsized : ∀ o ∈ os, Sized o.embedding)
    (hclock : os.Pairwise (fun a b => a.now ≤ b.now)) :
    SeenInSessions look (history similarity uuid new os) := by
  induction os using List.reverseRecOn with
  | nil => exact .nil
  | append_singleton os o ih =>
    obtain ⟨hearlier, _, hlast⟩ := List.pairwise_append.mp hclock
    have hsized' : ∀ o ∈ os, Sized o.embedding := fun o ho => hsized o (List.mem_append_left _ ho)
    have hsessions := ih hsized' hearlier
    have h := remembers hsim huuid hsized' hearlier
    rw [history_concat, observeAll_concat]
    apply hsessions.concat
    apply h.joins hsim hlook huuid hsessions _ (hsized o (by simp))
    exact history_le fun a ha => hlast a ha o (List.mem_singleton_self o)

omit [IsStrictOrderedRing K] in
/-- A match names the entry that the scan has found. -/
theorem match_names {best : Best K ε} {found : ReidMatch K}
    (h : resolve similarity o.embedding (m.scanned o) = .ok (some best))
    (hfound : (m.observe similarity uuid o).2 = .ok (some found)) :
    best.entry.cameraId ≠ o.cameraId ∧ found.matchedCameraId = best.entry.cameraId ∧
      found.matchedTrackId = best.entry.trackId ∧
      found.globalIdentityId = best.identity.globalIdentityId := by
  obtain ⟨hcamera, hmatch⟩ := (returns_iff h).mp hfound
  unfold reidMatch at hmatch
  split at hmatch
  · cases hmatch
    exact ⟨hcamera, rfl, rfl, rfl⟩
  · cases hmatch

/-- The sighting that a match tells of: on another camera of the zone, not long ago, of what
shows the same. -/
def Backs (look : ε → α) (o : Observation K ε) (found : ReidMatch K) (s : Sighting K ε) : Prop :=
  s.zone = o.zone ∧ look s.entry.embedding = look o.embedding ∧
    o.now - s.entry.observedAtS ≤ galleryMaxAgeSeconds ∧ s.entry.cameraId ≠ o.cameraId ∧
    found.matchedCameraId = s.entry.cameraId ∧ found.matchedTrackId = s.entry.trackId ∧
    found.globalIdentityId = s.globalIdentityId

theorem Remembers.backed (hsim : ∀ a b, Sized a → Sized b → similarity a b = .ok (value a b))
    (hlook : Separates value look Sized) (h : m.Remembers uuid Sized sightings)
    (hnow : ∀ s ∈ sightings, s.entry.observedAtS ≤ o.now) (ho : Sized o.embedding)
    {found : ReidMatch K} (hfound : (m.observe similarity uuid o).2 = .ok (some found)) :
    ∃ s ∈ sightings, Backs look o found s := by
  have hresolve := h.resolve_eq hsim hnow ho
  cases hbest : ((scored value o.embedding (slidingWindow o.now o.zone sightings)).argmax
      Best.similarity).filter (fun best => cosineSimilarityMatchThreshold ≤ best.similarity) with
  | none =>
    rw [hbest] at hresolve
    refine absurd hfound (returns_none (fun best hb => ?_) found)
    rw [hresolve] at hb
    cases hb
  | some best =>
    rw [hbest] at hresolve
    obtain ⟨hmax, hle⟩ := Option.filter_eq_some_iff.mp hbest
    obtain ⟨hindex, he, hscore⟩ := mem_scored (List.argmax_mem hmax)
    obtain ⟨hmem, hlive⟩ := mem_entries (List.mem_of_getElem? hindex) he
    have hle := of_decide_eq_true hle
    rw [hscore] at hle
    have hsame := (hlook _ _ ho (h.sized _ hmem)).mp hle
    obtain ⟨hcamera, hnames⟩ := match_names hresolve hfound
    exact ⟨_, hmem, rfl, hsame.symm, of_decide_eq_true hlive, hcamera, hnames⟩

end Step

section Run
variable [DecidableEq α]

/-- Sightings have one identity when they show the same in one zone and it was never unseen for
long between them, and each match tells of such a sighting on another camera. -/
structure FollowsLooks (similarity : ε → ε → Except Error K) (uuid : Nat → String) (look : ε → α)
    (os : List (Observation K ε)) : Prop where
  identities : ∀ before s between s' after,
    history similarity uuid new os = before ++ s :: between ++ s' :: after →
      (s.globalIdentityId = s'.globalIdentityId ↔ s.key look = s'.key look ∧
        Session.Unbroken (Sighting.key look) (fun a => a.entry.observedAtS) galleryMaxAgeSeconds
          s between s')
  matched : ∀ earlier o later found, os = earlier ++ o :: later →
    ((observeAll similarity uuid new earlier).observe similarity uuid o).2 = .ok (some found) →
      ∃ s ∈ history similarity uuid new earlier, Backs look o found s

variable [IsStrictOrderedRing K] {uuid : Nat → String}

theorem looks_followed {similarity : ε → ε → Except Error K} {value : ε → ε → K}
    {Sized : ε → Prop} {look : ε → α}
    (hsim : ∀ a b, Sized a → Sized b → similarity a b = .ok (value a b))
    (hlook : Separates value look Sized) (huuid : Function.Injective uuid)
    {os : List (Observation K ε)} (hsized : ∀ o ∈ os, Sized o.embedding)
    (hclock : os.Pairwise (fun a b => a.now ≤ b.now)) : FollowsLooks similarity uuid look os := by
  constructor
  · intro before s between s' after h
    exact (seen_in_sessions hsim hlook huuid hsized hclock).session_eq_iff h
  · rintro earlier o later found rfl hfound
    obtain ⟨hearlier, _, hlast⟩ := List.pairwise_append.mp hclock
    have h := remembers hsim huuid (fun a ha => hsized a (List.mem_append_left _ ha)) hearlier
    apply h.backed hsim hlook _ (hsized o (by simp)) hfound
    exact history_le fun a ha => hlast a ha o List.mem_cons_self

end Run

end CrossCameraMatcher
end CamTrack
