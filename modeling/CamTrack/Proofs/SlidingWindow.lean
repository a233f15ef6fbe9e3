import CamTrack.Proofs.CrossCameraMatcher

namespace CamTrack
open Python

variable {K ε : Type}

/-- An observation as a zone remembers it: with the identity that it was assigned to. -/
structure Sighting (K ε : Type) where
  zone : String
  globalIdentityId : String
  entry : GalleryEntry K ε

/-- The entries of a zone, each under its identity. -/
def ofZone (zone : String) (sightings : List (Sighting K ε)) :
    List (String × GalleryEntry K ε) :=
  sightings.filterMap (fun s => if s.zone = zone then some (s.globalIdentityId, s.entry) else none)

theorem mem_ofZone {zone : String} {sightings : List (Sighting K ε)} {id : String}
    {entry : GalleryEntry K ε} :
    (id, entry) ∈ ofZone zone sightings ↔ ⟨zone, id, entry⟩ ∈ sightings := by
  simp only [ofZone, List.mem_filterMap]
  constructor
  · rintro ⟨s, hs, he⟩
    split at he
    · rename_i hzone
      cases he
      exact hzone ▸ hs
    · cases he
  · intro hs
    exact ⟨_, hs, if_pos rfl⟩

theorem ofZone_concat_self (zone : String) (sightings : List (Sighting K ε)) (id : String)
    (entry : GalleryEntry K ε) :
    ofZone zone (sightings ++ [⟨zone, id, entry⟩]) = ofZone zone sightings ++ [(id, entry)] := by
  simp [ofZone]

theorem ofZone_concat_of_ne {zone : String} {s : Sighting K ε} (hne : s.zone ≠ zone)
    (sightings : List (Sighting K ε)) :
    ofZone zone (sightings ++ [s]) = ofZone zone sightings := by
  simp [ofZone, hne]

theorem addEntry_entries (entry : GalleryEntry K ε) (identity : Identity K ε) :
    (identity.addEntry entry).entries =
      (identity.entries ++ [entry]).rtake ReidConstants.galleryMaxEntriesPerIdentity := by
  simp only [Identity.addEntry]
  split
  · rfl
  · rename_i hle
    rw [List.rtake, Nat.sub_eq_zero_of_le (Nat.not_lt.mp hle), List.drop_zero]

section
variable [Field K] [LinearOrder K]

/-- The gallery that a zone should have: of every identity with a live sighting, the
last few of them. -/
def slidingWindow (now : K) (zone : String) (sightings : List (Sighting K ε)) :
    List (Identity K ε) :=
  (Window.groups ReidConstants.galleryMaxEntriesPerIdentity (GalleryEntry.live now)
    (ofZone zone sightings)).map (fun g => ⟨g.1, g.2⟩)

theorem maxEntries_pos : 0 < ReidConstants.galleryMaxEntriesPerIdentity := by decide

/-- An entry of the window has been seen in the zone, and is live. -/
theorem mem_slidingWindow {now : K} {zone : String} {sightings : List (Sighting K ε)}
    {identity : Identity K ε} (h : identity ∈ slidingWindow now zone sightings) :
    ∃ entry, ⟨zone, identity.globalIdentityId, entry⟩ ∈ sightings := by
  obtain ⟨g, hg, rfl⟩ := List.mem_map.mp h
  obtain ⟨entry, hmem, _⟩ := ((Window.mem_groups maxEntries_pos).mp hg).2
  exact ⟨entry, mem_ofZone.mp hmem⟩

theorem mem_entries {now : K} {zone : String} {sightings : List (Sighting K ε)}
    {identity : Identity K ε} (h : identity ∈ slidingWindow now zone sightings)
    {entry : GalleryEntry K ε} (he : entry ∈ identity.entries) :
    ⟨zone, identity.globalIdentityId, entry⟩ ∈ sightings ∧ entry.live now := by
  obtain ⟨g, hg, rfl⟩ := List.mem_map.mp h
  have hwindow := ((Window.mem_groups maxEntries_pos).mp hg).1
  rw [hwindow] at he
  obtain ⟨hvalue, hlive⟩ := List.mem_filter.mp (List.mem_of_mem_drop he)
  obtain ⟨e, hkeyed, rfl⟩ := List.mem_map.mp hvalue
  obtain ⟨hmem, hid⟩ := List.mem_filter.mp hkeyed
  have hpair : (g.1, e.2) ∈ ofZone zone sightings := of_decide_eq_true hid ▸ hmem
  exact ⟨mem_ofZone.mp hpair, hlive⟩

theorem slidingWindow_nodup (now : K) (zone : String) (sightings : List (Sighting K ε)) :
    ((slidingWindow now zone sightings).map Identity.globalIdentityId).Nodup := by
  rw [slidingWindow, List.map_map]
  exact Window.groups_nodup

theorem slidingWindow_concat_of_ne {now : K} {zone : String} {s : Sighting K ε}
    (hne : s.zone ≠ zone) (sightings : List (Sighting K ε)) :
    slidingWindow now zone (sightings ++ [s]) = slidingWindow now zone sightings := by
  rw [slidingWindow, ofZone_concat_of_ne hne, slidingWindow]

/-- What an identity that has a window gets is added to it. -/
theorem slidingWindow_concat_of_mem {now : K} {zone : String} {sightings : List (Sighting K ε)}
    {i : Nat} {identity : Identity K ε} {entry : GalleryEntry K ε} (hlive : entry.live now)
    (hi : (slidingWindow now zone sightings)[i]? = some identity) :
    slidingWindow now zone (sightings ++ [⟨zone, identity.globalIdentityId, entry⟩]) =
      (slidingWindow now zone sightings).modify i (Identity.addEntry entry) := by
  have hmem : identity.globalIdentityId ∈
      (Window.groups ReidConstants.galleryMaxEntriesPerIdentity (GalleryEntry.live now)
        (ofZone zone sightings)).map Prod.fst := by
    obtain ⟨g, hg, rfl⟩ := List.mem_map.mp (List.mem_of_getElem? hi)
    exact List.mem_map_of_mem hg
  rw [Window.modify_eq_map (slidingWindow_nodup now zone sightings) hi, slidingWindow,
    ofZone_concat_self, Window.groups_concat_of_mem maxEntries_pos hlive hmem, slidingWindow,
    List.map_map, List.map_map]
  apply List.map_congr_left
  intro g _
  by_cases hg : g.1 = identity.globalIdentityId
  · simp only [Function.comp_apply, hg, if_true]
    rw [← addEntry_entries entry ⟨identity.globalIdentityId, g.2⟩]
    rfl
  · simp [hg]

theorem slidingWindow_concat_of_not_mem {now : K} {zone : String}
    {sightings : List (Sighting K ε)} {id : String} {entry : GalleryEntry K ε}
    (hlive : entry.live now) (hid : ∀ s ∈ sightings, s.globalIdentityId ≠ id) :
    slidingWindow now zone (sightings ++ [⟨zone, id, entry⟩]) =
      slidingWindow now zone sightings ++ [⟨id, [entry]⟩] := by
  have hnot : id ∉ (ofZone zone sightings).map Prod.fst := by
    intro hmem
    obtain ⟨⟨id, e⟩, he, rfl⟩ := List.mem_map.mp hmem
    exact hid _ (mem_ofZone.mp he) rfl
  rw [slidingWindow, ofZone_concat_self, Window.groups_concat_of_not_mem maxEntries_pos hlive hnot,
    List.map_append, slidingWindow]
  rfl

variable [IsStrictOrderedRing K]

/-- A window that is pruned later is the window of the later time. -/
theorem prune_slidingWindow {now later : K} {zone : String} {sightings : List (Sighting K ε)}
    (hsorted : sightings.Pairwise (fun s s' => s.entry.observedAtS ≤ s'.entry.observedAtS))
    (hle : now ≤ later) :
    prune later (slidingWindow now zone sightings) = slidingWindow later zone sightings := by
  have hlive : ∀ e : GalleryEntry K ε, e.live later → e.live now := by
    intro e he
    have := of_decide_eq_true he
    exact decide_eq_true (by linarith)
  have hordered : Window.Ordered (GalleryEntry.live later)
      ((ofZone zone sightings).map Prod.snd) := by
    apply List.pairwise_map.mpr
    apply List.pairwise_filterMap.mpr
    apply hsorted.imp
    intro s s' hle e he e' he' hlive
    split at he
    · split at he'
      · cases he
        cases he'
        have := of_decide_eq_true hlive
        exact decide_eq_true (by linarith)
      · cases he'
    · cases he
  rw [slidingWindow, slidingWindow, ← Window.groups_expire hlive hordered, prune, List.map_map,
    List.filter_map, List.filter_map, List.map_map]
  rfl

end

namespace CrossCameraMatcher
variable [Field K] [LinearOrder K]

/-- The sightings of a run, in order. -/
def history (similarity : ε → ε → Except Error K) (uuid : Nat → String) :
    CrossCameraMatcher K ε → List (Observation K ε) → List (Sighting K ε)
  | _, [] => []
  | m, o :: os =>
    let m := (m.observe similarity uuid o).1
    ⟨o.zone, m.resolveIdentityId, o.entry⟩ :: history similarity uuid m os

section Run
variable {similarity : ε → ε → Except Error K} {uuid : Nat → String}

theorem observeAll_concat (m : CrossCameraMatcher K ε) (os : List (Observation K ε))
    (o : Observation K ε) : m.observeAll similarity uuid (os ++ [o]) =
      ((m.observeAll similarity uuid os).observe similarity uuid o).1 := by
  rw [observeAll, List.foldl_append]
  rfl

theorem history_concat (m : CrossCameraMatcher K ε) (os : List (Observation K ε))
    (o : Observation K ε) : history similarity uuid m (os ++ [o]) =
      history similarity uuid m os ++ [⟨o.zone,
        (m.observeAll similarity uuid (os ++ [o])).resolveIdentityId, o.entry⟩] := by
  induction os generalizing m with
  | nil => rfl
  | cons a os ih =>
    rw [List.cons_append, history, history, ih]
    rfl

/-- A sighting is of an observation of the run. -/
theorem entry_of_history {m : CrossCameraMatcher K ε} {os : List (Observation K ε)}
    {s : Sighting K ε} (h : s ∈ history similarity uuid m os) : ∃ o ∈ os, s.entry = o.entry := by
  induction os generalizing m with
  | nil => simp [history] at h
  | cons o os ih =>
    rcases List.mem_cons.mp h with rfl | h
    · exact ⟨o, List.mem_cons_self, rfl⟩
    · obtain ⟨a, ha, he⟩ := ih h
      exact ⟨a, List.mem_cons_of_mem o ha, he⟩

end Run

/-- What a matcher remembers of the sightings so far. -/
structure Remembers (uuid : Nat → String) (Sized : ε → Prop) (m : CrossCameraMatcher K ε)
    (sightings : List (Sighting K ε)) : Prop where
  windows : ∀ zone now, (∀ s ∈ sightings, s.entry.observedAtS ≤ now) →
    prune now (m.gallery zone) = slidingWindow now zone sightings
  sorted : sightings.Pairwise (fun s s' => s.entry.observedAtS ≤ s'.entry.observedAtS)
  drawn : ∀ s ∈ sightings, ∃ i < m.generated, s.globalIdentityId = uuid i
  zones : ∀ s ∈ sightings, ∀ s' ∈ sightings,
    s.globalIdentityId = s'.globalIdentityId → s.zone = s'.zone
  sized : ∀ s ∈ sightings, Sized s.entry.embedding
  named : ∀ zone, ∀ identity ∈ m.gallery zone,
    ∃ entry, ⟨zone, identity.globalIdentityId, entry⟩ ∈ sightings

section Window
variable {similarity : ε → ε → Except Error K} {value : ε → ε → K} {uuid : Nat → String}
  {Sized : ε → Prop} {m : CrossCameraMatcher K ε} {sightings : List (Sighting K ε)}
  {o : Observation K ε}

theorem remembers_new : Remembers uuid Sized (new : CrossCameraMatcher K ε) [] := by
  constructor
  · intro zone now _
    rfl
  · exact List.Pairwise.nil
  · simp
  · simp
  · simp
  · intro zone identity hi
    cases hi

theorem Remembers.scanned_eq (h : m.Remembers uuid Sized sightings)
    (hnow : ∀ s ∈ sightings, s.entry.observedAtS ≤ o.now) :
    m.scanned o = slidingWindow o.now o.zone sightings :=
  h.windows o.zone o.now hnow

/-- The id that a call draws names nothing yet. -/
theorem Remembers.fresh (huuid : Function.Injective uuid) (h : m.Remembers uuid Sized sightings) :
    ∀ s ∈ sightings, s.globalIdentityId ≠ uuid m.generated := by
  intro s hs he
  obtain ⟨i, hi, hid⟩ := h.drawn s hs
  have := huuid (hid.symm.trans he)
  omega

variable [IsStrictOrderedRing K]

/-- A call finds the first of the most similar entries of the window. -/
theorem Remembers.resolve_eq
    (hsim : ∀ a b, Sized a → Sized b → similarity a b = .ok (value a b))
    (h : m.Remembers uuid Sized sightings)
    (hnow : ∀ s ∈ sightings, s.entry.observedAtS ≤ o.now) (ho : Sized o.embedding) :
    resolve similarity o.embedding (m.scanned o) =
      .ok (((scored value o.embedding (slidingWindow o.now o.zone sightings)).argmax
        Best.similarity).filter (fun best =>
          ReidConstants.cosineSimilarityMatchThreshold ≤ best.similarity)) := by
  rw [h.scanned_eq hnow]
  apply resolve_ok
  intro identity hi entry he
  exact hsim _ _ ho (h.sized _ (mem_entries hi he).1)

/-- A call assigns the observation to the identity of the entry it finds, or starts one. -/
theorem Remembers.observe_cases
    (hsim : ∀ a b, Sized a → Sized b → similarity a b = .ok (value a b))
    (h : m.Remembers uuid Sized sightings)
    (hnow : ∀ s ∈ sightings, s.entry.observedAtS ≤ o.now) (ho : Sized o.embedding) :
    (∃ best, (scored value o.embedding (slidingWindow o.now o.zone sightings)).argmax
          Best.similarity = some best ∧
        ReidConstants.cosineSimilarityMatchThreshold ≤ best.similarity ∧
        (m.observe similarity uuid o).1.gallery o.zone =
          (slidingWindow o.now o.zone sightings).modify best.index (Identity.addEntry o.entry) ∧
        (m.observe similarity uuid o).1.resolveIdentityId = best.identity.globalIdentityId ∧
        (m.observe similarity uuid o).1.generated = m.generated) ∨
      ((∀ best, (scored value o.embedding (slidingWindow o.now o.zone sightings)).argmax
          Best.similarity = some best →
        ¬ ReidConstants.cosineSimilarityMatchThreshold ≤ best.similarity) ∧
        (m.observe similarity uuid o).1.gallery o.zone =
          slidingWindow o.now o.zone sightings ++ [⟨uuid m.generated, [o.entry]⟩] ∧
        (m.observe similarity uuid o).1.resolveIdentityId = uuid m.generated ∧
        (m.observe similarity uuid o).1.generated = m.generated + 1) := by
  have hresolve := h.resolve_eq hsim hnow ho
  rw [← h.scanned_eq hnow] at hresolve ⊢
  cases hbest : (scored value o.embedding (m.scanned o)).argmax Best.similarity with
  | none =>
    right
    rw [hbest] at hresolve
    rw [gallery_fresh hresolve, observe_fresh hresolve]
    exact ⟨fun best hb => (nomatch hb), rfl, rfl, rfl⟩
  | some best =>
    by_cases hle : ReidConstants.cosineSimilarityMatchThreshold ≤ best.similarity
    · left
      rw [hbest] at hresolve
      simp only [Option.filter, hle, decide_true, if_true] at hresolve
      rw [gallery_matched hresolve, observe_matched hresolve]
      exact ⟨best, rfl, hle, rfl, rfl, rfl⟩
    · right
      rw [hbest] at hresolve
      simp only [Option.filter, hle, decide_false, Bool.false_eq_true, if_false] at hresolve
      rw [gallery_fresh hresolve, observe_fresh hresolve]
      exact ⟨fun b hb => Option.some.inj hb ▸ hle, rfl, rfl, rfl⟩

theorem live_entry (o : Observation K ε) : o.entry.live o.now := by
  apply decide_eq_true
  have : (0 : K) ≤ ReidConstants.galleryMaxAgeSeconds := by
    unfold ReidConstants.galleryMaxAgeSeconds
    norm_num
  simpa [Observation.entry] using this

/-- After a call, the gallery of its zone is the window of its time. -/
theorem Remembers.gallery_eq
    (hsim : ∀ a b, Sized a → Sized b → similarity a b = .ok (value a b))
    (huuid : Function.Injective uuid) (h : m.Remembers uuid Sized sightings)
    (hnow : ∀ s ∈ sightings, s.entry.observedAtS ≤ o.now) (ho : Sized o.embedding) :
    (m.observe similarity uuid o).1.gallery o.zone =
      slidingWindow o.now o.zone (sightings ++
        [⟨o.zone, (m.observe similarity uuid o).1.resolveIdentityId, o.entry⟩]) := by
  rcases h.observe_cases hsim hnow ho with
    ⟨best, hbest, _, hgallery, hid, _⟩ | ⟨_, hgallery, hid, _⟩
  · obtain ⟨hindex, _, _⟩ := mem_scored (List.argmax_mem hbest)
    rw [hgallery, hid, slidingWindow_concat_of_mem (live_entry o) hindex]
  · rw [hgallery, hid, slidingWindow_concat_of_not_mem (live_entry o) (h.fresh huuid)]

/-- A call resolves to an id of its zone, or to one that it draws. -/
theorem Remembers.resolves
    (hsim : ∀ a b, Sized a → Sized b → similarity a b = .ok (value a b))
    (h : m.Remembers uuid Sized sightings)
    (hnow : ∀ s ∈ sightings, s.entry.observedAtS ≤ o.now) (ho : Sized o.embedding) :
    (∃ s ∈ sightings, s.zone = o.zone ∧
        (m.observe similarity uuid o).1.resolveIdentityId = s.globalIdentityId ∧
        (m.observe similarity uuid o).1.generated = m.generated) ∨
      (m.observe similarity uuid o).1.resolveIdentityId = uuid m.generated ∧
        (m.observe similarity uuid o).1.generated = m.generated + 1 := by
  rcases h.observe_cases hsim hnow ho with ⟨best, hbest, _, _, hid, hgen⟩ | ⟨_, _, hid, hgen⟩
  · obtain ⟨hindex, _, _⟩ := mem_scored (List.argmax_mem hbest)
    obtain ⟨entry, hentry⟩ := mem_slidingWindow (List.mem_of_getElem? hindex)
    exact Or.inl ⟨_, hentry, rfl, hid, hgen⟩
  · exact Or.inr ⟨hid, hgen⟩

/-- A call is remembered. -/
theorem Remembers.observe
    (hsim : ∀ a b, Sized a → Sized b → similarity a b = .ok (value a b))
    (huuid : Function.Injective uuid) (h : m.Remembers uuid Sized sightings)
    (hnow : ∀ s ∈ sightings, s.entry.observedAtS ≤ o.now) (ho : Sized o.embedding) :
    (m.observe similarity uuid o).1.Remembers uuid Sized (sightings ++
      [⟨o.zone, (m.observe similarity uuid o).1.resolveIdentityId, o.entry⟩]) := by
  have hgallery := h.gallery_eq hsim huuid hnow ho
  have hresolves := h.resolves hsim hnow ho
  generalize hid : (m.observe similarity uuid o).1.resolveIdentityId = id at hgallery hresolves ⊢
  have hsorted : (sightings ++ [(⟨o.zone, id, o.entry⟩ : Sighting K ε)]).Pairwise
      (fun s s' => s.entry.observedAtS ≤ s'.entry.observedAtS) := by
    refine List.pairwise_append.mpr ⟨h.sorted, List.pairwise_singleton _ _, ?_⟩
    intro s hs s' hs'
    rw [List.mem_singleton.mp hs']
    exact hnow s hs
  have hname : ∀ s ∈ sightings, s.globalIdentityId = id → s.zone = o.zone := by
    intro s hs he
    rcases hresolves with ⟨known, hknown, hzone, hid, _⟩ | ⟨hid, _⟩
    · rw [← hzone]
      exact h.zones s hs known hknown (he.trans hid)
    · exact absurd (he.trans hid) (h.fresh huuid s hs)
  refine ⟨?_, hsorted, ?_, ?_, ?_, ?_⟩
  · intro zone now hlater
    by_cases hzone : zone = o.zone
    · subst hzone
      rw [hgallery]
      exact prune_slidingWindow hsorted (hlater ⟨o.zone, id, o.entry⟩ (by simp))
    · rw [observe_other hzone, slidingWindow_concat_of_ne (Ne.symm hzone)]
      exact h.windows zone now (fun s hs => hlater s (List.mem_append_left _ hs))
  · intro s hs
    rcases List.mem_append.mp hs with hs | hs
    · obtain ⟨i, hi, he⟩ := h.drawn s hs
      refine ⟨i, ?_, he⟩
      rcases hresolves with ⟨_, _, _, _, hgen⟩ | ⟨_, hgen⟩ <;> omega
    · rw [List.mem_singleton.mp hs]
      rcases hresolves with ⟨known, hknown, _, hid, hgen⟩ | ⟨hid, hgen⟩
      · rw [hgen, hid]
        exact h.drawn known hknown
      · exact ⟨m.generated, by omega, hid⟩
  · intro s hs s' hs' he
    rcases List.mem_append.mp hs with hs | hs <;> rcases List.mem_append.mp hs' with hs' | hs'
    · exact h.zones s hs s' hs' he
    · rw [List.mem_singleton.mp hs'] at he ⊢
      exact hname s hs he
    · rw [List.mem_singleton.mp hs] at he ⊢
      exact (hname s' hs' he.symm).symm
    · rw [List.mem_singleton.mp hs, List.mem_singleton.mp hs']
  · intro s hs
    rcases List.mem_append.mp hs with hs | hs
    · exact h.sized s hs
    · rw [List.mem_singleton.mp hs]
      exact ho
  · intro zone identity hi
    by_cases hzone : zone = o.zone
    · subst hzone
      rw [hgallery] at hi
      exact mem_slidingWindow hi
    · rw [observe_other hzone] at hi
      obtain ⟨entry, hentry⟩ := h.named zone identity hi
      exact ⟨entry, List.mem_append_left _ hentry⟩

/-- A run is remembered. -/
theorem remembers
    (hsim : ∀ a b, Sized a → Sized b → similarity a b = .ok (value a b))
    (huuid : Function.Injective uuid) {os : List (Observation K ε)}
    (hsized : ∀ o ∈ os, Sized o.embedding) (hclock : os.Pairwise (fun a b => a.now ≤ b.now)) :
    (observeAll similarity uuid new os).Remembers uuid Sized
      (history similarity uuid new os) := by
  induction os using List.reverseRecOn with
  | nil => exact remembers_new
  | append_singleton os o ih =>
    obtain ⟨hearlier, _, hlast⟩ := List.pairwise_append.mp hclock
    have h := ih (fun o ho => hsized o (List.mem_append_left _ ho)) hearlier
    rw [history_concat, observeAll_concat]
    apply h.observe hsim huuid _ (hsized o (by simp))
    intro s hs
    obtain ⟨a, ha, he⟩ := entry_of_history hs
    rw [he]
    exact hlast a ha o (List.mem_singleton_self o)

end Window
end CrossCameraMatcher
end CamTrack
