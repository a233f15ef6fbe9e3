import CamTrack.Proofs.Lifecycle
import CamTrack.Proofs.Spawning

namespace CamTrack
open Python Assignment

variable {K : Type} [Field K] [LinearOrder K]

namespace InferenceWorker
variable [HasSqrt K] {ι : Type} {svc : Services K ι} {w w' : InferenceWorker K}

/-- A frame of the camera in which something is detected with high confidence. -/
def spawns (svc : Services K ι) (cameraId : String) (item : FrameItem) : Bool :=
  item.2.cameraId = cameraId && (detections svc item.2).any ByteTracker.isHighConf

/-- A worker that has processed these frames. -/
abbrev after (svc : Services K ι) (items : List FrameItem) : InferenceWorker K :=
  items.foldl (handled svc) new

/-- The events published for the frame at a position. -/
def publishedAt (svc : Services K ι) (items : List FrameItem) (p : Nat) : List (TrackEvent K) :=
  (after svc (items.take (p + 1))).events.drop (after svc (items.take p)).events.length

/-- The `STrack` a camera's tracker holds under an id when the frames before
position `p` have been processed. It is named by the position of the frame that
it was constructed for, and lives for as long as the id stays in the tracker. -/
def objectAt (svc : Services K ι) (items : List FrameItem) (cameraId trackId : String) :
    Nat → Option Nat
  | 0 => none
  | p + 1 =>
    if trackId ∈ ((after svc (items.take (p + 1))).trackerOf cameraId).tracks.keys then
      some ((objectAt svc items cameraId trackId p).getD p)
    else none

theorem after_succ (svc : Services K ι) (items : List FrameItem) (p : Nat) :
    after svc (items.take (p + 1)) =
      (items[p]?.toList).foldl (handled svc) (after svc (items.take p)) := by
  rw [List.take_add_one, after, List.foldl_append]

omit [HasSqrt K] in
theorem newEvents_tracks (svc : Services K ι) (n : Nat) (tracks : List (Track K)) :
    (newEvents svc n tracks).map TrackEvent.track = tracks := by
  induction tracks generalizing n with
  | nil => rfl
  | cons t ts ih => simp [newEvents, ih]

theorem Handled.trackerOf {item : FrameItem} {tracks : List (Track K)} {tracker : ByteTracker K}
    (h : Handled svc w item tracks tracker w') (cameraId : String) :
    w'.trackerOf cameraId =
      if cameraId = item.2.cameraId then tracker else w.trackerOf cameraId := by
  rw [InferenceWorker.trackerOf, h.trackers, Dict.get?_set]
  split <;> rfl

variable [IsStrictOrderedRing K]

theorem after_sound (hs : Assigns svc.solver) (items : List FrameItem) :
    Sound svc (after svc items) :=
  foldl_sound hs (new_sound svc) items

/-- A frame is an update of its camera's tracker. -/
theorem handled_updated (hs : Assigns svc.solver) (hw : Sound svc w) (item : FrameItem) :
    ∃ a b tracks tracker, Handled svc w item tracks tracker (handled svc w item) ∧
      Updated svc.solver (w.trackerOf item.2.cameraId) (detections svc item.2) item.2.frameId a b
        tracks tracker := by
  obtain ⟨tracks, tracker, _, h, _⟩ := processFrame_ok hs hw item
  obtain ⟨a, b, _, hu⟩ :=
    updated_of_ok hs ((hw.trackerOf item.2.cameraId).wellFormed hs).1 h.update
  exact ⟨a, b, tracks, tracker, h, hu⟩

/-- Issued ids stay issued, and dropped ones stay dropped, whichever frame comes. -/
theorem handled_issued (hs : Assigns svc.solver) (hw : Sound svc w) (item : FrameItem)
    {cameraId k : String} (hi : Issued (w.trackerOf cameraId) k) :
    Issued ((handled svc w item).trackerOf cameraId) k ∧
      (k ∉ (w.trackerOf cameraId).tracks.keys →
        k ∉ ((handled svc w item).trackerOf cameraId).tracks.keys) := by
  obtain ⟨a, b, tracks, tracker, h, hu⟩ := handled_updated hs hw item
  rw [h.trackerOf]
  split
  · rename_i hc
    subst hc
    refine ⟨hu.issued hi, fun hk => ?_⟩
    exact Dict.get?_eq_none.mp (hu.stays_dropped hi (Dict.get?_eq_none.mpr hk))
  · exact ⟨hi, fun hk => hk⟩

/-- What frames preserve holds at later positions too. -/
theorem after_mono (hs : Assigns svc.solver) {P : InferenceWorker K → Prop}
    (hstep : ∀ w item, Sound svc w → P w → P (handled svc w item)) {items : List FrameItem}
    (hpq : p ≤ q) (hp : P (after svc (items.take p))) : P (after svc (items.take q)) := by
  induction q, hpq using Nat.le_induction with
  | base => exact hp
  | succ q _ ih =>
    rw [after_succ]
    cases items[q]? with
    | none => exact ih
    | some item => exact hstep _ item (after_sound hs _) ih

theorem issued_of_mem (hs : Assigns svc.solver) (hw : Sound svc w) {cameraId k : String}
    (hk : k ∈ (w.trackerOf cameraId).tracks.keys) : Issued (w.trackerOf cameraId) k := by
  obtain ⟨hwf, _⟩ := (hw.trackerOf cameraId).wellFormed hs
  obtain ⟨t, ht⟩ := Dict.mem_keys_iff.mp hk
  obtain ⟨_, _, j, _, hj, he⟩ := hwf.issued k t ht
  exact ⟨j, hj, he⟩

/-- An id names one object for as long as the worker lives. -/
theorem objectAt_eq (hs : Assigns svc.solver) {items : List FrameItem} {cameraId k : String}
    (hp : k ∈ ((after svc (items.take (p + 1))).trackerOf cameraId).tracks.keys) (hpq : p ≤ q)
    (hq : k ∈ ((after svc (items.take (q + 1))).trackerOf cameraId).tracks.keys) :
    objectAt svc items cameraId k (q + 1) = objectAt svc items cameraId k (p + 1) := by
  induction q, hpq using Nat.le_induction with
  | base => rfl
  | succ q hpq ih =>
    have hissued : Issued ((after svc (items.take (q + 1))).trackerOf cameraId) k :=
      after_mono hs (P := fun w => Issued (w.trackerOf cameraId) k)
        (fun w item hw hi => (handled_issued hs hw item hi).1) (Nat.add_le_add_right hpq 1)
        (issued_of_mem hs (after_sound hs _) hp)
    have hmid : k ∈ ((after svc (items.take (q + 1))).trackerOf cameraId).tracks.keys := by
      by_contra hn
      rw [after_succ] at hq
      cases hitem : items[q + 1]? with
      | none =>
        rw [hitem] at hq
        exact hn hq
      | some item =>
        rw [hitem] at hq
        exact (handled_issued hs (after_sound hs _) item hissued).2 hn hq
    have hprev := ih hmid
    rw [objectAt, if_pos hq, hprev, objectAt, if_pos hp, Option.getD_some]

/-- A published event shows a track of its camera's tracker. -/
theorem publishedAt_held (hs : Assigns svc.solver) {items : List FrameItem} {event : TrackEvent K}
    (h : event ∈ publishedAt svc items p) :
    event.track.trackId ∈
      ((after svc (items.take (p + 1))).trackerOf event.track.cameraId).tracks.keys := by
  unfold publishedAt at h
  rw [after_succ] at h ⊢
  cases hitem : items[p]? with
  | none =>
    rw [hitem] at h
    simp at h
  | some item =>
    rw [hitem] at h
    simp only [Option.toList_some, List.foldl_cons, List.foldl_nil] at h ⊢
    obtain ⟨a, b, tracks, tracker, hh, hu⟩ := handled_updated hs (after_sound hs _) item
    rw [hh.events, List.drop_left] at h
    have htrack := List.mem_map_of_mem (f := TrackEvent.track) h
    rw [newEvents_tracks, hu.out] at htrack
    obtain ⟨t, ht, he⟩ := List.mem_map.mp htrack
    obtain ⟨⟨k, t⟩, hentry, rfl⟩ := List.mem_map.mp ht
    obtain ⟨hwf, hcam⟩ := ((after_sound hs (items.take p)).trackerOf item.2.cameraId).wellFormed hs
    obtain ⟨hid, hc, _⟩ := (hu.wellFormed hwf).issued k t (Dict.get?_eq_some.mpr hentry)
    rw [← he]
    change t.trackId ∈ ((handled svc _ item).trackerOf t.cameraId).tracks.keys
    rw [hc, hu.cameraId, hcam, hh.trackerOf, if_pos rfl, hid]
    exact List.mem_map_of_mem hentry

/-- Until a frame with a high-confidence detection comes, a camera's tracker is new. -/
theorem after_new (hs : Assigns svc.solver) (items : List FrameItem) (cameraId : String)
    (hquiet : ∀ item ∈ items, spawns svc cameraId item = false) :
    (after svc items).trackerOf cameraId = newTracker cameraId := by
  induction items using List.reverseRecOn with
  | nil => rfl
  | append_singleton items item ih =>
    have hprev := ih (fun other ho => hquiet other (List.mem_append_left _ ho))
    rw [after, List.foldl_append]
    obtain ⟨a, b, tracks, tracker, h, hu⟩ := handled_updated hs (after_sound hs items) item
    rw [List.foldl_cons, List.foldl_nil, h.trackerOf]
    split
    · rename_i hc
      subst hc
      have hlow : ∀ d ∈ detections svc item.2, ByteTracker.isHighConf d = false := by
        simpa [spawns] using hquiet item (List.mem_append_right _ List.mem_cons_self)
      rw [hprev] at hu
      exact ((hu.inert_iff (newTracker_wellFormed _)).mpr ⟨rfl, hlow⟩).1
    · exact hprev

theorem spawns_of_published (hs : Assigns svc.solver) {items : List FrameItem}
    {event : TrackEvent K} (h : event ∈ publishedAt svc items p) :
    items.any (spawns svc event.track.cameraId) = true := by
  by_contra hn
  have hquiet : ∀ item ∈ items, spawns svc event.track.cameraId item = false := by
    simpa using hn
  have hheld := publishedAt_held hs h
  rw [after_new hs _ _ (fun item hi => hquiet item (List.mem_of_mem_take hi))] at hheld
  exact absurd hheld (by simp [newTracker])

/-- The first frame with a high-confidence detection starts the camera's track 1. -/
theorem published_of_spawns (hs : Assigns svc.solver) {items : List FrameItem} {cameraId : String}
    (h : items.any (spawns svc cameraId) = true) :
    ∃ p, ∃ event ∈ publishedAt svc items p, event.track.cameraId = cameraId ∧
      event.track.trackId = formatTrackId cameraId 1 := by
  obtain ⟨item, hfind⟩ :=
    Option.isSome_iff_exists.mp (List.find?_isSome.mpr (List.any_eq_true.mp h))
  obtain ⟨hspawns, before, rest, rfl, hquiet⟩ := List.find?_eq_some_iff_append.mp hfind
  obtain ⟨hcam, hhigh⟩ : item.2.cameraId = cameraId ∧
      ∃ d ∈ detections svc item.2, ByteTracker.isHighConf d = true := by
    simpa [spawns] using hspawns
  subst hcam
  obtain ⟨a, b, tracks, tracker, hh, hu⟩ := handled_updated hs (after_sound hs before) item
  have hnew := after_new hs before item.2.cameraId
    (fun other ho => by simpa using hquiet other ho)
  rw [hnew] at hu
  obtain ⟨d, ds, hds⟩ : ∃ d ds,
      (detections svc item.2).filter ByteTracker.isHighConf = d :: ds := by
    obtain ⟨d, hd, hdh⟩ := hhigh
    exact List.exists_cons_of_ne_nil
      (List.ne_nil_of_mem (List.mem_filter.mpr ⟨hd, hdh⟩))
  have hentries := hu.entries_of_empty rfl
  rw [hu.spawned_of_empty rfl, hds] at hentries
  have htrack : STrack.toTrack item.2.frameId
      (.init (formatTrackId item.2.cameraId 1) item.2.cameraId d) ∈ tracks := by
    rw [hu.out, Dict.values, hentries]
    exact List.mem_cons_self
  have hpub : publishedAt svc (before ++ item :: rest) before.length =
      newEvents svc (after svc before).constructed tracks := by
    have hitem : (before ++ item :: rest)[before.length]? = some item := by simp
    rw [publishedAt, after_succ, hitem, List.take_left, Option.toList_some, List.foldl_cons,
      List.foldl_nil, hh.events, List.drop_left]
  rw [← newEvents_tracks svc (after svc before).constructed tracks] at htrack
  obtain ⟨event, hev, he⟩ := List.mem_map.mp htrack
  refine ⟨before.length, event, by rw [hpub]; exact hev, ?_, ?_⟩
  · rw [he]
    rfl
  · rw [he]
    rfl

/-- Every event a worker publishes, it publishes for one of its frames. -/
theorem events_eq (hs : Assigns svc.solver) (items : List FrameItem) :
    (after svc items).events = (List.range items.length).flatMap (publishedAt svc items) := by
  have main : ∀ n, n ≤ items.length →
      (after svc (items.take n)).events = (List.range n).flatMap (publishedAt svc items) := by
    intro n
    induction n with
    | zero => intro _; rfl
    | succ n ih =>
      intro hn
      rw [List.range_succ, List.flatMap_append, ← ih (by omega)]
      simp only [List.flatMap_cons, List.flatMap_nil, List.append_nil, publishedAt]
      rw [after_succ, List.getElem?_eq_getElem (by omega)]
      obtain ⟨_, _, _, _, hh, _⟩ := handled_updated hs (after_sound hs (items.take n)) items[n]
      rw [Option.toList_some, List.foldl_cons, List.foldl_nil, hh.events, List.drop_left]
  have := main items.length le_rfl
  rwa [List.take_length] at this

end InferenceWorker
end CamTrack
