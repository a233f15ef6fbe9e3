import CamTrack.Proofs.Fleet

namespace CamTrack
open Python Machine Assignment Positions

variable {K : Type} [Field K] [LinearOrder K]

section Ids

theorem minus_not_digit (n : Nat) : '-' ∉ (Nat.repr n).toList := by
  intro h
  rw [Nat.toList_repr] at h
  have hd := Nat.isDigit_of_mem_toDigits (by decide) (by decide) h
  exact absurd hd (by decide)

/-- Two lists are split alike at the last place that holds `a`. -/
theorem append_cons_last {a : α} {xs xs' ys ys' : List α} (h : xs ++ a :: ys = xs' ++ a :: ys')
    (hy : a ∉ ys) (hy' : a ∉ ys') : xs = xs' ∧ ys = ys' := by
  rcases List.append_eq_append_iff.mp h with ⟨zs, rfl, hz⟩ | ⟨zs, rfl, hz⟩
  · cases zs with
    | nil => simpa using hz
    | cons z zs =>
      obtain ⟨-, rfl⟩ := List.cons.inj hz
      exact absurd (List.mem_append_right zs List.mem_cons_self) hy
  · cases zs with
    | nil => simpa using hz.symm
    | cons z zs =>
      obtain ⟨-, rfl⟩ := List.cons.inj hz
      exact absurd (List.mem_append_right zs List.mem_cons_self) hy'

/-- A counter has no minus sign, so the last one in an id ends the camera's name. -/
theorem formatTrackId_injective (h : formatTrackId cameraId i = formatTrackId cameraId' j) :
    cameraId = cameraId' ∧ i = j := by
  have hlist := congrArg String.toList h
  simp only [formatTrackId, String.toList_append, List.append_assoc] at hlist
  obtain ⟨hcamera, hcounter⟩ := append_cons_last hlist (minus_not_digit i) (minus_not_digit j)
  exact ⟨String.toList_inj.mp hcamera, Nat.repr_injective (String.toList_inj.mp hcounter)⟩

end Ids

/-- Two states of a track with the same id, camera and class. -/
structure SameIdentity (t u : STrack K) : Prop where
  trackId : t.trackId = u.trackId
  cameraId : t.cameraId = u.cameraId
  classId : t.classId = u.classId
  className : t.className = u.className

theorem SameIdentity.trans {t u v : STrack K} (h : SameIdentity t u) (h' : SameIdentity u v) :
    SameIdentity t v :=
  ⟨h.trackId.trans h'.trackId, h.cameraId.trans h'.cameraId, h.classId.trans h'.classId,
    h.className.trans h'.className⟩

/-- Neither a prediction nor a match nor a miss rewrites what identifies a track. -/
theorem settle_sameIdentity (pairs : List (String × Detection K)) (k : String) (t : STrack K) :
    SameIdentity (settle pairs k t) t := by
  unfold settle
  split <;> exact ⟨rfl, rfl, rfl, rfl⟩

section Created
variable [HasSqrt K]

/-- The tracks that a call of `update` constructs. -/
def ByteTracker.created (solver : LinearSumAssignment K) (self : ByteTracker K)
    (detections : List (Detection K)) : List (STrack K) :=
  match associate solver self detections with
  | .ok (_, b) => (newTracks self.cameraId self.idAllocator.counter b.spawned).map Prod.snd
  | .error _ => []

/-- The tracks that a call of `update` returns. -/
def ByteTracker.returned (solver : LinearSumAssignment K) (self : ByteTracker K)
    (detections : List (Detection K)) (frameId : String) : List (Track K) :=
  match update solver self detections frameId with
  | .ok (tracks, _) => tracks
  | .error _ => []

variable {solver : LinearSumAssignment K} {st st' : ByteTracker K} {ds : List (Detection K)}
  {a : ByteTracker.TwoStages K} {b : ByteTracker.ThreeStages K} {out : List (Track K)}

/-- New tracks are started by detections of the frame. -/
theorem Updated.spawned_subset (h : Updated solver st ds frameId a b out st') :
    ∀ d ∈ b.spawned, d ∈ ds := by
  intro d hd
  obtain ⟨i, _, hi⟩ := mem_pick.mp hd
  have hleft := List.mem_of_getElem? hi
  rw [h.third.leftover] at hleft
  obtain ⟨j, _, hj⟩ := mem_pick.mp hleft
  have hhigh := List.mem_of_getElem? hj
  rw [h.first.highConf] at hhigh
  exact List.mem_of_mem_filter hhigh

omit [HasSqrt K] in
theorem newTracks_ids (cameraId : String) (n : Nat) (ds : List (Detection K)) :
    ((newTracks cameraId n ds).map Prod.snd).map STrack.trackId =
      (List.range' (n + 1) ds.length).map (formatTrackId cameraId) := by
  induction ds generalizing n with
  | nil => rfl
  | cons d ds ih => simp [newTracks, ih, List.range'_succ, STrack.init]

end Created

namespace InferenceWorker
variable [HasSqrt K] {ι : Type} {svc : Services K ι} {w : InferenceWorker K}

/-- The tracks that the worker's update for a frame constructs, and those it returns. -/
def createdBy (svc : Services K ι) (w : InferenceWorker K) (item : FrameItem) : List (STrack K) :=
  (w.trackerOf item.2.cameraId).created svc.solver (detections svc item.2)

def returnedBy (svc : Services K ι) (w : InferenceWorker K) (item : FrameItem) : List (Track K) :=
  (w.trackerOf item.2.cameraId).returned svc.solver (detections svc item.2) item.2.frameId

/-- What the frame at a position yields, from the worker that the frames before it
have left. -/
def yieldAt (svc : Services K ι) (g : InferenceWorker K → FrameItem → List β)
    (items : List FrameItem) (p : Nat) : List β :=
  (items[p]?.toList).flatMap (g (after svc (items.take p)))

/-- What the frames yield, one after the other. -/
def yields (svc : Services K ι) (g : InferenceWorker K → FrameItem → List β)
    (items : List FrameItem) : List β :=
  (List.range items.length).flatMap (yieldAt svc g items)

theorem yieldAt_append (g : InferenceWorker K → FrameItem → List β) {items : List FrameItem}
    (hp : p < items.length) (rest : List FrameItem) :
    yieldAt svc g (items ++ rest) p = yieldAt svc g items p := by
  rw [yieldAt, yieldAt, List.getElem?_append_left hp, List.take_append_of_le_length hp.le]

theorem yields_concat (g : InferenceWorker K → FrameItem → List β) (items : List FrameItem)
    (item : FrameItem) :
    yields svc g (items ++ [item]) = yields svc g items ++ g (after svc items) item := by
  have hold : (List.range items.length).flatMap (yieldAt svc g (items ++ [item])) =
      yields svc g items := by
    rw [yields, List.flatMap_def, List.flatMap_def]
    congr 1
    apply List.map_congr_left
    intro p hp
    exact yieldAt_append g (List.mem_range.mp hp) [item]
  rw [yields, List.length_append, List.length_singleton, List.range_succ, List.flatMap_append, hold]
  simp [yieldAt]

theorem mem_yields {g : InferenceWorker K → FrameItem → List β} {items : List FrameItem} {x : β} :
    x ∈ yields svc g items ↔ ∃ p, x ∈ yieldAt svc g items p := by
  rw [yields, List.mem_flatMap]
  constructor
  · intro hx
    obtain ⟨p, _, hp⟩ := hx
    exact ⟨p, hp⟩
  · intro hx
    obtain ⟨p, hp⟩ := hx
    refine ⟨p, List.mem_range.mpr ?_, hp⟩
    by_contra hlen
    have hnone : items[p]? = none := List.getElem?_eq_none (by omega)
    simp [yieldAt, hnone] at hp

abbrev createdAt (svc : Services K ι) (items : List FrameItem) (p : Nat) : List (STrack K) :=
  yieldAt svc (createdBy svc) items p

abbrev returnedAt (svc : Services K ι) (items : List FrameItem) (p : Nat) : List (Track K) :=
  yieldAt svc (returnedBy svc) items p

/-- The camera of the frame at a position. -/
def cameraAt (items : List FrameItem) (p : Nat) : Option String :=
  items[p]?.map (fun item => item.2.cameraId)

/-- The detector puts the ids it is given on what it finds, as both backends do. -/
def Labelled (svc : Services K ι) : Prop :=
  ∀ frameId cameraId image, ∀ d ∈ svc.detect frameId cameraId image,
    d.frameId = frameId ∧ d.cameraId = cameraId

/-- What a backend reads off an image: a box with its class and score. -/
structure Finding (K : Type) [Field K] [LinearOrder K] where
  box : BoundingBox K
  classId : Int
  className : String
  confidence : Confidence K

/-- `Detection(frame_id=frame_id, camera_id=camera_id, ...)`. -/
def Finding.detection (frameId cameraId : String) (f : Finding K) : Detection K :=
  { frameId := frameId, cameraId := cameraId, box := f.box, classId := f.classId
    className := f.className, confidence := f.confidence }

omit [HasSqrt K] in
theorem findings_labelled (svc : Services K ι) (find : ι → List (Finding K)) :
    Labelled { svc with
      detect := fun frameId cameraId image =>
        (find image).map (Finding.detection frameId cameraId) } := by
  intro frameId cameraId image d hd
  obtain ⟨f, _, rfl⟩ := List.mem_map.mp hd
  exact ⟨rfl, rfl⟩

variable [IsStrictOrderedRing K]

/-- One frame of a worker, with what its update constructs and returns. -/
theorem handled_yields (hs : Assigns svc.solver) (hw : Sound svc w) (item : FrameItem) :
    ∃ a b tracker,
      Handled svc w item (returnedBy svc w item) tracker (handled svc w item) ∧
      Updated svc.solver (w.trackerOf item.2.cameraId) (detections svc item.2) item.2.frameId a b
        (returnedBy svc w item) tracker ∧
      createdBy svc w item = (newTracks item.2.cameraId
        (w.trackerOf item.2.cameraId).idAllocator.counter b.spawned).map Prod.snd := by
  obtain ⟨tracks, tracker, _, h, _⟩ := processFrame_ok hs hw item
  obtain ⟨hwf, hcam⟩ := (hw.trackerOf item.2.cameraId).wellFormed hs
  obtain ⟨a, b, ha, hu⟩ := updated_of_ok hs hwf h.update
  have hreturned : returnedBy svc w item = tracks := by
    rw [returnedBy, ByteTracker.returned, h.update]
  refine ⟨a, b, tracker, hreturned.symm ▸ h, hreturned.symm ▸ hu, ?_⟩
  rw [createdBy, ByteTracker.created, ha, hcam]

/-- How often a camera's tracker has allocated an id. -/
def issuedCount (w : InferenceWorker K) (cameraId : String) : Nat :=
  (w.trackerOf cameraId).idAllocator.counter

/-- What is known of the tracks that the frames so far have constructed: they have
different ids, issued by the allocators of their cameras, and every track in a
tracker is still the one that was constructed under its id. -/
structure Logged (svc : Services K ι) (items : List FrameItem) : Prop where
  issued : ∀ u ∈ yields svc (createdBy svc) items,
    ∃ cameraId j, j ≤ issuedCount (after svc items) cameraId ∧
      u.trackId = formatTrackId cameraId j
  nodup : ((yields svc (createdBy svc) items).map STrack.trackId).Nodup
  held : ∀ cameraId k t, ((after svc items).trackerOf cameraId).tracks.get? k = some t →
    ∃ u ∈ yields svc (createdBy svc) items, u.trackId = k ∧ SameIdentity t u

omit [IsStrictOrderedRing K] in
theorem nil_logged (svc : Services K ι) : Logged svc ([] : List FrameItem) := by
  refine ⟨fun u hu => ?_, List.nodup_nil, fun cameraId k t ht => ?_⟩
  · simp [yields] at hu
  · simp [after, trackerOf, new, newTracker] at ht

theorem Logged.concat (hs : Assigns svc.solver) {items : List FrameItem} (h : Logged svc items)
    (item : FrameItem) : Logged svc (items ++ [item]) := by
  obtain ⟨a, b, tracker, hh, hu, hcreated⟩ := handled_yields hs (after_sound hs items) item
  have hafter : after svc (items ++ [item]) = handled svc (after svc items) item := by
    rw [after, List.foldl_append, List.foldl_cons, List.foldl_nil]
  have hwf := ((after_sound hs items).trackerOf item.2.cameraId).wellFormed hs
  have hcount : ∀ cameraId, issuedCount (after svc (items ++ [item])) cameraId =
      issuedCount (after svc items) cameraId +
        if cameraId = item.2.cameraId then b.spawned.length else 0 := by
    intro cameraId
    rw [issuedCount, hafter, hh.trackerOf]
    split
    · rename_i hc
      rw [hu.idAllocator, hc, issuedCount]
    · rfl
  have hids : (createdBy svc (after svc items) item).map STrack.trackId =
      (List.range' (issuedCount (after svc items) item.2.cameraId + 1) b.spawned.length).map
        (formatTrackId item.2.cameraId) := by
    rw [hcreated, newTracks_ids, issuedCount]
  have hnew : ∀ u ∈ createdBy svc (after svc items) item, ∃ j,
      issuedCount (after svc items) item.2.cameraId < j ∧
      j ≤ issuedCount (after svc items) item.2.cameraId + b.spawned.length ∧
      u.trackId = formatTrackId item.2.cameraId j := by
    intro u hmem
    have hid := List.mem_map_of_mem (f := STrack.trackId) hmem
    rw [hids] at hid
    obtain ⟨j, hj, he⟩ := List.mem_map.mp hid
    rw [List.mem_range'_1] at hj
    exact ⟨j, by omega, by omega, he.symm⟩
  refine ⟨?_, ?_, ?_⟩
  · intro u hmem
    rw [yields_concat] at hmem
    rcases List.mem_append.mp hmem with hold | hmem
    · obtain ⟨cameraId, j, hj, he⟩ := h.issued u hold
      exact ⟨cameraId, j, by rw [hcount]; omega, he⟩
    · obtain ⟨j, _, hj, he⟩ := hnew u hmem
      exact ⟨item.2.cameraId, j, by rw [hcount, if_pos rfl]; exact hj, he⟩
  · rw [yields_concat, List.map_append]
    apply List.Nodup.append h.nodup
    · rw [hids]
      exact (List.nodup_range' ..).map (fun _ _ he => formatTrackId_inj he)
    · intro k hk hk'
      obtain ⟨u, hold, rfl⟩ := List.mem_map.mp hk
      obtain ⟨v, hmem, hid⟩ := List.mem_map.mp hk'
      obtain ⟨cameraId, i, hi, he⟩ := h.issued u hold
      obtain ⟨j, hj, _, he'⟩ := hnew v hmem
      obtain ⟨rfl, rfl⟩ := formatTrackId_injective (he'.symm.trans (hid.trans he))
      omega
  · intro cameraId k t ht
    rw [hafter, hh.trackerOf] at ht
    rw [yields_concat]
    split at ht
    · cases hk : ((after svc items).trackerOf item.2.cameraId).tracks.get? k with
      | some t₀ =>
        obtain ⟨u, hmem, hid, hsame⟩ := h.held _ k t₀ hk
        rw [hu.get?_old hwf.1 hk] at ht
        split at ht
        · cases ht
        · cases ht
          exact ⟨u, List.mem_append_left _ hmem, hid,
            (settle_sameIdentity _ k t₀).trans hsame⟩
      | none =>
        have hentry := (hu.get?_new hk).mp ht
        rw [hwf.2] at hentry
        obtain ⟨_, d, _, _, hinit⟩ := mem_newTracks hentry
        refine ⟨t, List.mem_append_right _ ?_, ?_, rfl, rfl, rfl, rfl⟩
        · rw [hcreated]
          exact List.mem_map_of_mem hentry
        · rw [hinit]
          rfl
    · obtain ⟨u, hmem, hid, hsame⟩ := h.held cameraId k t ht
      exact ⟨u, List.mem_append_left _ hmem, hid, hsame⟩

theorem logged (hs : Assigns svc.solver) (items : List FrameItem) : Logged svc items := by
  induction items using List.reverseRecOn with
  | nil => exact nil_logged svc
  | append_singleton items item ih => exact ih.concat hs item

omit [IsStrictOrderedRing K] in
theorem yields_take (g : InferenceWorker K → FrameItem → List β) {items : List FrameItem}
    {x : β} (h : x ∈ yields svc g (items.take n)) : ∃ p < n, x ∈ yieldAt svc g items p := by
  obtain ⟨p, hp⟩ := mem_yields.mp h
  have hlt : p < (items.take n).length := by
    by_contra hlen
    have hnone : (items.take n)[p]? = none := List.getElem?_eq_none (by omega)
    simp [yieldAt, hnone] at hp
  have happ : yieldAt svc g (items.take n ++ items.drop n) p = yieldAt svc g (items.take n) p :=
    yieldAt_append g hlt (items.drop n)
  rw [List.take_append_drop] at happ
  rw [List.length_take] at hlt
  exact ⟨p, by omega, happ ▸ hp⟩

/-- What an update returns is what its camera's tracker then holds. -/
theorem returnedAt_held (hs : Assigns svc.solver) {items : List FrameItem} {item : FrameItem}
    (hitem : items[p]? = some item) :
    returnedAt svc items p = ((after svc (items.take (p + 1))).trackerOf
      item.2.cameraId).tracks.values.map (STrack.toTrack item.2.frameId) := by
  obtain ⟨_, _, _, hh, hu, _⟩ := handled_yields hs (after_sound hs (items.take p)) item
  rw [after_succ, returnedAt, yieldAt, hitem]
  simp only [Option.toList_some, List.flatMap_cons, List.flatMap_nil, List.append_nil,
    List.foldl_cons, List.foldl_nil]
  rw [hh.trackerOf, if_pos rfl]
  exact hu.out

theorem returnedAt_ids (hs : Assigns svc.solver) {items : List FrameItem}
    (hcam : cameraAt items p = some cameraId) :
    (returnedAt svc items p).map Track.trackId =
      ((after svc (items.take (p + 1))).trackerOf cameraId).tracks.keys := by
  obtain ⟨item, hitem, rfl⟩ := Option.map_eq_some_iff.mp hcam
  obtain ⟨hwf, _⟩ := ((after_sound hs (items.take (p + 1))).trackerOf item.2.cameraId).wellFormed hs
  rw [returnedAt_held hs hitem, List.map_map, Dict.values, List.map_map, Dict.keys]
  apply List.map_congr_left
  intro entry he
  exact (hwf.issued entry.1 entry.2 (Dict.get?_eq_some.mpr he)).1

/-- Between two updates that return an id every update of the camera returns it. -/
theorem returned_between (hs : Assigns svc.solver) {items : List FrameItem} {cameraId k : String}
    (hpq : p ≤ q) (hqr : q ≤ r) (hp : cameraAt items p = some cameraId)
    (hq : cameraAt items q = some cameraId) (hr : cameraAt items r = some cameraId)
    (hkp : k ∈ (returnedAt svc items p).map Track.trackId)
    (hkr : k ∈ (returnedAt svc items r).map Track.trackId) :
    k ∈ (returnedAt svc items q).map Track.trackId := by
  rw [returnedAt_ids hs hp] at hkp
  rw [returnedAt_ids hs hr] at hkr
  rw [returnedAt_ids hs hq]
  by_contra hdropped
  have hissued : Issued ((after svc (items.take (q + 1))).trackerOf cameraId) k :=
    after_mono hs (P := fun w => Issued (w.trackerOf cameraId) k)
      (fun w item hw hi => (handled_issued hs hw item hi).1) (Nat.add_le_add_right hpq 1)
      (issued_of_mem hs (after_sound hs _) hkp)
  have hgone := after_mono hs
    (P := fun w => Issued (w.trackerOf cameraId) k ∧ k ∉ (w.trackerOf cameraId).tracks.keys)
    (fun w item hw hi => ⟨(handled_issued hs hw item hi.1).1,
      (handled_issued hs hw item hi.1).2 hi.2⟩)
    (Nat.add_le_add_right hqr 1) ⟨hissued, hdropped⟩
  exact hgone.2 hkr

/-- A track is constructed by a detection of the frame, for the frame's camera. -/
theorem createdAt_init (hs : Assigns svc.solver) {items : List FrameItem} {u : STrack K}
    (h : u ∈ createdAt svc items p) : ∃ item d, items[p]? = some item ∧
      d ∈ detections svc item.2 ∧ u = STrack.init u.trackId item.2.cameraId d := by
  obtain ⟨item, hitem, hmem⟩ := List.mem_flatMap.mp h
  obtain ⟨_, _, _, _, hu, hcreated⟩ := handled_yields hs (after_sound hs (items.take p)) item
  rw [hcreated] at hmem
  obtain ⟨entry, hentry, rfl⟩ := List.mem_map.mp hmem
  obtain ⟨_, d, hd, _, hinit⟩ := mem_newTracks (k := entry.1) (t := entry.2) hentry
  refine ⟨item, d, by simpa using hitem, hu.spawned_subset d (List.mem_of_getElem? hd), ?_⟩
  rw [hinit]
  rfl

/-- A returned track shows the identity of the one constructed under its id. -/
theorem returnedAt_created (hs : Assigns svc.solver) {items : List FrameItem} {track : Track K}
    (h : track ∈ returnedAt svc items q) : ∃ p ≤ q, ∃ u ∈ createdAt svc items p,
      track.trackId = u.trackId ∧ track.cameraId = u.cameraId ∧ track.classId = u.classId ∧
      track.className = u.className := by
  obtain ⟨item, hitem, _⟩ := List.mem_flatMap.mp h
  rw [returnedAt_held hs (by simpa using hitem)] at h
  obtain ⟨t, ht, rfl⟩ := List.mem_map.mp h
  obtain ⟨⟨k, t⟩, hentry, rfl⟩ := List.mem_map.mp ht
  obtain ⟨u, hmem, _, hsame⟩ :=
    (logged hs (items.take (q + 1))).held _ k t (Dict.get?_eq_some.mpr hentry)
  obtain ⟨p, hp, hat⟩ := yields_take _ hmem
  exact ⟨p, by omega, u, hat, hsame.trackId, hsame.cameraId, hsame.classId, hsame.className⟩

omit [HasSqrt K] [IsStrictOrderedRing K] in
theorem detections_labelled (hl : Labelled svc) {frame : RawFrame} {d : Detection K}
    (h : d ∈ detections svc frame) : d.cameraId = frame.cameraId := by
  unfold detections at h
  split at h
  · exact (hl _ _ _ d h).2
  · cases h

/-- Worker and frames of a run: what is published is what the updates have returned. -/
theorem events_returned (hs : Assigns svc.solver) (items : List FrameItem) :
    (after svc items).events.map TrackEvent.track = yields svc (returnedBy svc) items := by
  induction items using List.reverseRecOn with
  | nil => rfl
  | append_singleton items item ih =>
    obtain ⟨_, _, _, hh, _, _⟩ := handled_yields hs (after_sound hs items) item
    rw [yields_concat, ← ih, after, List.foldl_append, List.foldl_cons, List.foldl_nil, hh.events,
      List.map_append, newEvents_tracks]

/-- In a run of a worker no id is given to two tracks, the updates of a camera that
return an id follow on each other, and a returned track shows the camera and class of
the detection that it was constructed for. -/
theorem track_identity_permanent [Rounding K] {cfg : BatcherConfig} {s : Batching K}
    (hs : Assigns svc.solver)
    (h : Run (DynamicBatcher.step cfg (onBatch svc)) (DynamicBatcher.start new) actions s) :
    let items := processed svc s
    s.owner.events.map TrackEvent.track =
      (List.range items.length).flatMap (returnedAt svc items) ∧
    (((List.range items.length).flatMap (createdAt svc items)).map STrack.trackId).Nodup ∧
    (∀ cameraId k p q r, p ≤ q → q ≤ r → cameraAt items p = some cameraId →
      cameraAt items q = some cameraId → cameraAt items r = some cameraId →
      k ∈ (returnedAt svc items p).map Track.trackId →
      k ∈ (returnedAt svc items r).map Track.trackId →
      k ∈ (returnedAt svc items q).map Track.trackId) ∧
    (∀ q, ∀ track ∈ returnedAt svc items q, ∃ p ≤ q, ∃ item d, items[p]? = some item ∧
      d ∈ detections svc item.2 ∧
      STrack.init track.trackId item.2.cameraId d ∈ createdAt svc items p ∧
      track.cameraId = item.2.cameraId ∧ (Labelled svc → track.cameraId = d.cameraId) ∧
      track.classId = d.classId ∧ track.className = d.className) ∧
    ∀ q q', ∀ track ∈ returnedAt svc items q, ∀ track' ∈ returnedAt svc items q',
      track.trackId = track'.trackId → track.cameraId = track'.cameraId ∧
        track.classId = track'.classId ∧ track.className = track'.className := by
  intro items
  have hnodup := (logged hs items).nodup
  refine ⟨?_, hnodup, ?_, ?_, ?_⟩
  · rw [owner_eq_after hs h, events_returned hs]
    rfl
  · intro cameraId k p q r hpq hqr hp hq hr hkp hkr
    exact returned_between hs hpq hqr hp hq hr hkp hkr
  · intro q track ht
    obtain ⟨p, hp, u, hu, hid, hcam, hcls, hname⟩ := returnedAt_created hs ht
    obtain ⟨item, d, hitem, hd, hinit⟩ := createdAt_init hs hu
    have hcamera : track.cameraId = item.2.cameraId := by
      rw [hcam, hinit]
      rfl
    refine ⟨p, hp, item, d, hitem, hd, ?_, hcamera, fun hl => ?_, ?_, ?_⟩
    · rw [hid, ← hinit]
      exact hu
    · rw [hcamera, detections_labelled hl hd]
    · rw [hcls, hinit]
      rfl
    · rw [hname, hinit]
      rfl
  · intro q q' track ht track' ht' hid
    obtain ⟨p, _, u, hu, hi, hc, hcls, hname⟩ := returnedAt_created hs ht
    obtain ⟨p', _, u', hu', hi', hc', hcls', hname'⟩ := returnedAt_created hs ht'
    have hsame : u = u' := by
      apply List.inj_on_of_nodup_map hnodup (mem_yields.mpr ⟨p, hu⟩) (mem_yields.mpr ⟨p', hu'⟩)
      rw [← hi, ← hi', hid]
    rw [hc, hc', hcls, hcls', hname, hname', hsame]
    exact ⟨rfl, rfl, rfl⟩

section Runs

/-- A camera, and another whose name is the id of a track of the first. -/
def likeNamedCameras : List FrameItem :=
  [("1-0", squareFrame "f1" "file://f1.jpg"), ("2-0", ⟨"f2", "cam-1-1", "file://f2.jpg", 0⟩)]

def clearFinding : Finding ℚ :=
  ⟨clearSquare.box, clearSquare.classId, clearSquare.className, clearSquare.confidence⟩

/-- The square deployment, where the detector puts the ids it is given on the square. -/
def labelledServices : Services ℚ Unit :=
  { squareServices with
    detect := fun frameId cameraId image => ((fun _ => [clearFinding]) image).map
      (Finding.detection frameId cameraId) }

/-- The first track of each has an id of its own, and the camera of its detection. -/
theorem track_ids_differ_like_named :
    ∃ actions, Run (DynamicBatcher.step singleConfig (onBatch labelledServices))
        (DynamicBatcher.start new) actions (waiting labelledServices likeNamedCameras) ∧
      (((List.range 2).flatMap (createdAt labelledServices likeNamedCameras)).map
        STrack.trackId).Nodup ∧
      ∀ q, ∀ track ∈ returnedAt labelledServices likeNamedCameras q,
        ∃ item ∈ likeNamedCameras, ∃ d ∈ detections labelledServices item.2,
          track.cameraId = d.cameraId := by
  have hload : ∀ item ∈ likeNamedCameras, loadable labelledServices item = true := by decide
  have hassigns : Assigns labelledServices.solver := squareServices_assigns
  obtain ⟨actions, hrun⟩ := waiting_run hassigns hload
  have hprocessed : processed labelledServices (waiting labelledServices likeNamedCameras) =
      likeNamedCameras := by decide
  obtain ⟨_, hids, _, hcreated, _⟩ := track_identity_permanent hassigns hrun
  rw [hprocessed] at hids hcreated
  refine ⟨actions, hrun, hids, fun q track ht => ?_⟩
  obtain ⟨_, _, item, d, hitem, hd, _, _, hcamera, _⟩ := hcreated q track ht
  exact ⟨item, List.mem_of_getElem? hitem, d, hd, hcamera (findings_labelled squareServices _)⟩

end Runs

end InferenceWorker
end CamTrack
