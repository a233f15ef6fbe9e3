import CamTrack.Proofs.Update

namespace CamTrack
open Python

variable {K : Type} [Field K] [LinearOrder K]

/-! Maps of tracks and detections that every step of the tracker commutes with. -/

theorem index_map (f : α → β) (xs : List α) (i : Nat) :
    index (xs.map f) i = (index xs i).map f := by
  unfold index
  rw [List.getElem?_map]
  cases xs[i]? <;> rfl

/-- A computation on mapped data, one bind at a time. -/
theorem map_bind {x : Except ε α} {x' : Except ε α'} {f : α → α'} {g : β → β'}
    {k : α → Except ε β} {k' : α' → Except ε β'} (hx : x' = x.map f)
    (hk : ∀ a, k' (f a) = (k a).map g) : x' >>= k' = (x >>= k).map g := by
  subst hx
  cases x with
  | error e => rfl
  | ok a => exact hk a

theorem except_map_id (x : Except ε α) : x = x.map id := by
  cases x <;> rfl

theorem mapM_eq_map {f : α → Except ε β} {f' : α → Except ε β'} {g : β → β'}
    (h : ∀ a, f' a = (f a).map g) (xs : List α) : xs.mapM f' = (xs.mapM f).map (List.map g) := by
  induction xs with
  | nil => rfl
  | cons x xs ih =>
    rw [List.mapM_cons, List.mapM_cons]
    exact map_bind (h x) (fun y => map_bind ih (fun ys => rfl))

theorem foldlM_eq_map {f : σ → α → Except ε σ} {f' : σ' → α → Except ε σ'} {g : σ → σ'}
    (h : ∀ s a, f' (g s) a = (f s a).map g) (xs : List α) (s : σ) :
    xs.foldlM f' (g s) = (xs.foldlM f s).map g := by
  induction xs generalizing s with
  | nil => rfl
  | cons x xs ih =>
    rw [List.foldlM_cons, List.foldlM_cons]
    exact map_bind (h s x) ih

section Dicts
variable {κ υ υ' : Type} (d : Dict κ υ) (f : υ → υ')

theorem values_mapValues : (d.mapValues (fun _ => f)).values = d.values.map f := by
  simp [Dict.values, Dict.mapValues]

variable [DecidableEq κ]

theorem getItem_mapValues (k : κ) :
    (d.mapValues (fun _ => f)).getItem k = (d.getItem k).map f := by
  simp only [Dict.getItem, Dict.get?_mapValues]
  cases d.get? k <;> rfl

theorem set_mapValues (k : κ) (v : υ) :
    (d.mapValues (fun _ => f)).set k (f v) = (d.set k v).mapValues (fun _ => f) := by
  by_cases hk : k ∈ d.keys
  · apply Dict.ext_get?
    · rw [Dict.keys_set_of_mem (by simpa using hk), Dict.keys_mapValues, Dict.keys_mapValues,
        Dict.keys_set_of_mem hk]
    · intro j _
      simp only [Dict.get?_set, Dict.get?_mapValues]
      split <;> rfl
  · apply Dict.ext_entries
    rw [Dict.entries_set_of_not_mem (by simpa using hk)]
    simp [Dict.mapValues, Dict.entries_set_of_not_mem hk]

theorem erase_mapValues (k : κ) :
    (d.mapValues (fun _ => f)).erase k = (d.erase k).mapValues (fun _ => f) := by
  apply Dict.ext_entries
  simp [Dict.erase, Dict.filter, Dict.mapValues, List.filter_map, Function.comp_def]

end Dicts

variable [HasSqrt K]

/-- A map of tracks, detections and results under which a tracker cannot tell
the two sides apart. -/
structure Symmetry (K : Type) [Field K] [LinearOrder K] [HasSqrt K] where
  track : STrack K → STrack K
  detection : Detection K → Detection K
  result : Track K → Track K
  predict : ∀ t, (track t).predict = track t.predict
  markMatched : ∀ t d, (track t).markMatched (detection d) = (t.markMatched d).map track
  markUnmatched : ∀ t, (track t).markUnmatched = track t.markUnmatched
  init : ∀ k cameraId d, STrack.init k cameraId (detection d) = track (.init k cameraId d)
  toTrack : ∀ frameId t, (track t).toTrack frameId = result (t.toTrack frameId)
  state : ∀ t, (track t).state = t.state
  timeSinceUpdate : ∀ t, (track t).timeSinceUpdate = t.timeSinceUpdate
  confidence : ∀ d, (detection d).confidence = d.confidence
  iou : ∀ t d, CamTrack.iou (track t).currentBox (detection d).box.asXyxy =
    CamTrack.iou t.currentBox d.box.asXyxy

namespace Symmetry
variable (S : Symmetry K)

def tracks (tracks : Dict String (STrack K)) : Dict String (STrack K) :=
  tracks.mapValues (fun _ => S.track)

def tracker (st : ByteTracker K) : ByteTracker K := { st with tracks := S.tracks st.tracks }

theorem iouMatrix_eq (ts : List (STrack K)) (ds : List (Detection K)) :
    iouMatrix ((ts.map S.track).map STrack.currentBox)
        ((ds.map S.detection).map (fun d => d.box.asXyxy)) =
      iouMatrix (ts.map STrack.currentBox) (ds.map (fun d => d.box.asXyxy)) := by
  simp only [iouMatrix, List.isEmpty_map, List.length_map, List.map_map, Function.comp_def, S.iou]

theorem matchByIou_eq (solver : LinearSumAssignment K) (ts : List (STrack K))
    (ds : List (Detection K)) (θ : K) :
    matchByIou solver ((ts.map S.track).map STrack.currentBox)
        ((ds.map S.detection).map (fun d => d.box.asXyxy)) θ =
      matchByIou solver (ts.map STrack.currentBox) (ds.map (fun d => d.box.asXyxy)) θ := by
  simp only [matchByIou, iouMatrix_eq, List.isEmpty_map, List.length_map]

theorem markMatches_eq (ids : List String) (ds : List (Detection K)) (ms : List (Nat × Nat))
    (tracks : Dict String (STrack K)) (matched : List String) :
    ByteTracker.markMatches ids (ds.map S.detection) ms (S.tracks tracks) matched =
      (ByteTracker.markMatches ids ds ms tracks matched).map (fun r => (S.tracks r.1, r.2)) := by
  induction ms generalizing tracks matched with
  | nil => rfl
  | cons p ms ih =>
    refine map_bind (except_map_id _) (fun k => ?_)
    refine map_bind (getItem_mapValues tracks S.track k) (fun t => ?_)
    refine map_bind (index_map S.detection ds p.2) (fun d => ?_)
    refine map_bind (S.markMatched t d) (fun t' => ?_)
    rw [Symmetry.tracks, set_mapValues]
    exact ih _ _

theorem mapM_track (tracks : Dict String (STrack K)) (ids : List String) :
    ids.mapM (fun tid => (S.tracks tracks).getItem tid) =
      (ids.mapM (fun tid => tracks.getItem tid)).map (List.map S.track) :=
  mapM_eq_map (fun tid => getItem_mapValues tracks S.track tid) ids

/-- A stage looks its tracks up before anything else. -/
theorem stage_eq_bind (solver : LinearSumAssignment K) (θ : K) (ids : List String)
    (ds : List (Detection K)) (tracks : Dict String (STrack K)) (matched : List String) :
    ByteTracker.stage solver θ ids ds tracks matched = (do
      let ts ← ids.mapM (fun tid => tracks.getItem tid)
      let result ← matchByIou solver (ts.map STrack.currentBox) (ds.map (fun d => d.box.asXyxy)) θ
      let marked ← ByteTracker.markMatches ids ds result.matches_ tracks matched
      return (result, marked)) := by
  have hboxes : ids.mapM (fun tid => do
      let track ← tracks.getItem tid
      return track.currentBox) =
        (ids.mapM (fun tid => tracks.getItem tid)).map (List.map STrack.currentBox) :=
    mapM_eq_map (fun tid => by cases tracks.getItem tid <;> rfl) ids
  rw [ByteTracker.stage, hboxes]
  cases ids.mapM (fun tid => tracks.getItem tid) <;> rfl

theorem stage_eq (solver : LinearSumAssignment K) (θ : K) (ids : List String)
    (ds : List (Detection K)) (tracks : Dict String (STrack K)) (matched : List String) :
    ByteTracker.stage solver θ ids (ds.map S.detection) (S.tracks tracks) matched =
      (ByteTracker.stage solver θ ids ds tracks matched).map
        (fun r => (r.1, S.tracks r.2.1, r.2.2)) := by
  rw [stage_eq_bind, stage_eq_bind]
  refine map_bind (S.mapM_track tracks ids) (fun ts => ?_)
  rw [S.matchByIou_eq]
  refine map_bind (except_map_id _) (fun r => ?_)
  exact map_bind (S.markMatches_eq ids ds r.matches_ tracks matched) (fun marked => rfl)

theorem filter_detections {p : Detection K → Bool} (hp : ∀ d, p (S.detection d) = p d)
    (ds : List (Detection K)) :
    (ds.map S.detection).filter p = (ds.filter p).map S.detection := by
  rw [List.filter_map]
  congr 1
  exact List.filter_congr (fun d _ => hp d)

def twoStages (a : ByteTracker.TwoStages K) : ByteTracker.TwoStages K :=
  { a with
    highConf := a.highConf.map S.detection
    lowConf := a.lowConf.map S.detection
    tracks := S.tracks a.tracks }

def threeStages (b : ByteTracker.ThreeStages K) : ByteTracker.ThreeStages K :=
  { b with
    leftoverHigh := b.leftoverHigh.map S.detection
    tracks := S.tracks b.tracks }

theorem keys_tracks (tracks : Dict String (STrack K)) : (S.tracks tracks).keys = tracks.keys :=
  Dict.keys_mapValues _ _

theorem firstStages_eq (solver : LinearSumAssignment K) (st : ByteTracker K)
    (ds : List (Detection K)) :
    (S.tracker st).firstStages solver (ds.map S.detection) =
      (st.firstStages solver ds).map S.twoStages := by
  have hpred : (S.tracker st).tracks.mapValues (fun _ t => t.predict) =
      S.tracks (st.tracks.mapValues (fun _ t => t.predict)) := by
    apply Dict.ext_entries
    simp [Dict.mapValues, Symmetry.tracker, Symmetry.tracks, S.predict]
  have hhigh := S.filter_detections (p := ByteTracker.isHighConf)
    (fun d => by simp only [ByteTracker.isHighConf, S.confidence]) ds
  have hlow := S.filter_detections (p := ByteTracker.isLowConf)
    (fun d => by simp only [ByteTracker.isLowConf, S.confidence]) ds
  simp only [ByteTracker.firstStages, hpred, hhigh, hlow, keys_tracks]
  refine map_bind (S.stage_eq _ _ _ _ _ _) (fun r => ?_)
  refine map_bind (except_map_id _) (fun remaining => ?_)
  exact map_bind (S.stage_eq _ _ _ _ _ _) (fun r => rfl)

theorem thirdStage_eq (solver : LinearSumAssignment K) (a : ByteTracker.TwoStages K) :
    ByteTracker.thirdStage solver (S.twoStages a) =
      (ByteTracker.thirdStage solver a).map S.threeStages := by
  refine map_bind (except_map_id _) (fun still => ?_)
  have hstates : (fun tid => do
        let track ← (S.tracks a.tracks).getItem tid
        return (tid, track.state)) = (fun tid => do
        let track ← a.tracks.getItem tid
        return (tid, track.state)) := by
    funext tid
    rw [Symmetry.tracks, getItem_mapValues]
    cases a.tracks.getItem tid with
    | error e => rfl
    | ok t => exact congrArg (fun s => Except.ok (tid, s)) (S.state t)
  refine map_bind (f := id) ?_ (fun states => ?_)
  · exact (congrArg (fun f => still.mapM f) hstates).trans (except_map_id _)
  refine map_bind (mapM_eq_map (fun i => index_map S.detection a.highConf i) _) (fun left => ?_)
  exact map_bind (S.stage_eq _ _ _ _ _ _) (fun r => rfl)

theorem associate_eq (solver : LinearSumAssignment K) (st : ByteTracker K)
    (ds : List (Detection K)) :
    (S.tracker st).associate solver (ds.map S.detection) =
      (st.associate solver ds).map (fun r => (S.twoStages r.1, S.threeStages r.2)) :=
  map_bind (S.firstStages_eq solver st ds)
    (fun a => map_bind (S.thirdStage_eq solver a) (fun _ => rfl))

theorem markUnmatchedTracks_eq (ids matched : List String) (tracks : Dict String (STrack K)) :
    ByteTracker.markUnmatchedTracks ids matched (S.tracks tracks) =
      (ByteTracker.markUnmatchedTracks ids matched tracks).map S.tracks := by
  refine foldlM_eq_map (fun tracks tid => ?_) ids tracks
  split
  · rfl
  · refine map_bind (getItem_mapValues tracks S.track tid) (fun t => ?_)
    rw [S.markUnmatched, Symmetry.tracks, set_mapValues]
    rfl

theorem spawnTracks_eq (cameraId : String) (left : List (Detection K)) (positions : List Nat)
    (tracks : Dict String (STrack K)) (idAllocator : TrackIdAllocator) :
    ByteTracker.spawnTracks cameraId (left.map S.detection) positions (S.tracks tracks)
        idAllocator =
      (ByteTracker.spawnTracks cameraId left positions tracks idAllocator).map
        (fun r => (S.tracks r.1, r.2)) := by
  refine foldlM_eq_map (g := fun r => (S.tracks r.1, r.2)) (fun r detPos => ?_) positions
    (tracks, idAllocator)
  refine map_bind (index_map S.detection left detPos) (fun d => ?_)
  have hset : (S.tracks r.1).set r.2.nextId.1 (.init r.2.nextId.1 cameraId (S.detection d)) =
      S.tracks (r.1.set r.2.nextId.1 (.init r.2.nextId.1 cameraId d)) := by
    rw [S.init]
    exact set_mapValues r.1 S.track r.2.nextId.1 _
  exact congrArg (fun tracks => Except.ok (tracks, r.2.nextId.2)) hset

theorem expired_eq (t : STrack K) : ByteTracker.expired (S.track t) = ByteTracker.expired t := by
  simp only [ByteTracker.expired, S.state, S.timeSinceUpdate]

theorem dropExpired_eq (tracks : Dict String (STrack K)) :
    ByteTracker.dropExpired (S.tracks tracks) = (ByteTracker.dropExpired tracks).map S.tracks := by
  unfold ByteTracker.dropExpired
  rw [keys_tracks]
  refine foldlM_eq_map (fun tracks tid => ?_) tracks.keys tracks
  refine map_bind (getItem_mapValues tracks S.track tid) (fun t => ?_)
  rw [expired_eq]
  split
  · exact congrArg Except.ok (erase_mapValues tracks S.track tid)
  · rfl

theorem finish_eq (st : ByteTracker K) (activeIds matchedTrackIds : List String)
    (tracks : Dict String (STrack K)) (left : List (Detection K)) (positions : List Nat)
    (frameId : String) :
    (S.tracker st).finish activeIds matchedTrackIds (S.tracks tracks) (left.map S.detection)
        positions frameId =
      (st.finish activeIds matchedTrackIds tracks left positions frameId).map
        (fun r => (r.1.map S.result, S.tracker r.2)) := by
  refine map_bind (S.markUnmatchedTracks_eq activeIds matchedTrackIds tracks) (fun tracks => ?_)
  refine map_bind (S.spawnTracks_eq st.cameraId left positions tracks st.idAllocator) (fun r => ?_)
  refine map_bind (S.dropExpired_eq r.1) (fun tracks => ?_)
  have hout : (S.tracks tracks).values.map (STrack.toTrack frameId) =
      (tracks.values.map (STrack.toTrack frameId)).map S.result := by
    rw [Symmetry.tracks, values_mapValues, List.map_map, List.map_map]
    exact List.map_congr_left (fun t _ => S.toTrack frameId t)
  exact congrArg (fun out => Except.ok (out, _)) hout

/-- One frame, seen through a symmetry. -/
theorem update_eq (solver : LinearSumAssignment K) (st : ByteTracker K) (ds : List (Detection K))
    (frameId : String) :
    (S.tracker st).update solver (ds.map S.detection) frameId =
      (st.update solver ds frameId).map (fun r => (r.1.map S.result, S.tracker r.2)) :=
  map_bind (S.associate_eq solver st ds) (fun _ => S.finish_eq _ _ _ _ _ _ _)

/-- All frames, seen through a symmetry. -/
theorem outputs_eq (solver : LinearSumAssignment K) (st : ByteTracker K)
    (frames : List (List (Detection K) × String)) :
    (S.tracker st).outputs solver (frames.map (fun f => (f.1.map S.detection, f.2))) =
      (st.outputs solver frames).map (List.map (List.map S.result)) := by
  induction frames generalizing st with
  | nil => rfl
  | cons f frames ih =>
    exact map_bind (S.update_eq solver st f.1 f.2) (fun r => map_bind (ih r.2) (fun _ => rfl))

end Symmetry
end CamTrack
