import CamTrack.Proofs.Association

namespace CamTrack
open Python Assignment Positions InferenceConstants

variable {K : Type} [Field K] [LinearOrder K]

theorem formatTrackId_inj (h : formatTrackId cameraId i = formatTrackId cameraId j) : i = j := by
  have h' : toString i = toString j := by
    simpa [formatTrackId, String.append_right_inj] using h
  exact Nat.repr_injective h'

/-- The ageing loop touches exactly the active tracks that no stage matched. -/
theorem markUnmatchedTracks_ok {ids matched : List String} (hids : ids.Nodup)
    (tracks : Dict String (STrack K)) (hsub : ∀ id ∈ ids, id ∈ tracks.keys) :
    ByteTracker.markUnmatchedTracks ids matched tracks =
      .ok (tracks.mapValues (fun k t =>
        if k ∈ ids ∧ k ∉ matched then t.markUnmatched else t)) :=
  Dict.foldlM_set hids tracks hsub (fun k => k ∈ matched) STrack.markUnmatched

/-- The entries that spawning appends, ids numbered from `n + 1`. -/
def newTracks (cameraId : String) : Nat → List (Detection K) → List (String × STrack K)
  | _, [] => []
  | n, d :: ds =>
    (formatTrackId cameraId (n + 1), .init (formatTrackId cameraId (n + 1)) cameraId d) ::
      newTracks cameraId (n + 1) ds

theorem newTracks_keys (cameraId : String) (n : Nat) (ds : List (Detection K)) :
    (newTracks cameraId n ds).map Prod.fst =
      (List.range' (n + 1) ds.length).map (formatTrackId cameraId) := by
  induction ds generalizing n with
  | nil => rfl
  | cons d ds ih => simp [newTracks, ih, List.range'_succ]

theorem newTracks_getElem? (cameraId : String) (n : Nat) (ds : List (Detection K)) (i : Nat) :
    (newTracks cameraId n ds)[i]? = (ds[i]?).map (fun d =>
      (formatTrackId cameraId (n + i + 1),
        .init (formatTrackId cameraId (n + i + 1)) cameraId d)) := by
  induction ds generalizing n i with
  | nil => simp [newTracks]
  | cons d ds ih =>
    cases i with
    | zero => simp [newTracks]
    | succ i =>
      simp only [newTracks, List.getElem?_cons_succ, ih]
      rw [show n + 1 + i + 1 = n + (i + 1) + 1 by omega]

theorem mem_newTracks {cameraId : String} {n : Nat} {ds : List (Detection K)} {k : String}
    {t : STrack K} (h : (k, t) ∈ newTracks cameraId n ds) :
    ∃ i d, ds[i]? = some d ∧ k = formatTrackId cameraId (n + i + 1) ∧ t = .init k cameraId d := by
  obtain ⟨i, hi⟩ := List.mem_iff_getElem?.mp h
  rw [newTracks_getElem?] at hi
  obtain ⟨d, hd, he⟩ := Option.map_eq_some_iff.mp hi
  simp only [Prod.mk.injEq] at he
  obtain ⟨rfl, rfl⟩ := he
  exact ⟨i, d, hd, rfl, rfl⟩

/-- Spawning appends one track per position when no later id is in use. -/
theorem spawnTracks_ok {cameraId : String} {left : List (Detection K)} {ps : List Nat}
    (hps : ∀ i ∈ ps, i < left.length) (tracks : Dict String (STrack K)) (n : Nat)
    (hfresh : ∀ j, n < j → formatTrackId cameraId j ∉ tracks.keys) :
    ∃ tracks', ByteTracker.spawnTracks cameraId left ps tracks ⟨cameraId, n⟩ =
        .ok (tracks', ⟨cameraId, n + ps.length⟩) ∧
      tracks'.entries = tracks.entries ++ newTracks cameraId n (pick left ps) := by
  induction ps generalizing tracks n with
  | nil => exact ⟨tracks, rfl, by simp [newTracks]⟩
  | cons i ps ih =>
    have hi := hps i List.mem_cons_self
    let k := formatTrackId cameraId (n + 1)
    have hk : k ∉ tracks.keys := hfresh (n + 1) (by omega)
    have hfresh' : ∀ j, n + 1 < j →
        formatTrackId cameraId j ∉ (tracks.set k (.init k cameraId left[i])).keys := by
      intro j hj hm
      rw [Dict.keys_set_of_not_mem hk, List.mem_append, List.mem_singleton] at hm
      rcases hm with hm | hm
      · exact hfresh j (by omega) hm
      · have := formatTrackId_inj hm
        omega
    obtain ⟨tracks', hok, hent⟩ :=
      ih (fun j hj => hps j (List.mem_cons_of_mem i hj)) _ (n + 1) hfresh'
    refine ⟨tracks', ?_, ?_⟩
    · rw [ByteTracker.spawnTracks, List.foldlM_cons, index_of_lt hi]
      simp only [except_bind_ok, except_pure, TrackIdAllocator.nextId]
      rw [show n + (i :: ps).length = n + 1 + ps.length by simp; omega]
      exact hok
    · rw [hent, Dict.entries_set_of_not_mem hk, pick_cons hi]
      simp [newTracks, k]

/-- The cleanup loop is a filter. -/
theorem dropExpired_ok (tracks : Dict String (STrack K)) :
    ByteTracker.dropExpired tracks = .ok (tracks.filter (fun _ t => !ByteTracker.expired t)) :=
  Dict.foldlM_erase_keys tracks ByteTracker.expired

/-- What the reachable trackers of one camera have in common: every entry is
filed under its own id, which the allocator has issued, and has a healthy filter. -/
structure WellFormed (st : ByteTracker K) : Prop where
  camera : st.idAllocator.cameraId = st.cameraId
  healthy : AllHealthy st.tracks
  issued : ∀ k t, st.tracks.get? k = some t → t.trackId = k ∧ t.cameraId = st.cameraId ∧
    ∃ j, 1 ≤ j ∧ j ≤ st.idAllocator.counter ∧ k = formatTrackId st.cameraId j

theorem newTracker_wellFormed (cameraId : String) :
    WellFormed (newTracker cameraId : ByteTracker K) :=
  ⟨rfl, fun k t h => by simp [newTracker] at h, fun k t h => by simp [newTracker] at h⟩

theorem WellFormed.fresh {st : ByteTracker K} (h : WellFormed st)
    (hj : st.idAllocator.counter < j) :
    formatTrackId st.cameraId j ∉ st.tracks.keys := by
  intro hm
  obtain ⟨t, ht⟩ := Dict.mem_keys_iff.mp hm
  obtain ⟨_, _, i, _, hi, he⟩ := h.issued _ t ht
  have := formatTrackId_inj he
  omega

/-- One frame in the life of an old track: predicted, then matched or aged. -/
def settle (pairs : List (String × Detection K)) (k : String) (t : STrack K) : STrack K :=
  match pairs.lookup k with
  | some d => t.predict.matched d
  | none => t.predict.markUnmatched

theorem settle_of_not_mem {pairs : List (String × Detection K)} (h : k ∉ pairs.map Prod.fst)
    (t : STrack K) : settle pairs k t = t.predict.markUnmatched := by
  simp [settle, lookup_eq_none.mpr h]

theorem lookup_of_mem {pairs : List (String × β)} (hn : (pairs.map Prod.fst).Nodup)
    (h : (k, d) ∈ pairs) : pairs.lookup k = some d := by
  induction pairs with
  | nil => simp at h
  | cons p pairs ih =>
    obtain ⟨k', d'⟩ := p
    obtain ⟨hp, hn⟩ := List.nodup_cons.mp hn
    rcases List.mem_cons.mp h with he | h
    · obtain ⟨rfl, rfl⟩ := Prod.mk.inj he
      simp
    · have hne : k ≠ k' := fun he => hp (List.mem_map.mpr ⟨_, h, he⟩)
      have hb : (k == k') = false := by simpa using hne
      rw [List.lookup_cons, hb]
      exact ih hn h

theorem settle_of_mem {pairs : List (String × Detection K)} (hn : (pairs.map Prod.fst).Nodup)
    (h : (k, d) ∈ pairs) (t : STrack K) : settle pairs k t = t.predict.matched d := by
  simp [settle, lookup_of_mem hn h]

theorem settle_identity (pairs : List (String × Detection K)) (k : String) (t : STrack K) :
    (settle pairs k t).trackId = t.trackId ∧ (settle pairs k t).cameraId = t.cameraId := by
  unfold settle
  split <;> exact ⟨rfl, rfl⟩

theorem settle_healthy [IsStrictOrderedRing K] (pairs : List (String × Detection K)) {t : STrack K}
    (h : t.kalman.Healthy) : (settle pairs k t).kalman.Healthy := by
  unfold settle
  split
  · exact matched_healthy (t := t.predict) h.predict _
  · exact h.predict

theorem init_not_expired (k cameraId : String) (d : Detection K) :
    ByteTracker.expired (STrack.init k cameraId d) = false := by
  simp [ByteTracker.expired, STrack.init]

theorem filter_newTracks (cameraId : String) (n : Nat) (ds : List (Detection K)) :
    (newTracks cameraId n ds).filter (fun e => !ByteTracker.expired e.2) =
      newTracks cameraId n ds := by
  apply List.filter_eq_self.mpr
  rintro ⟨k, t⟩ he
  obtain ⟨_, d, _, _, rfl⟩ := mem_newTracks he
  exact congrArg not (init_not_expired k cameraId d)

section Update
variable [HasSqrt K]

/-- Detections of a frame that start new tracks. -/
def ByteTracker.ThreeStages.spawned (b : ByteTracker.ThreeStages K) : List (Detection K) :=
  pick b.leftoverHigh b.stage3.unmatchedDetections

/-- Everything one call of `update` does. -/
structure Updated (solver : LinearSumAssignment K) (st : ByteTracker K) (ds : List (Detection K))
    (frameId : String) (a : ByteTracker.TwoStages K) (b : ByteTracker.ThreeStages K)
    (out : List (Track K)) (st' : ByteTracker K) : Prop where
  first : FirstStages solver st ds a
  third : ThirdStage solver st a b
  cameraId : st'.cameraId = st.cameraId
  idAllocator : st'.idAllocator = ⟨st.cameraId, st.idAllocator.counter + b.spawned.length⟩
  entries : st'.tracks.entries =
    ((st.tracks.mapValues (settle (matchedPairs a b))).filter
      (fun _ t => !ByteTracker.expired t)).entries ++
    newTracks st.cameraId st.idAllocator.counter b.spawned
  out : out = st'.tracks.values.map (STrack.toTrack frameId)

section Spec
variable {solver : LinearSumAssignment K} {st st' : ByteTracker K} {ds : List (Detection K)}
  {a : ByteTracker.TwoStages K} {b : ByteTracker.ThreeStages K} {out : List (Track K)}

theorem ThirdStage.spawn_in_range (h3 : ThirdStage solver st a b) :
    ∀ i ∈ b.stage3.unmatchedDetections, i < b.leftoverHigh.length := by
  intro i hi
  rw [h3.run3.left] at hi
  exact (mem_unmatchedDetections.mp hi).1

/-- The tracks after all three stages and the ageing loop. -/
theorem settled_eq (h : FirstStages solver st ds a) (h3 : ThirdStage solver st a b) :
    b.tracks.mapValues (fun k t =>
        if k ∈ a.activeIds ∧ k ∉ b.matchedTrackIds then t.markUnmatched else t) =
      st.tracks.mapValues (settle (matchedPairs a b)) := by
  apply Dict.ext_get? (by simp [h3.tracks])
  intro k hk
  have hactive : k ∈ a.activeIds := by
    rw [h.activeIds]
    simpa [h3.tracks] using hk
  simp only [Dict.get?_mapValues, h3.tracks, get?_markAll, ByteTracker.predicted, h3.matched,
    Option.map_map]
  congr 1
  funext t
  simp only [Function.comp_apply, settle, hactive, true_and]
  cases hl : (matchedPairs a b).lookup k with
  | none => simp only [lookup_eq_none.mp hl, not_false_eq_true, ↓reduceIte]
  | some d =>
    have hm : k ∈ (matchedPairs a b).map Prod.fst := by
      by_contra hc
      rw [lookup_eq_none.mpr hc] at hl
      cases hl
    simp only [hm, not_true_eq_false, ↓reduceIte]

/-- The surviving old track under a key. -/
theorem Updated.get?_old (h : Updated solver st ds frameId a b out st') (hw : WellFormed st)
    (hk : st.tracks.get? k = some t) :
    st'.tracks.get? k =
      if ByteTracker.expired (settle (matchedPairs a b) k t) then none
      else some (settle (matchedPairs a b) k t) := by
  have hnew : ∀ u, (k, u) ∉ newTracks st.cameraId st.idAllocator.counter b.spawned := by
    intro u hu
    obtain ⟨i, _, _, he, _⟩ := mem_newTracks hu
    exact hw.fresh (j := st.idAllocator.counter + i + 1) (by omega)
      (he ▸ Dict.mem_keys_of_get? hk)
  ext u
  have hold : (k, u) ∈ st'.tracks.entries ↔
      ((st.tracks.mapValues (settle (matchedPairs a b))).filter
        (fun _ t => !ByteTracker.expired t)).get? k = some u := by
    rw [h.entries, List.mem_append, Dict.get?_eq_some]
    simp [hnew u]
  rw [Dict.get?_eq_some, hold, Dict.get?_filter, Dict.get?_mapValues, hk]
  cases hx : ByteTracker.expired (settle (matchedPairs a b) k t) <;>
    simp [Option.filter, hx]

/-- A key that was not in use belongs to a newly spawned track or to none. -/
theorem Updated.get?_new (h : Updated solver st ds frameId a b out st')
    (hk : st.tracks.get? k = none) :
    st'.tracks.get? k = some t ↔
      (k, t) ∈ newTracks st.cameraId st.idAllocator.counter b.spawned := by
  rw [Dict.get?_eq_some, h.entries, List.mem_append]
  constructor
  · intro hx
    rcases hx with hm | hm
    · have := Dict.get?_eq_some.mpr hm
      simp [hk] at this
    · exact hm
  · exact Or.inr

/-- Every track of the next state is an old one a frame later or a new one. -/
theorem Updated.origin (h : Updated solver st ds frameId a b out st') (hw : WellFormed st)
    (ht : st'.tracks.get? k = some t') :
    (∃ t, st.tracks.get? k = some t ∧ t' = settle (matchedPairs a b) k t) ∨
    ∃ i d, b.spawned[i]? = some d ∧
      k = formatTrackId st.cameraId (st.idAllocator.counter + i + 1) ∧
      t' = .init k st.cameraId d := by
  cases hk : st.tracks.get? k with
  | some t =>
    rw [h.get?_old hw hk] at ht
    split at ht
    · cases ht
    · cases ht
      exact Or.inl ⟨t, rfl, rfl⟩
  | none => exact Or.inr (mem_newTracks ((h.get?_new hk).mp ht))

variable [IsStrictOrderedRing K]

theorem Updated.wellFormed (h : Updated solver st ds frameId a b out st') (hw : WellFormed st) :
    WellFormed st' := by
  have hcount : st'.idAllocator.counter = st.idAllocator.counter + b.spawned.length := by
    rw [h.idAllocator]
  refine ⟨by rw [h.idAllocator, h.cameraId], ?_, ?_⟩
  · intro k t ht
    rcases h.origin hw ht with ⟨t₀, hk, rfl⟩ | ⟨_, d, _, _, rfl⟩
    · exact settle_healthy _ (hw.healthy k t₀ hk)
    · exact BoxKalmanFilter.init_healthy _
  · intro k t ht
    rw [h.cameraId, hcount]
    rcases h.origin hw ht with ⟨t₀, hk, rfl⟩ | ⟨i, d, hd, he, rfl⟩
    · obtain ⟨h1, h2, j, hj, hle, he⟩ := hw.issued k t₀ hk
      obtain ⟨hi, hc⟩ := settle_identity (matchedPairs a b) k t₀
      exact ⟨hi.trans h1, hc.trans h2, j, hj, by omega, he⟩
    · have hi := (List.getElem?_eq_some_iff.mp hd).1
      exact ⟨rfl, rfl, st.idAllocator.counter + i + 1, by omega, by omega, he⟩

/-- `update` never raises on a well-formed tracker, and this is what it does. -/
theorem update_ok (hs : Assigns solver) (hw : WellFormed st) (ds : List (Detection K))
    (frameId : String) :
    ∃ a b out st', ByteTracker.associate solver st ds = .ok (a, b) ∧
      ByteTracker.update solver st ds frameId = .ok (out, st') ∧
      Updated solver st ds frameId a b out st' := by
  obtain ⟨a, ha, h⟩ := firstStages_ok hs hw.healthy ds
  obtain ⟨b, hb, h3⟩ := thirdStage_ok hs hw.healthy h
  have hassoc : ByteTracker.associate solver st ds = .ok (a, b) :=
    bind_eq_ok.mpr ⟨a, ha, bind_eq_ok.mpr ⟨b, hb, rfl⟩⟩
  have hkeys : ∀ k ∈ a.activeIds, k ∈ b.tracks.keys := by
    intro k hk
    rw [h3.tracks, keys_markAll, keys_predicted, ← h.activeIds]
    exact hk
  have hmark := @markUnmatchedTracks_ok K _ _ _ b.matchedTrackIds h.activeIds_nodup b.tracks hkeys
  rw [settled_eq h h3] at hmark
  obtain ⟨tracks, hspawn, hent⟩ := spawnTracks_ok h3.spawn_in_range
    (st.tracks.mapValues (settle (matchedPairs a b))) st.idAllocator.counter
    (fun j hj => by rw [Dict.keys_mapValues]; exact hw.fresh hj)
  have halloc : st.idAllocator = ⟨st.cameraId, st.idAllocator.counter⟩ := by rw [← hw.camera]
  rw [← halloc] at hspawn
  have hdrop := dropExpired_ok tracks
  let kept := tracks.filter (fun _ t => !ByteTracker.expired t)
  let st' : ByteTracker K := { st with
    tracks := kept
    idAllocator := ⟨st.cameraId, st.idAllocator.counter + b.stage3.unmatchedDetections.length⟩ }
  refine ⟨a, b, kept.values.map (STrack.toTrack frameId), st', hassoc, ?_, h, h3, rfl, ?_, ?_, rfl⟩
  · refine bind_eq_ok.mpr ⟨(a, b), hassoc, ?_⟩
    exact bind_eq_ok.mpr ⟨_, hmark, bind_eq_ok.mpr ⟨_, hspawn, bind_eq_ok.mpr ⟨_, hdrop, rfl⟩⟩⟩
  · rw [ByteTracker.ThreeStages.spawned, pick_length h3.spawn_in_range]
  · change kept.entries = _
    simp only [kept, Dict.filter]
    rw [hent, List.filter_append]
    congr 1
    exact filter_newTracks _ _ _

end Spec

/-- States a camera's tracker can be in. -/
inductive Reachable (solver : LinearSumAssignment K) (cameraId : String) :
    ByteTracker K → Prop where
  | new : Reachable solver cameraId (newTracker cameraId)
  | update {st st' : ByteTracker K} {ds : List (Detection K)} {frameId : String}
      {out : List (Track K)} : Reachable solver cameraId st →
      ByteTracker.update solver st ds frameId = .ok (out, st') →
      Reachable solver cameraId st'

variable [IsStrictOrderedRing K] {solver : LinearSumAssignment K}

/-- A successful call of `update` is the one its specification describes. -/
theorem updated_of_ok (hs : Assigns solver) {st st' : ByteTracker K} (hw : WellFormed st)
    (h : ByteTracker.update solver st ds frameId = .ok (out, st')) :
    ∃ a b, ByteTracker.associate solver st ds = .ok (a, b) ∧
      Updated solver st ds frameId a b out st' := by
  obtain ⟨a, b, out', st'', ha, hu, hspec⟩ := update_ok hs hw ds frameId
  rw [h] at hu
  cases hu
  exact ⟨a, b, ha, hspec⟩

theorem Reachable.wellFormed (hs : Assigns solver) {st : ByteTracker K}
    (h : Reachable solver cameraId st) : WellFormed st ∧ st.cameraId = cameraId := by
  induction h with
  | new => exact ⟨newTracker_wellFormed cameraId, rfl⟩
  | update _ hu ih =>
    obtain ⟨a, b, _, hspec⟩ := updated_of_ok hs ih.1 hu
    exact ⟨hspec.wellFormed ih.1, hspec.cameraId.trans ih.2⟩

/-- Any sequence of frames can be fed to a reachable tracker. -/
theorem run_ok (hs : Assigns solver) {st : ByteTracker K} (hr : Reachable solver cameraId st)
    (frames : List (List (Detection K) × String)) :
    ∃ st', ByteTracker.run solver st frames = .ok st' ∧ Reachable solver cameraId st' := by
  induction frames generalizing st with
  | nil => exact ⟨st, rfl, hr⟩
  | cons f frames ih =>
    obtain ⟨_, _, out, st₁, _, hu, _⟩ := update_ok hs (hr.wellFormed hs).1 f.1 f.2
    obtain ⟨st', hrun, hr'⟩ := ih (hr.update hu)
    refine ⟨st', ?_, hr'⟩
    unfold ByteTracker.run
    rw [List.foldlM_cons]
    exact bind_eq_ok.mpr ⟨st₁, bind_eq_ok.mpr ⟨_, hu, rfl⟩, hrun⟩

/-- The tracker that `frames` leave behind. -/
def ByteTracker.after (solver : LinearSumAssignment K) (cameraId : String)
    (frames : List (List (Detection K) × String)) : ByteTracker K :=
  match ByteTracker.run solver (newTracker cameraId) frames with
  | .ok st => st
  | .error _ => newTracker cameraId

/-- The tracks that a tracker returns for each of some frames. -/
def ByteTracker.outputs (solver : LinearSumAssignment K) (self : ByteTracker K) :
    List (List (Detection K) × String) → Except Error (List (List (Track K)))
  | [] => return []
  | (detections, frameId) :: frames => do
    let (tracks, self) ← update solver self detections frameId
    let rest ← outputs solver self frames
    return tracks :: rest

theorem after_reachable (hs : Assigns solver) (cameraId : String)
    (frames : List (List (Detection K) × String)) :
    Reachable solver cameraId (ByteTracker.after solver cameraId frames) := by
  obtain ⟨st, h, hr⟩ := run_ok hs (.new : Reachable solver cameraId _) frames
  simpa [ByteTracker.after, h] using hr

end Update

/-- A detection of the unit square, for runs on fixed inputs. -/
def unitSquare (confidence : Confidence ℚ) : Detection ℚ where
  frameId := "frame"
  cameraId := "cam-1"
  box := ⟨0, 0, 1, 1⟩
  classId := 0
  className := "person"
  confidence := confidence

def clearSquare : Detection ℚ := unitSquare ⟨9 / 10, by decide +kernel⟩

def faintSquare : Detection ℚ := unitSquare ⟨3 / 10, by decide +kernel⟩

end CamTrack
