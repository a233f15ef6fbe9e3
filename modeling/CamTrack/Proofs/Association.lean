import CamTrack.Proofs.Covariance
import CamTrack.Proofs.Matching
import CamTrack.Lib.Positions

namespace CamTrack
open Python Assignment Positions InferenceConstants

variable {K : Type} [Field K] [LinearOrder K]

/-- What a correction leaves in the filter; the filter itself where it raises. -/
def BoxKalmanFilter.corrected (f : BoxKalmanFilter K) (box : Xyxy K) : BoxKalmanFilter K :=
  match f.update box with
  | .ok f' => f'
  | .error _ => f

/-- `mark_matched` on a track whose filter does not raise. -/
def STrack.matched (t : STrack K) (d : Detection K) : STrack K :=
  { t with
    kalman := t.kalman.corrected d.box.asXyxy
    hits := t.hits + 1
    timeSinceUpdate := 0
    lastConfidence := d.confidence
    state := STrack.matchedState t.state (t.hits + 1) }

section Healthy
variable [IsStrictOrderedRing K]

theorem markMatched_ok {t : STrack K} (h : t.kalman.Healthy) (d : Detection K) :
    t.markMatched d = .ok (t.matched d) := by
  obtain ⟨f, hf, _⟩ := h.update d.box.asXyxy
  simp [STrack.markMatched, STrack.matched, BoxKalmanFilter.corrected, hf]

theorem matched_healthy {t : STrack K} (h : t.kalman.Healthy) (d : Detection K) :
    (t.matched d).kalman.Healthy := by
  obtain ⟨f, hf, hh⟩ := h.update d.box.asXyxy
  simpa [STrack.matched, BoxKalmanFilter.corrected, hf] using hh

end Healthy

def AllHealthy (tracks : Dict String (STrack K)) : Prop :=
  ∀ k t, tracks.get? k = some t → t.kalman.Healthy

/-- Mark every track named in `pairs` with its detection. -/
def markAll (tracks : Dict String (STrack K)) (pairs : List (String × Detection K)) :
    Dict String (STrack K) :=
  tracks.mapValues (fun k t => match pairs.lookup k with
    | some d => t.matched d
    | none => t)

@[simp] theorem keys_markAll (tracks : Dict String (STrack K))
    (pairs : List (String × Detection K)) :
    (markAll tracks pairs).keys = tracks.keys :=
  Dict.keys_mapValues _ _

theorem get?_markAll (tracks : Dict String (STrack K)) (pairs : List (String × Detection K))
    (k : String) : (markAll tracks pairs).get? k = (tracks.get? k).map (fun t =>
      match pairs.lookup k with
      | some d => t.matched d
      | none => t) :=
  Dict.get?_mapValues _ _ _

theorem lookup_eq_none {pairs : List (String × β)} :
    pairs.lookup k = none ↔ k ∉ pairs.map Prod.fst := by
  rw [List.lookup_eq_none_iff]
  simp only [List.mem_map, not_exists, not_and, bne_iff_ne, Prod.forall]
  constructor
  · intro h a b hm he
    exact h a b hm he.symm
  · intro h a b hm he
    exact h a b hm he.symm

/-- An unmarked track is the very object the dictionary held before. -/
theorem get?_markAll_of_not_mem {tracks : Dict String (STrack K)}
    {pairs : List (String × Detection K)} (h : k ∉ pairs.map Prod.fst) :
    (markAll tracks pairs).get? k = tracks.get? k := by
  rw [get?_markAll, lookup_eq_none.mpr h]
  simp

theorem markAll_healthy [IsStrictOrderedRing K] {tracks : Dict String (STrack K)}
    (h : AllHealthy tracks) (pairs : List (String × Detection K)) :
    AllHealthy (markAll tracks pairs) := by
  intro k t ht
  rw [get?_markAll] at ht
  obtain ⟨t₀, h₀, rfl⟩ := Option.map_eq_some_iff.mp ht
  split
  · exact matched_healthy (h k t₀ h₀) _
  · exact h k t₀ h₀

theorem markAll_append {tracks : Dict String (STrack K)} {ps qs : List (String × Detection K)}
    (h : ∀ k ∈ ps.map Prod.fst, k ∉ qs.map Prod.fst) :
    markAll (markAll tracks ps) qs = markAll tracks (ps ++ qs) := by
  apply Dict.ext_get? (by simp)
  intro k _
  simp only [get?_markAll, Option.map_map, List.lookup_append]
  congr 1
  funext t
  cases hp : ps.lookup k with
  | none => simp
  | some d =>
    have hk : k ∈ ps.map Prod.fst := by
      by_contra hc
      rw [lookup_eq_none.mpr hc] at hp
      cases hp
    simp [lookup_eq_none.mpr (h k hk)]

/-- Marking one track first and the rest afterwards. -/
theorem markAll_cons {tracks : Dict String (STrack K)} {t : STrack K} (hk : tracks.get? k = some t)
    (d : Detection K) {pairs : List (String × Detection K)} (hn : k ∉ pairs.map Prod.fst) :
    markAll (tracks.set k (t.matched d)) pairs = markAll tracks ((k, d) :: pairs) := by
  have hmem := Dict.mem_keys_of_get? hk
  apply Dict.ext_get? (by simp [Dict.keys_set_of_mem hmem])
  intro j _
  rw [get?_markAll, get?_markAll, Dict.get?_set]
  by_cases hj : j = k
  · subst hj
    simp [hk, lookup_eq_none.mpr hn]
  · have hb : (j == k) = false := by simpa using hj
    simp [hj, List.lookup_cons, hb]

/-- The marking loop of a stage, run on a matching of existing tracks. -/
theorem markMatches_ok [IsStrictOrderedRing K] {ids : List String}
    {dets : List (Detection K)} (hids : ids.Nodup) (ms : List (Nat × Nat))
    (hm : IsMatching ids.length dets.length ms) (tracks : Dict String (STrack K))
    (hsub : ∀ id ∈ ids, id ∈ tracks.keys) (hh : AllHealthy tracks) (matched : List String) :
    ByteTracker.markMatches ids dets ms tracks matched =
      .ok (markAll tracks (assigned ids dets ms),
        matched ++ (assigned ids dets ms).map Prod.fst) := by
  induction ms generalizing tracks matched with
  | nil =>
    have he : markAll tracks [] = tracks := Dict.ext_get? (by simp) (fun k _ => by
      simp [get?_markAll])
    simp [ByteTracker.markMatches, assigned, he]
  | cons p ms ih =>
    obtain ⟨h1, h2⟩ := hm.inRange p List.mem_cons_self
    have hm' : IsMatching ids.length dets.length ms :=
      ⟨(List.nodup_cons.mp hm.rows).2, (List.nodup_cons.mp hm.cols).2,
        fun q hq => hm.inRange q (List.mem_cons_of_mem p hq)⟩
    obtain ⟨t, ht⟩ := Dict.mem_keys_iff.mp (hsub ids[p.1] (List.getElem_mem h1))
    have hmark := markMatched_ok (hh _ t ht) dets[p.2]
    have hset : AllHealthy (tracks.set ids[p.1] (t.matched dets[p.2])) := by
      intro k u hu
      rw [Dict.get?_set] at hu
      split at hu
      · cases hu
        exact matched_healthy (hh _ t ht) _
      · exact hh k u hu
    have hsub' : ∀ id ∈ ids, id ∈ (tracks.set ids[p.1] (t.matched dets[p.2])).keys := by
      intro id hid
      rw [Dict.keys_set_of_mem (Dict.mem_keys_of_get? ht)]
      exact hsub id hid
    have hfresh : ids[p.1] ∉ (assigned ids dets ms).map Prod.fst := by
      have hn := assigned_fst_nodup hids hm
      rw [assigned_cons h1 h2] at hn
      exact (List.nodup_cons.mp hn).1
    simp only [ByteTracker.markMatches, index_of_lt h1, index_of_lt h2,
      Dict.getItem_eq_ok.mpr ht, hmark, except_bind_ok]
    rw [ih hm' _ hsub' hset, assigned_cons h1 h2, markAll_cons ht _ hfresh]
    simp

section Stages
variable [HasSqrt K]

def boxesOf (tracks : Dict String (STrack K)) (ids : List String) : List (Xyxy K) :=
  ids.filterMap (fun id => (tracks.get? id).map STrack.currentBox)

/-- IoU of the track and the detection at two positions of a stage. -/
def stageIou (tracks : Dict String (STrack K)) (ids : List String) (dets : List (Detection K)) :
    Nat → Nat → K :=
  pairIou (boxesOf tracks ids) (dets.map (fun d => d.box.asXyxy))

theorem boxesOf_ok {tracks : Dict String (STrack K)} {ids : List String}
    (hsub : ∀ id ∈ ids, id ∈ tracks.keys) :
    ids.mapM (fun tid => do
      let track ← tracks.getItem tid
      return track.currentBox) = .ok (boxesOf tracks ids) ∧
    (boxesOf tracks ids).length = ids.length ∧
    ∀ i : Nat, (boxesOf tracks ids)[i]? =
      (ids[i]?).bind (fun id => (tracks.get? id).map STrack.currentBox) := by
  induction ids with
  | nil => exact ⟨rfl, rfl, by simp [boxesOf]⟩
  | cons id ids ih =>
    obtain ⟨h1, h2, h3⟩ := ih (fun j hj => hsub j (List.mem_cons_of_mem id hj))
    obtain ⟨t, ht⟩ := Dict.mem_keys_iff.mp (hsub id List.mem_cons_self)
    have hcons : boxesOf tracks (id :: ids) = t.currentBox :: boxesOf tracks ids := by
      simp [boxesOf, ht]
    refine ⟨?_, by simp [hcons, h2], ?_⟩
    · rw [List.mapM_cons, h1, Dict.getItem_eq_ok.mpr ht, hcons]
      rfl
    · intro i
      rw [hcons]
      cases i with
      | zero => simp [ht]
      | succ i => simpa using h3 i

/-- What one association stage establishes about its result. -/
structure StageRun (solver : LinearSumAssignment K) (θ : K) (ids : List String)
    (dets : List (Detection K)) (tracks : Dict String (STrack K)) (r : MatchResult) : Prop where
  matching : IsMatching ids.length dets.length r.matches_
  left : r = gated ids.length dets.length r.matches_
  gate : ∀ p ∈ r.matches_, θ ≤ stageIou tracks ids dets p.1 p.2
  optimal : SolvesAssignment solver →
    ∃ ps, IsMaximum ids.length dets.length (stageIou tracks ids dets) ps ∧
      r.matches_ = ps.filter (fun p => decide (stageIou tracks ids dets p.1 p.2 ≥ θ))

variable [IsStrictOrderedRing K]

/-- A stage over existing tracks never raises; it marks exactly the tracks its
result names and appends their ids. -/
theorem stage_ok {solver : LinearSumAssignment K} (hs : Assigns solver) (θ : K)
    {ids : List String} (hids : ids.Nodup) (dets : List (Detection K))
    {tracks : Dict String (STrack K)} (hsub : ∀ id ∈ ids, id ∈ tracks.keys)
    (hh : AllHealthy tracks) (matched : List String) :
    ∃ r, StageRun solver θ ids dets tracks r ∧
      ByteTracker.stage solver θ ids dets tracks matched =
        .ok (r, markAll tracks (assigned ids dets r.matches_),
          matched ++ (assigned ids dets r.matches_).map Prod.fst) := by
  obtain ⟨hboxes, hlen, _⟩ := boxesOf_ok hsub
  obtain ⟨ps, hc, hmax, hmatch⟩ := matchByIou_spec hs (boxesOf tracks ids)
    (dets.map (fun d => d.box.asXyxy)) θ
  rw [hlen, List.length_map] at hc hmax hmatch
  let ms := ps.filter (fun p => decide (stageIou tracks ids dets p.1 p.2 ≥ θ))
  have hms : IsMatching ids.length dets.length ms := hc.toIsMatching.filter _
  refine ⟨gated ids.length dets.length ms, ⟨hms, rfl, ?_, fun h => ⟨ps, hmax h, rfl⟩⟩, ?_⟩
  · intro p hp
    simpa using (List.mem_filter.mp hp).2
  · have hmark := markMatches_ok hids ms hms tracks hsub hh matched
    unfold ByteTracker.stage
    exact bind_eq_ok.mpr ⟨_, hboxes, bind_eq_ok.mpr ⟨_, hmatch, bind_eq_ok.mpr ⟨_, hmark, rfl⟩⟩⟩

end Stages

/-- The tracks after the predict loop. -/
def ByteTracker.predicted (st : ByteTracker K) : Dict String (STrack K) :=
  st.tracks.mapValues (fun _ t => t.predict)

@[simp] theorem keys_predicted {st : ByteTracker K} : st.predicted.keys = st.tracks.keys :=
  Dict.keys_mapValues _ _

theorem predicted_healthy [IsStrictOrderedRing K] {st : ByteTracker K}
    (hh : AllHealthy st.tracks) : AllHealthy st.predicted := by
  intro k t ht
  rw [ByteTracker.predicted, Dict.get?_mapValues] at ht
  obtain ⟨t₀, h₀, rfl⟩ := Option.map_eq_some_iff.mp ht
  exact (hh k t₀ h₀).predict

/-- Tracks with the detections stage 1 gave them; likewise below. -/
def ByteTracker.TwoStages.pairs1 (a : ByteTracker.TwoStages K) : List (String × Detection K) :=
  assigned a.activeIds a.highConf a.stage1.matches_

def ByteTracker.TwoStages.pairs2 (a : ByteTracker.TwoStages K) : List (String × Detection K) :=
  assigned a.remainingTrackIds a.lowConf a.stage2.matches_

def ByteTracker.ThreeStages.pairs3 (b : ByteTracker.ThreeStages K) : List (String × Detection K) :=
  assigned b.tentativeIds b.leftoverHigh b.stage3.matches_

/-- Every pair the three stages matched, in the order they were marked. -/
def matchedPairs (a : ByteTracker.TwoStages K) (b : ByteTracker.ThreeStages K) :
    List (String × Detection K) :=
  a.pairs1 ++ a.pairs2 ++ b.pairs3

section Update
variable [HasSqrt K]

/-- The locals of `update` after stage 2, in terms of what its stages matched. -/
structure FirstStages (solver : LinearSumAssignment K) (st : ByteTracker K)
    (ds : List (Detection K)) (a : ByteTracker.TwoStages K) : Prop where
  highConf : a.highConf = ds.filter ByteTracker.isHighConf
  lowConf : a.lowConf = ds.filter ByteTracker.isLowConf
  activeIds : a.activeIds = st.tracks.keys
  run1 : StageRun solver trackMatchIouThreshold a.activeIds a.highConf st.predicted a.stage1
  remaining : a.remainingTrackIds = a.activeIds.filter (fun id => id ∉ a.pairs1.map Prod.fst)
  run2 : StageRun solver trackLowConfMatchIouThreshold a.remainingTrackIds a.lowConf
    (markAll st.predicted a.pairs1) a.stage2
  tracks : a.tracks = markAll st.predicted (a.pairs1 ++ a.pairs2)
  matched : a.matchedTrackIds = (a.pairs1 ++ a.pairs2).map Prod.fst

/-- The locals of `update` after stage 3. -/
structure ThirdStage (solver : LinearSumAssignment K) (st : ByteTracker K)
    (a : ByteTracker.TwoStages K) (b : ByteTracker.ThreeStages K) : Prop where
  tentative : b.tentativeIds =
    (a.remainingTrackIds.filter (fun id => id ∉ a.pairs2.map Prod.fst)).filter (fun id =>
      ((a.tracks.get? id).map (fun t => decide (t.state = .tentative))).getD false)
  leftover : b.leftoverHigh = pick a.highConf a.stage1.unmatchedDetections
  run3 : StageRun solver trackUnconfirmedMatchIouThreshold b.tentativeIds b.leftoverHigh a.tracks
    b.stage3
  tracks : b.tracks = markAll st.predicted (matchedPairs a b)
  matched : b.matchedTrackIds = (matchedPairs a b).map Prod.fst

theorem assigned_keys_subset {ids : List String} {xs : List β} {ps : List (Nat × Nat)} :
    ∀ k ∈ (assigned ids xs ps).map Prod.fst, k ∈ ids := by
  intro k hk
  obtain ⟨⟨k', x⟩, hm, rfl⟩ := List.mem_map.mp hk
  obtain ⟨i, _, _, hi, _⟩ := mem_assigned.mp hm
  exact List.mem_of_getElem? hi

section Facts
variable {solver : LinearSumAssignment K} {st : ByteTracker K} {ds : List (Detection K)}
  {a : ByteTracker.TwoStages K} {b : ByteTracker.ThreeStages K}

theorem FirstStages.activeIds_nodup (h : FirstStages solver st ds a) : a.activeIds.Nodup := by
  rw [h.activeIds]
  exact st.tracks.keys_nodup

theorem FirstStages.remaining_nodup (h : FirstStages solver st ds a) :
    a.remainingTrackIds.Nodup := by
  rw [h.remaining]
  exact h.activeIds_nodup.filter _

theorem FirstStages.remaining_active (h : FirstStages solver st ds a) :
    ∀ k ∈ a.remainingTrackIds, k ∈ a.activeIds ∧ k ∉ a.pairs1.map Prod.fst := by
  intro k hk
  rw [h.remaining] at hk
  simpa using List.mem_filter.mp hk

theorem FirstStages.pairs_nodup (h : FirstStages solver st ds a) :
    ((a.pairs1 ++ a.pairs2).map Prod.fst).Nodup := by
  rw [List.map_append, List.nodup_append]
  refine ⟨assigned_fst_nodup h.activeIds_nodup h.run1.matching,
    assigned_fst_nodup h.remaining_nodup h.run2.matching, ?_⟩
  intro k hk k' hk' he
  subst he
  exact (h.remaining_active k (assigned_keys_subset k hk')).2 hk

theorem FirstStages.pairs_active (h : FirstStages solver st ds a) :
    ∀ k ∈ (a.pairs1 ++ a.pairs2).map Prod.fst, k ∈ a.activeIds := by
  intro k hk
  rw [List.map_append, List.mem_append] at hk
  rcases hk with hk | hk
  · exact assigned_keys_subset k hk
  · exact (h.remaining_active k (assigned_keys_subset k hk)).1

/-- A track offered to stage 3 is one that neither earlier stage matched. -/
theorem ThirdStage.tentative_unmatched (h : FirstStages solver st ds a)
    (h3 : ThirdStage solver st a b) :
    ∀ k ∈ b.tentativeIds, k ∈ a.activeIds ∧ k ∉ (a.pairs1 ++ a.pairs2).map Prod.fst := by
  intro k hk
  rw [h3.tentative] at hk
  obtain ⟨hr, hn⟩ := List.mem_filter.mp (List.mem_filter.mp hk).1
  obtain ⟨ha, h1⟩ := h.remaining_active k hr
  refine ⟨ha, ?_⟩
  rw [List.map_append, List.mem_append]
  intro hx
  rcases hx with hc | hc
  · exact h1 hc
  · exact (by simpa using hn : k ∉ a.pairs2.map Prod.fst) hc

theorem ThirdStage.tentative_nodup (h : FirstStages solver st ds a)
    (h3 : ThirdStage solver st a b) : b.tentativeIds.Nodup := by
  rw [h3.tentative]
  exact (h.remaining_nodup.filter _).filter _

theorem ThirdStage.pairs_nodup (h : FirstStages solver st ds a)
    (h3 : ThirdStage solver st a b) :
    ((matchedPairs a b).map Prod.fst).Nodup := by
  rw [matchedPairs, List.map_append, List.nodup_append]
  refine ⟨h.pairs_nodup, assigned_fst_nodup (h3.tentative_nodup h) h3.run3.matching, ?_⟩
  intro k hk k' hk' he
  subst he
  exact (h3.tentative_unmatched h k (assigned_keys_subset k hk')).2 hk

theorem ThirdStage.pairs_active (h : FirstStages solver st ds a)
    (h3 : ThirdStage solver st a b) :
    ∀ k ∈ (matchedPairs a b).map Prod.fst, k ∈ a.activeIds := by
  intro k hk
  rw [matchedPairs, List.map_append, List.mem_append] at hk
  rcases hk with hk | hk
  · exact h.pairs_active k hk
  · exact (h3.tentative_unmatched h k (assigned_keys_subset k hk)).1

end Facts

variable {solver : LinearSumAssignment K} {st : ByteTracker K}

theorem pick_left {ids : List String} {dets : List (Detection K)} {tracks : Dict String (STrack K)}
    {r : MatchResult} (hids : ids.Nodup) (h : StageRun solver θ ids dets tracks r) :
    r.unmatchedTracks.mapM (fun i => index ids i) =
      .ok (ids.filter (fun id => id ∉ (assigned ids dets r.matches_).map Prod.fst)) := by
  rw [h.left]
  simp only [gated]
  rw [mapM_index (fun i hi => List.mem_range.mp (List.mem_filter.mp hi).1),
    pick_unmatched hids h.matching]
  rfl

/-- The detections stage 1 left over can all be looked up. -/
theorem FirstStages.leftover_ok {ds : List (Detection K)} {a : ByteTracker.TwoStages K}
    (h : FirstStages solver st ds a) :
    a.stage1.unmatchedDetections.mapM (fun i => index a.highConf i) =
      .ok (pick a.highConf a.stage1.unmatchedDetections) := by
  apply mapM_index
  intro i hi
  rw [h.run1.left] at hi
  exact (mem_unmatchedDetections.mp hi).1

omit [HasSqrt K] in
/-- The comprehension over the states of `ids` keeps the tentative tracks. -/
theorem tentativeIds_ok {ids : List String} {tracks : Dict String (STrack K)}
    (hsub : ∀ id ∈ ids, id ∈ tracks.keys) :
    ∃ states, ids.mapM (fun tid => do
        let track ← tracks.getItem tid
        return (tid, track.state)) = .ok states ∧
      (states.filter (fun p => p.2 = .tentative)).map Prod.fst = ids.filter (fun id =>
        ((tracks.get? id).map (fun t => decide (t.state = .tentative))).getD false) := by
  let state := fun k => ((tracks.get? k).map STrack.state).getD .removed
  refine ⟨ids.map (fun k => (k, state k)), ?_, ?_⟩
  · apply mapM_ok
    intro k hk
    obtain ⟨t, ht⟩ := Dict.mem_keys_iff.mp (hsub k hk)
    simp [Dict.getItem_eq_ok.mpr ht, state, ht]
  · rw [List.filter_map, List.map_map]
    simp only [Function.comp_def, List.map_id']
    apply List.filter_congr
    intro k _
    cases ht : tracks.get? k <;> simp [state, ht]

variable [IsStrictOrderedRing K]

theorem firstStages_ok (hs : Assigns solver) (hh : AllHealthy st.tracks)
    (ds : List (Detection K)) :
    ∃ a, ByteTracker.firstStages solver st ds = .ok a ∧ FirstStages solver st ds a := by
  have hids : st.predicted.keys.Nodup := st.predicted.keys_nodup
  obtain ⟨r1, hr1, h1⟩ := stage_ok hs trackMatchIouThreshold hids
    (ds.filter ByteTracker.isHighConf) (fun _ hid => hid) (predicted_healthy hh) []
  let pairs1 := assigned st.predicted.keys (ds.filter ByteTracker.isHighConf) r1.matches_
  let remaining := st.predicted.keys.filter (fun id => id ∉ pairs1.map Prod.fst)
  have hrem := pick_left hids hr1
  obtain ⟨r2, hr2, h2⟩ := stage_ok hs trackLowConfMatchIouThreshold
    (hids.filter _ : remaining.Nodup) (ds.filter ByteTracker.isLowConf)
    (fun k hk => by rw [keys_markAll]; exact (List.mem_filter.mp hk).1)
    (markAll_healthy (predicted_healthy hh) pairs1) ([] ++ pairs1.map Prod.fst)
  let pairs2 := assigned remaining (ds.filter ByteTracker.isLowConf) r2.matches_
  let a : ByteTracker.TwoStages K := {
    highConf := ds.filter ByteTracker.isHighConf, lowConf := ds.filter ByteTracker.isLowConf
    activeIds := st.predicted.keys, stage1 := r1, remainingTrackIds := remaining, stage2 := r2
    tracks := markAll (markAll st.predicted pairs1) pairs2
    matchedTrackIds := [] ++ pairs1.map Prod.fst ++ pairs2.map Prod.fst }
  refine ⟨a, ?_, ?_⟩
  · unfold ByteTracker.firstStages
    exact bind_eq_ok.mpr ⟨_, h1, bind_eq_ok.mpr ⟨_, hrem, bind_eq_ok.mpr ⟨_, h2, rfl⟩⟩⟩
  · refine ⟨rfl, rfl, keys_predicted, hr1, rfl, hr2, markAll_append ?_, ?_⟩
    rotate_left
    · rw [List.map_append]
      rfl
    intro k hk hk'
    have := (List.mem_filter.mp (assigned_keys_subset k hk')).2
    exact (by simpa using this : k ∉ pairs1.map Prod.fst) hk

theorem thirdStage_ok (hs : Assigns solver) (hh : AllHealthy st.tracks)
    {ds : List (Detection K)} {a : ByteTracker.TwoStages K} (h : FirstStages solver st ds a) :
    ∃ b, ByteTracker.thirdStage solver a = .ok b ∧ ThirdStage solver st a b := by
  let still := a.remainingTrackIds.filter (fun id => id ∉ a.pairs2.map Prod.fst)
  have hstill : a.stage2.unmatchedTracks.mapM (fun i => index a.remainingTrackIds i) = .ok still :=
    pick_left h.remaining_nodup h.run2
  have hkeys : ∀ k ∈ still, k ∈ a.tracks.keys := by
    intro k hk
    rw [h.tracks, keys_markAll, keys_predicted, ← h.activeIds]
    exact (h.remaining_active k (List.mem_filter.mp hk).1).1
  obtain ⟨states, hstates, htent⟩ := tentativeIds_ok hkeys
  let tentative := still.filter (fun id =>
    ((a.tracks.get? id).map (fun t => decide (t.state = .tentative))).getD false)
  have hhealthy : AllHealthy a.tracks := by
    rw [h.tracks]
    exact markAll_healthy (predicted_healthy hh) _
  obtain ⟨r3, hr3, h3⟩ := stage_ok hs trackUnconfirmedMatchIouThreshold
    ((h.remaining_nodup.filter _).filter _ : tentative.Nodup)
    (pick a.highConf a.stage1.unmatchedDetections)
    (fun k hk => hkeys k (List.mem_filter.mp hk).1) hhealthy a.matchedTrackIds
  let pairs3 := assigned tentative (pick a.highConf a.stage1.unmatchedDetections) r3.matches_
  let b : ByteTracker.ThreeStages K := {
    tentativeIds := tentative, leftoverHigh := pick a.highConf a.stage1.unmatchedDetections
    stage3 := r3, tracks := markAll a.tracks pairs3
    matchedTrackIds := a.matchedTrackIds ++ pairs3.map Prod.fst }
  refine ⟨b, ?_, rfl, rfl, hr3, ?_, ?_⟩
  · unfold ByteTracker.thirdStage
    refine bind_eq_ok.mpr ⟨_, hstill, bind_eq_ok.mpr ⟨_, hstates,
      bind_eq_ok.mpr ⟨_, h.leftover_ok, ?_⟩⟩⟩
    rw [htent]
    exact bind_eq_ok.mpr ⟨_, h3, rfl⟩
  · change markAll a.tracks pairs3 = _
    rw [h.tracks]
    apply markAll_append
    intro k hk hk'
    obtain ⟨hr, hn⟩ := List.mem_filter.mp (List.mem_filter.mp (assigned_keys_subset k hk')).1
    rw [List.map_append, List.mem_append] at hk
    rcases hk with hk | hk
    · exact (h.remaining_active k hr).2 hk
    · exact (by simpa using hn : k ∉ a.pairs2.map Prod.fst) hk
  · change a.matchedTrackIds ++ pairs3.map Prod.fst = _
    rw [h.matched, ← List.map_append]
    rfl

end Update
end CamTrack
