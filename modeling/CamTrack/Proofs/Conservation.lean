import CamTrack.Proofs.Update

namespace CamTrack
open Python Assignment Positions InferenceConstants

variable {K : Type} [Field K] [LinearOrder K]

/-- Positions in the frame of the detections stage 1 left over. -/
def leftoverPositions (ds : List (Detection K)) (a : ByteTracker.TwoStages K) : List Nat :=
  pick (positions ByteTracker.isHighConf ds) a.stage1.unmatchedDetections

/-- Which position of the frame the three stages gave to which track. -/
def matchedPositions (ds : List (Detection K)) (a : ByteTracker.TwoStages K)
    (b : ByteTracker.ThreeStages K) : List (String × Nat) :=
  assigned a.activeIds (positions ByteTracker.isHighConf ds) a.stage1.matches_ ++
  assigned a.remainingTrackIds (positions ByteTracker.isLowConf ds) a.stage2.matches_ ++
  assigned b.tentativeIds (leftoverPositions ds a) b.stage3.matches_

/-- Positions of the frame that start new tracks. -/
def spawnedPositions (ds : List (Detection K)) (a : ByteTracker.TwoStages K)
    (b : ByteTracker.ThreeStages K) : List Nat :=
  pick (leftoverPositions ds a) b.stage3.unmatchedDetections

theorem high_not_low {d : Detection K} (h : ByteTracker.isHighConf d = true) :
    ByteTracker.isLowConf d = false := by
  simp only [ByteTracker.isHighConf, decide_eq_true_eq] at h
  simp [ByteTracker.isLowConf, h]

theorem lowConf_le_highConf [IsStrictOrderedRing K] :
    (trackLowConfThreshold : K) ≤ trackHighConfThreshold := by
  norm_num [trackLowConfThreshold, trackHighConfThreshold]

theorem settle_hits (pairs : List (String × Detection K)) (k : String) (t : STrack K) :
    (settle pairs k t).hits = if k ∈ pairs.map Prod.fst then t.hits + 1 else t.hits := by
  by_cases hk : k ∈ pairs.map Prod.fst
  · obtain ⟨⟨k', d⟩, hm, rfl⟩ := List.mem_map.mp hk
    cases hl : pairs.lookup k' with
    | none => exact absurd hk (lookup_eq_none.mp hl)
    | some d' => simp [settle, hl, hk, STrack.matched, STrack.predict]
  · simp [settle_of_not_mem hk, hk, STrack.markUnmatched, STrack.predict]

section Positions
variable {ds : List (Detection K)}

theorem positions_matching {p : Detection K → Bool} {n : Nat}
    (h : IsMatching n (ds.filter p).length ms) : IsMatching n (positions p ds).length ms := by
  rwa [positions_length]

/-- The elements of a matching by position are its elements by value. -/
theorem assigned_pick {xs : List String} {is : List Nat} (his : ∀ i ∈ is, i < ds.length)
    {k : String} {j : Nat} (h : (k, j) ∈ assigned xs is ms) :
    ∃ d, ds[j]? = some d ∧ (k, d) ∈ assigned xs (pick ds is) ms := by
  obtain ⟨p, q, hp, hx, hj⟩ := mem_assigned.mp h
  have hlt := his j (List.mem_of_getElem? hj)
  refine ⟨ds[j], List.getElem?_eq_getElem hlt, mem_assigned.mpr ⟨p, q, hp, hx, ?_⟩⟩
  have hpick := pick_pick his [q]
  simp only [pick, List.filterMap_cons, List.filterMap_nil, hj, hlt,
    List.getElem?_eq_getElem] at hpick ⊢
  cases hq : (List.filterMap (fun i => ds[i]?) is)[q]? with
  | none => simp [hq] at hpick
  | some d => simpa [hq] using hpick

theorem leftover_lt_length (ds : List (Detection K)) (a : ByteTracker.TwoStages K) :
    ∀ i ∈ leftoverPositions ds a, i < ds.length := by
  intro i hi
  obtain ⟨j, _, hj⟩ := mem_pick.mp hi
  exact positions_lt (List.mem_of_getElem? hj)

end Positions

section Facts
variable [HasSqrt K] {solver : LinearSumAssignment K} {st : ByteTracker K}
  {ds : List (Detection K)} {a : ByteTracker.TwoStages K} {b : ByteTracker.ThreeStages K}

theorem ThirdStage.leftover_pick (h : FirstStages solver st ds a) (h3 : ThirdStage solver st a b) :
    b.leftoverHigh = pick ds (leftoverPositions ds a) := by
  rw [h3.leftover, h.highConf, ← pick_positions, pick_pick (fun i hi => positions_lt hi)]
  rfl

theorem ThirdStage.spawned_pick (h : FirstStages solver st ds a) (h3 : ThirdStage solver st a b) :
    b.spawned = pick ds (spawnedPositions ds a b) := by
  rw [ByteTracker.ThreeStages.spawned, h3.leftover_pick h, pick_pick (leftover_lt_length ds a)]
  rfl

theorem ThirdStage.leftover_length (h : FirstStages solver st ds a)
    (h3 : ThirdStage solver st a b) : (leftoverPositions ds a).length = b.leftoverHigh.length := by
  rw [h3.leftover_pick h, pick_length (leftover_lt_length ds a)]

theorem FirstStages.matching1 (h : FirstStages solver st ds a) :
    IsMatching a.activeIds.length (positions ByteTracker.isHighConf ds).length a.stage1.matches_ :=
  positions_matching (h.highConf ▸ h.run1.matching)

theorem FirstStages.matching2 (h : FirstStages solver st ds a) :
    IsMatching a.remainingTrackIds.length (positions ByteTracker.isLowConf ds).length
      a.stage2.matches_ :=
  positions_matching (h.lowConf ▸ h.run2.matching)

theorem ThirdStage.matching3 (h : FirstStages solver st ds a) (h3 : ThirdStage solver st a b) :
    IsMatching b.tentativeIds.length (leftoverPositions ds a).length b.stage3.matches_ := by
  rw [h3.leftover_length h]
  exact h3.run3.matching

/-- The positions name the same tracks as the pairs the stages marked. -/
theorem ThirdStage.matched_fst (h : FirstStages solver st ds a) (h3 : ThirdStage solver st a b) :
    (matchedPositions ds a b).map Prod.fst = (matchedPairs a b).map Prod.fst := by
  simp only [matchedPositions, matchedPairs, List.map_append, ByteTracker.TwoStages.pairs1,
    ByteTracker.TwoStages.pairs2, ByteTracker.ThreeStages.pairs3]
  rw [assigned_fst h.matching1, assigned_fst h.matching2, assigned_fst (h3.matching3 h),
    assigned_fst h.run1.matching, assigned_fst h.run2.matching, assigned_fst h3.run3.matching]

theorem ThirdStage.matched_pair (h : FirstStages solver st ds a) (h3 : ThirdStage solver st a b)
    (hm : (k, j) ∈ matchedPositions ds a b) :
    ∃ d, ds[j]? = some d ∧ (k, d) ∈ matchedPairs a b := by
  simp only [matchedPositions, List.mem_append] at hm
  simp only [matchedPairs, List.mem_append]
  rcases hm with (hm | hm) | hm
  · obtain ⟨d, hd, hp⟩ := assigned_pick (fun i hi => positions_lt hi) hm
    rw [pick_positions, ← h.highConf] at hp
    exact ⟨d, hd, .inl (.inl hp)⟩
  · obtain ⟨d, hd, hp⟩ := assigned_pick (fun i hi => positions_lt hi) hm
    rw [pick_positions, ← h.lowConf] at hp
    exact ⟨d, hd, .inl (.inr hp)⟩
  · obtain ⟨d, hd, hp⟩ := assigned_pick (leftover_lt_length ds a) hm
    rw [← h3.leftover_pick h] at hp
    exact ⟨d, hd, .inr hp⟩

/-- High-confidence positions are matched in stage 1, matched in stage 3 or spawn. -/
theorem ThirdStage.high_perm (h : FirstStages solver st ds a) (h3 : ThirdStage solver st a b) :
    (positions ByteTracker.isHighConf ds).Perm
      ((assigned a.activeIds (positions ByteTracker.isHighConf ds)
        a.stage1.matches_).map Prod.snd ++
      ((assigned b.tentativeIds (leftoverPositions ds a) b.stage3.matches_).map Prod.snd ++
      spawnedPositions ds a b)) := by
  have hfirst := assigned_snd_perm h.matching1
  have hthird := assigned_snd_perm (h3.matching3 h)
  have hleft : leftoverPositions ds a = pick (positions ByteTracker.isHighConf ds)
      ((List.range (positions ByteTracker.isHighConf ds).length).filter
        (fun j => j ∉ a.stage1.matches_.map Prod.snd)) := by
    rw [leftoverPositions, h.run1.left, positions_length, ← h.highConf]
    rfl
  have hspawn : spawnedPositions ds a b = pick (leftoverPositions ds a)
      ((List.range (leftoverPositions ds a).length).filter
        (fun j => j ∉ b.stage3.matches_.map Prod.snd)) := by
    rw [spawnedPositions, h3.run3.left, h3.leftover_length h]
    rfl
  rw [← hleft] at hfirst
  rw [← hspawn] at hthird
  exact hfirst.trans (hthird.append_left _)

theorem FirstStages.low_positions (h : FirstStages solver st ds a) :
    ((assigned a.remainingTrackIds (positions ByteTracker.isLowConf ds)
      a.stage2.matches_).map Prod.snd).Nodup ∧
    ∀ j ∈ (assigned a.remainingTrackIds (positions ByteTracker.isLowConf ds)
      a.stage2.matches_).map Prod.snd, j ∈ positions ByteTracker.isLowConf ds := by
  refine ⟨assigned_snd_nodup (positions_nodup _ _) h.matching2, ?_⟩
  intro j hj
  rw [assigned_snd h.matching2] at hj
  obtain ⟨_, _, he⟩ := mem_pick.mp hj
  exact List.mem_of_getElem? he

/-- Every position that takes part, once: the high-confidence ones all do. -/
theorem ThirdStage.parts_perm (h : FirstStages solver st ds a) (h3 : ThirdStage solver st a b) :
    ((matchedPositions ds a b).map Prod.snd ++ spawnedPositions ds a b).Perm
      (positions ByteTracker.isHighConf ds ++
        (assigned a.remainingTrackIds (positions ByteTracker.isLowConf ds)
          a.stage2.matches_).map Prod.snd) := by
  refine List.Perm.trans ?_ ((h3.high_perm h).symm.append_right _)
  simp only [matchedPositions, List.map_append, List.append_assoc]
  apply List.Perm.append_left
  exact List.perm_append_comm.trans (by simp)

theorem ThirdStage.parts_nodup (h : FirstStages solver st ds a) (h3 : ThirdStage solver st a b) :
    ((matchedPositions ds a b).map Prod.snd ++ spawnedPositions ds a b).Nodup := by
  obtain ⟨hlow, hsub⟩ := h.low_positions
  rw [(h3.parts_perm h).nodup_iff, List.nodup_append]
  refine ⟨positions_nodup _ _, hlow, ?_⟩
  intro i hi j hj he
  subst he
  obtain ⟨d, hd, hh⟩ := mem_positions.mp hi
  obtain ⟨d', hd', hl⟩ := mem_positions.mp (hsub i hj)
  obtain rfl := Option.some.inj (hd.symm.trans hd')
  simp [high_not_low hh] at hl

theorem ThirdStage.spawned_positions (h : FirstStages solver st ds a)
    (h3 : ThirdStage solver st a b) :
    ∀ j ∈ spawnedPositions ds a b, j ∈ positions ByteTracker.isHighConf ds := by
  intro j hj
  rw [(h3.high_perm h).mem_iff]
  exact List.mem_append_right _ (List.mem_append_right _ hj)

theorem ThirdStage.spawned_sorted (h : FirstStages solver st ds a)
    (h3 : ThirdStage solver st a b) : (spawnedPositions ds a b).Pairwise (· < ·) := by
  have h1 : (leftoverPositions ds a).Sublist (positions ByteTracker.isHighConf ds) := by
    rw [leftoverPositions, h.run1.left]
    conv_rhs => rw [← pick_range (positions ByteTracker.isHighConf ds)]
    rw [positions_length, ← h.highConf]
    exact pick_sublist _ List.filter_sublist
  have h2 : (spawnedPositions ds a b).Sublist (leftoverPositions ds a) := by
    rw [spawnedPositions, h3.run3.left]
    conv_rhs => rw [← pick_range (leftoverPositions ds a)]
    rw [h3.leftover_length h]
    exact pick_sublist _ List.filter_sublist
  exact (positions_sorted _ ds).sublist (h2.trans h1)

/-- One frame conserves tracks and detections. `ms` says which position of the
frame went to which track, `spawned` which positions start tracks; `mid` is the
dictionary of old tracks as the cleanup loop finds it. -/
structure Conserves (st : ByteTracker K) (ds : List (Detection K)) (frameId : String)
    (ms : List (String × Nat)) (spawned : List Nat) (mid : Dict String (STrack K))
    (out : List (Track K)) (st' : ByteTracker K) : Prop where
  tracksOnce : (ms.map Prod.fst).Nodup
  existing : ∀ k ∈ ms.map Prod.fst, k ∈ st.tracks.keys
  detectionsOnce : (ms.map Prod.snd ++ spawned).Nodup
  high : ∀ j d, ds[j]? = some d → d.confidence.val ≥ trackHighConfThreshold →
    (ms.map Prod.snd ++ spawned).count j = 1
  spawnedHigh : ∀ j ∈ spawned, ∃ d, ds[j]? = some d ∧ d.confidence.val ≥ trackHighConfThreshold
  matchedAbove : ∀ j ∈ ms.map Prod.snd, ∃ d, ds[j]? = some d ∧
    trackLowConfThreshold ≤ d.confidence.val
  midKeys : mid.keys = st.tracks.keys
  matched : ∀ k j, (k, j) ∈ ms → ∃ t d t', st.tracks.get? k = some t ∧ ds[j]? = some d ∧
    t.predict.markMatched d = .ok t' ∧ mid.get? k = some t'
  unmatched : ∀ k t, st.tracks.get? k = some t → k ∉ ms.map Prod.fst →
    mid.get? k = some t.predict.markUnmatched
  hits : ∀ k t t', st.tracks.get? k = some t → mid.get? k = some t' →
    t'.hits = if k ∈ ms.map Prod.fst then t.hits + 1 else t.hits
  entries : st'.tracks.entries = (mid.filter (fun _ t => !ByteTracker.expired t)).entries ++
    newTracks st.cameraId st.idAllocator.counter (pick ds spawned)
  spawnedSorted : spawned.Pairwise (· < ·)
  returned : out = st'.tracks.values.map (STrack.toTrack frameId)
  returnedIds : out.map Track.trackId = st'.tracks.keys
  returnedOnce : (out.map Track.trackId).Nodup

variable [IsStrictOrderedRing K] {st' : ByteTracker K} {out : List (Track K)}

theorem Updated.trackIds (h : Updated solver st ds frameId a b out st') (hw : WellFormed st) :
    out.map Track.trackId = st'.tracks.keys := by
  have hw' := h.wellFormed hw
  rw [h.out, List.map_map, Dict.values, List.map_map, Dict.keys]
  apply List.map_congr_left
  rintro ⟨k, t⟩ he
  exact (hw'.issued k t (Dict.get?_eq_some.mpr he)).1

theorem Updated.conserves (h : Updated solver st ds frameId a b out st') (hw : WellFormed st) :
    Conserves st ds frameId (matchedPositions ds a b) (spawnedPositions ds a b)
      (st.tracks.mapValues (settle (matchedPairs a b))) out st' := by
  have h1 := h.first
  have h3 := h.third
  have hfst := h3.matched_fst h1
  have hnodup := h3.parts_nodup h1
  have hids := h.trackIds hw
  constructor
  case tracksOnce => rw [hfst]; exact h3.pairs_nodup h1
  case existing =>
    intro k hk
    rw [← h1.activeIds]
    exact h3.pairs_active h1 k (hfst ▸ hk)
  case detectionsOnce => exact hnodup
  case high =>
    intro j d hd hc
    apply List.count_eq_one_of_mem hnodup
    rw [(h3.parts_perm h1).mem_iff]
    exact List.mem_append_left _
      (mem_positions.mpr ⟨d, hd, by simpa [ByteTracker.isHighConf] using hc⟩)
  case spawnedHigh =>
    intro j hj
    obtain ⟨d, hd, hh⟩ := mem_positions.mp (h3.spawned_positions h1 j hj)
    exact ⟨d, hd, by simpa [ByteTracker.isHighConf] using hh⟩
  case matchedAbove =>
    intro j hj
    have hm := (h3.parts_perm h1).mem_iff.mp (List.mem_append_left _ hj)
    rcases List.mem_append.mp hm with hm | hm
    · obtain ⟨d, hd, hh⟩ := mem_positions.mp hm
      have hge : trackHighConfThreshold ≤ d.confidence.val := by
        simpa [ByteTracker.isHighConf] using hh
      exact ⟨d, hd, lowConf_le_highConf.trans hge⟩
    · obtain ⟨d, hd, hl⟩ := mem_positions.mp (h1.low_positions.2 j hm)
      simp only [ByteTracker.isLowConf, decide_eq_true_eq] at hl
      exact ⟨d, hd, hl.1⟩
  case midKeys => exact Dict.keys_mapValues _ _
  case matched =>
    intro k j hm
    obtain ⟨d, hd, hp⟩ := h3.matched_pair h1 hm
    have hactive := h3.pairs_active h1 k (List.mem_map_of_mem (f := Prod.fst) hp)
    rw [h1.activeIds] at hactive
    obtain ⟨t, ht⟩ := Dict.mem_keys_iff.mp hactive
    refine ⟨t, d, t.predict.matched d, ht, hd,
      markMatched_ok (t := t.predict) (hw.healthy k t ht).predict d, ?_⟩
    rw [Dict.get?_mapValues, ht, Option.map_some, settle_of_mem (h3.pairs_nodup h1) hp]
  case unmatched =>
    intro k t ht hk
    rw [Dict.get?_mapValues, ht, Option.map_some, settle_of_not_mem (hfst ▸ hk)]
  case hits =>
    intro k t t' ht ht'
    rw [Dict.get?_mapValues, ht, Option.map_some] at ht'
    rw [← Option.some.inj ht', settle_hits, hfst]
  case entries => rw [h.entries, h3.spawned_pick h1]
  case spawnedSorted => exact h3.spawned_sorted h1
  case returned => exact h.out
  case returnedIds => exact hids
  case returnedOnce => rw [hids]; exact st'.tracks.keys_nodup

end Facts

section Update
variable [HasSqrt K] {solver : LinearSumAssignment K} {st : ByteTracker K}

/-- Detections below the low threshold are never looked at. -/
theorem update_congr {ds ds' : List (Detection K)}
    (hd : ds'.filter (fun d => decide (trackLowConfThreshold ≤ d.confidence.val)) =
      ds.filter (fun d => decide (trackLowConfThreshold ≤ d.confidence.val)))
    [IsStrictOrderedRing K] (frameId : String) :
    ByteTracker.update solver st ds' frameId = ByteTracker.update solver st ds frameId := by
  have hfilter : ∀ (p : Detection K → Bool),
      (∀ d, p d = true → trackLowConfThreshold ≤ d.confidence.val) →
      ds'.filter p = ds.filter p := by
    intro p hp
    have hkeep : ∀ xs : List (Detection K), xs.filter p =
        (xs.filter (fun d => decide (trackLowConfThreshold ≤ d.confidence.val))).filter p := by
      intro xs
      rw [List.filter_filter]
      apply List.filter_congr
      intro d _
      cases hpd : p d with
      | true => simp [hp d hpd]
      | false => rfl
    rw [hkeep ds', hkeep ds, hd]
  have hhigh := hfilter ByteTracker.isHighConf (fun d h => lowConf_le_highConf.trans
    (by simpa [ByteTracker.isHighConf] using h))
  have hlow := hfilter ByteTracker.isLowConf (fun d h => by
    simp only [ByteTracker.isLowConf, decide_eq_true_eq] at h
    exact h.1)
  simp only [ByteTracker.update, ByteTracker.associate, ByteTracker.firstStages, hhigh, hlow]

variable [IsStrictOrderedRing K]

/-- One call of `update` never fails a lookup and conserves tracks and detections;
detections below the low threshold change nothing. -/
theorem update_conserves (hs : Assigns solver) (hr : Reachable solver cameraId st)
    (ds : List (Detection K)) (frameId : String) :
    ∃ a b mid out st', ByteTracker.associate solver st ds = .ok (a, b) ∧
      ByteTracker.update solver st ds frameId = .ok (out, st') ∧
      Conserves st ds frameId (matchedPositions ds a b) (spawnedPositions ds a b) mid out st' ∧
      ∀ ds' : List (Detection K),
        ds'.filter (fun d => decide (trackLowConfThreshold ≤ d.confidence.val)) =
          ds.filter (fun d => decide (trackLowConfThreshold ≤ d.confidence.val)) →
        ByteTracker.update solver st ds' frameId = ByteTracker.update solver st ds frameId := by
  obtain ⟨hw, _⟩ := hr.wellFormed hs
  obtain ⟨a, b, out, st', ha, hu, h⟩ := update_ok hs hw ds frameId
  exact ⟨a, b, _, out, st', ha, hu, h.conserves hw, fun ds' hd => update_congr hd frameId⟩

end Update

/-- A frame with one detection of each band after a frame with one square: only
the last takes part. -/
theorem update_conserves_second_frame :
    ∃ mid out st', Conserves
      (.after exhaustiveSolver "cam-1" [([clearSquare], "f1")])
      [unitSquare ⟨1 / 20, by decide +kernel⟩, faintSquare, clearSquare] "f2"
      [("cam-1-1", 2)] [] mid out st' := by
  let ds : List (Detection ℚ) := [unitSquare ⟨1 / 20, by decide +kernel⟩, faintSquare,
    clearSquare]
  obtain ⟨a, b, mid, out, st', ha, _, h, _⟩ := update_conserves exhaustive_solves.toAssigns
    (after_reachable exhaustive_solves.toAssigns "cam-1" [([clearSquare], "f1")]) ds "f2"
  have hparts : (ByteTracker.associate exhaustiveSolver
      (.after exhaustiveSolver "cam-1" [([clearSquare], "f1")]) ds).map
        (fun p => (matchedPositions ds p.1 p.2, spawnedPositions ds p.1 p.2)) =
      .ok ([("cam-1-1", 2)], []) := by decide +kernel
  rw [ha] at hparts
  obtain ⟨hm, hsp⟩ := Prod.mk.inj (Except.ok.inj hparts)
  exact ⟨mid, out, st', hm ▸ hsp ▸ h⟩

end CamTrack
