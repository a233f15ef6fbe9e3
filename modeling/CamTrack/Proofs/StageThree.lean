import CamTrack.Proofs.Update

namespace CamTrack
open Python Assignment Positions InferenceConstants

variable {K : Type} [Field K] [LinearOrder K]

theorem trackMatchIouThreshold_pos [IsStrictOrderedRing K] :
    (0 : K) < trackMatchIouThreshold := by
  norm_num [trackMatchIouThreshold]

theorem twice_match_le_unconfirmed [IsStrictOrderedRing K] :
    (trackMatchIouThreshold : K) + trackMatchIouThreshold ≤ trackUnconfirmedMatchIouThreshold := by
  norm_num [trackMatchIouThreshold, trackUnconfirmedMatchIouThreshold]

section Stages
variable [HasSqrt K]

theorem stageIou_eq {tracks : Dict String (STrack K)} {ids : List String}
    {dets : List (Detection K)} (hsub : ∀ id ∈ ids, id ∈ tracks.keys) (hi : ids[i]? = some k)
    (ht : tracks.get? k = some t) (hj : dets[j]? = some d) :
    stageIou tracks ids dets i j = iou t.currentBox d.box.asXyxy := by
  obtain ⟨_, _, hbox⟩ := boxesOf_ok hsub
  exact pairIou_eq (by rw [hbox i, hi]; simp [ht]) (by simp [hj])

/-- A stage only matches tracks and detections that overlap enough. -/
theorem StageRun.overlap {solver : LinearSumAssignment K} {θ : K}
    {tracks : Dict String (STrack K)} {ids : List String} {dets : List (Detection K)}
    {r : MatchResult} (h : StageRun solver θ ids dets tracks r)
    (hsub : ∀ id ∈ ids, id ∈ tracks.keys) (hm : (k, d) ∈ assigned ids dets r.matches_)
    (ht : tracks.get? k = some t) : θ ≤ iou t.currentBox d.box.asXyxy := by
  obtain ⟨i, j, hp, hi, hj⟩ := mem_assigned.mp hm
  have hgate := h.gate _ hp
  rwa [stageIou_eq hsub hi ht hj] at hgate

/-- `update` with stage 3 deleted: whatever stage 1 left of the high-confidence
detections starts a track. -/
def ByteTracker.updateWithoutStage3 (solver : LinearSumAssignment K) (self : ByteTracker K)
    (detections : List (Detection K)) (frameId : String) :
    Except Error (List (Track K) × ByteTracker K) := do
  let a ← firstStages solver self detections
  let leftoverHigh ← a.stage1.unmatchedDetections.mapM (fun i => index a.highConf i)
  finish self a.activeIds a.matchedTrackIds a.tracks leftoverHigh
    (List.range leftoverHigh.length) frameId

/-- Entries of `st'` under ids that `st` did not have. -/
def newEntries (st st' : ByteTracker K) : List (String × STrack K) :=
  st'.tracks.entries.filter (fun e => e.1 ∉ st.tracks.keys)

section Facts
variable {solver : LinearSumAssignment K} {st st' : ByteTracker K} {ds : List (Detection K)}
  {a : ByteTracker.TwoStages K} {b : ByteTracker.ThreeStages K} {out : List (Track K)}

/-- A track stage 1 left over sits at a position its result lists as unmatched. -/
theorem FirstStages.unmatched_position (h : FirstStages solver st ds a)
    (hk : k ∈ a.activeIds) (hn : k ∉ a.pairs1.map Prod.fst) :
    ∃ i, a.activeIds[i]? = some k ∧ i ∈ a.stage1.unmatchedTracks := by
  obtain ⟨i, hi⟩ := List.mem_iff_getElem?.mp hk
  refine ⟨i, hi, ?_⟩
  rw [h.run1.left, mem_unmatchedTracks]
  refine ⟨(List.getElem?_eq_some_iff.mp hi).1, fun hm => hn ?_⟩
  rw [ByteTracker.TwoStages.pairs1, assigned_fst h.run1.matching, mem_pick]
  exact ⟨i, hm, hi⟩

theorem ThirdStage.leftover_position (h3 : ThirdStage solver st a b) (hd : d ∈ b.leftoverHigh) :
    ∃ j, a.highConf[j]? = some d ∧ j ∈ a.stage1.unmatchedDetections := by
  rw [h3.leftover, mem_pick] at hd
  obtain ⟨j, hj, he⟩ := hd
  exact ⟨j, he, hj⟩

/-- The predicted boxes stage 1 worked on. -/
theorem FirstStages.stage1Iou_eq (h : FirstStages solver st ds a)
    (hi : a.activeIds[i]? = some k) (ht : st.predicted.get? k = some t)
    (hj : a.highConf[j]? = some d) :
    stageIou st.predicted a.activeIds a.highConf i j = iou t.currentBox d.box.asXyxy :=
  stageIou_eq (fun id hid => by rwa [keys_predicted, ← h.activeIds]) hi ht hj

theorem ThirdStage.spawned_leftover (h3 : ThirdStage solver st a b)
    (hnil : b.stage3.matches_ = []) :
    b.stage3.unmatchedDetections = List.range b.leftoverHigh.length ∧
      b.spawned = b.leftoverHigh := by
  have hr : b.stage3.unmatchedDetections = List.range b.leftoverHigh.length := by
    rw [h3.run3.left, hnil]
    simp [gated]
  exact ⟨hr, by rw [ByteTracker.ThreeStages.spawned, hr, pick_range]⟩

/-- Without matches stage 3 leaves its inputs as they were. -/
theorem ThirdStage.inert (h : FirstStages solver st ds a) (h3 : ThirdStage solver st a b)
    (hnil : b.stage3.matches_ = []) :
    b.tracks = a.tracks ∧ b.matchedTrackIds = a.matchedTrackIds := by
  have hp : matchedPairs a b = a.pairs1 ++ a.pairs2 := by
    simp [matchedPairs, ByteTracker.ThreeStages.pairs3, hnil, assigned]
  exact ⟨by rw [h3.tracks, hp, h.tracks], by rw [h3.matched, hp, h.matched]⟩

theorem Updated.newEntries_eq (h : Updated solver st ds frameId a b out st')
    (hw : WellFormed st) :
    newEntries st st' = newTracks st.cameraId st.idAllocator.counter b.spawned := by
  rw [newEntries, h.entries, List.filter_append, List.filter_eq_nil_iff.mpr ?_,
    List.filter_eq_self.mpr ?_, List.nil_append]
  · rintro ⟨k, t⟩ he
    obtain ⟨i, _, _, hk, _⟩ := mem_newTracks he
    have hfresh := hw.fresh (j := st.idAllocator.counter + i + 1) (by omega)
    simpa [hk] using hfresh
  · intro e he
    have hm := List.mem_map_of_mem (f := Prod.fst) (List.mem_filter.mp he).1
    change e.1 ∈ (st.tracks.mapValues (settle (matchedPairs a b))).keys at hm
    simpa using hm

variable [IsStrictOrderedRing K]

/-- Two leftovers of stage 1 overlap by less than twice its threshold. -/
theorem FirstStages.leftover_lt (hs : SolvesAssignment solver) (h : FirstStages solver st ds a)
    (hi : i ∈ a.stage1.unmatchedTracks) (hj : j ∈ a.stage1.unmatchedDetections) :
    stageIou st.predicted a.activeIds a.highConf i j <
      (trackMatchIouThreshold : K) + trackMatchIouThreshold := by
  obtain ⟨ps, hmax, hms⟩ := h.run1.optimal hs
  have hleft := h.run1.left
  rw [hms] at hleft
  rw [hleft] at hi hj
  exact unmatched_lt hmax (pairIou_nonneg _ _) trackMatchIouThreshold_pos hi hj

/-- Stage 3 asks for more overlap than any pair that reaches it can have. -/
theorem stage3_matches_nil (hs : SolvesAssignment solver) (h : FirstStages solver st ds a)
    (h3 : ThirdStage solver st a b) : b.stage3.matches_ = [] := by
  apply List.eq_nil_iff_forall_not_mem.mpr
  rintro ⟨i, j⟩ hp
  obtain ⟨hi, hj⟩ := h3.run3.matching.inRange _ hp
  have hid := List.getElem?_eq_getElem hi
  have hd := List.getElem?_eq_getElem hj
  obtain ⟨hactive, hn⟩ := h3.tentative_unmatched h _ (List.getElem_mem hi)
  have hn1 : b.tentativeIds[i] ∉ a.pairs1.map Prod.fst := fun hm =>
    hn (by rw [List.map_append]; exact List.mem_append_left _ hm)
  obtain ⟨i₁, hi₁, hu⟩ := h.unmatched_position hactive hn1
  obtain ⟨j₁, hj₁, hv⟩ := h3.leftover_position (List.getElem_mem hj)
  -- the box a tentative track shows stage 3 is the one it showed stage 1
  have hsame : a.tracks.get? b.tentativeIds[i] = st.predicted.get? b.tentativeIds[i] := by
    rw [h.tracks, get?_markAll_of_not_mem hn]
  obtain ⟨t, ht⟩ := Dict.mem_keys_iff.mp
    (by rwa [keys_predicted, ← h.activeIds] : b.tentativeIds[i] ∈ st.predicted.keys)
  have hsub : ∀ id ∈ b.tentativeIds, id ∈ a.tracks.keys := by
    intro id hid
    rw [h.tracks, keys_markAll, keys_predicted, ← h.activeIds]
    exact (h3.tentative_unmatched h id hid).1
  have hlt := h.leftover_lt hs hu hv
  rw [h.stage1Iou_eq hi₁ ht hj₁, ← stageIou_eq hsub hid (hsame.trans ht) hd] at hlt
  exact absurd (h3.run3.gate _ hp) (not_le.mpr (hlt.trans_le twice_match_le_unconfirmed))

end Facts

section Determined
variable {solver : LinearSumAssignment K} {st : ByteTracker K} {ds ds' : List (Detection K)}
  {a a' : ByteTracker.TwoStages K}

/-- Stage 1 sees the tracks and the high-confidence detections only. -/
theorem stage1_of_ok (h : ByteTracker.firstStages solver st ds = .ok a) :
    ∃ marked, ByteTracker.stage solver trackMatchIouThreshold st.predicted.keys
      (ds.filter ByteTracker.isHighConf) st.predicted [] = .ok (a.stage1, marked) := by
  unfold ByteTracker.firstStages at h
  obtain ⟨⟨r1, tracks1, matched1⟩, h1, h⟩ := bind_eq_ok.mp h
  obtain ⟨remaining, _, h⟩ := bind_eq_ok.mp h
  obtain ⟨⟨r2, tracks2, matched2⟩, _, h⟩ := bind_eq_ok.mp h
  cases h
  exact ⟨_, h1⟩

theorem stage1_congr (h : ByteTracker.firstStages solver st ds = .ok a)
    (h' : ByteTracker.firstStages solver st ds' = .ok a')
    (hd : ds'.filter ByteTracker.isHighConf = ds.filter ByteTracker.isHighConf) :
    a'.stage1 = a.stage1 := by
  obtain ⟨m, hm⟩ := stage1_of_ok h
  obtain ⟨m', hm'⟩ := stage1_of_ok h'
  rw [hd, hm] at hm'
  exact (congrArg Prod.fst (Except.ok.inj hm')).symm

theorem firstStages_of_associate (h : ByteTracker.associate solver st ds = .ok (a, b)) :
    ByteTracker.firstStages solver st ds = .ok a := by
  obtain ⟨a₁, h1, h⟩ := bind_eq_ok.mp h
  obtain ⟨b₁, _, h⟩ := bind_eq_ok.mp h
  cases h
  exact h1

end Determined

variable [IsStrictOrderedRing K] {solver : LinearSumAssignment K} {st : ByteTracker K}

theorem update_eq_without (hs : SolvesAssignment solver) (hw : WellFormed st)
    (ds : List (Detection K)) (frameId : String) :
    ByteTracker.update solver st ds frameId =
      ByteTracker.updateWithoutStage3 solver st ds frameId := by
  obtain ⟨a, ha, h⟩ := firstStages_ok hs.toAssigns hw.healthy ds
  obtain ⟨b, hb, h3⟩ := thirdStage_ok hs.toAssigns hw.healthy h
  have hnil := stage3_matches_nil hs h h3
  obtain ⟨ht, hm⟩ := h3.inert h hnil
  have hleft := h.leftover_ok
  rw [← h3.leftover] at hleft
  simp only [ByteTracker.update, ByteTracker.associate, ByteTracker.updateWithoutStage3, ha, hb,
    hleft, except_bind_ok, except_pure, ht, hm, (h3.spawned_leftover hnil).1]

/-- Stage 3 never matches: `update` is the version without it, and which
detections start tracks is settled by the tracks and the high-confidence ones. -/
theorem stage3_never_matches (hs : SolvesAssignment solver) (hr : Reachable solver cameraId st)
    (ds : List (Detection K)) (frameId : String) :
    (∃ a b, ByteTracker.associate solver st ds = .ok (a, b) ∧ b.stage3.matches_ = [] ∧
      b.spawned = b.leftoverHigh) ∧
    ByteTracker.update solver st ds frameId =
      ByteTracker.updateWithoutStage3 solver st ds frameId ∧
    ∀ ds' frameId', ds'.filter ByteTracker.isHighConf = ds.filter ByteTracker.isHighConf →
      ∃ out out' st₁ st₂, ByteTracker.update solver st ds frameId = .ok (out, st₁) ∧
        ByteTracker.update solver st ds' frameId' = .ok (out', st₂) ∧
        newEntries st st₁ = newEntries st st₂ := by
  obtain ⟨hw, _⟩ := hr.wellFormed hs.toAssigns
  obtain ⟨a, b, out, st₁, ha, hu, h⟩ := update_ok hs.toAssigns hw ds frameId
  have hnil := stage3_matches_nil hs h.first h.third
  refine ⟨⟨a, b, ha, hnil, (h.third.spawned_leftover hnil).2⟩,
    update_eq_without hs hw ds frameId, ?_⟩
  intro ds' frameId' hd
  obtain ⟨a', b', out', st₂, ha', hu', h'⟩ := update_ok hs.toAssigns hw ds' frameId'
  refine ⟨out, out', st₁, st₂, hu, hu', ?_⟩
  have hnil' := stage3_matches_nil hs h'.first h'.third
  have h1 := stage1_congr (firstStages_of_associate ha) (firstStages_of_associate ha') hd
  rw [h.newEntries_eq hw, h'.newEntries_eq hw, (h.third.spawned_leftover hnil).2,
    (h'.third.spawned_leftover hnil').2, h.third.leftover, h'.third.leftover, h1,
    h.first.highConf, h'.first.highConf, hd]

/-- A square that overlaps the unit square by a quarter of what they cover. -/
def besideSquare : Detection ℚ := { clearSquare with box := ⟨3 / 5, 0, 8 / 5, 1⟩ }

/-- Stage 3 has a tentative track and a detection that overlaps it. -/
theorem stage3_never_matches_second_frame : ∃ a b,
    ByteTracker.associate exhaustiveSolver
        (.after exhaustiveSolver "cam-1" [([clearSquare], "f1")]) [besideSquare] = .ok (a, b) ∧
      b.tentativeIds = ["cam-1-1"] ∧ b.leftoverHigh = [besideSquare] ∧ b.stage3.matches_ = [] ∧
      ByteTracker.update exhaustiveSolver
          (.after exhaustiveSolver "cam-1" [([clearSquare], "f1")]) [besideSquare] "f2" =
        ByteTracker.updateWithoutStage3 exhaustiveSolver
          (.after exhaustiveSolver "cam-1" [([clearSquare], "f1")]) [besideSquare] "f2" := by
  obtain ⟨⟨a, b, ha, hnil, _⟩, hsame, _⟩ := stage3_never_matches exhaustive_solves
    (after_reachable exhaustive_solves.toAssigns "cam-1" [([clearSquare], "f1")]) [besideSquare]
    "f2"
  have hlocals : (ByteTracker.associate exhaustiveSolver
      (.after exhaustiveSolver "cam-1" [([clearSquare], "f1")]) [besideSquare]).map
        (fun p => (p.2.tentativeIds, p.2.leftoverHigh)) =
      .ok (["cam-1-1"], [besideSquare]) := by decide +kernel
  rw [ha] at hlocals
  obtain ⟨htentative, hleftover⟩ := Prod.mk.inj (Except.ok.inj hlocals)
  exact ⟨a, b, ha, htentative, hleftover, hnil, hsame⟩

end Stages
end CamTrack
