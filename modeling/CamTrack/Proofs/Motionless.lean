import CamTrack.Proofs.FourFilters
import CamTrack.Proofs.Iou
import CamTrack.Proofs.Lifecycle
import CamTrack.Proofs.Spawning

namespace CamTrack
open Matrix Python Assignment Positions Lifecycle InferenceConstants

theorem asXyxy_inj {K : Type} {b b' : BoundingBox K} (h : b.asXyxy = b'.asXyxy) : b = b' := by
  cases b
  cases b'
  simpa [BoundingBox.asXyxy] using h

variable {K : Type} [Field K] [LinearOrder K]

/-- A square root that is exact on squares. -/
def RootsOfSquares (K : Type) [Field K] [LinearOrder K] [HasSqrt K] : Prop :=
  ∀ x : K, 0 ≤ x → HasSqrt.sqrt (x * x) = x

/-- A box that is wide and high enough to be turned into a state and back. -/
structure Xyxy.Solid (a : Xyxy K) : Prop where
  width : 1e-6 < a.width
  height : 1e-6 < a.height

section Boxes
variable [IsStrictOrderedRing K] {a : Xyxy K}

theorem Xyxy.Solid.width_pos (h : a.Solid) : 0 < a.width :=
  lt_trans (by norm_num) h.width

theorem Xyxy.Solid.height_pos (h : a.Solid) : 0 < a.height :=
  lt_trans (by norm_num) h.height

theorem Xyxy.Solid.proper (h : a.Solid) : a.Proper :=
  ⟨sub_pos.mp h.width_pos, sub_pos.mp h.height_pos⟩

theorem Xyxy.Solid.measurement (h : a.Solid) : boxToMeasurement a =
    ![a.x1 + a.width / 2, a.y1 + a.height / 2, a.width * a.height, a.width / a.height] := by
  have hw : max a.width 0 = a.width := max_eq_left h.width_pos.le
  have hh : max a.height 0 = a.height := max_eq_left h.height_pos.le
  have hr : (if a.height > 1e-6 then a.width / a.height else 0) = a.width / a.height :=
    if_pos h.height
  change ![a.x1 + a.width / 2, a.y1 + a.height / 2, max a.width 0 * max a.height 0,
    if a.height > 1e-6 then a.width / a.height else 0] = _
  rw [hw, hh, hr]

/-- The conversion to a state and back is exact. -/
theorem Xyxy.Solid.round_trip [HasSqrt K] (hsqrt : RootsOfSquares K) (h : a.Solid) :
    stateToBox (a.x1 + a.width / 2) (a.y1 + a.height / 2) (a.width * a.height)
      (a.width / a.height) = a := by
  have hw := h.width_pos
  have hh := h.height_pos
  have harea : max (a.width * a.height) 0 = a.width * a.height := max_eq_left (mul_pos hw hh).le
  have hsquare : a.width * a.height * (a.width / a.height) = a.width * a.width := by
    field_simp
  have hheight : a.width * a.height / a.width = a.height := by
    field_simp
  simp only [stateToBox, harea, if_pos (div_pos hw hh), hsquare, hsqrt a.width hw.le,
    if_pos h.width, hheight]
  have hx : a.x1 + a.width / 2 + a.width / 2 = a.x2 := by
    rw [add_assoc, add_halves, Xyxy.width, add_sub_cancel]
  have hy : a.y1 + a.height / 2 + a.height / 2 = a.y2 := by
    rw [add_assoc, add_halves, Xyxy.height, add_sub_cancel]
  rw [add_sub_cancel_right, add_sub_cancel_right, hx, hy]

end Boxes

namespace BoxKalmanFilter

/-- The state is that of a filter just created for `box`. -/
def Rests (f : BoxKalmanFilter K) (box : Xyxy K) : Prop := f.x = (init box).x

variable {f f' : BoxKalmanFilter K} {box : Xyxy K}

/-- The innovation is zero. -/
theorem Rests.update (h : f.Rests box) (hu : f.update box = .ok f') : f'.Rests box := by
  have hzero : boxToMeasurement box - H K *ᵥ f.x = 0 := by
    rw [h]
    funext k
    rw [Pi.sub_apply, H_mulVec_apply]
    fin_cases k <;> simp [init]
  rw [update_eq_gain] at hu
  obtain ⟨gain, _, hu⟩ := bind_eq_ok.mp hu
  obtain rfl := Except.ok.inj hu
  change f.x + gain *ᵥ (boxToMeasurement box - H K *ᵥ f.x) = (init box).x
  rw [hzero, mulVec_zero, add_zero, h]

theorem Rests.corrected (h : f.Rests box) : (f.corrected box).Rests box := by
  unfold BoxKalmanFilter.corrected
  split
  · exact h.update (by assumption)
  · exact h

variable [IsStrictOrderedRing K]

theorem Rests.currentBox [HasSqrt K] (hsqrt : RootsOfSquares K) (h : f.Rests box)
    (hbox : box.Solid) :
    f.currentBox = box := by
  have hz := hbox.measurement
  rw [BoxKalmanFilter.currentBox, h]
  simp only [init, hz]
  exact hbox.round_trip hsqrt

/-- Nothing moves: every velocity is zero. -/
theorem Rests.predict (h : f.Rests box) (hbox : box.Solid) : f.predict.Rests box := by
  have hz := hbox.measurement
  have hpos := mul_pos hbox.width_pos hbox.height_pos
  have hkeep : ¬ (f.x 6 + f.x 2 ≤ 0) := by
    rw [h]
    simpa [init, hz] using hpos
  change F K *ᵥ (if f.x 6 + f.x 2 ≤ 0 then Function.update f.x 6 0 else f.x) = (init box).x
  rw [if_neg hkeep, h]
  funext i
  rw [F_mulVec_apply]
  fin_cases i <;> simp [init]

end BoxKalmanFilter

section Stages
variable [HasSqrt K]

/-- Every detection coincides with the box of a track of its own, and with that
of no other track. -/
structure OwnTracks (ids : List String) (dets : List (Detection K))
    (tracks : Dict String (STrack K)) (own : Detection K → String) : Prop where
  nodup : ids.Nodup
  sub : ∀ id ∈ ids, id ∈ tracks.keys
  mem : ∀ d ∈ dets, own d ∈ ids
  distinct : (dets.map own).Nodup
  self : ∀ d ∈ dets, ∀ t, tracks.get? (own d) = some t → iou t.currentBox d.box.asXyxy = 1
  other : ∀ k ∈ ids, ∀ d ∈ dets, ∀ t, tracks.get? k = some t → k ≠ own d →
    iou t.currentBox d.box.asXyxy < 1

variable {ids : List String} {dets : List (Detection K)} {tracks tracks' : Dict String (STrack K)}
  {own : Detection K → String} {θ : K}

theorem OwnTracks.congr (h : OwnTracks ids dets tracks own) (hkeys : tracks'.keys = tracks.keys)
    (hget : ∀ id ∈ ids, tracks'.get? id = tracks.get? id) : OwnTracks ids dets tracks' own where
  nodup := h.nodup
  sub id hid := hkeys ▸ h.sub id hid
  mem := h.mem
  distinct := h.distinct
  self d hd t ht := h.self d hd t (hget _ (h.mem d hd) ▸ ht)
  other k hk d hd t ht := h.other k hk d hd t (hget k hk ▸ ht)

variable [IsStrictOrderedRing K]

/-- Then every maximum assignment makes these pairs. -/
theorem OwnTracks.assigned (h : OwnTracks ids dets tracks own) (hθ : θ ≤ 1)
    {ps : List (Nat × Nat)}
    (hmax : IsMaximum ids.length dets.length (stageIou tracks ids dets) ps) :
    (assigned ids dets (ps.filter (fun p => stageIou tracks ids dets p.1 p.2 ≥ θ))).Perm
      (dets.map (fun d => (own d, d))) := by
  let row := fun j : Nat => ((dets[j]?).map (fun d => ids.idxOf (own d))).getD 0
  have hrow : ∀ (j : Nat) d, dets[j]? = some d →
      row j < ids.length ∧ ids[row j]? = some (own d) := by
    intro j d hj
    have hmem := h.mem d (List.mem_of_getElem? hj)
    have hlt := List.idxOf_lt_length_of_mem hmem
    simp only [row, hj, Option.map_some, Option.getD_some]
    exact ⟨hlt, by rw [List.getElem?_eq_getElem hlt, List.getElem_idxOf hlt]⟩
  have hget : ∀ j < dets.length, ∃ d ∈ dets, dets[j]? = some d := fun j hj =>
    ⟨dets[j], List.getElem_mem hj, List.getElem?_eq_getElem hj⟩
  have hw : ∀ i < ids.length, ∀ (j : Nat) d, dets[j]? = some d → ∃ k ∈ ids, ids[i]? = some k ∧
      ∃ t, tracks.get? k = some t ∧
        stageIou tracks ids dets i j = iou t.currentBox d.box.asXyxy := by
    intro i hi j d hj
    have hk := List.getElem?_eq_getElem hi
    obtain ⟨t, ht⟩ := Dict.mem_keys_iff.mp (h.sub _ (List.getElem_mem hi))
    exact ⟨_, List.getElem_mem hi, hk, t, ht, stageIou_eq h.sub hk ht hj⟩
  have hone : ∀ (j : Nat) d, dets[j]? = some d → stageIou tracks ids dets (row j) j = 1 := by
    intro j d hj
    obtain ⟨hlt, hk⟩ := hrow j d hj
    obtain ⟨k, _, hk', t, ht, he⟩ := hw _ hlt j d hj
    obtain rfl := Option.some.inj (hk.symm.trans hk')
    rw [he, h.self d (List.mem_of_getElem? hj) t ht]
  have hps := hmax.own_rows row ?_ ?_ ?_
  · have hkept : ps.filter (fun p => stageIou tracks ids dets p.1 p.2 ≥ θ) = ps := by
      rw [List.filter_eq_self]
      intro p hp
      obtain ⟨j, hj, rfl⟩ := List.mem_map.mp (hps.mem_iff.mp hp)
      obtain ⟨d, _, hd⟩ := hget j (List.mem_range.mp hj)
      simpa [hone j d hd] using hθ
    rw [hkept, ← assigned_own (fun j d hj => (hrow j d hj).2)]
    exact hps.filterMap _
  · intro j hj
    obtain ⟨d, _, hd⟩ := hget j hj
    exact (hrow j d hd).1
  · intro i hi j hj he
    obtain ⟨d, _, hd⟩ := hget i hi
    obtain ⟨d', _, hd'⟩ := hget j hj
    have hkeys : own d = own d' := by
      have h1 := (hrow i d hd).2
      rw [he, (hrow j d' hd').2] at h1
      exact (Option.some.inj h1).symm
    have hi' : (dets.map own)[i]? = some (own d) := by simp [hd]
    have hj' : (dets.map own)[j]? = some (own d) := by simp [hd', hkeys]
    exact (List.getElem?_inj (by simpa using hi) h.distinct).mp (hi'.trans hj'.symm)
  · intro i hi j hj hne
    obtain ⟨d, hmem, hd⟩ := hget j hj
    obtain ⟨k, hk, hik, t, ht, he⟩ := hw i hi j d hd
    rw [hone j d hd, he]
    refine h.other k hk d hmem t ht (fun hkey => hne ?_)
    subst hkey
    exact (List.getElem?_inj hi h.nodup).mp (hik.trans (hrow j d hd).2.symm)

theorem StageRun.own_tracks {solver : LinearSumAssignment K} {r : MatchResult}
    (h : StageRun solver θ ids dets tracks r) (hs : SolvesAssignment solver) (hθ : θ ≤ 1)
    (hown : OwnTracks ids dets tracks own) :
    (Positions.assigned ids dets r.matches_).Perm (dets.map (fun d => (own d, d))) := by
  obtain ⟨ps, hmax, hms⟩ := h.optimal hs
  rw [hms]
  exact hown.assigned hθ hmax

end Stages

/-- The boxes that a frame shows with enough confidence to be considered. -/
def visible (ds : List (Detection K)) : List (BoundingBox K) :=
  (ds.filter (fun d => decide (trackLowConfThreshold ≤ d.confidence.val))).map Detection.box

theorem mem_visible [IsStrictOrderedRing K] {ds : List (Detection K)} {box : BoundingBox K} :
    box ∈ visible ds ↔
      ∃ d ∈ ds.filter ByteTracker.isHighConf ++ ds.filter ByteTracker.isLowConf, d.box = box := by
  have hle : (trackLowConfThreshold : K) ≤ trackHighConfThreshold := by
    norm_num [trackLowConfThreshold, trackHighConfThreshold]
  have hsplit : ∀ d : Detection K, trackLowConfThreshold ≤ d.confidence.val ↔
      trackHighConfThreshold ≤ d.confidence.val ∨
        (trackLowConfThreshold ≤ d.confidence.val ∧ d.confidence.val < trackHighConfThreshold) := by
    intro d
    constructor
    · intro hd
      exact (le_or_gt trackHighConfThreshold d.confidence.val).imp_right (fun hlt => ⟨hd, hlt⟩)
    · intro hd
      rcases hd with hd | hd
      · exact hle.trans hd
      · exact hd.1
  simp only [visible, List.mem_map, List.mem_filter, List.mem_append, ByteTracker.isHighConf,
    ByteTracker.isLowConf, decide_eq_true_iff, ge_iff_le, ← and_or_left, ← hsplit]

/-- A frame whose detections are boxes of `family`, each at most once. -/
structure FrameOf (family : List (BoundingBox K)) (ds : List (Detection K)) : Prop where
  distinct : (ds.map Detection.box).Nodup
  member : ∀ d ∈ ds, d.box ∈ family

instance (family : List (BoundingBox K)) (ds : List (Detection K)) :
    Decidable (FrameOf family ds) :=
  decidable_of_iff ((ds.map Detection.box).Nodup ∧ ∀ d ∈ ds, d.box ∈ family)
    ⟨fun h => ⟨h.1, h.2⟩, fun h => ⟨h.distinct, h.member⟩⟩

/-- One track at rest for every box of `family`, under the id that `owner` gives
it and with the history `past` of being seen. -/
structure Watching (family : List (BoundingBox K)) (owner : BoundingBox K → String)
    (past : BoundingBox K → List Bool) (st : ByteTracker K) : Prop where
  keys : st.tracks.keys.Perm (family.map owner)
  resting : ∀ box ∈ family, ∃ t, st.tracks.get? (owner box) = some t ∧
    t.kalman.Rests box.asXyxy ∧ t.counters = ofHistory (past box)

section Watch
variable {family : List (BoundingBox K)} {owner : BoundingBox K → String}
  {past : BoundingBox K → List Bool} {st st' : ByteTracker K} {ds : List (Detection K)}

theorem Watching.owner_inj (h : Watching family owner past st) {b b' : BoundingBox K}
    (hb : b ∈ family) (hb' : b' ∈ family) (he : owner b = owner b') : b = b' :=
  List.inj_on_of_nodup_map (h.keys.nodup_iff.mp st.tracks.keys_nodup) hb hb' he

theorem Watching.mem_keys (h : Watching family owner past st) :
    k ∈ st.tracks.keys ↔ ∃ box ∈ family, owner box = k := by
  rw [h.keys.mem_iff, List.mem_map]

theorem FrameOf.own_nodup (hds : FrameOf family ds) (h : Watching family owner past st)
    (p : Detection K → Bool) : ((ds.filter p).map (fun d => owner d.box)).Nodup := by
  have hboxes : ((ds.filter p).map Detection.box).Nodup :=
    hds.distinct.sublist (List.filter_sublist.map _)
  have hmap := hboxes.map_on (f := owner) (fun b hb b' hb' he => ?_)
  · simpa [Function.comp_def] using hmap
  · obtain ⟨d, hd, rfl⟩ := List.mem_map.mp hb
    obtain ⟨d', hd', rfl⟩ := List.mem_map.mp hb'
    exact h.owner_inj (hds.member d (List.mem_filter.mp hd).1)
      (hds.member d' (List.mem_filter.mp hd').1) he

variable [HasSqrt K] {solver : LinearSumAssignment K} {a : ByteTracker.TwoStages K}
  {b : ByteTracker.ThreeStages K} {out : List (Track K)}

/-- In a tracker's first frame every object gets a track. -/
theorem watching_start {cameraId : String} (hfamily : family.Nodup) (hds : FrameOf family ds)
    (hall : ∀ box ∈ family, ∃ d ∈ ds, d.box = box ∧ trackHighConfThreshold ≤ d.confidence.val)
    (hu : Updated solver (newTracker cameraId) ds frameId a b out st') :
    ∃ owner, Watching family owner (fun _ => []) st' := by
  have hspawned := hu.spawned_of_empty rfl
  have hentries : st'.tracks.entries = newTracks cameraId 0 b.spawned := hu.entries_of_empty rfl
  let boxes := b.spawned.map Detection.box
  have hnodup : boxes.Nodup := by
    simp only [boxes, hspawned]
    exact hds.distinct.sublist (List.filter_sublist.map _)
  have hmem : ∀ box, box ∈ boxes ↔ box ∈ family := by
    intro box
    simp only [boxes, hspawned, List.mem_map, List.mem_filter, ByteTracker.isHighConf,
      decide_eq_true_iff]
    constructor
    · rintro ⟨d, ⟨hd, _⟩, rfl⟩
      exact hds.member d hd
    · intro hbox
      obtain ⟨d, hd, he, hconf⟩ := hall box hbox
      exact ⟨d, ⟨hd, hconf⟩, he⟩
  have hboxes : boxes.Perm family := (List.perm_ext_iff_of_nodup hnodup hfamily).mpr hmem
  refine ⟨fun box => formatTrackId cameraId (boxes.idxOf box + 1), ?_, fun box hbox => ?_⟩
  · have hkeys : st'.tracks.keys =
        boxes.map (fun box => formatTrackId cameraId (boxes.idxOf box + 1)) := by
      rw [Dict.keys, hentries, newTracks_keys]
      refine List.ext_getElem (by simp [boxes]) (fun i h1 h2 => ?_)
      rw [List.length_map] at h2
      simp [hnodup.idxOf_getElem i h2, add_comm]
    rw [hkeys]
    exact hboxes.map _
  · have hlt := List.idxOf_lt_length_of_mem ((hmem box).mpr hbox)
    have hget : boxes[boxes.idxOf box]? = some box := by
      rw [List.getElem?_eq_getElem hlt, List.getElem_idxOf hlt]
    rw [List.getElem?_map] at hget
    obtain ⟨d, hd, rfl⟩ := Option.map_eq_some_iff.mp hget
    have hnew := newTracks_getElem? cameraId 0 b.spawned (boxes.idxOf d.box)
    rw [hd, Nat.zero_add, Option.map_some] at hnew
    have he := List.mem_of_getElem? hnew
    rw [← hentries] at he
    exact ⟨_, Dict.get?_eq_some.mpr he, rfl, rfl⟩

variable [IsStrictOrderedRing K]

/-- A predicted track coincides with its own box and with no other. -/
theorem Watching.overlap (h : Watching family owner past st) (hsqrt : RootsOfSquares K)
    (hsolid : ∀ box ∈ family, box.asXyxy.Solid) {box : BoundingBox K} (hbox : box ∈ family)
    (ht : st.predicted.get? k = some t) :
    (k = owner box → iou t.currentBox box.asXyxy = 1) ∧
      (k ≠ owner box → iou t.currentBox box.asXyxy < 1) := by
  have hk : k ∈ st.tracks.keys := by
    rw [← keys_predicted]
    exact Dict.mem_keys_of_get? ht
  obtain ⟨box', hbox', rfl⟩ := h.mem_keys.mp hk
  obtain ⟨t₀, h₀, hrest, _⟩ := h.resting box' hbox'
  rw [ByteTracker.predicted, Dict.get?_mapValues, h₀] at ht
  obtain rfl := Option.some.inj ht
  have hcurrent : t₀.predict.currentBox = box'.asXyxy :=
    (hrest.predict (hsolid box' hbox')).currentBox hsqrt (hsolid box' hbox')
  rw [hcurrent]
  refine ⟨fun he => ?_, fun hne => ?_⟩
  · rw [h.owner_inj hbox' hbox he]
    exact iou_self (hsolid box hbox).proper
  · refine iou_lt_one (hsolid box' hbox').proper (hsolid box hbox).proper (fun he => hne ?_)
    rw [asXyxy_inj he]

/-- Stage 1 sees every high-confidence detection on the track of its object. -/
theorem Watching.stage1 (h : Watching family owner past st) (hsqrt : RootsOfSquares K)
    (hsolid : ∀ box ∈ family, box.asXyxy.Solid) (hds : FrameOf family ds)
    (h1 : FirstStages solver st ds a) :
    OwnTracks a.activeIds a.highConf st.predicted (fun d => owner d.box) := by
  have hmem : ∀ d ∈ a.highConf, d.box ∈ family := by
    rw [h1.highConf]
    exact fun d hd => hds.member d (List.mem_filter.mp hd).1
  refine ⟨h1.activeIds_nodup, ?_, ?_, ?_, ?_, ?_⟩
  · rw [h1.activeIds, keys_predicted]
    exact fun _ hid => hid
  · intro d hd
    rw [h1.activeIds]
    exact h.mem_keys.mpr ⟨d.box, hmem d hd, rfl⟩
  · rw [h1.highConf]
    exact hds.own_nodup h _
  · exact fun d hd t ht => (h.overlap hsqrt hsolid (hmem d hd) ht).1 rfl
  · exact fun k _ d hd t ht => (h.overlap hsqrt hsolid (hmem d hd) ht).2

theorem Watching.pairs1 (h : Watching family owner past st) (hsqrt : RootsOfSquares K)
    (hs : SolvesAssignment solver) (hsolid : ∀ box ∈ family, box.asXyxy.Solid)
    (hds : FrameOf family ds) (h1 : FirstStages solver st ds a) :
    a.pairs1.Perm (a.highConf.map (fun d => (owner d.box, d))) :=
  h1.run1.own_tracks hs (by norm_num [trackMatchIouThreshold]) (h.stage1 hsqrt hsolid hds h1)

/-- Stage 2 sees every low-confidence detection on the track of its object: stage 1
has left it, as the frame shows the object once. -/
theorem Watching.stage2 (h : Watching family owner past st) (hsqrt : RootsOfSquares K)
    (hs : SolvesAssignment solver) (hsolid : ∀ box ∈ family, box.asXyxy.Solid)
    (hds : FrameOf family ds) (h1 : FirstStages solver st ds a) :
    OwnTracks a.remainingTrackIds a.lowConf st.predicted (fun d => owner d.box) := by
  have hpairs := h.pairs1 hsqrt hs hsolid hds h1
  have hmem : ∀ d ∈ a.lowConf, d.box ∈ family := by
    rw [h1.lowConf]
    exact fun d hd => hds.member d (List.mem_filter.mp hd).1
  refine ⟨h1.remaining_nodup, ?_, ?_, ?_, ?_, ?_⟩
  · intro id hid
    rw [keys_predicted, ← h1.activeIds]
    exact (h1.remaining_active id hid).1
  · intro d hd
    rw [h1.remaining, List.mem_filter, h1.activeIds]
    refine ⟨h.mem_keys.mpr ⟨d.box, hmem d hd, rfl⟩, ?_⟩
    rw [decide_eq_true_iff]
    intro hmatched
    obtain ⟨e, he, hkey⟩ := List.mem_map.mp hmatched
    obtain ⟨d', hd', rfl⟩ := List.mem_map.mp (hpairs.mem_iff.mp he)
    rw [h1.highConf] at hd'
    rw [h1.lowConf] at hd
    obtain ⟨hin', hhigh⟩ := List.mem_filter.mp hd'
    obtain ⟨hin, hlow⟩ := List.mem_filter.mp hd
    have hbox := h.owner_inj (hds.member d' hin') (hds.member d hin) hkey
    obtain rfl := List.inj_on_of_nodup_map hds.distinct hin' hin hbox
    simp only [ByteTracker.isHighConf, ByteTracker.isLowConf, decide_eq_true_iff] at hhigh hlow
    exact absurd hhigh (not_le.mpr hlow.2)
  · rw [h1.lowConf]
    exact hds.own_nodup h _
  · exact fun d hd t ht => (h.overlap hsqrt hsolid (hmem d hd) ht).1 rfl
  · exact fun k _ d hd t ht => (h.overlap hsqrt hsolid (hmem d hd) ht).2

theorem Watching.pairs2 (h : Watching family owner past st) (hsqrt : RootsOfSquares K)
    (hs : SolvesAssignment solver) (hsolid : ∀ box ∈ family, box.asXyxy.Solid)
    (hds : FrameOf family ds) (h1 : FirstStages solver st ds a) :
    a.pairs2.Perm (a.lowConf.map (fun d => (owner d.box, d))) :=
  h1.run2.own_tracks hs (by norm_num [trackLowConfMatchIouThreshold])
    ((h.stage2 hsqrt hs hsolid hds h1).congr (keys_markAll _ _)
      (fun k hk => get?_markAll_of_not_mem (h1.remaining_active k hk).2))

/-- Everything a frame shows finds its track, so nothing starts a new one. -/
theorem Watching.matched (h : Watching family owner past st) (hsqrt : RootsOfSquares K)
    (hs : SolvesAssignment solver) (hsolid : ∀ box ∈ family, box.asXyxy.Solid)
    (hds : FrameOf family ds) (h1 : FirstStages solver st ds a) (h3 : ThirdStage solver st a b) :
    (matchedPairs a b).Perm ((a.highConf ++ a.lowConf).map (fun d => (owner d.box, d))) ∧
      b.spawned = [] := by
  have hpairs1 := h.pairs1 hsqrt hs hsolid hds h1
  have hpairs2 := h.pairs2 hsqrt hs hsolid hds h1
  have hleft : b.leftoverHigh = [] := by
    have hall := assigned_snd_perm h1.run1.matching
    have hlen := (hpairs1.map Prod.snd).length_eq
    have htotal := hall.length_eq
    rw [h3.leftover, h1.run1.left]
    simp only [gated]
    rw [← List.length_eq_zero_iff]
    simp only [List.length_append, List.length_map, ByteTracker.TwoStages.pairs1] at htotal hlen
    omega
  have hpairs3 : b.pairs3 = [] := by
    rw [ByteTracker.ThreeStages.pairs3, hleft]
    simp [assigned]
  refine ⟨?_, ?_⟩
  · rw [matchedPairs, hpairs3, List.append_nil, List.map_append]
    exact hpairs1.append hpairs2
  · rw [ByteTracker.ThreeStages.spawned, hleft]
    simp [pick]

/-- One more frame of the same objects. -/
theorem Watching.update (h : Watching family owner past st) (hsqrt : RootsOfSquares K)
    (hs : SolvesAssignment solver) (hsolid : ∀ box ∈ family, box.asXyxy.Solid)
    (hds : FrameOf family ds) (hw : WellFormed st) (hu : Updated solver st ds frameId a b out st')
    (hsurvives : ∀ box ∈ family, Survives (past box ++ [decide (box ∈ visible ds)])) :
    Watching family owner (fun box => past box ++ [decide (box ∈ visible ds)]) st' := by
  obtain ⟨hpairs, hspawned⟩ := h.matched hsqrt hs hsolid hds hu.first hu.third
  have hseen : ∀ box ∈ family, ∀ d, (owner box, d) ∈ matchedPairs a b → d.box = box ∧ d ∈ ds := by
    intro box hbox d hm
    obtain ⟨d', hd', he⟩ := List.mem_map.mp (hpairs.mem_iff.mp hm)
    obtain ⟨hkey, rfl⟩ := Prod.mk.inj he
    have hd : d' ∈ ds := by
      rw [hu.first.highConf, hu.first.lowConf, List.mem_append] at hd'
      exact hd'.elim (fun hx => (List.mem_filter.mp hx).1) (fun hx => (List.mem_filter.mp hx).1)
    exact ⟨h.owner_inj (hds.member d' hd) hbox hkey, hd⟩
  have hmatched : ∀ box ∈ family,
      (owner box ∈ (matchedPairs a b).map Prod.fst ↔ box ∈ visible ds) := by
    intro box hbox
    rw [mem_visible, ← hu.first.highConf, ← hu.first.lowConf, List.mem_map]
    constructor
    · rintro ⟨⟨k, d⟩, hm, rfl⟩
      obtain ⟨d', hd', he⟩ := List.mem_map.mp (hpairs.mem_iff.mp hm)
      obtain ⟨_, rfl⟩ := Prod.mk.inj he
      exact ⟨d', hd', (hseen box hbox d' hm).1⟩
    · rintro ⟨d, hd, rfl⟩
      exact ⟨(owner d.box, d), hpairs.mem_iff.mpr (List.mem_map_of_mem hd), rfl⟩
  have hresting : ∀ box ∈ family, ∃ t, st'.tracks.get? (owner box) = some t ∧
      t.kalman.Rests box.asXyxy ∧
        t.counters = ofHistory (past box ++ [decide (box ∈ visible ds)]) := by
    intro box hbox
    obtain ⟨t, ht, hrest, hcounters⟩ := h.resting box hbox
    have hnext := next_counters (matchedPairs a b) (owner box) t
    rw [hcounters, decide_eq_decide.mpr (hmatched box hbox),
      next_ofHistory (hsurvives box hbox)] at hnext
    have hold := hu.get?_old hw ht
    split at hnext
    · cases hnext
    · rename_i hkept
      rw [if_neg hkept] at hold
      refine ⟨_, hold, ?_, (Option.some.inj hnext).symm⟩
      have hpredict := hrest.predict (hsolid box hbox)
      by_cases hm : owner box ∈ (matchedPairs a b).map Prod.fst
      · obtain ⟨⟨k, d⟩, hmem, rfl⟩ := List.mem_map.mp hm
        rw [settle_of_mem (hu.third.pairs_nodup hu.first) hmem]
        have hd := (hseen box hbox d hmem).1
        exact hd ▸ (hd ▸ hpredict : t.predict.kalman.Rests d.box.asXyxy).corrected
      · rw [settle_of_not_mem hm]
        exact hpredict
  refine ⟨?_, hresting⟩
  rw [List.perm_ext_iff_of_nodup st'.tracks.keys_nodup (h.keys.nodup_iff.mp st.tracks.keys_nodup)]
  intro k
  constructor
  · intro hk
    obtain ⟨t, ht⟩ := Dict.mem_keys_iff.mp hk
    rcases hu.origin hw ht with ⟨t₀, hold, _⟩ | ⟨i, d, hd, _⟩
    · exact h.keys.mem_iff.mp (Dict.mem_keys_of_get? hold)
    · simp [hspawned] at hd
  · intro hk
    obtain ⟨box, hbox, rfl⟩ := List.mem_map.mp hk
    obtain ⟨t, ht, _⟩ := hresting box hbox
    exact Dict.mem_keys_of_get? ht

/-- What a tracker that watches a family shows of it. -/
theorem Watching.shown (h : Watching family owner past st) (hsqrt : RootsOfSquares K)
    (hsolid : ∀ box ∈ family, box.asXyxy.Solid) (hw : WellFormed st) (frameId : String) :
    ((st.tracks.values.map (STrack.toTrack frameId)).map (fun t => (t.trackId, t.box))).Perm
      (family.map (fun box => (owner box, box))) := by
  have hentry : ∀ e ∈ st.tracks.entries, ∃ box ∈ family, owner box = e.1 ∧
      ((e.2.toTrack frameId).trackId, (e.2.toTrack frameId).box) = (owner box, box) := by
    rintro ⟨k, t⟩ he
    have ht := Dict.get?_eq_some.mpr he
    obtain ⟨box, hbox, rfl⟩ := h.mem_keys.mp (Dict.mem_keys_of_get? ht)
    obtain ⟨t', ht', hrest, _⟩ := h.resting box hbox
    obtain rfl := Option.some.inj (ht.symm.trans ht')
    have hcurrent : t.currentBox = box.asXyxy := hrest.currentBox hsqrt (hsolid box hbox)
    refine ⟨box, hbox, rfl, Prod.ext (hw.issued _ t ht).1 ?_⟩
    simp [STrack.toTrack, hcurrent, BoundingBox.asXyxy]
  have hvalues : (st.tracks.values.map (STrack.toTrack frameId)).map (fun t => (t.trackId, t.box)) =
      st.tracks.entries.map (fun e =>
        ((e.2.toTrack frameId).trackId, (e.2.toTrack frameId).box)) := by
    simp [Dict.values, Function.comp_def]
  rw [hvalues, List.perm_ext_iff_of_nodup]
  · rintro ⟨k, box⟩
    simp only [List.mem_map]
    constructor
    · rintro ⟨e, he, hx⟩
      obtain ⟨box', hbox', _, hshown⟩ := hentry e he
      exact ⟨box', hbox', hshown.symm.trans hx⟩
    · rintro ⟨box', hbox', hx⟩
      obtain ⟨t, ht, _⟩ := h.resting box' hbox'
      have he := Dict.get?_eq_some.mp ht
      obtain ⟨box'', hbox'', hkey, hshown⟩ := hentry _ he
      obtain rfl := h.owner_inj hbox'' hbox' hkey
      exact ⟨_, he, hshown.trans hx⟩
  · refine List.Nodup.of_map Prod.fst ?_
    have hkeys : (st.tracks.entries.map (fun e =>
        ((e.2.toTrack frameId).trackId, (e.2.toTrack frameId).box))).map Prod.fst =
          st.tracks.keys := by
      rw [List.map_map]
      refine List.map_congr_left (fun e he => ?_)
      obtain ⟨box, _, hkey, hshown⟩ := hentry e he
      exact (congrArg Prod.fst hshown).trans hkey
    rw [hkeys]
    exact st.tracks.keys_nodup
  · refine List.Nodup.of_map Prod.fst ?_
    rw [List.map_map]
    exact h.keys.nodup_iff.mp st.tracks.keys_nodup

theorem watching_outputs (hsqrt : RootsOfSquares K) (hs : SolvesAssignment solver)
    (hsolid : ∀ box ∈ family, box.asXyxy.Solid) (hw : WellFormed st)
    (h : Watching family owner past st) (frames : List (List (Detection K) × String))
    (hframes : ∀ f ∈ frames, FrameOf family f.1)
    (hsurvives : ∀ box ∈ family,
      Survives (past box ++ frames.map (fun f => decide (box ∈ visible f.1)))) :
    ∃ outs, st.outputs solver frames = .ok outs ∧ outs.length = frames.length ∧
      ∀ out ∈ outs, (out.map (fun t => (t.trackId, t.box))).Perm
        (family.map (fun box => (owner box, box))) := by
  induction frames generalizing st past with
  | nil => exact ⟨[], rfl, rfl, by simp⟩
  | cons f frames ih =>
    obtain ⟨a, b, out, st', _, hok, hu⟩ := update_ok hs.toAssigns hw f.1 f.2
    have hsplit : ∀ box, past box ++ (f :: frames).map (fun f => decide (box ∈ visible f.1)) =
        past box ++ [decide (box ∈ visible f.1)] ++
          frames.map (fun f => decide (box ∈ visible f.1)) := by
      simp
    have hnext := h.update hsqrt hs hsolid (hframes f List.mem_cons_self) hw hu
      (fun box hbox => (hsplit box ▸ hsurvives box hbox).left)
    obtain ⟨outs, houts, hlen, hall⟩ := ih (hu.wellFormed hw) hnext
      (fun g hg => hframes g (List.mem_cons_of_mem f hg))
      (fun box hbox => hsplit box ▸ hsurvives box hbox)
    refine ⟨out :: outs, ?_, by simp [hlen], ?_⟩
    · exact bind_eq_ok.mpr ⟨_, hok, bind_eq_ok.mpr ⟨_, houts, rfl⟩⟩
    · intro o ho
      rcases List.mem_cons.mp ho with rfl | ho
      · rw [hu.out]
        exact hnext.shown hsqrt hsolid (hu.wellFormed hw) f.2
      · exact hall o ho

end Watch

/-- A run that shows motionless objects: all of them clearly in the first frame
and visibly in the next two, and later none missing for too long. -/
structure Motionless (family : List (BoundingBox K))
    (frames : List (List (Detection K) × String)) : Prop where
  boxes : ∀ f ∈ frames, FrameOf family f.1
  clear : ∀ f ∈ frames.take 1, ∀ box ∈ family,
    ∃ d ∈ f.1, d.box = box ∧ trackHighConfThreshold ≤ d.confidence.val
  seen : ∀ f ∈ frames.take 3, ∀ box ∈ family, box ∈ visible f.1
  gaps : ∀ box ∈ family, ¬ List.replicate (trackMaxLostFrames + 1) false <:+:
    frames.map (fun f => decide (box ∈ visible f.1))

theorem Motionless.survives {family : List (BoundingBox K)} {f : List (Detection K) × String}
    {frames : List (List (Detection K) × String)} (h : Motionless family (f :: frames))
    (hbox : box ∈ family) : Survives (frames.map (fun f => decide (box ∈ visible f.1))) := by
  refine ⟨fun b hb => ?_, fun hinfix => h.gaps box hbox ?_⟩
  · rw [← List.map_take] at hb
    obtain ⟨g, hg, rfl⟩ := List.mem_map.mp hb
    exact decide_eq_true (h.seen g (List.mem_cons_of_mem f hg) box hbox)
  · exact hinfix.trans (List.suffix_cons _ _).isInfix

variable [HasSqrt K] [IsStrictOrderedRing K] {solver : LinearSumAssignment K}

/-- Motionless objects are never confused: every frame returns one track for each
of them, with the id of its first frame and with exactly its box. -/
theorem motionless_keep_ids (hsqrt : RootsOfSquares K) (hs : SolvesAssignment solver)
    (cameraId : String) {family : List (BoundingBox K)} (hfamily : family.Nodup)
    (hsolid : ∀ box ∈ family, box.asXyxy.Solid) {frames : List (List (Detection K) × String)}
    (h : Motionless family frames) :
    ∃ outs, (newTracker cameraId).outputs solver frames = .ok outs ∧
      outs.length = frames.length ∧
      ∃ owner : BoundingBox K → String, ∀ out ∈ outs, (out.map Track.trackId).Nodup ∧
        (out.map (fun t => (t.trackId, t.box))).Perm
          (family.map (fun box => (owner box, box))) := by
  cases frames with
  | nil => exact ⟨[], rfl, rfl, fun _ => "", by simp⟩
  | cons f frames =>
    have hw := newTracker_wellFormed (K := K) cameraId
    obtain ⟨a, b, out, st, _, hok, hu⟩ := update_ok hs.toAssigns hw f.1 f.2
    obtain ⟨owner, hwatch⟩ := watching_start hfamily (h.boxes f List.mem_cons_self)
      (h.clear f List.mem_cons_self) hu
    obtain ⟨outs, houts, hlen, hall⟩ := watching_outputs hsqrt hs hsolid (hu.wellFormed hw) hwatch
      frames (fun g hg => h.boxes g (List.mem_cons_of_mem f hg)) (fun box hbox => h.survives hbox)
    have hfirst := hwatch.shown hsqrt hsolid (hu.wellFormed hw) f.2
    rw [← hu.out] at hfirst
    refine ⟨out :: outs, bind_eq_ok.mpr ⟨_, hok, bind_eq_ok.mpr ⟨_, houts, rfl⟩⟩, by simp [hlen],
      owner, fun o ho => ?_⟩
    have hshown : (o.map (fun t => (t.trackId, t.box))).Perm
        (family.map (fun box => (owner box, box))) := by
      rcases List.mem_cons.mp ho with rfl | ho
      · exact hfirst
      · exact hall o ho
    refine ⟨?_, hshown⟩
    have hids := (hshown.map Prod.fst).nodup_iff.mpr (by
      rw [List.map_map]
      exact hwatch.keys.nodup_iff.mp st.tracks.keys_nodup)
    simpa [Function.comp_def] using hids

theorem rootsOfSquares_rat : RootsOfSquares ℚ := by
  intro x hx
  change Rat.sqrt (x * x) = x
  rw [Rat.sqrt_eq, abs_of_nonneg hx]

def tallBox : BoundingBox ℚ := ⟨0, 0, 1, 3 / 2⟩

def tall (d : Detection ℚ) : Detection ℚ := { d with box := tallBox }

/-- Two objects that overlap, shown in changing orders. -/
def twoBoxes : List (List (Detection ℚ) × String) :=
  [([clearSquare, tall clearSquare], "f1"), ([tall faintSquare, clearSquare], "f2"),
    ([tall clearSquare, faintSquare], "f3"), ([clearSquare], "f4")]

theorem twoBoxes_solid : ∀ box ∈ [clearSquare.box, tallBox], box.asXyxy.Solid := by
  intro box hbox
  have hcases : box = clearSquare.box ∨ box = tallBox := by simpa using hbox
  rcases hcases with rfl | rfl
  · exact ⟨by decide +kernel, by decide +kernel⟩
  · exact ⟨by decide +kernel, by decide +kernel⟩

theorem twoBoxes_motionless : Motionless [clearSquare.box, tallBox] twoBoxes := by
  refine ⟨by decide +kernel, by decide +kernel, by decide +kernel, fun box _ hinfix => ?_⟩
  have hlen := hinfix.length_le
  simp [twoBoxes, trackMaxLostFrames] at hlen

theorem motionless_keep_ids_two :
    ∃ outs, (newTracker "cam-1").outputs exhaustiveSolver twoBoxes = .ok outs ∧
      outs.length = twoBoxes.length ∧
      ∃ owner : BoundingBox ℚ → String, ∀ out ∈ outs, (out.map Track.trackId).Nodup ∧
        (out.map (fun t => (t.trackId, t.box))).Perm
          ([clearSquare.box, tallBox].map (fun box => (owner box, box))) :=
  motionless_keep_ids rootsOfSquares_rat exhaustive_solves "cam-1" (by decide +kernel)
    twoBoxes_solid twoBoxes_motionless

end CamTrack
