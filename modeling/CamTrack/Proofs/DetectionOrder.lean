import CamTrack.Proofs.Motionless
import CamTrack.Proofs.StageThree

namespace CamTrack
open Python Assignment Positions Lifecycle InferenceConstants

variable {K : Type} [Field K] [LinearOrder K]

def STrack.rename (rename : String → String) (t : STrack K) : STrack K :=
  { t with trackId := rename t.trackId }

def Track.rename (rename : String → String) (t : Track K) : Track K :=
  { t with trackId := rename t.trackId }

section Stages
variable [HasSqrt K]

theorem rename_toTrack (ρ : String → String) (frameId : String) (t : STrack K) :
    (t.rename ρ).toTrack frameId = (t.toTrack frameId).rename ρ := rfl

/-- All maximum assignments of a stage contain the same pairs of a track and a
detection that pass its threshold. -/
def StageDetermined (θ : K) (ids : List String) (dets : List (Detection K))
    (tracks : Dict String (STrack K)) : Prop :=
  ∀ ps qs, IsMaximum ids.length dets.length (stageIou tracks ids dets) ps →
    IsMaximum ids.length dets.length (stageIou tracks ids dets) qs →
    ∀ pair ∈ assigned ids dets (ps.filter (fun p => stageIou tracks ids dets p.1 p.2 ≥ θ)),
      pair ∈ assigned ids dets (qs.filter (fun p => stageIou tracks ids dets p.1 p.2 ≥ θ))

/-- Renumbered tracks and detections see the same overlaps. -/
theorem stageIou_reindex {ids ids' : List String} {dets dets' : List (Detection K)}
    {tracks tracks' : Dict String (STrack K)} {ρ : String → String} {f g : ℕ → ℕ}
    (hsub : ∀ id ∈ ids, id ∈ tracks.keys) (hsub' : ∀ id ∈ ids', id ∈ tracks'.keys)
    (hids : ∀ i : Nat, ids'[i]? = (ids.map ρ)[f i]?) (hdets : ∀ j : Nat, dets'[j]? = dets[g j]?)
    (hboxes : ∀ k ∈ ids, (tracks'.get? (ρ k)).map STrack.currentBox =
      (tracks.get? k).map STrack.currentBox) (i j : Nat) :
    stageIou tracks' ids' dets' i j = stageIou tracks ids dets (f i) (g j) := by
  obtain ⟨_, _, hbox⟩ := boxesOf_ok hsub
  obtain ⟨_, _, hbox'⟩ := boxesOf_ok hsub'
  have htrack : (boxesOf tracks' ids')[i]? = (boxesOf tracks ids)[f i]? := by
    rw [hbox', hbox, hids, List.getElem?_map]
    cases hk : ids[f i]? with
    | none => rfl
    | some k => exact hboxes k (List.mem_of_getElem? hk)
  have hdet : (dets'.map (fun d => d.box.asXyxy))[j]? =
      (dets.map (fun d => d.box.asXyxy))[g j]? := by
    rw [List.getElem?_map, List.getElem?_map, hdets]
  simp only [stageIou, pairIou, htrack, hdet]

/-- A stage whose pairs are determined makes the same pairs from the same tracks
and detections in another order and under other ids. -/
theorem StageRun.renamed {solver solver' : LinearSumAssignment K} {θ : K} {ids ids' : List String}
    {dets dets' : List (Detection K)} {tracks tracks' : Dict String (STrack K)}
    {r r' : MatchResult} {ρ : String → String}
    (h : StageRun solver θ ids dets tracks r) (h' : StageRun solver' θ ids' dets' tracks' r')
    (hs : SolvesAssignment solver) (hs' : SolvesAssignment solver') (hnodup : ids.Nodup)
    (hdetermined : StageDetermined θ ids dets tracks)
    (hsub : ∀ id ∈ ids, id ∈ tracks.keys) (hsub' : ∀ id ∈ ids', id ∈ tracks'.keys)
    (hids : ids'.Perm (ids.map ρ)) (hdets : dets'.Perm dets)
    (hboxes : ∀ k ∈ ids, (tracks'.get? (ρ k)).map STrack.currentBox =
      (tracks.get? k).map STrack.currentBox) :
    (assigned ids' dets' r'.matches_).Perm
      ((assigned ids dets r.matches_).map (Prod.map ρ id)) := by
  obtain ⟨α, hα, _⟩ := exists_reindex hids
  obtain ⟨β, hβ, _⟩ := exists_reindex hdets
  obtain ⟨ps, hmax, hms⟩ := h.optimal hs
  obtain ⟨ps', hmax', hms'⟩ := h'.optimal hs'
  have hiou := stageIou_reindex hsub hsub' hα hβ hboxes
  have hlen : ids'.length = ids.length := by simpa using hids.length_eq
  have hother : IsMaximum ids.length dets.length (stageIou tracks ids dets)
      (ps'.map (Prod.map α β)) := by
    refine IsMaximum.reindex ?_ (fun i => ?_) (fun j => ?_)
    · rw [← hlen, ← hdets.length_eq]
      convert hmax' using 3
      exact (hiou _ _).symm
    · simpa [hlen] using reindex_lt hα i
    · simpa [hdets.length_eq] using reindex_lt hβ j
  have hkept : r'.matches_.map (Prod.map α β) =
      (ps'.map (Prod.map α β)).filter (fun p => stageIou tracks ids dets p.1 p.2 ≥ θ) := by
    rw [hms', List.filter_map]
    congr 1
    refine List.filter_congr (fun p _ => ?_)
    simp [hiou]
  have hsame : (assigned ids dets (r'.matches_.map (Prod.map α β))).Perm
      (assigned ids dets r.matches_) := by
    have hn := List.Nodup.of_map _ (assigned_fst_nodup hnodup h.matching)
    have hn' := List.Nodup.of_map _ (assigned_fst_nodup hnodup
      (hkept ▸ hother.toIsMatching.filter _ : IsMatching ids.length dets.length _))
    refine (List.perm_ext_iff_of_nodup hn' hn).mpr (fun pair => ?_)
    rw [hkept, hms]
    exact ⟨hdetermined _ _ hother hmax pair, hdetermined _ _ hmax hother pair⟩
  rw [assigned_reindex hα hβ, assigned_map_fst]
  exact hsame.map _

theorem StageDetermined.congr {θ : K} {ids : List String} {dets : List (Detection K)}
    {tracks tracks' : Dict String (STrack K)} (h : StageDetermined θ ids dets tracks)
    (hget : ∀ id ∈ ids, tracks'.get? id = tracks.get? id) :
    StageDetermined θ ids dets tracks' := by
  have hboxes : boxesOf tracks' ids = boxesOf tracks ids :=
    List.filterMap_congr (fun id hid => by rw [hget id hid])
  have hiou : stageIou tracks' ids dets = stageIou tracks ids dets := by
    rw [stageIou, stageIou, hboxes]
  rw [StageDetermined, hiou]
  exact h

theorem StageDetermined.of_no_tracks (θ : K) (dets : List (Detection K))
    (tracks : Dict String (STrack K)) : StageDetermined θ [] dets tracks := by
  intro ps qs _ _ pair hpair
  simp [assigned] at hpair

theorem StageDetermined.of_own [IsStrictOrderedRing K] {θ : K} {ids : List String}
    {dets : List (Detection K)} {tracks : Dict String (STrack K)} {own : Detection K → String}
    (h : OwnTracks ids dets tracks own) (hθ : θ ≤ 1) : StageDetermined θ ids dets tracks :=
  fun _ _ hps hqs _ hpair =>
    (h.assigned hθ hqs).mem_iff.mpr ((h.assigned hθ hps).mem_iff.mp hpair)

end Stages

/-- The second tracker holds the tracks of the first under other ids, in another
order; the ids still to come are the same. -/
structure Renamed (ρ : Equiv.Perm String) (st st' : ByteTracker K) : Prop where
  cameraId : st'.cameraId = st.cameraId
  counter : st'.idAllocator.counter = st.idAllocator.counter
  fixes : ∀ j, st.idAllocator.counter < j →
    ρ (formatTrackId st.cameraId j) = formatTrackId st.cameraId j
  entries : st'.tracks.entries.Perm (st.tracks.entries.map (fun e => (ρ e.1, e.2.rename ρ)))

section Frames
variable {ρ : Equiv.Perm String} {st st' : ByteTracker K}

theorem Renamed.keys (h : Renamed ρ st st') : st'.tracks.keys.Perm (st.tracks.keys.map ρ) := by
  have hkeys := h.entries.map Prod.fst
  rw [List.map_map] at hkeys
  rw [Dict.keys, Dict.keys, List.map_map]
  exact hkeys

theorem Renamed.get? (h : Renamed ρ st st') (hk : st.tracks.get? k = some t) :
    st'.tracks.get? (ρ k) = some (t.rename ρ) :=
  Dict.get?_eq_some.mpr (h.entries.mem_iff.mpr
    (List.mem_map_of_mem (f := fun e => (ρ e.1, e.2.rename ρ)) (Dict.get?_eq_some.mp hk)))

theorem settle_rename {pairs pairs' : List (String × Detection K)}
    (hpairs : pairs'.Perm (pairs.map (Prod.map ρ id))) (hn : (pairs.map Prod.fst).Nodup)
    (k : String) (t : STrack K) :
    settle pairs' (ρ k) (t.rename ρ) = (settle pairs k t).rename ρ := by
  have hkeys : (pairs'.map Prod.fst).Perm ((pairs.map Prod.fst).map ρ) := by
    have hmap := hpairs.map Prod.fst
    rw [List.map_map] at hmap
    rw [List.map_map]
    exact hmap
  have hn' : (pairs'.map Prod.fst).Nodup := hkeys.nodup_iff.mpr (hn.map ρ.injective)
  by_cases hk : k ∈ pairs.map Prod.fst
  · obtain ⟨⟨k', d⟩, hmem, rfl⟩ := List.mem_map.mp hk
    have hmem' : (ρ k', d) ∈ pairs' :=
      hpairs.mem_iff.mpr (List.mem_map_of_mem (f := Prod.map ρ id) hmem)
    rw [settle_of_mem hn' hmem', settle_of_mem hn hmem]
    rfl
  · have hk' : ρ k ∉ pairs'.map Prod.fst := by
      rw [hkeys.mem_iff, List.mem_map_of_injective ρ.injective]
      exact hk
    rw [settle_of_not_mem hk', settle_of_not_mem hk]
    rfl

/-- Detections in another order start the same tracks under exchanged ids. -/
theorem exists_renumbering (cameraId : String) (n : Nat) {xs ys : List (Detection K)}
    (h : ys.Perm xs) :
    ∃ σ : Equiv.Perm String,
      (∀ j, j ≤ n ∨ n + xs.length < j → σ (formatTrackId cameraId j) = formatTrackId cameraId j) ∧
      (newTracks cameraId n ys).Perm
        ((newTracks cameraId n xs).map (fun e => (σ e.1, e.2.rename σ))) := by
  obtain ⟨β, hβ, hfix⟩ := exists_reindex h
  let newId : ℕ ↪ String := ⟨fun i => formatTrackId cameraId (n + i + 1), fun i j hij => by
    have := formatTrackId_inj hij
    omega⟩
  let σ := Equiv.Perm.viaEmbedding β.symm newId
  have hσ : ∀ i, σ (formatTrackId cameraId (n + i + 1)) =
      formatTrackId cameraId (n + β.symm i + 1) := fun i =>
    Equiv.Perm.viaEmbedding_apply β.symm newId i
  refine ⟨σ, fun j hj => ?_, ?_⟩
  · by_cases hle : j ≤ n
    · refine Equiv.Perm.viaEmbedding_apply_of_notMem β.symm newId _ (fun hmem => ?_)
      obtain ⟨i, hi⟩ := hmem
      have := formatTrackId_inj (hi : formatTrackId cameraId (n + i + 1) = _)
      omega
    · obtain ⟨i, rfl⟩ : ∃ i, j = n + i + 1 := ⟨j - n - 1, by omega⟩
      rw [hσ, (Equiv.symm_apply_eq β).mpr (hfix i (by omega)).symm]
  · refine perm_of_reindex (β := β) (fun i => ?_) ?_
    · rw [newTracks_getElem?, List.getElem?_map, newTracks_getElem?, hβ i]
      cases xs[β i]? with
      | none => rfl
      | some d =>
        have hid := hσ (β i)
        rw [Equiv.symm_apply_apply] at hid
        simp [hid, STrack.rename, STrack.init]
    · have hlen := congrArg List.length (newTracks_keys cameraId n xs)
      have hlen' := congrArg List.length (newTracks_keys cameraId n ys)
      simp only [List.length_map, List.length_range'] at hlen hlen'
      rw [List.length_map, hlen, hlen', h.length_eq]

variable [HasSqrt K]

/-- The tracks two such trackers return. -/
theorem Renamed.shown (h : Renamed ρ st st') (frameId : String) :
    (st'.tracks.values.map (STrack.toTrack frameId)).Perm
      ((st.tracks.values.map (STrack.toTrack frameId)).map (Track.rename ρ)) := by
  have hvalues := (h.entries.map Prod.snd).map (STrack.toTrack frameId)
  simpa [Dict.values, Function.comp_def, rename_toTrack] using hvalues

theorem Renamed.predictedBox (h : Renamed ρ st st') (hk : k ∈ st.tracks.keys) :
    (st'.predicted.get? (ρ k)).map STrack.currentBox =
      (st.predicted.get? k).map STrack.currentBox := by
  obtain ⟨t, ht⟩ := Dict.mem_keys_iff.mp hk
  simp only [ByteTracker.predicted, Dict.get?_mapValues, ht, h.get? ht]
  rfl

variable {solver solver' : LinearSumAssignment K} {ds ds' : List (Detection K)}
  {a a' : ByteTracker.TwoStages K} {b b' : ByteTracker.ThreeStages K} {out out' : List (Track K)}
  {st₁ st₁' : ByteTracker K}

theorem Renamed.pairs1 (h : Renamed ρ st st') (hs : SolvesAssignment solver)
    (hs' : SolvesAssignment solver') (hds : ds'.Perm ds) (h1 : FirstStages solver st ds a)
    (h1' : FirstStages solver' st' ds' a')
    (hd : StageDetermined trackMatchIouThreshold a.activeIds a.highConf st.predicted) :
    a'.pairs1.Perm (a.pairs1.map (Prod.map ρ id)) := by
  refine h1.run1.renamed h1'.run1 hs hs' h1.activeIds_nodup hd ?_ ?_ ?_ ?_ ?_
  · rw [h1.activeIds, keys_predicted]
    exact fun _ hid => hid
  · rw [h1'.activeIds, keys_predicted]
    exact fun _ hid => hid
  · rw [h1.activeIds, h1'.activeIds]
    exact h.keys
  · rw [h1.highConf, h1'.highConf]
    exact hds.filter _
  · rw [h1.activeIds]
    exact fun k hk => h.predictedBox hk

theorem Renamed.remaining (h : Renamed ρ st st') (h1 : FirstStages solver st ds a)
    (h1' : FirstStages solver' st' ds' a')
    (hpairs : a'.pairs1.Perm (a.pairs1.map (Prod.map ρ id))) :
    a'.remainingTrackIds.Perm (a.remainingTrackIds.map ρ) := by
  have hkeys : ∀ k, ρ k ∈ a'.pairs1.map Prod.fst ↔ k ∈ a.pairs1.map Prod.fst := by
    intro k
    rw [(hpairs.map Prod.fst).mem_iff, List.map_map, List.mem_map, List.mem_map]
    simp
  have hperm := h.keys.filter (fun id => decide (id ∉ a'.pairs1.map Prod.fst))
  rw [List.filter_map] at hperm
  rw [h1.remaining, h1'.remaining, h1.activeIds, h1'.activeIds]
  refine hperm.trans (List.Perm.of_eq (congrArg _ (List.filter_congr (fun k _ => ?_))))
  simp only [Function.comp_apply, hkeys]

theorem Renamed.pairs2 (h : Renamed ρ st st') (hs : SolvesAssignment solver)
    (hs' : SolvesAssignment solver') (hds : ds'.Perm ds) (h1 : FirstStages solver st ds a)
    (h1' : FirstStages solver' st' ds' a') (hpairs : a'.pairs1.Perm (a.pairs1.map (Prod.map ρ id)))
    (hd : StageDetermined trackLowConfMatchIouThreshold a.remainingTrackIds a.lowConf
      st.predicted) :
    a'.pairs2.Perm (a.pairs2.map (Prod.map ρ id)) := by
  have hremaining := h.remaining h1 h1' hpairs
  have hsame : ∀ k ∈ a.remainingTrackIds, (markAll st.predicted a.pairs1).get? k =
      st.predicted.get? k := fun k hk => get?_markAll_of_not_mem (h1.remaining_active k hk).2
  have hsame' : ∀ k ∈ a'.remainingTrackIds, (markAll st'.predicted a'.pairs1).get? k =
      st'.predicted.get? k := fun k hk => get?_markAll_of_not_mem (h1'.remaining_active k hk).2
  refine h1.run2.renamed h1'.run2 hs hs' h1.remaining_nodup (hd.congr hsame) ?_ ?_ hremaining ?_ ?_
  · intro id hid
    rw [keys_markAll, keys_predicted, ← h1.activeIds]
    exact (h1.remaining_active id hid).1
  · intro id hid
    rw [keys_markAll, keys_predicted, ← h1'.activeIds]
    exact (h1'.remaining_active id hid).1
  · rw [h1.lowConf, h1'.lowConf]
    exact hds.filter _
  · intro k hk
    rw [hsame k hk, hsame' (ρ k) (hremaining.mem_iff.mpr (List.mem_map_of_mem hk))]
    exact h.predictedBox (h1.activeIds ▸ (h1.remaining_active k hk).1)

/-- One frame in both runs. -/
theorem Renamed.update (h : Renamed ρ st st') (hw : WellFormed st)
    (hu : Updated solver st ds frameId a b out st₁)
    (hu' : Updated solver' st' ds' frameId' a' b' out' st₁')
    (hpairs : (matchedPairs a' b').Perm ((matchedPairs a b).map (Prod.map ρ id)))
    (hspawned : b'.spawned.Perm b.spawned) :
    ∃ ρ' : Equiv.Perm String, (∀ k, Issued st k → ρ' k = ρ k) ∧ Renamed ρ' st₁ st₁' := by
  obtain ⟨σ, hσ, hnew⟩ := exists_renumbering st.cameraId st.idAllocator.counter hspawned
  have hcounter : st₁.idAllocator.counter = st.idAllocator.counter + b.spawned.length := by
    rw [hu.idAllocator]
  have hold : ∀ k, Issued st k → (σ.trans ρ) k = ρ k := by
    rintro k ⟨j, hj, rfl⟩
    rw [Equiv.trans_apply, hσ j (.inl hj)]
  refine ⟨σ.trans ρ, hold, ?_, ?_, ?_, ?_⟩
  · rw [hu.cameraId, hu'.cameraId, h.cameraId]
  · rw [hcounter, hu'.idAllocator, h.counter, hspawned.length_eq]
  · intro j hj
    rw [hcounter] at hj
    rw [hu.cameraId, Equiv.trans_apply, hσ j (.inr hj), h.fixes j (by omega)]
  · rw [hu.entries, hu'.entries, List.map_append]
    refine List.Perm.append ?_ ?_
    · have hsettled : ((st'.tracks.mapValues (settle (matchedPairs a' b'))).entries).Perm
          (((st.tracks.mapValues (settle (matchedPairs a b))).entries).map
            (fun e => (ρ e.1, e.2.rename ρ))) := by
        have hmap := h.entries.map (fun e => (e.1, settle (matchedPairs a' b') e.1 e.2))
        rw [List.map_map] at hmap
        simp only [Dict.mapValues, List.map_map]
        refine hmap.trans (List.Perm.of_eq (List.map_congr_left (fun e _ => ?_)))
        simp only [Function.comp_apply,
          settle_rename hpairs (hu.third.pairs_nodup hu.first) e.1 e.2]
      have hkept := hsettled.filter (fun e => !ByteTracker.expired e.2)
      rw [List.filter_map] at hkept
      refine hkept.trans (List.Perm.of_eq (List.map_congr_left (fun e he => ?_)))
      obtain ⟨⟨k, t⟩, hmem, rfl⟩ := List.mem_map.mp (List.mem_filter.mp he).1
      obtain ⟨hid, _, hissued⟩ := hw.issued k t (Dict.get?_eq_some.mpr hmem)
      have hk : (σ.trans ρ) k = ρ k := hold k (by
        obtain ⟨j, _, hj, he⟩ := hissued
        exact ⟨j, hj, he⟩)
      have hname : (settle (matchedPairs a b) k t).trackId = k :=
        (settle_identity (matchedPairs a b) k t).1.trans hid
      simp only [STrack.rename, hname, hk]
    · have hrename := hnew.map (fun e => (ρ e.1, e.2.rename ρ))
      rw [List.map_map] at hrename
      rw [h.cameraId, h.counter]
      refine List.Perm.trans (List.Perm.of_eq ?_) hrename
      refine (List.map_id _).symm.trans (List.map_congr_left (fun e he => ?_))
      obtain ⟨k, t⟩ := e
      obtain ⟨i, d, _, rfl, rfl⟩ := mem_newTracks he
      have hk := h.fixes (st.idAllocator.counter + i + 1) (by omega)
      simp only [id_eq, STrack.rename, STrack.init, hk]

variable [IsStrictOrderedRing K]

/-- The stages of both runs make the same pairs and leave the same detections. -/
theorem Renamed.matched (h : Renamed ρ st st') (hs : SolvesAssignment solver)
    (hs' : SolvesAssignment solver') (hds : ds'.Perm ds) (h1 : FirstStages solver st ds a)
    (h1' : FirstStages solver' st' ds' a') (h3 : ThirdStage solver st a b)
    (h3' : ThirdStage solver' st' a' b')
    (hd1 : StageDetermined trackMatchIouThreshold a.activeIds a.highConf st.predicted)
    (hd2 : StageDetermined trackLowConfMatchIouThreshold a.remainingTrackIds a.lowConf
      st.predicted) :
    (matchedPairs a' b').Perm ((matchedPairs a b).map (Prod.map ρ id)) ∧
      b'.spawned.Perm b.spawned := by
  have hpairs1 := h.pairs1 hs hs' hds h1 h1' hd1
  have hpairs2 := h.pairs2 hs hs' hds h1 h1' hpairs1 hd2
  have hnil := stage3_matches_nil hs h1 h3
  have hnil' := stage3_matches_nil hs' h1' h3'
  refine ⟨?_, ?_⟩
  · simp only [matchedPairs, ByteTracker.ThreeStages.pairs3, hnil, hnil']
    simpa [assigned] using hpairs1.append hpairs2
  · have hall := assigned_snd_perm h1.run1.matching
    have hall' := assigned_snd_perm h1'.run1.matching
    have hhigh : a'.highConf.Perm a.highConf := by
      rw [h1.highConf, h1'.highConf]
      exact hds.filter _
    have hsnd : (a'.pairs1.map Prod.snd).Perm (a.pairs1.map Prod.snd) := by
      have hmap := hpairs1.map Prod.snd
      rwa [List.map_map] at hmap
    rw [(h3.spawned_leftover hnil).2, (h3'.spawned_leftover hnil').2, h3.leftover, h3'.leftover,
      h1.run1.left, h1'.run1.left]
    have hboth := (hall'.symm.trans hhigh).trans hall
    exact (List.perm_append_left_iff _).mp ((hsnd.symm.append_right _).trans hboth)

end Frames

section Runs
variable [HasSqrt K] {solver solver' : LinearSumAssignment K}

/-- The assignments of a frame are determined up to their threshold. The tracks
that stage 1 leaves over still show stage 2 their predicted boxes, and stage 3
needs no condition as it never matches. -/
def ByteTracker.Determined (solver : LinearSumAssignment K) (self : ByteTracker K)
    (detections : List (Detection K)) : Prop :=
  ∀ a, self.firstStages solver detections = .ok a →
    StageDetermined trackMatchIouThreshold a.activeIds a.highConf self.predicted ∧
    StageDetermined trackLowConfMatchIouThreshold a.remainingTrackIds a.lowConf self.predicted

/-- The assignments of all frames are. -/
def ByteTracker.RunDetermined (solver : LinearSumAssignment K) :
    ByteTracker K → List (List (Detection K) × String) → Prop
  | _, [] => True
  | self, f :: frames => self.Determined solver f.1 ∧
    ∀ out next, self.update solver f.1 f.2 = .ok (out, next) → RunDetermined solver next frames

variable [IsStrictOrderedRing K] {ρ : Equiv.Perm String} {st st' : ByteTracker K}
  {ds : List (Detection K)} {a : ByteTracker.TwoStages K}

theorem firstStages_spec (hs : Assigns solver) (hw : WellFormed st)
    (h : ByteTracker.firstStages solver st ds = .ok a) : FirstStages solver st ds a := by
  obtain ⟨a', ha', h1⟩ := firstStages_ok hs hw.healthy ds
  exact Except.ok.inj (h.symm.trans ha') ▸ h1

/-- All frames in both runs: one renaming serves them all. -/
theorem Renamed.outputs (h : Renamed ρ st st') (hw : WellFormed st) (hw' : WellFormed st')
    (hs : SolvesAssignment solver) (hs' : SolvesAssignment solver')
    {frames frames' : List (List (Detection K) × String)}
    (hframes : List.Forall₂ (fun f f' => f'.1.Perm f.1 ∧ f'.2 = f.2) frames frames')
    (hd : st.RunDetermined solver frames) :
    ∃ outs outs', ∃ ρ' : Equiv.Perm String, st.outputs solver frames = .ok outs ∧
      st'.outputs solver' frames' = .ok outs' ∧ (∀ k, Issued st k → ρ' k = ρ k) ∧
      List.Forall₂ (fun out out' => out'.Perm (out.map (Track.rename ρ'))) outs outs' := by
  induction hframes generalizing ρ st st' with
  | nil => exact ⟨[], [], ρ, rfl, rfl, fun _ _ => rfl, .nil⟩
  | @cons f f' frames frames' hf _ ih =>
    obtain ⟨hperm, hid⟩ := hf
    obtain ⟨a, b, out, st₁, ha, hok, hu⟩ := update_ok hs.toAssigns hw f.1 f.2
    obtain ⟨a', b', out', st₁', _, hok', hu'⟩ := update_ok hs'.toAssigns hw' f'.1 f'.2
    obtain ⟨hd1, hd2⟩ := hd.1 a (firstStages_of_associate ha)
    obtain ⟨hpairs, hspawned⟩ :=
      h.matched hs hs' hperm hu.first hu'.first hu.third hu'.third hd1 hd2
    obtain ⟨ρ₁, hold, hnext⟩ := h.update hw hu hu' hpairs hspawned
    have hw₁ := hu.wellFormed hw
    obtain ⟨outs, outs', ρ', houts, houts', hext, hall⟩ :=
      ih hnext hw₁ (hu'.wellFormed hw') (hd.2 out st₁ hok)
    refine ⟨out :: outs, out' :: outs', ρ', ?_, ?_, fun k hk => ?_, .cons ?_ hall⟩
    · exact bind_eq_ok.mpr ⟨_, hok, bind_eq_ok.mpr ⟨_, houts, rfl⟩⟩
    · exact bind_eq_ok.mpr ⟨_, hok', bind_eq_ok.mpr ⟨_, houts', rfl⟩⟩
    · exact (hext k (hu.issued hk)).trans (hold k hk)
    · have hsame : out.map (Track.rename ρ') = out.map (Track.rename ρ₁) := by
        refine List.map_congr_left (fun track htrack => ?_)
        rw [hu.out] at htrack
        obtain ⟨t, hvalue, rfl⟩ := List.mem_map.mp htrack
        obtain ⟨⟨k, t⟩, he, rfl⟩ := List.mem_map.mp hvalue
        obtain ⟨hname, _, j, _, hj, hk⟩ := hw₁.issued k t (Dict.get?_eq_some.mpr he)
        have hkey : ρ' t.trackId = ρ₁ t.trackId := hext _ ⟨j, hj, hname.trans hk⟩
        simp only [Track.rename, STrack.toTrack, hkey]
      have hshown := hnext.shown f.2
      rwa [hsame, hu.out, hu'.out, hid]

/-- The order of detections within a frame does not matter: where the assignments
are determined, the tracks returned differ in their order and their ids only. -/
theorem detection_order_irrelevant (hs : SolvesAssignment solver)
    (hs' : SolvesAssignment solver') (cameraId : String)
    {frames frames' : List (List (Detection K) × String)}
    (hframes : List.Forall₂ (fun f f' => f'.1.Perm f.1 ∧ f'.2 = f.2) frames frames')
    (hd : (newTracker cameraId).RunDetermined solver frames) :
    ∃ outs outs', (newTracker cameraId).outputs solver frames = .ok outs ∧
      (newTracker cameraId).outputs solver' frames' = .ok outs' ∧
      ∃ rename : Equiv.Perm String,
        List.Forall₂ (fun out out' => out'.Perm (out.map (Track.rename rename))) outs outs' := by
  have hw := newTracker_wellFormed (K := K) cameraId
  have hstart : Renamed (Equiv.refl String) (newTracker cameraId : ByteTracker K)
      (newTracker cameraId) := ⟨rfl, rfl, fun _ _ => rfl, .refl _⟩
  obtain ⟨outs, outs', ρ, houts, houts', _, hall⟩ := hstart.outputs hw hw hs hs' hframes hd
  exact ⟨outs, outs', houts, houts', ρ, hall⟩

theorem Watching.runDetermined {family : List (BoundingBox K)} {owner : BoundingBox K → String}
    {past : BoundingBox K → List Bool} (h : Watching family owner past st)
    (hsqrt : RootsOfSquares K) (hs : SolvesAssignment solver)
    (hsolid : ∀ box ∈ family, box.asXyxy.Solid) (hw : WellFormed st)
    {frames : List (List (Detection K) × String)} (hframes : ∀ f ∈ frames, FrameOf family f.1)
    (hsurvives : ∀ box ∈ family,
      Survives (past box ++ frames.map (fun f => decide (box ∈ visible f.1)))) :
    st.RunDetermined solver frames := by
  induction frames generalizing st past with
  | nil => trivial
  | cons f frames ih =>
    have hf := hframes f List.mem_cons_self
    have hsplit : ∀ box, past box ++ (f :: frames).map (fun f => decide (box ∈ visible f.1)) =
        past box ++ [decide (box ∈ visible f.1)] ++
          frames.map (fun f => decide (box ∈ visible f.1)) := by
      simp
    refine ⟨fun a ha => ?_, fun out st' hok => ?_⟩
    · have h1 := firstStages_spec hs.toAssigns hw ha
      exact ⟨.of_own (h.stage1 hsqrt hsolid hf h1) (by norm_num [trackMatchIouThreshold]),
        .of_own (h.stage2 hsqrt hs hsolid hf h1) (by norm_num [trackLowConfMatchIouThreshold])⟩
    · obtain ⟨a, b, _, hu⟩ := updated_of_ok hs.toAssigns hw hok
      exact ih (h.update hsqrt hs hsolid hf hw hu
          (fun box hbox => (hsplit box ▸ hsurvives box hbox).left)) (hu.wellFormed hw)
        (fun g hg => hframes g (List.mem_cons_of_mem f hg))
        (fun box hbox => hsplit box ▸ hsurvives box hbox)

/-- Runs over motionless objects are determined. -/
theorem Motionless.runDetermined (hsqrt : RootsOfSquares K) (hs : SolvesAssignment solver)
    (cameraId : String) {family : List (BoundingBox K)} (hfamily : family.Nodup)
    (hsolid : ∀ box ∈ family, box.asXyxy.Solid) {frames : List (List (Detection K) × String)}
    (h : Motionless family frames) : (newTracker cameraId).RunDetermined solver frames := by
  have hw := newTracker_wellFormed (K := K) cameraId
  cases frames with
  | nil => trivial
  | cons f frames =>
    refine ⟨fun a ha => ?_, fun out st hok => ?_⟩
    · have h1 := firstStages_spec hs.toAssigns hw ha
      have hactive : a.activeIds = [] := h1.activeIds
      have hremaining : a.remainingTrackIds = [] := by rw [h1.remaining, hactive, List.filter_nil]
      rw [hactive, hremaining]
      exact ⟨.of_no_tracks _ _ _, .of_no_tracks _ _ _⟩
    · obtain ⟨a, b, _, hu⟩ := updated_of_ok hs.toAssigns hw hok
      obtain ⟨owner, hwatch⟩ := watching_start hfamily (h.boxes f List.mem_cons_self)
        (h.clear f List.mem_cons_self) hu
      exact hwatch.runDetermined hsqrt hs hsolid (hu.wellFormed hw)
        (fun g hg => h.boxes g (List.mem_cons_of_mem f hg)) (fun box hbox => h.survives hbox)

theorem detection_order_irrelevant_two :
    ∃ outs outs', (newTracker "cam-1").outputs exhaustiveSolver twoBoxes = .ok outs ∧
      (newTracker "cam-1").outputs exhaustiveSolver
        (twoBoxes.map (fun f => (f.1.reverse, f.2))) = .ok outs' ∧
      ∃ rename : Equiv.Perm String,
        List.Forall₂ (fun out out' => out'.Perm (out.map (Track.rename rename))) outs outs' :=
  detection_order_irrelevant exhaustive_solves exhaustive_solves "cam-1"
    (List.forall₂_map_right_iff.mpr (List.forall₂_same.mpr
      (fun f _ => ⟨f.1.reverse_perm, rfl⟩)))
    (twoBoxes_motionless.runDetermined rootsOfSquares_rat exhaustive_solves "cam-1"
      (by decide +kernel) twoBoxes_solid)

end Runs
end CamTrack
