import CamTrack.Proofs.Conservation
import CamTrack.Proofs.Lifecycle

namespace CamTrack
open Python Positions InferenceConstants

variable {K : Type} [Field K] [LinearOrder K]

/-- A detection of the confidence that takes part in the association. -/
def takesPart (d : Detection K) : Bool := decide (trackLowConfThreshold ≤ d.confidence.val)

/-- The detection at a position of the frame that came `missed` frames before the last. -/
def detectionAt (frames : List (List (Detection K) × String)) (missed position : Nat) :
    Option (Detection K) :=
  (frames.reverse[missed]?).bind (fun f => f.1[position]?)

@[simp] theorem detectionAt_zero (frames : List (List (Detection K) × String))
    (f : List (Detection K) × String) (p : Nat) : detectionAt (frames ++ [f]) 0 p = f.1[p]? := by
  simp [detectionAt]

@[simp] theorem detectionAt_succ (frames : List (List (Detection K) × String))
    (f : List (Detection K) × String) (n p : Nat) :
    detectionAt (frames ++ [f]) (n + 1) p = detectionAt frames n p := by
  simp [detectionAt]

/-- Where the detections that take part are in the frames that a track may have been seen in. -/
def window (frames : List (List (Detection K) × String)) : List (Nat × Nat) :=
  (frames.reverse.take (trackMaxLostFrames + 1)).zipIdx.flatMap
    (fun f => (positions takesPart f.1.1).map (fun p => (f.2, p)))

theorem window_length (frames : List (List (Detection K) × String)) : (window frames).length =
    ((frames.reverse.take (trackMaxLostFrames + 1)).map
      (fun f => (f.1.filter takesPart).length)).sum := by
  have hlengths : (fun f : (List (Detection K) × String) × Nat =>
      ((positions takesPart f.1.1).map (fun p => (f.2, p))).length) =
        (fun f => (f.1.filter takesPart).length) ∘ Prod.fst := by
    funext f
    simp [positions_length]
  rw [window, List.length_flatMap, hlengths, ← List.map_map, List.zipIdx_map_fst]

theorem mem_window {frames : List (List (Detection K) × String)} {missed p : Nat} {d : Detection K}
    (hmissed : missed ≤ trackMaxLostFrames) (hd : detectionAt frames missed p = some d)
    (hlow : takesPart d = true) : (missed, p) ∈ window frames := by
  obtain ⟨f, hf, hp⟩ := Option.bind_eq_some_iff.mp hd
  refine List.mem_flatMap.mpr ⟨(f, missed), ?_, ?_⟩
  · rw [List.mem_zipIdx_iff_getElem?, List.getElem?_take_of_lt (Nat.lt_succ_of_le hmissed)]
    exact hf
  · exact List.mem_map.mpr ⟨p, mem_positions.mpr ⟨d, hp, hlow⟩, rfl⟩

/-- Each track was last seen in a detection of its own, `seen` being the position of that in
its frame, and shows the confidence of it. -/
structure LastSeen (frames : List (List (Detection K) × String)) (st : ByteTracker K)
    (seen : String → Nat) : Prop where
  detection : ∀ k t, st.tracks.get? k = some t → ∃ d,
    detectionAt frames t.timeSinceUpdate (seen k) = some d ∧ takesPart d = true ∧
      t.lastConfidence = d.confidence
  apart : ∀ k k' t t', st.tracks.get? k = some t → st.tracks.get? k' = some t' →
    t.timeSinceUpdate = t'.timeSinceUpdate → seen k = seen k' → k = k'

/-- In the frame at hand the track is matched with the detection at `position`, or starts
there. -/
def SeenNow (st : ByteTracker K) (ms : List (String × Nat)) (spawned : List Nat) (trackId : String)
    (position : Nat) : Prop :=
  (trackId, position) ∈ ms ∨ ∃ i, spawned[i]? = some position ∧
    trackId = formatTrackId st.cameraId (st.idAllocator.counter + i + 1)

section Step
variable [HasSqrt K] [IsStrictOrderedRing K] {solver : LinearSumAssignment K}
  {st st' : ByteTracker K} {ds : List (Detection K)} {frameId : String}
  {ms : List (String × Nat)} {spawned : List Nat} {mid : Dict String (STrack K)}
  {out : List (Track K)} {frames : List (List (Detection K) × String)} {seen : String → Nat}

omit [IsStrictOrderedRing K] in
theorem Conserves.seen_apart (h : Conserves st ds frameId ms spawned mid out st')
    {k k' : String} {p : Nat} (hk : SeenNow st ms spawned k p)
    (hk' : SeenNow st ms spawned k' p) : k = k' := by
  obtain ⟨hms, hspawned, hdisjoint⟩ := List.nodup_append.mp h.detectionsOnce
  have hnot : ∀ j, (j, p) ∈ ms → p ∉ spawned := by
    intro j hj hp
    exact hdisjoint p (List.mem_map.mpr ⟨(j, p), hj, rfl⟩) p hp rfl
  rcases hk with hk | ⟨i, hi, rfl⟩
  · rcases hk' with hk' | ⟨i, hi, rfl⟩
    · exact congrArg Prod.fst (List.inj_on_of_nodup_map hms hk hk' rfl)
    · exact absurd (List.mem_of_getElem? hi) (hnot k hk)
  · rcases hk' with hk' | ⟨j, hj, rfl⟩
    · exact absurd (List.mem_of_getElem? hi) (hnot k' hk')
    · have hij : i = j := (List.getElem?_inj (List.getElem?_eq_some_iff.mp hi).1 hspawned).mp
        (hi.trans hj.symm)
      rw [hij]

omit [HasSqrt K] [IsStrictOrderedRing K] in
theorem markMatched_seen {t t' : STrack K} {d : Detection K} (h : t.markMatched d = .ok t') :
    t'.timeSinceUpdate = 0 ∧ t'.lastConfidence = d.confidence := by
  obtain ⟨kalman, _, hreturn⟩ := bind_eq_ok.mp h
  cases hreturn
  exact ⟨rfl, rfl⟩

/-- A track after a frame is seen in it, with a detection that takes part, or misses it. -/
theorem Conserves.seen_or_missed (h : Conserves st ds frameId ms spawned mid out st')
    {k : String} {t' : STrack K} (ht : st'.tracks.get? k = some t') :
    (∃ p d, SeenNow st ms spawned k p ∧ ds[p]? = some d ∧ takesPart d = true ∧
      t'.timeSinceUpdate = 0 ∧ t'.lastConfidence = d.confidence) ∨
    ∃ t, st.tracks.get? k = some t ∧ t'.timeSinceUpdate = t.timeSinceUpdate + 1 ∧
      t'.lastConfidence = t.lastConfidence := by
  rw [Dict.get?_eq_some, h.entries, List.mem_append] at ht
  rcases ht with hold | hnew
  · have hmid : mid.get? k = some t' :=
      Dict.get?_eq_some.mpr (List.mem_filter.mp hold).1
    have hkey : k ∈ st.tracks.keys := h.midKeys ▸ Dict.mem_keys_of_get? hmid
    by_cases hmatched : k ∈ ms.map Prod.fst
    · obtain ⟨⟨k, p⟩, hm, rfl⟩ := List.mem_map.mp hmatched
      obtain ⟨_, d, t'', _, hd, hmark, hmid'⟩ := h.matched k p hm
      obtain rfl : t'' = t' := Option.some.inj (hmid'.symm.trans hmid)
      obtain ⟨d', hd', hlow⟩ := h.matchedAbove p (List.mem_map.mpr ⟨_, hm, rfl⟩)
      obtain rfl : d' = d := Option.some.inj (hd'.symm.trans hd)
      obtain ⟨hupdate, hconfidence⟩ := markMatched_seen hmark
      exact .inl ⟨p, d', .inl hm, hd, decide_eq_true hlow, hupdate, hconfidence⟩
    · obtain ⟨t, hk⟩ := Dict.mem_keys_iff.mp hkey
      obtain rfl : t.predict.markUnmatched = t' :=
        Option.some.inj ((h.unmatched k t hk hmatched).symm.trans hmid)
      exact .inr ⟨t, hk, rfl, rfl⟩
  · obtain ⟨i, d, hpick, hname, rfl⟩ := mem_newTracks hnew
    have hbound : ∀ j ∈ spawned, j < ds.length := by
      intro j hj
      obtain ⟨_, hd, _⟩ := h.spawnedHigh j hj
      exact (List.getElem?_eq_some_iff.mp hd).1
    rw [getElem?_pick hbound] at hpick
    obtain ⟨p, hp, hd⟩ := Option.bind_eq_some_iff.mp hpick
    obtain ⟨d', hd', hhigh⟩ := h.spawnedHigh p (List.mem_of_getElem? hp)
    obtain rfl : d' = d := Option.some.inj (hd'.symm.trans hd)
    exact .inl ⟨p, d', .inr ⟨i, hp, hname⟩, hd,
      decide_eq_true (lowConf_le_highConf.trans hhigh), rfl, rfl⟩

theorem LastSeen.step (h : LastSeen frames st seen)
    (hc : Conserves st ds frameId ms spawned mid out st') :
    ∃ seen', LastSeen (frames ++ [(ds, frameId)]) st' seen' := by
  have hnow : ∀ k, ∃ p, ∀ t', st'.tracks.get? k = some t' →
      (SeenNow st ms spawned k p ∧ t'.timeSinceUpdate = 0 ∧ ∃ d, ds[p]? = some d ∧
        takesPart d = true ∧ t'.lastConfidence = d.confidence) ∨
      (p = seen k ∧ ∃ t, st.tracks.get? k = some t ∧
        t'.timeSinceUpdate = t.timeSinceUpdate + 1 ∧ t'.lastConfidence = t.lastConfidence) := by
    intro k
    cases hk : st'.tracks.get? k with
    | none => exact ⟨0, fun t' ht => (by cases ht)⟩
    | some t' =>
      rcases hc.seen_or_missed hk with ⟨p, d, hp, hd, hlow, hupdate, hconfidence⟩ | hmissed
      · refine ⟨p, fun u hu => ?_⟩
        cases hu
        exact .inl ⟨hp, hupdate, d, hd, hlow, hconfidence⟩
      · refine ⟨seen k, fun u hu => ?_⟩
        cases hu
        exact .inr ⟨rfl, hmissed⟩
  choose seen' hseen using hnow
  refine ⟨seen', fun k t' ht => ?_, fun k k' t' u' ht hu hsame hposition => ?_⟩
  · rcases hseen k t' ht with ⟨_, hupdate, d, hd, hlow, hconfidence⟩ | ⟨hp, t, hk, hupdate, hshown⟩
    · exact ⟨d, by rw [hupdate, detectionAt_zero, hd], hlow, hconfidence⟩
    · obtain ⟨d, hd, hlow, hconfidence⟩ := h.detection k t hk
      exact ⟨d, by rw [hupdate, detectionAt_succ, hp, hd], hlow, hshown.trans hconfidence⟩
  · rcases hseen k t' ht with ⟨hnow, hzero, _⟩ | ⟨hp, t, hk, hmissed, _⟩
    · rcases hseen k' u' hu with ⟨hnow', _, _⟩ | ⟨_, u, _, hmissed', _⟩
      · exact hc.seen_apart hnow (hposition ▸ hnow')
      · omega
    · rcases hseen k' u' hu with ⟨_, hzero', _⟩ | ⟨hp', u, hk', hmissed', _⟩
      · omega
      · exact h.apart k k' t u hk hk' (by omega) (by rw [← hp, ← hp', hposition])

end Step

section Run
variable [HasSqrt K] {solver : LinearSumAssignment K} {cameraId : String} {st : ByteTracker K}

theorem run_concat {st₀ : ByteTracker K} (frames : List (List (Detection K) × String))
    (f : List (Detection K) × String) (h : ByteTracker.run solver st₀ (frames ++ [f]) = .ok st) :
    ∃ st₁ out, ByteTracker.run solver st₀ frames = .ok st₁ ∧
      ByteTracker.update solver st₁ f.1 f.2 = .ok (out, st) := by
  rw [ByteTracker.run, List.foldlM_append] at h
  obtain ⟨st₁, hrun, hlast⟩ := bind_eq_ok.mp h
  rw [List.foldlM_cons] at hlast
  obtain ⟨st₂, hupdate, hnil⟩ := bind_eq_ok.mp hlast
  cases hnil
  obtain ⟨⟨out, st₂⟩, hupdate, hreturn⟩ := bind_eq_ok.mp hupdate
  cases hreturn
  exact ⟨st₁, out, hrun, hupdate⟩

omit [HasSqrt K] in
/-- The tracks differ in when and where they were last seen, so there are no more of them than
detections to be seen in. -/
theorem LastSeen.length_le {frames : List (List (Detection K) × String)} {seen : String → Nat}
    (h : LastSeen frames st seen)
    (hrecent : ∀ k t, st.tracks.get? k = some t → t.timeSinceUpdate ≤ trackMaxLostFrames) :
    st.tracks.keys.length ≤ (window frames).length := by
  let place : String → Nat × Nat := fun k =>
    (((st.tracks.get? k).map STrack.timeSinceUpdate).getD 0, seen k)
  have hplace : ∀ {k t}, st.tracks.get? k = some t → place k = (t.timeSinceUpdate, seen k) := by
    intro k t ht
    simp [place, ht]
  have hnodup : (st.tracks.keys.map place).Nodup := by
    rw [List.nodup_map_iff_inj_on st.tracks.keys_nodup]
    intro k hk k' hk' hsame
    obtain ⟨t, ht⟩ := Dict.mem_keys_iff.mp hk
    obtain ⟨t', ht'⟩ := Dict.mem_keys_iff.mp hk'
    rw [hplace ht, hplace ht', Prod.mk.injEq] at hsame
    exact h.apart k k' t t' ht ht' hsame.1 hsame.2
  have hsubset : st.tracks.keys.map place ⊆ window frames := by
    intro q hq
    obtain ⟨k, hk, rfl⟩ := List.mem_map.mp hq
    obtain ⟨t, ht⟩ := Dict.mem_keys_iff.mp hk
    obtain ⟨d, hd, hlow, _⟩ := h.detection k t ht
    rw [hplace ht]
    exact mem_window (hrecent k t ht) hd hlow
  rw [← List.length_map]
  exact (List.subperm_of_subset hnodup hsubset).length_le

variable [IsStrictOrderedRing K]

theorem run_lastSeen (hs : Assigns solver) (frames : List (List (Detection K) × String))
    (h : ByteTracker.run solver (newTracker cameraId) frames = .ok st) :
    Reachable solver cameraId st ∧ ∃ seen, LastSeen frames st seen := by
  induction frames using List.reverseRecOn generalizing st with
  | nil =>
    cases h
    refine ⟨.new, fun _ => 0, ?_, ?_⟩ <;> simp [newTracker]
  | append_singleton frames f ih =>
    obtain ⟨st₁, out, hrun, hupdate⟩ := run_concat frames f h
    obtain ⟨hreach, seen, hseen⟩ := ih hrun
    have hw := (hreach.wellFormed hs).1
    obtain ⟨_, _, _, hupdated⟩ := updated_of_ok hs hw hupdate
    exact ⟨hreach.update hupdate, hseen.step (hupdated.conserves hw)⟩

/-- Whatever a new tracker is fed with, each track that it holds was last seen, that many
frames ago, in a detection that no other track was last seen in and whose confidence it still
shows. So it never holds more tracks than its last frames had detections that take part,
however long it runs. -/
theorem tracks_last_seen (hs : Assigns solver) (cameraId : String)
    (frames : List (List (Detection K) × String)) :
    ∃ st seen, ByteTracker.run solver (newTracker cameraId) frames = .ok st ∧
      LastSeen frames st seen ∧ st.tracks.keys.length ≤
        ((frames.reverse.take (trackMaxLostFrames + 1)).map
          (fun f => (f.1.filter takesPart).length)).sum := by
  obtain ⟨st, hrun, _⟩ := run_ok hs (.new : Reachable solver cameraId _) frames
  obtain ⟨hreach, seen, hseen⟩ := run_lastSeen hs frames hrun
  refine ⟨st, seen, hrun, hseen, ?_⟩
  rw [← window_length]
  exact hseen.length_le (fun k t ht => (hreach.alive hs k t ht).recent)

end Run

/-- A square that is seen three times and then missed. -/
theorem tracks_last_seen_missed_square : ∃ st seen,
    ByteTracker.run exhaustiveSolver (newTracker "cam-1")
        [([clearSquare], "f1"), ([clearSquare], "f2"), ([clearSquare], "f3"), ([], "f4")] = .ok st ∧
      LastSeen [([clearSquare], "f1"), ([clearSquare], "f2"), ([clearSquare], "f3"), ([], "f4")]
        st seen ∧ st.tracks.keys.length ≤ 3 := by
  obtain ⟨st, seen, hrun, hseen, hlength⟩ := tracks_last_seen exhaustive_solves.toAssigns "cam-1"
    [([clearSquare], "f1"), ([clearSquare], "f2"), ([clearSquare], "f3"), ([], "f4")]
  exact ⟨st, seen, hrun, hseen, hlength.trans (by decide +kernel)⟩

end CamTrack
