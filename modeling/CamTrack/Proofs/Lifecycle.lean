import CamTrack.Lib.Streak
import CamTrack.Proofs.Update

namespace CamTrack
open Python Assignment Positions Streak InferenceConstants

/-- The lifecycle fields of a track. -/
structure Counters where
  state : TrackState
  hits : Nat
  ageFrames : Nat
  timeSinceUpdate : Nat
  deriving DecidableEq, Repr

namespace Lifecycle

/-- A track in the frame that creates it. -/
def born : Counters := ⟨.tentative, 1, 1, 0⟩

def hit (c : Counters) : Counters :=
  ⟨STrack.matchedState c.state (c.hits + 1), c.hits + 1, c.ageFrames + 1, 0⟩

def miss (c : Counters) : Counters where
  state :=
    match c.state with
    | .confirmed => .lost
    | .tentative => .removed
    | state => state
  hits := c.hits
  ageFrames := c.ageFrames + 1
  timeSinceUpdate := c.timeSinceUpdate + 1

/-- One later frame, `none` when its cleanup drops the track. -/
def next (c : Counters) (matched : Bool) : Option Counters :=
  let c' := if matched then hit c else miss c
  if c'.state = .removed ∨ c'.timeSinceUpdate > trackMaxLostFrames then none else some c'

/-- A track after the outcomes of the frames that follow its creation. -/
def lifecycle (bs : List Bool) : Option Counters := bs.foldlM next born

/-- The outcomes a track outlives: no miss before it is confirmed and never too
many in a row. -/
def Survives (bs : List Bool) : Prop :=
  (∀ b ∈ bs.take (trackMinHitsToConfirm - 1), b = true) ∧
    ¬ List.replicate (trackMaxLostFrames + 1) false <:+: bs

/-- What a surviving track shows of its outcomes. -/
def ofHistory (bs : List Bool) : Counters where
  state :=
    if bs.length < trackMinHitsToConfirm - 1 then .tentative
    else if bs.getLast? = some true then .confirmed else .lost
  hits := 1 + bs.count true
  ageFrames := 1 + bs.length
  timeSinceUpdate := trailing bs

theorem survives_concat (bs : List Bool) (b : Bool) :
    Survives (bs ++ [b]) ↔ Survives bs ∧ (bs.length < trackMinHitsToConfirm - 1 → b = true) ∧
      trailing (bs ++ [b]) ≤ trackMaxLostFrames := by
  have htake : (∀ c ∈ (bs ++ [b]).take (trackMinHitsToConfirm - 1), c = true) ↔
      (∀ c ∈ bs.take (trackMinHitsToConfirm - 1), c = true) ∧
        (bs.length < trackMinHitsToConfirm - 1 → b = true) := by
    rw [List.take_append]
    by_cases hlt : bs.length < trackMinHitsToConfirm - 1
    · obtain ⟨n, hn⟩ := Nat.exists_eq_add_of_lt hlt
      rw [show trackMinHitsToConfirm - 1 - bs.length = n + 1 by omega]
      simp [or_imp, forall_and, hlt]
    · rw [show trackMinHitsToConfirm - 1 - bs.length = 0 by omega]
      simp [hlt]
  rw [Survives, Survives, htake, replicate_infix_concat]
  simp only [not_or, not_le, Nat.lt_succ_iff]
  tauto

/-- Before confirmation a surviving track has been matched every time. -/
theorem Survives.count {bs : List Bool} (h : Survives bs)
    (hlt : bs.length < trackMinHitsToConfirm - 1) : bs.count true = bs.length := by
  rw [List.count_eq_length]
  intro b hb
  exact (h.1 b (by rwa [List.take_of_length_le (by omega)])).symm

theorem ofHistory_not_removed (bs : List Bool) : (ofHistory bs).state ≠ .removed := by
  simp only [ofHistory]
  split
  · simp
  · split <;> simp

theorem hit_ofHistory {bs : List Bool} (h : Survives bs) :
    hit (ofHistory bs) = ofHistory (bs ++ [true]) := by
  have hmin : trackMinHitsToConfirm = 3 := rfl
  have hstate : STrack.matchedState (ofHistory bs).state ((ofHistory bs).hits + 1) =
      (ofHistory (bs ++ [true])).state := by
    by_cases hlt : bs.length < trackMinHitsToConfirm - 1
    · have hc := h.count hlt
      by_cases h0 : bs.length = 0
      · simp [ofHistory, STrack.matchedState, hmin, hc, h0]
      · have h1 : bs.length = 1 := by omega
        simp [ofHistory, STrack.matchedState, hmin, hc, h1]
    · have hle : ¬ (bs ++ [true]).length < trackMinHitsToConfirm - 1 := by simp; omega
      simp only [ofHistory, hlt, hle, ↓reduceIte, List.getLast?_concat]
      split <;> simp [STrack.matchedState]
  simp only [hit, hstate]
  simp [ofHistory, Nat.add_assoc]

theorem next_hit {bs : List Bool} (h : Survives bs) :
    next (ofHistory bs) true = some (ofHistory (bs ++ [true])) := by
  simp only [next, ↓reduceIte, hit_ofHistory h]
  rw [if_neg]
  intro hx
  rcases hx with hr | ht
  · exact ofHistory_not_removed _ hr
  · simp [ofHistory] at ht

/-- A miss ends a track that is not confirmed yet or has been lost too long. -/
theorem next_miss (bs : List Bool) :
    next (ofHistory bs) false =
      if bs.length < trackMinHitsToConfirm - 1 ∨ trailing bs + 1 > trackMaxLostFrames then none
      else some (ofHistory (bs ++ [false])) := by
  by_cases hlt : bs.length < trackMinHitsToConfirm - 1
  · simp [next, miss, ofHistory, hlt]
  · have hle : ¬ (bs ++ [false]).length < trackMinHitsToConfirm - 1 := by simp; omega
    have hmiss : miss (ofHistory bs) = ofHistory (bs ++ [false]) := by
      simp only [miss, ofHistory, hlt, hle, ↓reduceIte, List.getLast?_concat]
      by_cases hl : bs.getLast? = some true <;> simp [hl, Nat.add_assoc]
    simp only [next, Bool.false_eq_true, ↓reduceIte, hmiss, hlt, false_or,
      ofHistory_not_removed]
    simp [ofHistory]

instance (bs : List Bool) : Decidable (Survives bs) := inferInstanceAs (Decidable (_ ∧ _))

/-- A track is what its history says it is. -/
theorem lifecycle_eq (bs : List Bool) :
    lifecycle bs = if Survives bs then some (ofHistory bs) else none := by
  induction bs using List.reverseRecOn with
  | nil => decide
  | append_singleton bs b ih =>
    have hstep : lifecycle (bs ++ [b]) = (lifecycle bs).bind (fun c => next c b) := by
      simp [lifecycle, List.foldlM_append]
    rw [hstep, ih]
    by_cases h : Survives bs
    · simp only [h, ↓reduceIte, Option.bind_some, survives_concat, true_and]
      cases b with
      | true => simp [next_hit h]
      | false =>
        rw [next_miss]
        simp only [trailing_miss, Bool.false_eq_true, imp_false, not_lt]
        split <;> rename_i hc
        · rw [if_neg (by omega)]
        · rw [if_pos (by omega)]
    · simp [h, survives_concat]

/-- One more outcome of a track that survives it. -/
theorem next_ofHistory {bs : List Bool} (h : Survives (bs ++ [b])) :
    next (ofHistory bs) b = some (ofHistory (bs ++ [b])) := by
  have hstep : lifecycle (bs ++ [b]) = (lifecycle bs).bind (fun c => next c b) := by
    simp [lifecycle, List.foldlM_append]
  rw [lifecycle_eq, lifecycle_eq, if_pos h, if_pos ((survives_concat bs b).mp h).1] at hstep
  exact hstep.symm

theorem Survives.left {bs cs : List Bool} (h : Survives (bs ++ cs)) : Survives bs := by
  induction cs using List.reverseRecOn with
  | nil => simpa using h
  | append_singleton cs c ih =>
    rw [← List.append_assoc] at h
    exact ih ((survives_concat _ c).mp h).1

/-- Lifecycle fields a returned track can have. -/
structure Alive (c : Counters) : Prop where
  present : c.state ≠ .removed
  recent : c.timeSinceUpdate ≤ trackMaxLostFrames
  lost : c.state = .lost → 1 ≤ c.timeSinceUpdate

theorem born_alive : Alive born := ⟨by decide, by decide, by decide⟩

theorem next_eq_some (h : next c b = some c') :
    c' = (if b then hit c else miss c) ∧ c'.state ≠ .removed ∧
      c'.timeSinceUpdate ≤ trackMaxLostFrames := by
  have hn : next c b = if (if b then hit c else miss c).state = .removed ∨
      (if b then hit c else miss c).timeSinceUpdate > trackMaxLostFrames then none
    else some (if b then hit c else miss c) := rfl
  rw [hn] at h
  by_cases hx : (if b then hit c else miss c).state = .removed ∨
      (if b then hit c else miss c).timeSinceUpdate > trackMaxLostFrames
  · rw [if_pos hx] at h
    cases h
  · rw [if_neg hx] at h
    obtain rfl := Option.some.inj h
    obtain ⟨hp, hr⟩ := not_or.mp hx
    exact ⟨rfl, hp, Nat.not_lt.mp hr⟩

theorem hit_state (c : Counters) : (hit c).state = .lost → False := by
  simp only [hit, STrack.matchedState]
  split
  · simp
  · split
    · simp
    · exact id ‹_›

theorem next_alive (h : next c b = some c') : Alive c' := by
  obtain ⟨rfl, hp, hr⟩ := next_eq_some h
  refine ⟨hp, hr, ?_⟩
  cases b with
  | true => exact fun hl => (hit_state c hl).elim
  | false => exact fun _ => Nat.le_add_left 1 _

/-- Confirmation is for good: a confirmed or lost track is never tentative. -/
theorem next_not_tentative (h : next c b = some c') (hc : c.state ≠ .tentative) :
    c'.state ≠ .tentative := by
  obtain ⟨rfl, _, _⟩ := next_eq_some h
  cases b with
  | true =>
    simp only [↓reduceIte, hit, STrack.matchedState]
    split
    · simp
    · simp [hc]
  | false =>
    simp only [Bool.false_eq_true, ↓reduceIte, miss]
    cases hs : c.state <;> simp_all

theorem foldlM_not_tentative {bs : List Bool} (h : bs.foldlM next c = some c')
    (hc : c.state ≠ .tentative) : c'.state ≠ .tentative := by
  induction bs generalizing c with
  | nil =>
    cases h
    exact hc
  | cons b bs ih =>
    rw [List.foldlM_cons] at h
    obtain ⟨c₁, h1, h2⟩ := Option.bind_eq_some_iff.mp h
    exact ih h2 (next_not_tentative h1 hc)

end Lifecycle

section Tracks
variable {K : Type} [Field K] [LinearOrder K]
open Lifecycle

def STrack.counters (t : STrack K) : Counters := ⟨t.state, t.hits, t.ageFrames, t.timeSinceUpdate⟩

@[simp] theorem counters_init (k cameraId : String) (d : Detection K) :
    (STrack.init k cameraId d).counters = born := rfl

/-- Settling a track and testing it in the cleanup is one `next`. -/
theorem next_counters (pairs : List (String × Detection K)) (k : String) (t : STrack K) :
    next t.counters (decide (k ∈ pairs.map Prod.fst)) =
      if ByteTracker.expired (settle pairs k t) then none
      else some (settle pairs k t).counters := by
  have hsettle : (settle pairs k t).counters =
      if k ∈ pairs.map Prod.fst then hit t.counters else miss t.counters := by
    unfold settle
    cases hl : pairs.lookup k with
    | none =>
      rw [if_neg (lookup_eq_none.mp hl)]
      cases hs : t.state <;>
        simp [STrack.counters, STrack.markUnmatched, STrack.predict, miss, hs]
    | some d =>
      have hm : k ∈ pairs.map Prod.fst := by
        by_contra hc
        rw [lookup_eq_none.mpr hc] at hl
        cases hl
      rw [if_pos hm]
      rfl
  have hexp : ByteTracker.expired (settle pairs k t) =
      decide ((settle pairs k t).counters.state = .removed ∨
        (settle pairs k t).counters.timeSinceUpdate > trackMaxLostFrames) := rfl
  rw [hexp, hsettle]
  by_cases hm : k ∈ pairs.map Prod.fst <;> simp [next, hm]

variable [HasSqrt K]

/-- The tracker after `frames`, and for each frame whether it matched the track
`trackId` in some stage. -/
def ByteTracker.history (solver : LinearSumAssignment K) (trackId : String) :
    ByteTracker K → List (List (Detection K) × String) →
      Except Error (List Bool × ByteTracker K)
  | self, [] => return ([], self)
  | self, f :: frames => do
    let (_, b) ← associate solver self f.1
    let (_, self) ← update solver self f.1 f.2
    let (outcomes, last) ← history solver trackId self frames
    return (decide (trackId ∈ b.matchedTrackIds) :: outcomes, last)

section Step
variable {solver : LinearSumAssignment K} {st st' : ByteTracker K} {ds : List (Detection K)}
  {a : ByteTracker.TwoStages K} {b : ByteTracker.ThreeStages K} {out : List (Track K)}

/-- An id the allocator has issued. -/
def Issued (st : ByteTracker K) (trackId : String) : Prop :=
  ∃ j, j ≤ st.idAllocator.counter ∧ trackId = formatTrackId st.cameraId j

theorem Updated.issued (h : Updated solver st ds frameId a b out st') (hi : Issued st k) :
    Issued st' k := by
  obtain ⟨j, hj, he⟩ := hi
  refine ⟨j, ?_, by rw [h.cameraId, he]⟩
  rw [h.idAllocator]
  exact hj.trans (Nat.le_add_right _ _)

/-- A dropped track stays dropped: its id is not issued again. -/
theorem Updated.stays_dropped (h : Updated solver st ds frameId a b out st') (hi : Issued st k)
    (hk : st.tracks.get? k = none) : st'.tracks.get? k = none := by
  obtain ⟨j, hj, rfl⟩ := hi
  by_contra hc
  obtain ⟨t, ht⟩ := Option.ne_none_iff_exists'.mp hc
  obtain ⟨i, _, _, he, _⟩ := mem_newTracks ((h.get?_new hk).mp ht)
  have := formatTrackId_inj he
  omega

/-- One `update` moves the counters of every issued id by one `next`. -/
theorem Updated.counters (h : Updated solver st ds frameId a b out st') (hw : WellFormed st)
    (hi : Issued st k) :
    (st'.tracks.get? k).map STrack.counters =
      ((st.tracks.get? k).map STrack.counters).bind
        (fun c => next c (decide (k ∈ b.matchedTrackIds))) := by
  cases hk : st.tracks.get? k with
  | none => simp [h.stays_dropped hi hk]
  | some t =>
    rw [h.get?_old hw hk, h.third.matched, Option.map_some, Option.bind_some, next_counters]
    split <;> rfl

/-- A key that one update adds holds a newborn track under an issued id. -/
theorem Updated.newborn (h : Updated solver st ds frameId a b out st') (hold : k ∉ st.tracks.keys)
    (hnew : k ∈ st'.tracks.keys) :
    Issued st' k ∧ (st'.tracks.get? k).map STrack.counters = some born := by
  obtain ⟨t, ht⟩ := Dict.mem_keys_iff.mp hnew
  obtain ⟨i, d, hd, he, rfl⟩ := mem_newTracks ((h.get?_new (Dict.get?_eq_none.mpr hold)).mp ht)
  have hi := (List.getElem?_eq_some_iff.mp hd).1
  refine ⟨⟨st.idAllocator.counter + i + 1, ?_, by rw [h.cameraId, he]⟩, by simp [ht]⟩
  rw [h.idAllocator]
  change st.idAllocator.counter + i + 1 ≤ st.idAllocator.counter + b.spawned.length
  omega

end Step

variable [IsStrictOrderedRing K] {solver : LinearSumAssignment K} {st st' : ByteTracker K}

/-- A run moves the counters of every issued id by the outcomes of its history. -/
theorem history_ok (hs : Assigns solver) (hw : WellFormed st) (hi : Issued st k)
    (frames : List (List (Detection K) × String)) :
    ∃ bs st', ByteTracker.history solver k st frames = .ok (bs, st') ∧
      ByteTracker.run solver st frames = .ok st' ∧ bs.length = frames.length ∧
      (st'.tracks.get? k).map STrack.counters =
        ((st.tracks.get? k).map STrack.counters).bind (fun c => bs.foldlM next c) := by
  induction frames generalizing st with
  | nil =>
    refine ⟨[], st, rfl, rfl, rfl, ?_⟩
    cases st.tracks.get? k <;> rfl
  | cons f frames ih =>
    obtain ⟨a, b, out, st₁, ha, hu, h⟩ := update_ok hs hw f.1 f.2
    obtain ⟨bs, st', hh, hrun, hlen, hc⟩ := ih (h.wellFormed hw) (h.issued hi)
    refine ⟨decide (k ∈ b.matchedTrackIds) :: bs, st', ?_, ?_, by simp [hlen], ?_⟩
    · exact bind_eq_ok.mpr ⟨_, ha, bind_eq_ok.mpr ⟨_, hu, bind_eq_ok.mpr ⟨_, hh, rfl⟩⟩⟩
    · unfold ByteTracker.run
      rw [List.foldlM_cons]
      exact bind_eq_ok.mpr ⟨st₁, bind_eq_ok.mpr ⟨_, hu, rfl⟩, hrun⟩
    · rw [hc, h.counters hw hi, Option.bind_assoc]
      rfl

/-- Every track a reachable tracker holds is alive. -/
theorem Reachable.alive (hs : Assigns solver) (hr : Reachable solver cameraId st) :
    ∀ k t, st.tracks.get? k = some t → Alive t.counters := by
  induction hr with
  | new => simp [newTracker]
  | @update st st' ds frameId out hr hu _ =>
    obtain ⟨a, b, _, h⟩ := updated_of_ok hs (hr.wellFormed hs).1 hu
    intro k t ht
    cases hk : st.tracks.get? k with
    | none =>
      obtain ⟨_, d, _, _, rfl⟩ := mem_newTracks ((h.get?_new hk).mp ht)
      exact born_alive
    | some t₀ =>
      have hn := next_counters (matchedPairs a b) k t₀
      rw [h.get?_old (hr.wellFormed hs).1 hk] at ht
      split at ht
      · cases ht
      · rename_i hx
        rw [if_neg hx] at hn
        cases ht
        exact next_alive hn

/-- A run after the update that adds `k` takes it through its outcomes. -/
theorem newborn_history (hs : Assigns solver) (hw : WellFormed st)
    {ds : List (Detection K)} {out : List (Track K)} {st₁ : ByteTracker K}
    (hu : ByteTracker.update solver st ds frameId = .ok (out, st₁))
    (hold : k ∉ st.tracks.keys) (hnew : k ∈ st₁.tracks.keys)
    (frames : List (List (Detection K) × String)) :
    ∃ bs st₂, ByteTracker.history solver k st₁ frames = .ok (bs, st₂) ∧
      ByteTracker.run solver st₁ frames = .ok st₂ ∧ bs.length = frames.length ∧
      (st₂.tracks.get? k).map STrack.counters = lifecycle bs := by
  obtain ⟨a, b, _, h⟩ := updated_of_ok hs hw hu
  obtain ⟨hi, hborn⟩ := h.newborn hold hnew
  obtain ⟨bs, st₂, hh, hrun, hlen, hc⟩ := history_ok hs (h.wellFormed hw) hi frames
  rw [hborn, Option.bind_some] at hc
  exact ⟨bs, st₂, hh, hrun, hlen, hc⟩

theorem confirmed_stays (hs : Assigns solver) (hw : WellFormed st)
    {t t' : STrack K} (ht : st.tracks.get? k = some t) (hc : t.state = .confirmed)
    {frames : List (List (Detection K) × String)}
    (hrun : ByteTracker.run solver st frames = .ok st') (ht' : st'.tracks.get? k = some t') :
    t'.state ≠ .tentative := by
  obtain ⟨_, _, j, _, hj, he⟩ := hw.issued k t ht
  obtain ⟨bs, st₂, _, hrun', _, hcount⟩ := history_ok hs hw ⟨j, hj, he⟩ frames
  obtain rfl := Except.ok.inj (hrun.symm.trans hrun')
  rw [ht, ht', Option.map_some, Option.map_some, Option.bind_some] at hcount
  exact foldlM_not_tentative hcount.symm (by simp [STrack.counters, hc])

omit [HasSqrt K] [IsStrictOrderedRing K] in
theorem counters_fields {t : STrack K} (h : t.counters = ofHistory bs) :
    t.hits = 1 + bs.count true ∧ t.ageFrames = 1 + bs.length ∧
      t.timeSinceUpdate = trailing bs ∧
      (t.state = .tentative ↔ bs.length < trackMinHitsToConfirm - 1) ∧
      (¬ bs.length < trackMinHitsToConfirm - 1 →
        t.state = if bs.getLast? = some true then .confirmed else .lost) := by
  simp only [STrack.counters, ofHistory, Counters.mk.injEq] at h
  obtain ⟨hstate, hhits, hage, htsu⟩ := h
  refine ⟨hhits, hage, htsu, ?_, fun hge => by rw [hstate, if_neg hge]⟩
  rw [hstate]
  by_cases hlt : bs.length < trackMinHitsToConfirm - 1
  · simp [hlt]
  · rw [if_neg hlt]
    split <;> simp [hlt]

/-- The life of every track a run creates, read off the outcomes of the frames
that follow its creation; a confirmed track is tentative no more, and what an
update returns is neither removed nor lost for longer than allowed. -/
theorem track_lifecycle (hs : Assigns solver) (hr : Reachable solver cameraId st)
    {ds : List (Detection K)} {out : List (Track K)} {st₁ : ByteTracker K}
    (hu : ByteTracker.update solver st ds frameId = .ok (out, st₁))
    (hold : k ∉ st.tracks.keys) (hnew : k ∈ st₁.tracks.keys)
    (frames : List (List (Detection K) × String)) :
    (∃ bs st₂, ByteTracker.history solver k st₁ frames = .ok (bs, st₂) ∧
      ByteTracker.run solver st₁ frames = .ok st₂ ∧ bs.length = frames.length ∧
      (k ∈ st₂.tracks.keys ↔
        (∀ b ∈ bs.take (min bs.length (trackMinHitsToConfirm - 1)), b = true) ∧
        ¬ List.replicate (trackMaxLostFrames + 1) false <:+: bs) ∧
      ∀ t, st₂.tracks.get? k = some t →
        t.hits = 1 + bs.count true ∧ t.ageFrames = 1 + bs.length ∧
        t.timeSinceUpdate = trailing bs ∧
        (t.state = .tentative ↔ bs.length < trackMinHitsToConfirm - 1) ∧
        (¬ bs.length < trackMinHitsToConfirm - 1 →
          t.state = if bs.getLast? = some true then .confirmed else .lost)) ∧
    (∀ k' t, st.tracks.get? k' = some t → t.state = .confirmed →
      ∀ st₂, ByteTracker.run solver st frames = .ok st₂ →
        ∀ t', st₂.tracks.get? k' = some t' → t'.state ≠ .tentative) ∧
    out = st₁.tracks.values.map (STrack.toTrack frameId) ∧
    ∀ t ∈ st₁.tracks.values, t.state ≠ .removed ∧
      (t.state = .lost → 1 ≤ t.timeSinceUpdate ∧ t.timeSinceUpdate ≤ trackMaxLostFrames) := by
  obtain ⟨hw, _⟩ := hr.wellFormed hs
  obtain ⟨a, b, _, h⟩ := updated_of_ok hs hw hu
  refine ⟨?_, ?_, h.out, ?_⟩
  · obtain ⟨bs, st₂, hh, hrun, hlen, hc⟩ := newborn_history hs hw hu hold hnew frames
    rw [lifecycle_eq] at hc
    refine ⟨bs, st₂, hh, hrun, hlen, ?_, ?_⟩
    · rw [Nat.min_comm, ← List.take_eq_take_min, Dict.mem_keys_iff]
      change _ ↔ Survives bs
      by_cases hsv : Survives bs
      · rw [if_pos hsv] at hc
        obtain ⟨t, ht, _⟩ := Option.map_eq_some_iff.mp hc
        exact ⟨fun _ => hsv, fun _ => ⟨t, ht⟩⟩
      · rw [if_neg hsv] at hc
        simp [Option.map_eq_none_iff.mp hc, hsv]
    · intro t ht
      rw [ht, Option.map_some] at hc
      split at hc
      · exact counters_fields (Option.some.inj hc)
      · cases hc
  · intro k' t ht hconf st₂ hrun t' ht'
    exact confirmed_stays hs hw ht hconf hrun ht'
  · intro t ht
    obtain ⟨⟨k', _⟩, hm, rfl⟩ := List.mem_map.mp ht
    have halive := (hr.update hu).alive hs k' _ (Dict.get?_eq_some.mpr hm)
    exact ⟨halive.present, fun hl => ⟨halive.lost hl, halive.recent⟩⟩

end Tracks

/-- A square that is seen three times and then missed. -/
theorem track_lifecycle_missed_square :
    ∃ bs st₂, ByteTracker.history exhaustiveSolver "cam-1-1"
        (.after exhaustiveSolver "cam-1" [([clearSquare], "f1")])
        [([clearSquare], "f2"), ([clearSquare], "f3"), ([], "f4")] = .ok (bs, st₂) ∧
      bs.length = 3 ∧ ∀ t, st₂.tracks.get? "cam-1-1" = some t → t.hits = 1 + bs.count true := by
  let frame : List (Detection ℚ) := [clearSquare]
  obtain ⟨_, _, out, st₁, _, hu, _⟩ := update_ok exhaustive_solves.toAssigns
    (newTracker_wellFormed "cam-1") frame "f1"
  have hafter : ByteTracker.after exhaustiveSolver "cam-1" [(frame, "f1")] = st₁ := by
    simp [ByteTracker.after, ByteTracker.run, hu]
  have hkeys : (ByteTracker.after exhaustiveSolver "cam-1" [(frame, "f1")]).tracks.keys =
      ["cam-1-1"] := by decide +kernel
  rw [hafter] at hkeys
  have hold : "cam-1-1" ∉ (newTracker "cam-1" : ByteTracker ℚ).tracks.keys := by decide
  obtain ⟨⟨bs, st₂, hh, _, hlen, _, hfields⟩, _⟩ := track_lifecycle exhaustive_solves.toAssigns
    (.new : Reachable exhaustiveSolver "cam-1" _) hu hold (by rw [hkeys]; simp)
    [(frame, "f2"), (frame, "f3"), ([], "f4")]
  exact ⟨bs, st₂, by rw [hafter]; exact hh, hlen, fun t ht => (hfields t ht).1⟩

end CamTrack
