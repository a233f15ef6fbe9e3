import CamTrack.Fleet
import CamTrack.Proofs.FailingLoads
import CamTrack.Proofs.Origins

namespace CamTrack
open Python Machine Assignment InferenceWorker

variable {K : Type} [Field K] [LinearOrder K]

section Processed
variable [HasSqrt K] [Rounding K] {ι : Type} {svc : Services K ι} {cfg : BatcherConfig}
  {s : Batching K}

/-- The frames a worker has processed, those of the batches whose images all load. -/
def InferenceWorker.processed (svc : Services K ι) (s : Batching K) : List FrameItem :=
  (s.handed.filter (fun batch => batch.all (loadable svc))).flatten

omit [HasSqrt K] [Rounding K] in
theorem filter_loaded {batches : List (List FrameItem)}
    (h : ∀ item ∈ batches.flatten, loadable svc item = true) :
    batches.filter (fun batch => batch.all (loadable svc)) = batches := by
  apply List.filter_eq_self.mpr
  intro batch hb
  exact List.all_eq_true.mpr (fun item hi => h item (List.mem_flatten_of_mem hb hi))

variable [IsStrictOrderedRing K]

/-- At any time a worker is one that has processed these frames, and no others. -/
theorem owner_eq_after (hs : Assigns svc.solver)
    (h : Run (DynamicBatcher.step cfg (onBatch svc)) (DynamicBatcher.start new) actions s) :
    s.owner = after svc (processed svc s) := by
  rcases (start_running svc).run hs h with hr | ⟨_, _, m, _, _, ⟨item, hi, hbad⟩, hd, _⟩
  · rw [processed, filter_loaded hr.loaded, hr.owner]
  · have hlast : m.pending.all (loadable svc) = false := by
      apply List.all_eq_false.mpr
      exact ⟨item, hi, by simp [hbad]⟩
    rw [processed, hd.handed, List.filter_append, filter_loaded hd.loaded,
      List.filter_cons_of_neg (by simp [hlast]), List.filter_nil, List.append_nil, hd.owner]

end Processed

namespace Fleet
variable [HasSqrt K] {n : Nat} {ι : Type} {svc : Fin n → Services K ι} {s : Fleet K n}

/-- The events published so far by worker `i`, with the position of the frame each
of them is published for. -/
def Published (svc : Fin n → Services K ι) (s : Fleet K n) (i : Fin n) (p : Nat)
    (event : TrackEvent K) : Prop :=
  event ∈ publishedAt (svc i) (processed (svc i) (s i)) p

/-- The `STrack` of worker `i` that an event published for position `p` shows. -/
def shownObject (svc : Fin n → Services K ι) (s : Fleet K n) (i : Fin n) (p : Nat)
    (event : TrackEvent K) : Option Nat :=
  objectAt (svc i) (processed (svc i) (s i)) event.track.cameraId event.track.trackId (p + 1)

/-- Published events with one camera and one track id show one `STrack` of one worker. -/
def UniqueTrackIds (svc : Fin n → Services K ι) (s : Fleet K n) : Prop :=
  ∀ i j, ∀ event ∈ (s i).owner.events, ∀ event' ∈ (s j).owner.events,
    event.track.cameraId = event'.track.cameraId → event.track.trackId = event'.track.trackId →
    i = j ∧ ∀ p q, Published svc s i p event → Published svc s j q event' →
      shownObject svc s i p event = shownObject svc s j q event'

/-- Worker `i` has processed a frame of the camera with a high-confidence detection. -/
def Tracks (svc : Fin n → Services K ι) (s : Fleet K n) (i : Fin n) (cameraId : String) : Prop :=
  (processed (svc i) (s i)).any (spawns (svc i) cameraId) = true

instance (svc : Fin n → Services K ι) (s : Fleet K n) (i : Fin n) (cameraId : String) :
    Decidable (Tracks svc s i cameraId) :=
  inferInstanceAs (Decidable (_ = true))

omit [HasSqrt K] in
theorem Tracks.camera {i : Fin n} (h : Tracks svc s i cameraId) :
    ∃ item ∈ processed (svc i) (s i), item.2.cameraId = cameraId := by
  obtain ⟨item, hi, hs⟩ := List.any_eq_true.mp h
  refine ⟨item, hi, ?_⟩
  simp only [spawns, Bool.and_eq_true, decide_eq_true_eq] at hs
  exact hs.1

variable [Rounding K] [IsStrictOrderedRing K]

/-- What a worker of a fleet has published is what it has published for its frames. -/
theorem published_iff {cfg : Fin n → BatcherConfig} (hs : ∀ i, Assigns (svc i).solver)
    (h : Run (Fleet.step cfg svc) Fleet.start actions s) (i : Fin n) (event : TrackEvent K) :
    event ∈ (s i).owner.events ↔ ∃ p, Published svc s i p event := by
  rw [owner_eq_after (hs i) (h.component i), events_eq (hs i), List.mem_flatMap]
  constructor
  · intro hx
    obtain ⟨p, _, hp⟩ := hx
    exact ⟨p, hp⟩
  · intro hx
    obtain ⟨p, hp⟩ := hx
    refine ⟨p, List.mem_range.mpr ?_, hp⟩
    by_contra hlen
    have hnone : (processed (svc i) (s i))[p]? = none := by simpa using hlen
    rw [Published, publishedAt, after_succ, hnone] at hp
    simp at hp

omit [Rounding K] in
/-- One worker never shows two tracks under one id. -/
theorem shownObject_eq (hs : ∀ i, Assigns (svc i).solver) {i : Fin n} {event event' : TrackEvent K}
    (h : Published svc s i p event) (h' : Published svc s i q event')
    (hc : event.track.cameraId = event'.track.cameraId)
    (ht : event.track.trackId = event'.track.trackId) :
    shownObject svc s i p event = shownObject svc s i q event' := by
  have hp := publishedAt_held (hs i) h
  have hq := publishedAt_held (hs i) h'
  rw [shownObject, shownObject, hc, ht]
  rw [hc, ht] at hp
  rcases Nat.le_total p q with hpq | hpq
  · exact (objectAt_eq (hs i) hp hpq hq).symm
  · exact objectAt_eq (hs i) hq hpq hp

/-- Two workers that track objects of one camera both publish its track 1. -/
theorem UniqueTrackIds.one_worker {cfg : Fin n → BatcherConfig}
    (hs : ∀ i, Assigns (svc i).solver) (h : Run (Fleet.step cfg svc) Fleet.start actions s)
    (hu : UniqueTrackIds svc s) {i j : Fin n} (hi : Tracks svc s i cameraId)
    (hj : Tracks svc s j cameraId) : i = j := by
  obtain ⟨p, event, he, hc, ht⟩ := published_of_spawns (hs i) hi
  obtain ⟨q, event', he', hc', ht'⟩ := published_of_spawns (hs j) hj
  have hmem := (published_iff hs h i event).mpr ⟨p, he⟩
  have hmem' := (published_iff hs h j event').mpr ⟨q, he'⟩
  exact (hu i j event hmem event' hmem' (hc.trans hc'.symm) (ht.trans ht'.symm)).1

/-- Track ids are unique across the fleet exactly when no two workers have
processed high-confidence detections of the same camera. -/
theorem trackIds_unique_iff {cfg : Fin n → BatcherConfig} (hs : ∀ i, Assigns (svc i).solver)
    (h : Run (Fleet.step cfg svc) Fleet.start actions s) :
    UniqueTrackIds svc s ↔
      ∀ i j cameraId, Tracks svc s i cameraId → Tracks svc s j cameraId → i = j := by
  constructor
  · intro hu i j cameraId hi hj
    exact hu.one_worker hs h hi hj
  · intro honce i j event he event' he' hc ht
    obtain ⟨p, hp⟩ := (published_iff hs h i event).mp he
    obtain ⟨q, hq⟩ := (published_iff hs h j event').mp he'
    have hi := spawns_of_published (hs i) hp
    have hj := spawns_of_published (hs j) hq
    rw [← hc] at hj
    obtain rfl := honce i j _ hi hj
    exact ⟨rfl, fun p q hp hq => shownObject_eq hs hp hq hc ht⟩

section Runs

/-- Two replicas of one deployment. -/
def replicas (i : Fin 2) : Services ℚ Unit :=
  { squareServices with uuid := fun n => toString i ++ "-" ++ toString n }

theorem replicas_assigns (i : Fin 2) : Assigns (replicas i).solver := squareServices_assigns

/-- The first replica has processed one frame and the second another. -/
def oneEach (item item' : FrameItem) : Fleet ℚ 2 :=
  Function.update (Function.update start 0 (waiting (replicas 0) [item])) 1
    (waiting (replicas 1) [item'])

theorem oneEach_run (item item' : FrameItem) (h : loadable (replicas 0) item = true)
    (h' : loadable (replicas 1) item' = true) :
    ∃ actions, Run (Fleet.step (fun _ => singleConfig) replicas) start actions
      (oneEach item item') :=
  ⟨_, run_append.mpr ⟨_, Run.lift (waiting_step (replicas_assigns 0) [] h),
    Run.lift (waiting_step (replicas_assigns 1) [] h')⟩⟩

/-- Two frames of one camera, one for each replica: both publish `cam-1-1`. -/
theorem replicas_share_track_id :
    ¬ ∀ actions s, Run (Fleet.step (fun _ => singleConfig) replicas) start actions s →
      UniqueTrackIds replicas s := by
  intro h
  let item : FrameItem := ("1-0", squareFrame "f1" "file://f1.jpg")
  let item' : FrameItem := ("2-0", squareFrame "f2" "file://f2.jpg")
  obtain ⟨actions, hrun⟩ := oneEach_run item item' (by decide) (by decide)
  have hfirst : Tracks replicas (oneEach item item') 0 "cam-1" := by decide +kernel
  have hsecond : Tracks replicas (oneEach item item') 1 "cam-1" := by decide +kernel
  have hone := (h actions _ hrun).one_worker replicas_assigns hrun hfirst hsecond
  exact absurd hone (by decide)

/-- With a camera for each replica no id is shared. -/
theorem trackIds_unique_camera_each :
    ∃ actions, ∃ s : Fleet ℚ 2,
      Run (Fleet.step (fun _ => singleConfig) replicas) start actions s ∧
      UniqueTrackIds replicas s := by
  let item : FrameItem := ("1-0", squareFrame "f1" "file://f1.jpg")
  let item' : FrameItem := ("2-0", ⟨"f2", "cam-2", "file://f2.jpg", 0⟩)
  obtain ⟨actions, hrun⟩ := oneEach_run item item' (by decide) (by decide)
  refine ⟨actions, _, hrun, (trackIds_unique_iff replicas_assigns hrun).mpr ?_⟩
  have hframes : ∀ i, processed (replicas i) (oneEach item item' i) =
      [if i = 0 then item else item'] := by decide
  have hcam : ∀ i cameraId, Tracks replicas (oneEach item item') i cameraId →
      cameraId = if i = 0 then "cam-1" else "cam-2" := by
    intro i cameraId h
    obtain ⟨other, ho, rfl⟩ := h.camera
    rw [hframes i, List.mem_singleton] at ho
    rw [ho]
    split <;> rfl
  have hcams : ∀ i j : Fin 2, (if i = 0 then "cam-1" else "cam-2") =
      (if j = 0 then "cam-1" else "cam-2") → i = j := by decide
  intro i j cameraId hi hj
  exact hcams i j ((hcam i cameraId hi).symm.trans (hcam j cameraId hj))

end Runs

end Fleet
end CamTrack
