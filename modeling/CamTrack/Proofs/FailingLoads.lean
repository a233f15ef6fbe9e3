import CamTrack.Proofs.Batcher
import CamTrack.Proofs.Worker

namespace CamTrack
open Python Machine Assignment

variable {K : Type} [Field K] [LinearOrder K]

namespace InferenceWorker
open DynamicBatcher
variable [HasSqrt K] [Rounding K] {ι : Type} {svc : Services K ι} {cfg : BatcherConfig}

variable {s s' : Batching K}

/-- A worker none of whose batches has raised. -/
structure Running (svc : Services K ι) (s : Batching K) : Prop where
  accounted : Accounted s
  clocked : Clocked s
  alive : ∀ e, s.pc ≠ .died e
  loaded : ∀ item ∈ s.handed.flatten, loadable svc item = true
  owner : s.owner = s.handed.flatten.foldl (handled svc) new

/-- A worker whose last batch had an image that did not load. -/
structure Dead (svc : Services K ι) (batches : List (List FrameItem)) (bad : List FrameItem)
    (s : Batching K) : Prop where
  accounted : Accounted s
  died : ∃ e, s.pc = .died e
  pending : s.pending = []
  handed : s.handed = batches ++ [bad]
  loaded : ∀ item ∈ batches.flatten, loadable svc item = true
  owner : s.owner = batches.flatten.foldl (handled svc) new

omit [Rounding K] in
theorem Running.same (h : Running svc s) (hs : SameItems s s') (hc : Clocked s')
    (ha : ∀ e, s'.pc ≠ .died e) : Running svc s' :=
  ⟨h.accounted.same hs, hc, ha, hs.handed ▸ h.loaded, by rw [hs.owner, hs.handed]; exact h.owner⟩

omit [Rounding K] in
theorem start_running (svc : Services K ι) : Running svc (start new) :=
  ⟨rfl, fun h => absurd rfl h, fun _ h => (nomatch h), by simp [start], rfl⟩

/-- A batch with an image that does not load ends the background thread. -/
theorem Running.batch_dead (h : Running svc s)
    (hbad : ∃ item ∈ s.pending, loadable svc item = false)
    (hstep : step cfg (onBatch svc) s .batch = some s') :
    Dead svc s.handed s.pending s' ∧ s'.queue = s.queue := by
  have hacc := h.accounted.step hstep
  cases stepped hstep with
  | batch final hp =>
    obtain ⟨e, he⟩ := processBatch_error (w := s.owner) hbad
    have hbatch : onBatch svc s.owner s.pending = (s.owner, some e) := by
      rw [onBatch, he]
    have hs' : s.batch (onBatch svc) final = { s with
        handed := s.handed ++ [s.pending]
        pending := []
        batchStartedAt := none
        pc := .died e } := by
      simp only [DynamicBatcher.batch, hbatch]
    rw [hs'] at hacc ⊢
    exact ⟨⟨hacc, ⟨e, rfl⟩, rfl, rfl, h.loaded, h.owner⟩, rfl⟩

/-- A dead worker stays dead; what is submitted to it stays in the queue. -/
theorem Dead.run (h : Dead svc batches bad s) (hrun : Run (step cfg (onBatch svc)) s actions s') :
    Dead svc batches bad s' ∧ s'.queue = s.queue ++ submissions actions := by
  obtain ⟨e, he⟩ := h.died
  obtain ⟨hpc, hpend, hhand, hown, hq⟩ := died_frozen hrun he
  have hacc := hrun.invariant (fun _ _ _ ha hstep => Accounted.step ha hstep) h.accounted
  exact ⟨⟨hacc, ⟨e, hpc.trans he⟩, hpend.trans h.pending, hhand.trans h.handed, h.loaded,
    hown.trans h.owner⟩, hq⟩

/-- The background thread has nothing left to do: it has died, or it has flushed
everything and waits for items. -/
def Settled (s : Batching K) : Prop :=
  match s.pc with
  | .died _ => True
  | .head | .polling _ => s.queue = [] ∧ s.pending = []
  | .flushing _ | .exited => False

/-- Every frame whose image loads has been processed, in submission order: the
trackers, the published events and the acks are those of these frames. -/
def AllProcessed (svc : Services K ι) (s : Batching K) : Prop :=
  s.owner = (s.submitted.filter (loadable svc)).foldl (handled svc) new

omit [Rounding K] in
theorem Running.settled (h : Running svc s) (hset : Settled s) : AllProcessed svc s := by
  have hempty : s.queue = [] ∧ s.pending = [] := by
    unfold Settled at hset
    cases hp : s.pc with
    | died e => exact absurd hp (h.alive e)
    | head => simpa [hp] using hset
    | polling t => simpa [hp] using hset
    | flushing final => simp [hp] at hset
    | exited => simp [hp] at hset
  have hall : s.handed.flatten = s.submitted := by
    rw [← h.accounted, hempty.1, hempty.2]
    simp
  have hloaded := h.loaded
  rw [hall] at hloaded
  rw [AllProcessed, List.filter_eq_self.mpr hloaded, h.owner, hall]

variable [IsStrictOrderedRing K]

/-- A running worker stays so, but for a batch with an image that does not load. -/
theorem Running.step (hs : Assigns svc.solver) (h : Running svc s)
    (hstep : step cfg (onBatch svc) s a = some s') :
    Running svc s' ∨ a = .batch ∧ ∃ item ∈ s.pending, loadable svc item = false := by
  have hacc := h.accounted.step hstep
  have hclock := h.clocked.step hstep
  cases stepped hstep with
  | submit item => exact .inl ⟨hacc, hclock, h.alive, h.loaded, h.owner⟩
  | stop => exact .inl ⟨hacc, hclock, h.alive, h.loaded, h.owner⟩
  | check now _ => exact .inl (h.same (check_same cfg now s) hclock (check_alive now s))
  | take now item rest _ _ =>
    have hsame := take_same cfg now item rest s
    refine .inl ⟨hacc, hclock, take_alive cfg now item rest s, hsame.handed ▸ h.loaded, ?_⟩
    rw [hsame.owner, hsame.handed]
    exact h.owner
  | timeout now _ _ =>
    exact .inl (h.same (timeout_same cfg now s) hclock (timeout_alive now h.clocked))
  | batch final hp =>
    by_cases hload : ∀ item ∈ s.pending, loadable svc item = true
    · have hsound := foldl_sound hs (new_sound svc) s.handed.flatten
      have hbatch : onBatch svc s.owner s.pending =
          (s.pending.foldl (handled svc) s.owner, none) := by
        rw [onBatch, h.owner, processBatch_ok hs hsound hload]
      have hs' : s.batch (onBatch svc) final = { s with
          owner := s.pending.foldl (handled svc) s.owner
          handed := s.handed ++ [s.pending]
          pending := []
          batchStartedAt := none
          pc := if final then .exited else .head } := by
        simp only [DynamicBatcher.batch, hbatch]
      rw [hs'] at hacc hclock ⊢
      refine .inl ⟨hacc, hclock, fun e => by cases final <;> simp, ?_, ?_⟩
      · intro item hi
        simp only [List.flatten_append, List.flatten_cons, List.flatten_nil, List.append_nil,
          List.mem_append] at hi
        rcases hi with hi | hi
        · exact h.loaded item hi
        · exact hload item hi
      · simp [h.owner]
    · refine .inr ⟨rfl, ?_⟩
      push Not at hload
      obtain ⟨item, hi, hl⟩ := hload
      exact ⟨item, hi, by simpa using hl⟩

/-- A run leaves the worker running, or one of its batches has ended the thread. -/
theorem Running.run (hs : Assigns svc.solver) (h : Running svc s)
    (hrun : Run (DynamicBatcher.step cfg (onBatch svc)) s actions s') :
    Running svc s' ∨ ∃ before after m, actions = before ++ .batch :: after ∧
      Run (DynamicBatcher.step cfg (onBatch svc)) s before m ∧
      (∃ item ∈ m.pending, loadable svc item = false) ∧
      Dead svc m.handed m.pending s' ∧ s'.queue = m.queue ++ submissions after := by
  induction actions generalizing s with
  | nil =>
    obtain rfl := run_nil.mp hrun
    exact .inl h
  | cons a actions ih =>
    obtain ⟨m, hm, hrest⟩ := run_cons.mp hrun
    rcases h.step hs hm with hr | ⟨rfl, hbad⟩
    · rcases ih hr hrest with hr' | ⟨before, after, m', rfl, hrun', hend⟩
      · exact .inl hr'
      · exact .inr ⟨a :: before, after, m', rfl, run_cons.mpr ⟨m, hm, hrun'⟩, hend⟩
    · obtain ⟨hdead, hq⟩ := h.batch_dead hbad hm
      obtain ⟨hdead', hq'⟩ := hdead.run hrest
      exact .inr ⟨[], actions, s, rfl, run_nil.mpr rfl, hbad, hdead', by rw [hq', hq]⟩

/-- A batch with an image that does not load, wherever it is in a run, is the last. -/
theorem Running.batch_last (hs : Assigns svc.solver) (h : Running svc s)
    {before after : List (BatcherAction K FrameItem)} {m : Batching K}
    (hbefore : Run (DynamicBatcher.step cfg (onBatch svc)) s before m)
    (hbad : ∃ item ∈ m.pending, loadable svc item = false)
    (hrun : Run (DynamicBatcher.step cfg (onBatch svc)) s (before ++ .batch :: after) s') :
    Dead svc m.handed m.pending s' ∧ s'.queue = m.queue ++ submissions after := by
  obtain ⟨m', hm', hrest⟩ := run_append.mp hrun
  obtain rfl := hbefore.functional hm'
  obtain ⟨m₁, hm₁, hafter⟩ := run_cons.mp hrest
  rcases h.run hs hbefore with hr | ⟨_, _, _, _, _, _, hdead, _⟩
  · obtain ⟨hdead, hq⟩ := hr.batch_dead hbad hm₁
    obtain ⟨hdead', hq'⟩ := hdead.run hafter
    exact ⟨hdead', by rw [hq', hq]⟩
  · obtain ⟨e, he⟩ := hdead.died
    cases stepped hm₁ with
    | batch final hp =>
      rw [he] at hp
      cases hp

omit [Rounding K] in
/-- In a dead worker the frames of its last batch and of its queue are lost. -/
theorem Dead.processed_iff (hs : Assigns svc.solver) (h : Dead svc batches bad s) :
    AllProcessed svc s ↔ ∀ item ∈ bad ++ s.queue, loadable svc item = false := by
  have hsub : s.submitted = batches.flatten ++ (bad ++ s.queue) := by
    rw [← h.accounted, h.handed, h.pending]
    simp
  have hfilter : s.submitted.filter (loadable svc) =
      batches.flatten ++ (bad ++ s.queue).filter (loadable svc) := by
    rw [hsub, List.filter_append, List.filter_eq_self.mpr h.loaded]
  rw [AllProcessed, hfilter, h.owner]
  constructor
  · intro he item hi
    have hacks := congrArg acks he
    rw [foldl_acks hs (new_sound svc), foldl_acks hs (new_sound svc), List.map_append,
      ← List.append_assoc, List.self_eq_append_right, List.map_eq_nil_iff] at hacks
    simpa using List.filter_eq_nil_iff.mp hacks item hi
  · intro hlost
    rw [List.filter_eq_nil_iff.mpr (fun item hi => by simp [hlost item hi]), List.append_nil]

/-- Whenever the batcher has nothing left to do, every frame whose image loads has
been processed exactly when no such frame shares a batch with one whose image does
not load, waits in the queue at that time or is submitted later. -/
theorem allProcessed_iff (hs : Assigns svc.solver)
    (h : Run (DynamicBatcher.step cfg (onBatch svc)) (start new) actions s) (hset : Settled s) :
    AllProcessed svc s ↔
      ∀ before after m, actions = before ++ .batch :: after →
        Run (DynamicBatcher.step cfg (onBatch svc)) (start new) before m →
        (∃ item ∈ m.pending, loadable svc item = false) →
        ∀ item ∈ m.pending ++ m.queue ++ submissions after, loadable svc item = false := by
  constructor
  · rintro hp before after m rfl hbefore hbad
    obtain ⟨hdead, hq⟩ := (start_running svc).batch_last hs hbefore hbad h
    rw [hdead.processed_iff hs, hq, ← List.append_assoc] at hp
    exact hp
  · intro hcond
    rcases (start_running svc).run hs h with hr | ⟨before, after, m, he, hbefore, hbad, hdead, hq⟩
    · exact hr.settled hset
    · rw [hdead.processed_iff hs, hq, ← List.append_assoc]
      exact hcond before after m he hbefore hbad

section Runs

/-- A deployment whose detector sees one square in every image. -/
def squareServices : Services ℚ Unit where
  solver := exhaustiveSolver
  load := fun uri => if uri = "file://missing" then .error .fileNotFoundError else .ok ()
  detect := fun _ _ _ => [clearSquare]
  uuid := fun n => toString n
  nowMs := fun _ => 0

def squareFrame (frameId uri : String) : RawFrame := ⟨frameId, "cam-1", uri, 0⟩

theorem squareServices_assigns : Assigns squareServices.solver := exhaustive_solves.toAssigns

/-- Batches of one frame. -/
def singleConfig : BatcherConfig := ⟨1, 40, by decide⟩

/-- A worker that has processed frames in batches of one and waits for more. -/
def waiting (svc : Services K ι) (items : List FrameItem) : Batching K :=
  { queue := [], stopEvent := false, pending := [], batchStartedAt := none, pc := .head
    owner := items.foldl (handled svc) new, submitted := items
    handed := items.map (fun item => [item]) }

theorem waiting_step (hs : Assigns svc.solver) (items : List FrameItem) {item : FrameItem}
    (hload : loadable svc item = true) :
    Run (DynamicBatcher.step singleConfig (onBatch svc)) (waiting svc items)
      [.submit item, .check 0, .take 0, .batch] (waiting svc (items ++ [item])) := by
  let filled : Batching K :=
    { queue := [], stopEvent := false, pending := [item], batchStartedAt := some 0
      pc := .flushing false, owner := items.foldl (handled svc) new
      submitted := items ++ [item], handed := items.map (fun item => [item]) }
  have hsound := foldl_sound hs (new_sound svc) items
  have hbatch : onBatch svc (items.foldl (handled svc) new) [item] =
      ((items ++ [item]).foldl (handled svc) new, none) := by
    rw [onBatch, processBatch_ok hs hsound (by simpa using hload), List.foldl_append]
  have hflush : DynamicBatcher.step singleConfig (onBatch svc) filled .batch =
      some (waiting svc (items ++ [item])) := by
    change some (filled.batch (onBatch svc) false) = _
    simp only [DynamicBatcher.batch, filled, hbatch]
    simp [waiting]
  have hfill : Run (DynamicBatcher.step singleConfig (onBatch svc)) (waiting svc items)
      [.submit item, .check 0, .take 0] filled := rfl
  exact run_append.mpr ⟨filled, hfill, run_singleton.mpr hflush⟩

/-- Any frames whose images load can be processed. -/
theorem waiting_run (hs : Assigns svc.solver) {items : List FrameItem}
    (hload : ∀ item ∈ items, loadable svc item = true) :
    ∃ actions, Run (DynamicBatcher.step singleConfig (onBatch svc)) (start new) actions
      (waiting svc items) := by
  induction items using List.reverseRecOn with
  | nil => exact ⟨[], run_nil.mpr rfl⟩
  | append_singleton items item ih =>
    obtain ⟨actions, hrun⟩ := ih (fun other ho => hload other (List.mem_append_left _ ho))
    have hlast := hload item (List.mem_append_right _ List.mem_cons_self)
    exact ⟨_, run_append.mpr ⟨_, hrun, waiting_step hs items hlast⟩⟩

/-- A missing image ends the thread; the next frame stays in the queue for good. -/
theorem frame_lost_to_neighbour :
    ¬ ∀ (actions : List (BatcherAction ℚ FrameItem)) (s : Batching ℚ),
      Run (DynamicBatcher.step singleConfig (onBatch squareServices)) (start new) actions s →
      Settled s → AllProcessed squareServices s := by
  intro h
  let bad : FrameItem := ("1-0", squareFrame "f1" "file://missing")
  let good : FrameItem := ("2-0", squareFrame "f2" "file://f2.jpg")
  have hp := h [.submit bad, .submit good, .check 0, .take 0, .batch]
    { queue := [good], stopEvent := false, pending := [], batchStartedAt := none,
      pc := .died .fileNotFoundError, owner := new, submitted := [bad, good],
      handed := [[bad]] } rfl trivial
  have hacks := congrArg acks hp
  rw [foldl_acks squareServices_assigns (new_sound squareServices)] at hacks
  exact absurd hacks (by decide +kernel)

/-- A frame whose image loads, and then one whose image does not: the thread dies, and no frame
that loads is lost. -/
theorem allProcessed_bad_last :
    ∃ s : Batching ℚ, Run (DynamicBatcher.step singleConfig (onBatch squareServices)) (start new)
        ([.submit ("1-0", squareFrame "f1" "file://f1.jpg"), .check 0, .take 0, .batch] ++
          ([.submit ("2-0", squareFrame "f2" "file://missing"), .check 0, .take 0] ++ [.batch])) s ∧
      s.pc = .died .fileNotFoundError ∧ AllProcessed squareServices s := by
  let good : FrameItem := ("1-0", squareFrame "f1" "file://f1.jpg")
  let bad : FrameItem := ("2-0", squareFrame "f2" "file://missing")
  let filled : Batching ℚ :=
    { queue := [], stopEvent := false, pending := [bad], batchStartedAt := some 0
      pc := .flushing false, owner := handled squareServices new good, submitted := [good, bad]
      handed := [[good]] }
  let dead : Batching ℚ := { filled with
    pending := [], batchStartedAt := none, pc := .died .fileNotFoundError
    handed := [[good], [bad]] }
  have hgood : Run (DynamicBatcher.step singleConfig (onBatch squareServices)) (start new) _
      (waiting squareServices [good]) :=
    waiting_step squareServices_assigns [] (by decide : loadable squareServices good = true)
  have hfill : Run (DynamicBatcher.step singleConfig (onBatch squareServices))
      (waiting squareServices [good]) [.submit bad, .check 0, .take 0] filled := rfl
  have hlast : DynamicBatcher.step singleConfig (onBatch squareServices) filled .batch =
      some dead := rfl
  have hrun := run_append.mpr ⟨_, hgood, run_append.mpr ⟨_, hfill, run_singleton.mpr hlast⟩⟩
  refine ⟨dead, hrun, rfl, (allProcessed_iff squareServices_assigns hrun trivial).mpr ?_⟩
  intro before after m he hm hbad
  rw [he] at hrun
  obtain ⟨hdead, hqueue⟩ := (start_running squareServices).batch_last squareServices_assigns hm
    hbad hrun
  have hhanded : [[good]] ++ [[bad]] = m.handed ++ [m.pending] := hdead.handed
  obtain ⟨_, hpending⟩ := List.append_inj' hhanded rfl
  obtain ⟨hwaiting, hlater⟩ := List.append_eq_nil_iff.mp hqueue.symm
  rw [hwaiting, hlater, ← List.singleton_inj.mp hpending]
  decide

end Runs

end InferenceWorker
end CamTrack
