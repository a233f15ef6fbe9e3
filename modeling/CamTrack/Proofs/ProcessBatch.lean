import CamTrack.ProcessBatch
import CamTrack.Lib.Machine
import CamTrack.Lib.Streak

namespace CamTrack
open Python Machine Streak

namespace BatchProcess
variable {K : Type} [Field K] [LinearOrder K] {ι : Type} {svc : Services K ι}

/-- Right before every ack come the events of the tracks that the update of its
message returned, one for each of them. -/
def AcksPublished (trace : List (BatchEvent K)) : Prop :=
  ∀ before messageId after, trace = before ++ .told (.acked messageId) :: after →
    ∃ (earlier : List (BatchEvent K)) (events : List (TrackEvent K)),
      before = earlier ++ .updated messageId (events.map TrackEvent.track) ::
        events.map (fun event => .told (.published event))

/-- The trace so far, at the place where the worker is. -/
structure Honest (s : BatchProcess K ι) : Prop where
  acks : AcksPublished s.trace
  turn : ∀ messageId tracks messageIds frames detectionsPerFrame,
    s.pc = .publishing messageId tracks messageIds frames detectionsPerFrame →
    ∃ (earlier : List (BatchEvent K)) (events : List (TrackEvent K)),
      s.trace = earlier ++ .updated messageId (events.map TrackEvent.track ++ tracks) ::
        events.map (fun event => .told (.published event))

/-- No turn of the loop is under way. -/
def Between (s : BatchProcess K ι) : Prop :=
  ∀ messageId tracks messageIds frames detectionsPerFrame,
    s.pc ≠ .publishing messageId tracks messageIds frames detectionsPerFrame

/-- What a step does to the trace and to the effects, and where it leads. -/
inductive Stepped (svc : Services K ι) (s s' : BatchProcess K ι) : Prop
  | quiet : s'.trace = s.trace → s'.worker.effects = s.worker.effects → s'.Between →
      Stepped svc s s'
  | updated (messageId : String) (tracks : List (Track K)) (messageIds : List String)
      (frames : List RawFrame) (detectionsPerFrame : List (List (Detection K))) :
      s'.trace = s.trace ++ [.updated messageId tracks] →
      s'.worker.effects = s.worker.effects →
      s'.pc = .publishing messageId tracks messageIds frames detectionsPerFrame →
      Stepped svc s s'
  | published (messageId : String) (track : Track K) (tracks : List (Track K))
      (messageIds : List String) (frames : List RawFrame)
      (detectionsPerFrame : List (List (Detection K))) :
      s.pc = .publishing messageId (track :: tracks) messageIds frames detectionsPerFrame →
      s'.trace = (s.publish svc track).trace → s'.worker = (s.publish svc track).worker →
      s'.pc = .publishing messageId tracks messageIds frames detectionsPerFrame ∨ s'.Between →
      Stepped svc s s'
  | acked (messageId : String) (messageIds : List String) (frames : List RawFrame)
      (detectionsPerFrame : List (List (Detection K))) :
      s.pc = .publishing messageId [] messageIds frames detectionsPerFrame →
      s'.trace = (s.ack messageId).trace → s'.worker = (s.ack messageId).worker →
      s'.Between → Stepped svc s s'

theorem stepped_raise {s s' : BatchProcess K ι} {e : Error} {reached : Bool}
    (h : s.raise svc e reached = some s') : Stepped svc s s' := by
  unfold BatchProcess.raise at h
  split at h
  · cases h
    exact .quiet rfl rfl (fun _ _ _ _ _ he => nomatch he)
  · rename_i hpc
    cases h
    cases reached with
    | true => exact .published _ _ _ _ _ _ hpc rfl rfl (Or.inr (fun _ _ _ _ _ he => nomatch he))
    | false => exact .quiet rfl rfl (fun _ _ _ _ _ he => nomatch he)
  · rename_i hpc
    cases h
    cases reached with
    | true => exact .acked _ _ _ _ hpc rfl rfl (fun _ _ _ _ _ he => nomatch he)
    | false => exact .quiet rfl rfl (fun _ _ _ _ _ he => nomatch he)
  · cases h

theorem stepped_next [HasSqrt K] {s s' : BatchProcess K ι} (h : s.next svc = some s') :
    Stepped svc s s' := by
  unfold BatchProcess.next at h
  split at h
  · cases h
    exact .quiet rfl rfl (fun _ _ _ _ _ he => nomatch he)
  · simp only at h
    split at h
    · cases h
      exact .quiet rfl rfl (fun _ _ _ _ _ he => nomatch he)
    · cases h
      exact .updated _ _ _ _ _ rfl rfl rfl
  · cases h
    exact .quiet rfl rfl (fun _ _ _ _ _ he => nomatch he)
  · cases h

theorem stepped [HasSqrt K] {s s' : BatchProcess K ι} {a : BatchAction K ι}
    (h : step svc s a = some s') : Stepped svc s s' := by
  cases a with
  | next => exact stepped_next h
  | raise e reached => exact stepped_raise h
  | restart =>
    cases h
    exact .quiet rfl rfl (fun _ _ _ _ _ he => nomatch he)
  | batch items =>
    simp only [BatchProcess.step] at h
    split at h
    · cases h
      exact .quiet rfl rfl (fun _ _ _ _ _ he => nomatch he)
    · cases h
  | loaded image =>
    simp only [BatchProcess.step] at h
    split at h
    · cases h
      exact .quiet rfl rfl (fun _ _ _ _ _ he => nomatch he)
    · cases h
  | detected detectionsPerFrame =>
    simp only [BatchProcess.step] at h
    split at h
    · cases h
      exact .quiet rfl rfl (fun _ _ _ _ _ he => nomatch he)
    · cases h
  | publish =>
    simp only [BatchProcess.step] at h
    split at h
    · rename_i hpc
      cases h
      exact .published _ _ _ _ _ _ hpc rfl rfl (Or.inl rfl)
    · cases h
  | ack =>
    simp only [BatchProcess.step] at h
    split at h
    · rename_i hpc
      cases h
      exact .acked _ _ _ _ hpc rfl rfl (fun _ _ _ _ _ he => nomatch he)
    · cases h

theorem AcksPublished.concat {trace : List (BatchEvent K)} {event : BatchEvent K}
    (h : AcksPublished trace) (hne : ∀ messageId, event ≠ .told (.acked messageId)) :
    AcksPublished (trace ++ [event]) := by
  intro before messageId after he
  rcases concat_eq_append_cons he with ⟨_, hx, _⟩ | ⟨after', _, he⟩
  · exact absurd hx (hne messageId)
  · exact h before messageId after' he

theorem start_honest : (start : BatchProcess K ι).Honest := by
  constructor
  · intro before messageId after he
    exact absurd he.symm (List.append_ne_nil_of_right_ne_nil _ (List.cons_ne_nil _ _))
  · intro _ _ _ _ _ he
    cases he

/-- Whatever a step does, or fails to do, acks follow their events. -/
theorem Honest.step [HasSqrt K] {s s' : BatchProcess K ι} {a : BatchAction K ι} (h : s.Honest)
    (hstep : step svc s a = some s') : s'.Honest := by
  cases stepped hstep with
  | quiet htrace _ hbetween =>
    exact ⟨htrace ▸ h.acks, fun _ _ _ _ _ he => absurd he (hbetween _ _ _ _ _)⟩
  | updated messageId tracks _ _ _ htrace _ hpc =>
    refine ⟨htrace ▸ h.acks.concat (fun _ he => nomatch he), ?_⟩
    intro _ _ _ _ _ he
    cases hpc.symm.trans he
    exact ⟨s.trace, [], htrace⟩
  | published messageId track tracks _ _ _ hpc htrace _ hpc' =>
    obtain ⟨earlier, events, hturn⟩ := h.turn _ _ _ _ _ hpc
    refine ⟨htrace ▸ h.acks.concat (fun _ he => nomatch he), ?_⟩
    intro _ _ _ _ _ he
    rcases hpc' with hpc' | hbetween
    · cases hpc'.symm.trans he
      refine ⟨earlier, events ++ [s.worker.newEvent svc track], ?_⟩
      simp [htrace, BatchProcess.publish, hturn, InferenceWorker.newEvent]
    · exact absurd he (hbetween _ _ _ _ _)
  | acked messageId _ _ _ hpc htrace _ hbetween =>
    obtain ⟨earlier, events, hturn⟩ := h.turn _ _ _ _ _ hpc
    rw [List.append_nil] at hturn
    refine ⟨?_, fun _ _ _ _ _ he => absurd he (hbetween _ _ _ _ _)⟩
    intro before messageId' after hsplit
    rw [htrace] at hsplit
    rcases concat_eq_append_cons hsplit with ⟨rfl, hx, _⟩ | ⟨after', _, hsplit⟩
    · cases hx
      exact ⟨earlier, events, hturn⟩
    · exact h.acks before messageId' after' hsplit

theorem honest [HasSqrt K] {actions : List (BatchAction K ι)} {s : BatchProcess K ι}
    (h : Run (step svc) start actions s) : s.Honest :=
  h.invariant (fun _ _ _ hs hstep => hs.step hstep) start_honest

/-- The effects of the worker are what the trace says the broker is told. -/
theorem effects_eq [HasSqrt K] {actions : List (BatchAction K ι)} {s : BatchProcess K ι}
    (h : Run (step svc) start actions s) :
    s.worker.effects = s.trace.filterMap BatchEvent.effect := by
  apply h.invariant (P := fun s => s.worker.effects = s.trace.filterMap BatchEvent.effect)
  · intro s a s' hs hstep
    cases stepped hstep with
    | quiet htrace heffects _ => rw [htrace, heffects, hs]
    | updated _ _ _ _ _ htrace heffects _ =>
      rw [htrace, heffects, hs]
      simp [BatchEvent.effect]
    | published _ track _ _ _ _ _ htrace hworker _ =>
      rw [htrace, hworker]
      simp [BatchProcess.publish, InferenceWorker.publish, hs, BatchEvent.effect]
    | acked messageId _ _ _ _ htrace hworker _ =>
      rw [htrace, hworker]
      simp [BatchProcess.ack, InferenceWorker.ack, hs, BatchEvent.effect]
  · rfl

section Complete
variable [HasSqrt K] {w : InferenceWorker K} {trace : List (BatchEvent K)}

/-- Tracks are published one after the other. -/
theorem runs_publishes (svc : Services K ι) (tracks : List (Track K)) (messageId : String)
    (messageIds : List String) (frames : List RawFrame)
    (detectionsPerFrame : List (List (Detection K))) (w : InferenceWorker K) (trace : List (BatchEvent K)) :
    ∃ trace', Run (step svc)
      ⟨w, .publishing messageId tracks messageIds frames detectionsPerFrame, trace⟩
      (tracks.map (fun _ => BatchAction.publish))
      ⟨tracks.foldl (InferenceWorker.publish svc) w,
        .publishing messageId [] messageIds frames detectionsPerFrame, trace'⟩ := by
  induction tracks generalizing w trace with
  | nil => exact ⟨trace, run_nil.mpr rfl⟩
  | cons track tracks ih =>
    obtain ⟨trace', h⟩ := ih (w.publish svc track) _
    exact ⟨trace', run_cons.mpr ⟨_, rfl, h⟩⟩

/-- A turn in which nothing raises. -/
theorem runs_turn {messageId : String} {frame : RawFrame} {detections : List (Detection K)}
    {w' : InferenceWorker K} (messageIds : List String) (frames : List RawFrame)
    (detectionsPerFrame : List (List (Detection K)))
    (h : w.processFrame svc messageId frame detections = .ok w') :
    ∃ actions trace', Run (step svc)
      ⟨w, .looping (messageId :: messageIds) (frame :: frames) (detections :: detectionsPerFrame),
        trace⟩ actions ⟨w', .looping messageIds frames detectionsPerFrame, trace'⟩ := by
  obtain ⟨⟨tracks, tracker⟩, hupdate, hw⟩ := bind_eq_ok.mp h
  cases hw
  obtain ⟨trace', hrun⟩ := runs_publishes svc tracks messageId messageIds frames
    detectionsPerFrame
    { w with trackers := (w.trackerFor frame.cameraId).2.set frame.cameraId tracker }
    (trace ++ [.updated messageId tracks])
  refine ⟨.next :: (tracks.map (fun _ => .publish) ++ [.ack]), _, run_cons.mpr ⟨_, ?_,
    run_append.mpr ⟨_, hrun, run_singleton.mpr rfl⟩⟩⟩
  have hreturned : (w.trackerFor frame.cameraId).1.update svc.solver detections frame.frameId =
      .ok (tracks, tracker) := hupdate
  simp [step, BatchProcess.next, hreturned]

/-- The turns of a batch in which nothing raises. -/
theorem runs_turns (trace : List (BatchEvent K))
    {rows : List (String × RawFrame × List (Detection K))} {w' : InferenceWorker K}
    (h : rows.foldlM (fun w (messageId, frame, detections) =>
      InferenceWorker.processFrame svc w messageId frame detections) w = .ok w') :
    ∃ actions trace', Run (step svc)
      ⟨w, .looping (rows.map Prod.fst) (rows.map (fun r => r.2.1)) (rows.map (fun r => r.2.2)),
        trace⟩
      actions ⟨w', .idle, trace'⟩ := by
  induction rows generalizing w trace with
  | nil =>
    cases h
    exact ⟨[.next], trace, run_singleton.mpr rfl⟩
  | cons row rows ih =>
    obtain ⟨messageId, frame, detections⟩ := row
    rw [List.foldlM_cons] at h
    obtain ⟨w₁, hturn, h⟩ := bind_eq_ok.mp h
    obtain ⟨first, trace₁, hfirst⟩ := runs_turn (rows.map Prod.fst)
      (rows.map (fun r => r.2.1)) (rows.map (fun r => r.2.2)) hturn
    obtain ⟨rest, trace₂, hrest⟩ := ih trace₁ h
    exact ⟨first ++ rest, trace₂, run_append.mpr ⟨_, hfirst, hrest⟩⟩

/-- The images of a batch are loaded one after the other. -/
theorem runs_loads (items : List FrameItem) (loaded : List ι) {remaining : List RawFrame}
    {images : List ι} (h : remaining.mapM (fun frame => svc.load frame.frameUri) = .ok images) :
    Run (step svc) ⟨w, .loading items loaded remaining, trace⟩ (images.map .loaded)
      ⟨w, .loading items (loaded ++ images) [], trace⟩ := by
  replace h := mapM_eq_ok h
  induction h generalizing loaded with
  | nil => exact run_nil.mpr (by simp)
  | @cons frame image remaining rest _ _ ih =>
    have hrest := ih (loaded ++ [image])
    rw [List.append_assoc] at hrest
    exact run_cons.mpr ⟨_, rfl, hrest⟩

theorem of_zipStrict {α β : Type*} {xs : List α} {ys : List β} {zs : List (α × β)}
    (h : zipStrict xs ys = .ok zs) : zs.map Prod.fst = xs ∧ zs.map Prod.snd = ys := by
  unfold zipStrict at h
  split at h
  · rename_i hlen
    cases h
    exact ⟨List.map_fst_zip hlen.le, List.map_snd_zip hlen.ge⟩
  · cases h

/-- A batch in which nothing raises is a run of its calls. -/
theorem runs_processBatch {items : List FrameItem} {w' : InferenceWorker K}
    (h : w.processBatch svc items = .ok w') : ∃ actions trace',
    Run (step svc) ⟨w, .idle, trace⟩ actions ⟨w', .idle, trace'⟩ := by
  obtain ⟨images, hloads, h⟩ := bind_eq_ok.mp h
  obtain ⟨detectionsPerFrame, _, h⟩ := bind_eq_ok.mp h
  obtain ⟨pairs, hpairs, h⟩ := bind_eq_ok.mp h
  obtain ⟨rows, hrows, h⟩ := bind_eq_ok.mp h
  obtain ⟨hids, hrest⟩ := of_zipStrict hrows
  obtain ⟨hframes, hdetections⟩ := of_zipStrict hpairs
  obtain ⟨turns, trace', hturns⟩ := runs_turns trace h
  have hfirst : rows.map (fun r => r.2.1) = items.map Prod.snd := by
    rw [← hframes, ← hrest, List.map_map]
    rfl
  have hsecond : rows.map (fun r => r.2.2) = detectionsPerFrame := by
    rw [← hdetections, ← hrest, List.map_map]
    rfl
  rw [hids, hfirst, hsecond] at hturns
  refine ⟨.batch items :: (images.map .loaded ++ .detected detectionsPerFrame :: turns), trace',
    run_cons.mpr ⟨_, rfl, run_append.mpr ⟨_, runs_loads items [] hloads, ?_⟩⟩⟩
  exact run_cons.mpr ⟨_, rfl, hturns⟩

end Complete

end BatchProcess
end CamTrack
