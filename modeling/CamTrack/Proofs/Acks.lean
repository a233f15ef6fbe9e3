import CamTrack.Proofs.ProcessBatch
import CamTrack.Proofs.StorageLoop
import CamTrack.Proofs.FailingLoads
import CamTrack.Proofs.Idempotence

namespace CamTrack
open Python Machine

variable {K : Type} [Field K] [LinearOrder K] {ι π : Type}

/-- Wherever calls raise, a frame that a worker has acked has had the events of its
tracks published, a message that the storage process has acked has its event
committed, and a `write_batch` that raises neither changes the table nor acks. -/
theorem acks_follow_effects [HasSqrt K] (svc : Services K ι)
    (validate : π → Except Error (TrackEvent K)) :
    (∀ actions (s : BatchProcess K ι), Run (BatchProcess.step svc) .start actions s →
      BatchProcess.AcksPublished s.trace ∧
        s.worker.effects = s.trace.filterMap BatchEvent.effect) ∧
    ∀ actions (s : StorageLoop K π), Run (StorageLoop.step validate) .start actions s →
      (∀ message ∈ s.acked, ∃ event row, validate message.payload = .ok event ∧
        s.connection.committed.get? event.eventId = some row ∧
        (StorageLoop.IdsIdentify validate s.delivered → row = rowOf event)) ∧
      ∀ messages events, s.pc = .validating messages events [] →
        ∀ calls e later (t s' : StorageLoop K π), (∀ a ∈ calls, StorageLoop.Uncommitted a) →
          Run (StorageLoop.step validate) s calls t → t.pc = .died e →
          .restart ∉ later → Run (StorageLoop.step validate) t later s' →
          s'.connection.committed = s.connection.committed ∧ s'.acked = s.acked := by
  refine ⟨fun actions s hs => ⟨(BatchProcess.honest hs).acks, BatchProcess.effects_eq hs⟩, ?_⟩
  intro actions s hs
  have hsound := StorageLoop.sound hs
  constructor
  · intro message hm
    obtain ⟨hdelivered, event, row, hv, hrow⟩ := hsound.acked message hm
    exact ⟨event, row, hv, hrow, fun hids => hsound.own_row hids hdelivered hv hrow⟩
  · intro messages events hpc calls e later t s' hcalls hrun hdied hlater hrest
    exact StorageLoop.failed_write hpc hcalls hrun hdied hlater hrest

section Runs
open InferenceWorker (squareServices squareFrame)
open Connection (personEvent)

/-- A worker that acks a frame, and dies of a publish for the next, which arrives. -/
def publishRaises : List (BatchAction ℚ Unit) :=
  [.batch [("1-0", squareFrame "f1" "file://f1.jpg"), ("2-0", squareFrame "f2" "file://f2.jpg")],
    .loaded (), .loaded (), .detected [[clearSquare], [clearSquare]], .next, .publish, .ack,
    .next, .raise .connectionError true]

/-- A storage process that has acked an event, and holds the next. -/
def oneStored : List (StorageAction (TrackEvent ℚ)) :=
  [.consumed [⟨"1", personEvent "e1" "t1"⟩], .validate, .rows, .page, .commit, .ack,
    .consumed [⟨"2", personEvent "e2" "t2"⟩], .validate]

/-- Its `write_batch`, where the commit raises. -/
def commitRaises : List (StorageAction (TrackEvent ℚ)) :=
  [.rows, .page, .raise .databaseError false]

theorem acks_follow_effects_raising :
    (∃ s, Run (BatchProcess.step squareServices) .start publishRaises s ∧
      s.worker.acks = ["1-0"] ∧ s.worker.events.length = 2 ∧ BatchProcess.AcksPublished s.trace) ∧
    ∃ s t : StorageLoop ℚ (TrackEvent ℚ), Run (StorageLoop.step .ok) .start oneStored s ∧
      Run (StorageLoop.step .ok) s commitRaises t ∧ t.pc = .died .databaseError ∧
      (∃ row, t.connection.committed.get? "e1" = some row) ∧
      t.connection.committed = s.connection.committed ∧ t.acked = s.acked := by
  constructor
  · have hrun : (publishRaises.foldlM (BatchProcess.step squareServices) .start).any
        (fun s => s.worker.acks == ["1-0"] && s.worker.events.length == 2) = true := by
      decide +kernel
    obtain ⟨s, hs, hp⟩ := (Option.any_eq_true _ _).mp hrun
    simp only [Bool.and_eq_true, beq_iff_eq] at hp
    exact ⟨s, hs, hp.1, hp.2,
      ((acks_follow_effects squareServices (π := Unit) (fun _ => .error .valueError)).1 _ s hs).1⟩
  · obtain ⟨s, t, hs, hpc, ht, hdied, hacked⟩ : ∃ s t : StorageLoop ℚ (TrackEvent ℚ),
        Run (StorageLoop.step .ok) .start oneStored s ∧
        s.pc = .validating [⟨"2", personEvent "e2" "t2"⟩] [personEvent "e2" "t2"] [] ∧
        Run (StorageLoop.step .ok) s commitRaises t ∧ t.pc = .died .databaseError ∧
        s.acked = [⟨"1", personEvent "e1" "t1"⟩] := ⟨_, _, rfl, rfl, rfl, rfl, rfl⟩
    obtain ⟨heffects, hfailed⟩ := (acks_follow_effects squareServices .ok).2 _ s hs
    obtain ⟨hcommitted, hsame⟩ := hfailed _ _ hpc commitRaises .databaseError [] t t
      (by simp [commitRaises, StorageLoop.Uncommitted]) ht hdied (by simp) (run_nil.mpr rfl)
    obtain ⟨event, row, hvalid, hrow, _⟩ := heffects ⟨"1", personEvent "e1" "t1"⟩ (by simp [hacked])
    cases hvalid
    exact ⟨s, t, hs, ht, hdied, ⟨row, hcommitted ▸ hrow⟩, hcommitted, hsame⟩

end Runs

end CamTrack
