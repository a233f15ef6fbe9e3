import CamTrack.ProcessBatch
import CamTrack.Wire

namespace CamTrack
open Python

variable {K : Type} [Field K] [LinearOrder K]

/-- Where the main thread of a worker is in `run_forever`. -/
inductive WorkerPc (π : Type) where
  | consuming
  /-- validating and submitting the messages that remain -/
  | submitting (remaining : List (Message String π))
  /-- an exception has left the loop, and `finally` has stopped the batcher -/
  | died (e : Error)

/-- A worker process: its main thread, its batcher, and `_process_batch` on the thread
of the batcher. -/
structure WorkerLoop (K ι π : Type) [Field K] [LinearOrder K] where
  main : WorkerPc π
  batcher : DynamicBatcher K Unit FrameItem
  process : BatchProcess K ι

/-- What the two threads do next. -/
inductive WorkerAction (K ι π : Type) [Field K] [LinearOrder K] where
  /-- `consume` returns -/
  | consumed (messages : List (Message String π))
  /-- the next message is validated and submitted -/
  | submit
  /-- `consume` raises -/
  | raise (e : Error)
  /-- the loop of the batcher goes on -/
  | batcher (a : BatcherAction K FrameItem)
  /-- a call of `_process_batch` returns or raises -/
  | process (a : BatchAction K ι)
  /-- `_process_batch` returns to the batcher, or raises into it -/
  | returned
  /-- the process ends, wherever it is, and a new one is started -/
  | restart

namespace BatchProcess
variable {ι : Type}

/-- What a step has told the broker. -/
def told (s s' : BatchProcess K ι) : List (Effect K) :=
  (s'.trace.drop s.trace.length).filterMap BatchEvent.effect

/-- The event at hand, when the worker is about to publish it. -/
def eventAtHand (svc : Services K ι) (s : BatchProcess K ι) : Option (TrackEvent K) :=
  match s.pc with
  | .publishing _ (track :: _) _ _ _ => some (s.worker.newEvent svc track)
  | _ => none

/-- The event at hand is never published. -/
def abandon (s : BatchProcess K ι) : BatchProcess K ι :=
  match s.pc with
  | .publishing _ (_ :: _) _ _ _ => s.lose
  | _ => s

end BatchProcess

namespace WorkerLoop
variable {ι π : Type}

def start : WorkerLoop K ι π := ⟨.consuming, .start (), .start⟩

/-- An exception leaves the loop. -/
def die (e : Error) (s : WorkerLoop K ι π) : WorkerLoop K ι π :=
  { s with main := .died e, batcher := { s.batcher with stopEvent := true } }

/-- The batcher's thread is inside `_process_batch`. -/
def processing (s : WorkerLoop K ι π) : Bool :=
  match s.batcher.pc with
  | .flushing _ => true
  | _ => false

/-- What `_process_batch` has come to, seen from the batcher. -/
def result (s : WorkerLoop K ι π) : Option (Option Error) :=
  match s.process.pc with
  | .idle => some none
  | .died e => some (some e)
  | _ => none

variable [HasSqrt K] [Rounding K]

/-- A flush enters `_process_batch` with what is pending. -/
def flushed (svc : Services K ι) (s : WorkerLoop K ι π) : Option (WorkerLoop K ι π) :=
  if s.processing then
    (BatchProcess.step svc s.process (.batch s.batcher.pending)).map
      (fun process => { s with process := process })
  else some s

/-- One action, where `validate` is `RawFrame.model_validate`. -/
def step (cfg : BatcherConfig) (svc : Services K ι) (validate : π → Except Error RawFrame)
    (s : WorkerLoop K ι π) : WorkerAction K ι π → Option (WorkerLoop K ι π)
  | .consumed messages => match s.main with
    | .consuming => some { s with
        main := if messages.isEmpty then .consuming else .submitting messages }
    | _ => none
  | .submit => match s.main with
    | .submitting (message :: remaining) =>
      match validate message.payload with
      | .ok frame => (s.batcher.step cfg (fun _ _ => ((), none))
          (.submit (message.messageId, frame))).map (fun batcher => { s with
            main := if remaining.isEmpty then .consuming else .submitting remaining
            batcher := batcher })
      | .error e => some (s.die e)
    | _ => none
  | .raise e => match s.main with
    | .consuming => some (s.die e)
    | _ => none
  | .batcher (.submit _) | .batcher .stop | .batcher .batch => none
  | .batcher a => do
    let batcher ← s.batcher.step cfg (fun _ _ => ((), none)) a
    { s with batcher := batcher }.flushed svc
  | .process (.batch _) | .process .restart => none
  | .process a =>
    if s.processing then
      (BatchProcess.step svc s.process a).map (fun process => { s with process := process })
    else none
  | .returned => do
    let raised ← s.result
    let batcher ← s.batcher.step cfg (fun _ _ => ((), raised)) .batch
    return { s with batcher := batcher }
  | .restart => do
    let process ← BatchProcess.step svc s.process.abandon .restart
    return ⟨.consuming, .start (), process⟩

end WorkerLoop
end CamTrack
