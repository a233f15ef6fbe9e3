import CamTrack.Config
import CamTrack.Lib.Dict
import CamTrack.Lib.Rounding

namespace CamTrack
open Python InferenceConstants

variable {K : Type} [Field K] [LinearOrder K] [Rounding K]

/-- The bounds a batcher is built with, as its constructor admits them. -/
structure BatcherConfig where
  maxBatchSize : Nat
  maxWaitMs : Nat
  sizePos : 1 ≤ maxBatchSize

/-- The argument checks of `DynamicBatcher.__init__`. -/
def BatcherConfig.init (maxBatchSize maxWaitMs : Int) : Except Error BatcherConfig :=
  if h : maxBatchSize < 1 then .error .valueError
  else if maxWaitMs < 0 then .error .valueError
  else .ok ⟨maxBatchSize.toNat, maxWaitMs.toNat, by omega⟩

/-- Where the background thread is in `_run`. -/
inductive Pc (K : Type) where
  /-- about to test the stop event -/
  | head
  /-- inside `Queue.get(timeout=...)` -/
  | polling (timeout : K)
  /-- inside `on_batch`; `final` for the flush after the loop -/
  | flushing (final : Bool)
  | exited
  /-- an exception left `_run` -/
  | died (e : Error)
  deriving DecidableEq

/-- A callback on the state `ω` of its owner, with the exception it raised. -/
abbrev OnBatch (ω α : Type) := ω → List α → ω × Option Error

/-- The shared queue and stop event, the locals of `_run`, and the state of the
owner of `on_batch`. `submitted` and `handed` record what entered and left. -/
structure DynamicBatcher (K ω α : Type) where
  queue : List α
  stopEvent : Bool
  pending : List α
  batchStartedAt : Option K
  pc : Pc K
  owner : ω
  submitted : List α
  handed : List (List α)

/-- What the threads do next. A clock reading of the background thread comes
with the action that makes it. -/
inductive BatcherAction (K α : Type) where
  /-- another thread's `submit` -/
  | submit (item : α)
  /-- another thread's `stop` -/
  | stop
  /-- the loop test, and the poll timeout when the loop goes on -/
  | check (now : K)
  /-- the poll returns the first item of the queue -/
  | take (now : K)
  /-- the poll raises `queue.Empty` -/
  | timeout (now : K)
  /-- `on_batch` returns or raises -/
  | batch

namespace DynamicBatcher
variable {ω α : Type}

def maxPollIntervalS : K := Rounding.round 0.1

def maxWaitS (cfg : BatcherConfig) : K := Rounding.div (Rounding.ofNat cfg.maxWaitMs) 1000

/-- The time since a batch has started, as `_time_left` computes it. -/
def elapsed (startedAt now : K) : K := Rounding.sub now startedAt

/-- A started batcher nobody has submitted to. -/
def start (owner : ω) : DynamicBatcher K ω α :=
  { queue := [], stopEvent := false, pending := [], batchStartedAt := none, pc := .head,
    owner := owner, submitted := [], handed := [] }

def timeLeft (cfg : BatcherConfig) (batchStartedAt : Option K) (now : K) : Option K :=
  batchStartedAt.map (fun startedAt => max 0 (Rounding.sub (maxWaitS cfg) (elapsed startedAt now)))

def pollTimeout (cfg : BatcherConfig) (batchStartedAt : Option K) (now : K) : K :=
  match timeLeft cfg batchStartedAt now with
  | some remainingWaitS => min remainingWaitS maxPollIntervalS
  | none => maxPollIntervalS

/-- `_flush`: an empty batch is not handed over. -/
def flush (final : Bool) (s : DynamicBatcher K ω α) : DynamicBatcher K ω α :=
  if s.pending.isEmpty then
    { s with pc := if final then .exited else .head, batchStartedAt := none }
  else { s with pc := .flushing final }

def check (cfg : BatcherConfig) (now : K) (s : DynamicBatcher K ω α) : DynamicBatcher K ω α :=
  if s.stopEvent then s.flush true
  else { s with pc := .polling (pollTimeout cfg s.batchStartedAt now) }

/-- `pending.append(item)`; the first item of a batch starts its clock. -/
def collect (now : K) (item : α) (rest : List α) (s : DynamicBatcher K ω α) :
    DynamicBatcher K ω α :=
  { s with
    queue := rest
    batchStartedAt := if s.pending.isEmpty then some now else s.batchStartedAt
    pending := s.pending ++ [item] }

def take (cfg : BatcherConfig) (now : K) (item : α) (rest : List α)
    (s : DynamicBatcher K ω α) : DynamicBatcher K ω α :=
  let s := s.collect now item rest
  if s.pending.length ≥ cfg.maxBatchSize then s.flush false else { s with pc := .head }

def timeout (cfg : BatcherConfig) (now : K) (s : DynamicBatcher K ω α) : DynamicBatcher K ω α :=
  if s.pending.isEmpty then { s with pc := .head }
  else match timeLeft cfg s.batchStartedAt now with
    | none => { s with pc := .died .typeError }
    | some left => if left ≤ 0 then s.flush false else { s with pc := .head }

/-- `on_batch` on the whole of `pending`. -/
def batch (onBatch : OnBatch ω α) (final : Bool) (s : DynamicBatcher K ω α) :
    DynamicBatcher K ω α :=
  let (owner, raised) := onBatch s.owner s.pending
  { s with
    owner := owner
    handed := s.handed ++ [s.pending]
    pending := []
    batchStartedAt := none
    pc := match raised with
      | some e => .died e
      | none => if final then .exited else .head }

/-- One action; `none` where the thread it belongs to is somewhere else. A poll
takes an item whenever there is one, and raises only on an empty queue. -/
def step (cfg : BatcherConfig) (onBatch : OnBatch ω α) (s : DynamicBatcher K ω α) :
    BatcherAction K α → Option (DynamicBatcher K ω α)
  | .submit item => some { s with queue := s.queue ++ [item], submitted := s.submitted ++ [item] }
  | .stop => some { s with stopEvent := true }
  | .check now => match s.pc with
    | .head => some (s.check cfg now)
    | _ => none
  | .take now => match s.pc, s.queue with
    | .polling _, item :: rest => some (s.take cfg now item rest)
    | _, _ => none
  | .timeout now => match s.pc, s.queue with
    | .polling _, [] => some (s.timeout cfg now)
    | _, _ => none
  | .batch => match s.pc with
    | .flushing final => some (s.batch onBatch final)
    | _ => none

end DynamicBatcher
end CamTrack
