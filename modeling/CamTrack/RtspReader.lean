import CamTrack.Config
import CamTrack.Lib.Machine
import CamTrack.Lib.Rounding

namespace CamTrack
open TimeoutConstants

/-- A source and the cap on its frame rate, as its configuration admits it. -/
structure CameraConfig where
  cameraId : String
  fpsCap : Nat
  fpsPos : 0 < fpsCap
  deriving DecidableEq

structure CapturedFrame (ι : Type) where
  image : ι
  sequenceNumber : Nat
  capturedAtMs : Int
  deriving DecidableEq

/-- Where the generator is in `frames`. -/
inductive ReaderPc (ι : Type) where
  /-- about to test whether there is a capture -/
  | head
  /-- inside `_connect` -/
  | connecting
  /-- inside `read` of the capture -/
  | reading
  /-- suspended, with a frame for its consumer -/
  | yielded (frame : CapturedFrame ι)
  /-- ended by the use of a capture that is no longer there -/
  | died
  deriving DecidableEq

/-- What a reader does to its source, with the result, and its sleeps. -/
inductive ReaderEvent where
  | attempted (opened : Bool)
  | slept (seconds : Nat)
  | read (ok : Bool)
  deriving DecidableEq, Repr

/-- The fields of a reader with the locals of its generator. `capture` tells whether
there is one, and `history` records what has been done so far. -/
structure RtspFrameReader (K ι : Type) where
  minFrameIntervalS : K
  capture : Bool
  sequenceNumber : Nat
  reconnectAttempt : Nat
  lastEmittedAt : Option K
  pc : ReaderPc ι
  history : List ReaderEvent
  deriving DecidableEq

/-- What happens next. The outcomes of the source and the clock readings come with
the action that sees them. -/
inductive ReaderAction (K ι : Type) where
  /-- the test of the capture -/
  | check
  /-- `_connect` returns, or it raises `ConnectionError` -/
  | connect (opened : Bool)
  /-- `read` returns a frame or fails -/
  | read (outcome : Option ι) (now : K) (timeMs : Int)
  /-- there is no capture any more to call `read` of -/
  | missing
  /-- the consumer asks for the next frame -/
  | resume
  /-- another thread's `close` -/
  | close

/-- The delay before the next attempt when `reconnectAttempt` of them have failed. -/
def backoffDelay (reconnectAttempt : Nat) : Nat :=
  min (rtspReconnectBackoffBaseSeconds * 2 ^ reconnectAttempt) rtspReconnectBackoffMaxSeconds

namespace RtspFrameReader
variable {K ι : Type} [Field K] [LinearOrder K] [Rounding K]

def init (camera : CameraConfig) : RtspFrameReader K ι where
  minFrameIntervalS := Rounding.div 1 (Rounding.ofNat camera.fpsCap)
  capture := false
  sequenceNumber := 0
  reconnectAttempt := 0
  lastEmittedAt := none
  pc := .head
  history := []

/-- `frames()`: a new generator, with locals of its own. -/
def frames (s : RtspFrameReader K ι) : RtspFrameReader K ι :=
  { s with reconnectAttempt := 0, lastEmittedAt := none, pc := .head }

/-- `_connect`, with the sleep where it raises. -/
def connect (opened : Bool) (s : RtspFrameReader K ι) : RtspFrameReader K ι :=
  if opened then
    { s with
      capture := true
      reconnectAttempt := 0
      pc := .reading
      history := s.history ++ [.attempted true] }
  else
    { s with
      reconnectAttempt := s.reconnectAttempt + 1
      pc := .head
      history := s.history ++ [.attempted false, .slept (backoffDelay s.reconnectAttempt)] }

/-- `elapsed_since_last`. -/
def elapsedSinceLast (last now : K) : K := Rounding.sub now last

/-- Whether a frame read at `now` comes too soon after the last one emitted. -/
def tooSoon (now : K) (s : RtspFrameReader K ι) : Bool :=
  match s.lastEmittedAt with
  | none => false
  | some last => decide (elapsedSinceLast last now < s.minFrameIntervalS)

/-- A frame that has been read, and is yielded or dropped. -/
def gotFrame (image : ι) (now : K) (timeMs : Int) (s : RtspFrameReader K ι) :
    RtspFrameReader K ι :=
  if s.tooSoon now then { s with pc := .head, history := s.history ++ [.read true] }
  else
    { s with
      lastEmittedAt := some now
      sequenceNumber := s.sequenceNumber + 1
      pc := .yielded ⟨image, s.sequenceNumber + 1, timeMs⟩
      history := s.history ++ [.read true] }

/-- A read that has failed. Without a capture, closed in the meantime, there is
nothing to release, which ends the generator. -/
def noFrame (s : RtspFrameReader K ι) : RtspFrameReader K ι :=
  { s with
    capture := false
    pc := if s.capture then .head else .died
    history := s.history ++ [.read false] }

def close (s : RtspFrameReader K ι) : RtspFrameReader K ι := { s with capture := false }

/-- One action; `none` where the generator is somewhere else. -/
def step (s : RtspFrameReader K ι) : ReaderAction K ι → Option (RtspFrameReader K ι)
  | .check => match s.pc with
    | .head => some { s with pc := if s.capture then .reading else .connecting }
    | _ => none
  | .connect opened => match s.pc with
    | .connecting => some (s.connect opened)
    | _ => none
  | .read outcome now timeMs => match s.pc with
    | .reading => some (match outcome with
      | some image => s.gotFrame image now timeMs
      | none => s.noFrame)
    | _ => none
  | .missing => match s.pc with
    | .reading => if s.capture then none else some { s with pc := .died }
    | _ => none
  | .resume => match s.pc with
    | .yielded _ => some { s with pc := .head }
    | _ => none
  | .close => some s.close

end RtspFrameReader
end CamTrack
