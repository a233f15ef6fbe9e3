import CamTrack.RtspReader
import CamTrack.Schemas

namespace CamTrack

/-- A publisher with its reader. `frame` is the local variable once its image has been
saved; `saved` and `published` record what has gone to the store and to the broker.
The body of the loop runs while the generator is suspended. -/
structure FramePublisher (K ι : Type) where
  camera : CameraConfig
  reader : RtspFrameReader K ι
  frame : Option RawFrame
  saved : List (CapturedFrame ι)
  published : List RawFrame
  deriving DecidableEq

/-- What the thread of `run_forever` and the one that stops it do next. -/
inductive PublisherAction (K ι : Type) where
  /-- the generator goes on, which only the loop can make it do -/
  | reader (a : ReaderAction K ι)
  /-- `FrameStore.save` returns the uri of the image under the fresh id of its frame -/
  | save (frameId frameUri : String)
  /-- the broker takes the frame, and the loop asks for the next one -/
  | publish
  /-- another thread's `stop` -/
  | stop

namespace FramePublisher
variable {K ι : Type} [Field K] [LinearOrder K] [Rounding K]

def start (camera : CameraConfig) : FramePublisher K ι :=
  { camera := camera, reader := .init camera, frame := none, saved := [], published := [] }

def stop (s : FramePublisher K ι) : FramePublisher K ι := { s with reader := s.reader.close }

/-- The frame of a saved image. -/
def rawFrame (s : FramePublisher K ι) (captured : CapturedFrame ι) (frameId frameUri : String) :
    RawFrame :=
  { frameId := frameId, cameraId := s.camera.cameraId, frameUri := frameUri
    sequenceNumber := captured.sequenceNumber }

/-- One action; `none` where the loop is somewhere else. -/
def step (s : FramePublisher K ι) : PublisherAction K ι → Option (FramePublisher K ι)
  | .reader .resume => none
  | .reader .close => none
  | .reader a => (s.reader.step a).map (fun reader => { s with reader := reader })
  | .save frameId frameUri => match s.reader.pc, s.frame with
    | .yielded captured, none => some { s with
        frame := some (s.rawFrame captured frameId frameUri)
        saved := s.saved ++ [captured] }
    | _, _ => none
  | .publish => match s.frame with
    | some frame => (s.reader.step .resume).map (fun reader => { s with
        reader := reader
        frame := none
        published := s.published ++ [frame] })
    | none => none
  | .stop => some s.stop

end FramePublisher
end CamTrack
