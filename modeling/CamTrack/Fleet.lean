import CamTrack.Lib.Machine
import CamTrack.Worker

namespace CamTrack
open Machine

variable {K : Type} [Field K] [LinearOrder K]

/-- The inference workers of one consumer group, each a process of its own. -/
abbrev Fleet (K : Type) [Field K] [LinearOrder K] (n : Nat) :=
  Fin n → InferenceWorker.Batching K

namespace Fleet
variable {n : Nat} {ι : Type}

def start : Fleet K n := fun _ => DynamicBatcher.start .new

/-- One worker moves. A message the broker delivers to a worker is a `submit` there,
so the frames of a camera go to the workers in any pattern. -/
def step [HasSqrt K] [Rounding K] (cfg : Fin n → BatcherConfig) (svc : Fin n → Services K ι) :
    Fleet K n → Fin n × BatcherAction K FrameItem → Option (Fleet K n) :=
  interleave (fun i => DynamicBatcher.step (cfg i) (InferenceWorker.onBatch (svc i)))

end Fleet
end CamTrack
