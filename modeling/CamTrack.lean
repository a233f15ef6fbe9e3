import CamTrack.Proofs.Acks
import CamTrack.Proofs.Backoff
import CamTrack.Proofs.Batching
import CamTrack.Proofs.BoxShape
import CamTrack.Proofs.CameraChange
import CamTrack.Proofs.ClassSuppression
import CamTrack.Proofs.Conservation
import CamTrack.Proofs.CrossCameraMatcher
import CamTrack.Proofs.DetectionOrder
import CamTrack.Proofs.Draining
import CamTrack.Proofs.FailingObserve
import CamTrack.Proofs.FilterHealth
import CamTrack.Proofs.FlushBounds
import CamTrack.Proofs.FrameRate
import CamTrack.Proofs.Idempotence
import CamTrack.Proofs.Identity
import CamTrack.Proofs.IouAgreement
import CamTrack.Proofs.KafkaOrder
import CamTrack.Proofs.Lifecycle
import CamTrack.Proofs.Motionless
import CamTrack.Proofs.Redelivery
import CamTrack.Proofs.RedisPublish
import CamTrack.Proofs.RedisStreams
import CamTrack.Proofs.RedisStreamsBroker
import CamTrack.Proofs.StageThree
import CamTrack.Proofs.Stopping
import CamTrack.Proofs.Stranded
import CamTrack.Proofs.Subscriptions
import CamTrack.Proofs.Translation
import CamTrack.Proofs.Transparency
import CamTrack.Proofs.Dashboard
import CamTrack.Proofs.CameraOrder
import CamTrack.Proofs.CatchUp
import CamTrack.Proofs.FrameStore
import CamTrack.Proofs.KafkaStorage
import CamTrack.Proofs.LastSeen
import CamTrack.Proofs.WorkerLoop
import CamTrack.Proofs.Embedder
