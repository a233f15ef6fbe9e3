import CamTrack.FramePublisher
import CamTrack.Lib.Dict
import CamTrack.Lib.PosixPath

namespace CamTrack
open Python PosixPath

/-- What `cv2.imwrite` makes of an image at one quality, and `cv2.imread` of that. JPEG does
not keep every detail: `shown` is the image that comes back. -/
structure JpegCodec (ι φ : Type) where
  encode : ι → φ
  decode : φ → Option ι
  shown : ι → ι
  decode_encode : ∀ image, decode (encode image) = some (shown image)

/-- `str.removeprefix`. -/
def removePrefix (lead s : List Char) : List Char :=
  if lead.isPrefixOf s then s.drop lead.length else s

def fileScheme : List Char := "file://".toList

/-- A store in a process whose working directory is `cwd`. -/
structure LocalDiskFrameStore where
  baseDir : String
  cwd : Path
  absolute : isabs cwd = true

namespace LocalDiskFrameStore

/-- The name of the file, in its directory. -/
def fileName (frameId : String) : Path := frameId.toList ++ ".jpg".toList

def cameraDir (self : LocalDiskFrameStore) (cameraId : String) : Path :=
  join self.baseDir.toList cameraId.toList

/-- The path that `save` writes to. -/
def path (self : LocalDiskFrameStore) (cameraId frameId : String) : Path :=
  join (self.cameraDir cameraId) (fileName frameId)

/-- What `save` returns. -/
def frameUri (self : LocalDiskFrameStore) (cameraId frameId : String) : String :=
  String.ofList (fileScheme ++ abspath self.cwd (self.path cameraId frameId))

/-- The file that `path` names in the process of the store. -/
def file (self : LocalDiskFrameStore) (cameraId frameId : String) : List Path :=
  follow (follow [] self.cwd) (self.path cameraId frameId)

end LocalDiskFrameStore

/-- A call of `save`, and whether it has returned. -/
structure SaveCall (ι : Type) where
  store : LocalDiskFrameStore
  cameraId : String
  frameId : String
  image : ι
  returned : Bool

/-- The files of the shared directory tree. `calls` records the calls of `save`. -/
structure FrameDisk (ι φ : Type) where
  files : Dict (List Path) φ
  calls : List (SaveCall ι)

namespace FrameDisk
variable {ι φ : Type}

/-- `save` returns. -/
def save (codec : JpegCodec ι φ) (store : LocalDiskFrameStore) (cameraId frameId : String)
    (image : ι) (disk : FrameDisk ι φ) : FrameDisk ι φ where
  files := disk.files.set (store.file cameraId frameId) (codec.encode image)
  calls := disk.calls ++ [⟨store, cameraId, frameId, image, true⟩]

/-- `save` raises, and leaves the file as it was or with other contents. -/
def saveFails (store : LocalDiskFrameStore) (cameraId frameId : String) (image : ι)
    (leaves : Option φ) (disk : FrameDisk ι φ) : FrameDisk ι φ where
  files := match leaves with
    | some bytes => disk.files.set (store.file cameraId frameId) bytes
    | none => disk.files
  calls := disk.calls ++ [⟨store, cameraId, frameId, image, false⟩]

/-- `LocalDiskFrameLoader.load`, in a process whose working directory is `cwd`. -/
def load (codec : JpegCodec ι φ) (disk : FrameDisk ι φ) (cwd : Path) (frameUri : String) :
    Except Error ι :=
  let path := removePrefix fileScheme frameUri.toList
  match (disk.files.get? (follow (follow [] cwd) path)).bind codec.decode with
  | some image => .ok image
  | none => .error .fileNotFoundError

end FrameDisk

/-- The publishers of `m` cameras, each with its store, over one directory tree. -/
structure Ingestion (m : Nat) (K ι φ : Type) where
  cameras : Fin m → FramePublisher K ι
  disk : FrameDisk ι φ

/-- What happens next, and where. -/
inductive IngestionAction (m : Nat) (K ι φ : Type) where
  /-- anything but a `save` -/
  | camera (c : Fin m) (a : PublisherAction K ι)
  /-- `save` returns, for a frame of this fresh id -/
  | save (c : Fin m) (frameId : String)
  /-- `save` raises, which ends the thread, and a new one is started -/
  | saveFails (c : Fin m) (frameId : String) (leaves : Option φ)

namespace Ingestion
variable {m : Nat} {K ι φ : Type} [Field K] [LinearOrder K] [Rounding K]

def start (cameras : Fin m → CameraConfig) (files : Dict (List Path) φ) : Ingestion m K ι φ :=
  ⟨fun c => .start (cameras c), ⟨files, []⟩⟩

def step (codec : JpegCodec ι φ) (stores : Fin m → LocalDiskFrameStore)
    (s : Ingestion m K ι φ) : IngestionAction m K ι φ → Option (Ingestion m K ι φ)
  | .camera _ (.save _ _) => none
  | .camera c a => ((s.cameras c).step a).map (fun camera =>
      { s with cameras := Function.update s.cameras c camera })
  | .save c frameId => match (s.cameras c).reader.pc with
    | .yielded captured =>
      let cameraId := (s.cameras c).camera.cameraId
      ((s.cameras c).step (.save frameId ((stores c).frameUri cameraId frameId))).map
        (fun camera => {
          cameras := Function.update s.cameras c camera
          disk := s.disk.save codec (stores c) cameraId frameId captured.image })
    | _ => none
  | .saveFails c frameId leaves => match (s.cameras c).reader.pc, (s.cameras c).frame with
    | .yielded captured, none => some {
        cameras := Function.update s.cameras c { FramePublisher.start (s.cameras c).camera with
          saved := (s.cameras c).saved, published := (s.cameras c).published }
        disk := s.disk.saveFails (stores c) (s.cameras c).camera.cameraId frameId captured.image
          leaves }
    | _, _ => none

end Ingestion
end CamTrack
