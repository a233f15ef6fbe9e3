import CamTrack.CrossCameraMatcher

namespace CamTrack

/-- The three channels of a pixel. -/
structure Pixel where
  c0 : UInt8
  c1 : UInt8
  c2 : UInt8
  deriving DecidableEq

/-- An image crop, in the order of channels that `cv2` has. -/
structure Crop where
  height : Nat
  width : Nat
  pixel : Fin height → Fin width → Pixel

/-- `crop.size`. -/
def Crop.size (crop : Crop) : Nat := crop.height * crop.width * 3

def Crop.pixels (crop : Crop) : List Pixel :=
  (List.finRange crop.height).flatMap (fun y => (List.finRange crop.width).map (crop.pixel y))

/-- How `cv2` sees colours: `cvtColor` with `COLOR_BGR2HSV` turns each pixel by itself, and
`calcHist` puts the value of a channel into one of the uniform bins from `lo` up to `hi`, or, where
it lies outside, into none. -/
structure Cv2 where
  bgr2hsv : Pixel → Pixel
  bin : (bins lo hi : Nat) → UInt8 → Option (Fin bins)

namespace Cv2

/-- Where a pixel is counted in the flattened histogram. -/
def cell (cv2 : Cv2) (bins : Nat) (pixel : Pixel) : Option Nat := do
  let hsv := cv2.bgr2hsv pixel
  let h ← cv2.bin bins 0 180 hsv.c0
  let s ← cv2.bin bins 0 256 hsv.c1
  let v ← cv2.bin bins 0 256 hsv.c2
  return (h * bins + s) * bins + v

/-- The pixels that are counted in a cell. -/
def count (cv2 : Cv2) (bins : Nat) (crop : Crop) (i : Nat) : Nat :=
  (crop.pixels.filter (fun pixel => cv2.cell bins pixel = some i)).length

/-- `calcHist(...).flatten()` with as many bins for each of the three channels. -/
def calcHist (cv2 : Cv2) (bins : Nat) (crop : Crop) : List Nat :=
  (List.range (bins * bins * bins)).map (cv2.count bins crop)

end Cv2

variable {K : Type} [Field K] [LinearOrder K] [HasSqrt K]

/-- `_l2_normalize`. -/
def l2Normalize (vector : List K) : List K :=
  if norm vector < 1e-9 then vector else vector.map (· / norm vector)

/-- An embedder with at least one bin, as `calcHist` requires. -/
structure ColorHistogramEmbedder where
  bins : Nat
  bins_pos : 0 < bins

namespace ColorHistogramEmbedder

/-- The embedder with the default `bins_per_channel`. -/
def default : ColorHistogramEmbedder := ⟨8, Nat.succ_pos _⟩

def embed (e : ColorHistogramEmbedder) (cv2 : Cv2) (crop : Crop) : List K :=
  if crop.size = 0 then List.replicate ReidConstants.embeddingDim 0
  else
    let histogram := l2Normalize ((cv2.calcHist e.bins crop).map Nat.cast)
    let targetDim := ReidConstants.embeddingDim
    if histogram.length ≥ targetDim then histogram.take targetDim
    else histogram ++ List.replicate (targetDim - histogram.length) 0

end ColorHistogramEmbedder

/-- One call of `observe` for a crop. -/
structure CropObservation (K : Type) where
  zone : String
  cameraId : String
  trackId : String
  crop : Crop
  now : K

/-- The observation that the matcher gets. -/
def CropObservation.embedded (e : ColorHistogramEmbedder) (cv2 : Cv2) (o : CropObservation K) :
    Observation K (List K) :=
  ⟨o.zone, o.cameraId, o.trackId, e.embed cv2 o.crop, o.now⟩

end CamTrack
