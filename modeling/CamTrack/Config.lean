import Mathlib

namespace CamTrack

/-! The constants of the configuration that the models read. -/

namespace InferenceConstants
variable {K : Type} [Field K]

def trackHighConfThreshold : K := 0.6
def trackLowConfThreshold : K := 0.1
def trackMatchIouThreshold : K := 0.3
def trackLowConfMatchIouThreshold : K := 0.5
def trackUnconfirmedMatchIouThreshold : K := 0.7
def trackMaxLostFrames : Nat := 30
def trackMinHitsToConfirm : Nat := 3

end InferenceConstants

namespace TimeoutConstants

def rtspReconnectBackoffBaseSeconds : Nat := 2
def rtspReconnectBackoffMaxSeconds : Nat := 30

end TimeoutConstants

namespace ReidConstants
variable {K : Type} [Field K]

def embeddingDim : Nat := 512
def cosineSimilarityMatchThreshold : K := 0.72
def galleryMaxAgeSeconds : K := 300
def galleryMaxEntriesPerIdentity : Nat := 5

end ReidConstants
end CamTrack
