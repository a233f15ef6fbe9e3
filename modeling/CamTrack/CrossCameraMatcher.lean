import CamTrack.Config
import CamTrack.Kalman
import CamTrack.Lib.Dict
import CamTrack.Schemas

namespace CamTrack
open Python

/-- `_GalleryEntry`. -/
structure GalleryEntry (K ε : Type) where
  embedding : ε
  cameraId : String
  trackId : String
  observedAtS : K

/-- `_Identity`. -/
structure Identity (K ε : Type) where
  globalIdentityId : String
  entries : List (GalleryEntry K ε)

/-- A cross-camera identity match between two tracks in the same zone. -/
structure ReidMatch (K : Type) [Field K] [LinearOrder K] where
  zone : String
  sourceTrackId : String
  sourceCameraId : String
  matchedTrackId : String
  matchedCameraId : String
  globalIdentityId : String
  similarity : Confidence K

/-- One call of `observe`: its arguments, and the time its clock gives. -/
structure Observation (K ε : Type) where
  zone : String
  cameraId : String
  trackId : String
  embedding : ε
  now : K

def Observation.entry {K ε : Type} (o : Observation K ε) : GalleryEntry K ε :=
  ⟨o.embedding, o.cameraId, o.trackId, o.now⟩

/-- A matcher, and the number of ids it has drawn. -/
structure CrossCameraMatcher (K ε : Type) where
  galleries : Dict String (List (Identity K ε))
  lastResolvedId : String
  generated : Nat

/-- `best_identity`, at its index, `best_entry` and `best_similarity`. -/
structure Best (K ε : Type) where
  index : Nat
  identity : Identity K ε
  entry : GalleryEntry K ε
  similarity : K

section
variable {K : Type} [Field K] [HasSqrt K]

/-- `np.dot` of two vectors. -/
def dot (a b : List K) : Except Error K :=
  if a.length = b.length then .ok (List.zipWith (· * ·) a b).sum else .error .valueError

/-- `np.linalg.norm`. -/
def norm (a : List K) : K := HasSqrt.sqrt (a.map (fun x => x * x)).sum

variable [DecidableEq K]

/-- `(np.linalg.norm(a) * np.linalg.norm(b)) or 1e-9`. -/
def denom (a b : List K) : K := if norm a * norm b = 0 then 1e-9 else norm a * norm b

def cosineSimilarity (a b : List K) : Except Error K := do
  return (← dot a b) / denom a b

end

variable {K ε : Type} [Field K] [LinearOrder K]

/-- The `best_similarity` of the scan so far. -/
def bestSimilarity : Option (Best K ε) → K
  | none => -1
  | some best => best.similarity

/-- The scan of `observe` over the entries of the `i`-th identity. -/
def scanEntries (similarity : ε → ε → Except Error K) (embedding : ε) (identity : Identity K ε)
    (i : Nat) (best : Option (Best K ε)) : Except Error (Option (Best K ε)) :=
  identity.entries.foldlM (fun best entry => do
    let s ← similarity embedding entry.embedding
    return if s > bestSimilarity best then some ⟨i, identity, entry, s⟩ else best) best

/-- The scan over a gallery. -/
def nearest (similarity : ε → ε → Except Error K) (embedding : ε)
    (identities : List (Identity K ε)) : Except Error (Option (Best K ε)) :=
  identities.zipIdx.foldlM (fun best (identity, i) =>
    scanEntries similarity embedding identity i best) none

/-- The identity that a scanned gallery has for an embedding. -/
def resolve (similarity : ε → ε → Except Error K) (embedding : ε)
    (identities : List (Identity K ε)) : Except Error (Option (Best K ε)) := do
  let best ← nearest similarity embedding identities
  return best.filter (fun best => ReidConstants.cosineSimilarityMatchThreshold ≤ best.similarity)

/-- `_add_entry`. -/
def Identity.addEntry (entry : GalleryEntry K ε) (identity : Identity K ε) : Identity K ε :=
  let entries := identity.entries ++ [entry]
  let maxEntries := ReidConstants.galleryMaxEntriesPerIdentity
  { identity with
    entries := if entries.length > maxEntries then entries.rtake maxEntries else entries }

/-- An entry that is not too old. -/
def GalleryEntry.live (now : K) (entry : GalleryEntry K ε) : Bool :=
  now - entry.observedAtS ≤ ReidConstants.galleryMaxAgeSeconds

/-- The loop of `_prune_and_get`. -/
def prune (now : K) (identities : List (Identity K ε)) : List (Identity K ε) :=
  (identities.map (fun identity =>
    { identity with entries := identity.entries.filter (GalleryEntry.live now) })).filter
      (fun identity => !identity.entries.isEmpty)

/-- The match of an observation with an entry of another camera. -/
def reidMatch (o : Observation K ε) (best : Best K ε) : Except Error (ReidMatch K) :=
  if h : 0 ≤ best.similarity ∧ best.similarity ≤ 1 then .ok {
    zone := o.zone
    sourceTrackId := o.trackId
    sourceCameraId := o.cameraId
    matchedTrackId := best.entry.trackId
    matchedCameraId := best.entry.cameraId
    globalIdentityId := best.identity.globalIdentityId
    similarity := ⟨best.similarity, h⟩ }
  else .error .valueError

namespace CrossCameraMatcher

def new : CrossCameraMatcher K ε := ⟨.empty, "", 0⟩

def gallery (m : CrossCameraMatcher K ε) (zone : String) : List (Identity K ε) :=
  (m.galleries.get? zone).getD []

/-- `_prune_and_get`. -/
def pruneAndGet (m : CrossCameraMatcher K ε) (zone : String) (now : K) :
    List (Identity K ε) × CrossCameraMatcher K ε :=
  let identities := prune now (m.gallery zone)
  (identities, { m with galleries := m.galleries.set zone identities })

/-- `observe`, where `uuid n` is the `n`-th id it draws. -/
def observe (similarity : ε → ε → Except Error K) (uuid : Nat → String)
    (m : CrossCameraMatcher K ε) (o : Observation K ε) :
    CrossCameraMatcher K ε × Except Error (Option (ReidMatch K)) :=
  let (identities, m) := m.pruneAndGet o.zone o.now
  match resolve similarity o.embedding identities with
  | .error e => (m, .error e)
  | .ok (some best) =>
    let m := { m with
      galleries := m.galleries.set o.zone
        (identities.modify best.index (Identity.addEntry o.entry))
      lastResolvedId := best.identity.globalIdentityId }
    if best.entry.cameraId ≠ o.cameraId then (m, (reidMatch o best).map some) else (m, .ok none)
  | .ok none =>
    let identity := Identity.addEntry o.entry ⟨uuid m.generated, []⟩
    ({ galleries := m.galleries.set o.zone (identities ++ [identity])
       lastResolvedId := identity.globalIdentityId
       generated := m.generated + 1 }, .ok none)

/-- `resolve_identity_id`. -/
def resolveIdentityId (m : CrossCameraMatcher K ε) : String := m.lastResolvedId

/-- The calls of a run one after the other. -/
def observeAll (similarity : ε → ε → Except Error K) (uuid : Nat → String)
    (m : CrossCameraMatcher K ε) (os : List (Observation K ε)) : CrossCameraMatcher K ε :=
  os.foldl (fun m o => (m.observe similarity uuid o).1) m

end CrossCameraMatcher
end CamTrack
