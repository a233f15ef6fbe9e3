import CamTrack.Lib.Streak
import CamTrack.Proofs.RtspReader

namespace CamTrack
open Machine

/-- A frame that `read` has returned: the clock then, and what was yielded of it. -/
structure FrameRead (K ι : Type) where
  now : K
  yielded : Option (CapturedFrame ι)

def ReaderPc.frame {ι : Type} : ReaderPc ι → Option (CapturedFrame ι)
  | .yielded frame => some frame
  | _ => none

/-- The frames yielded, with their clock readings. -/
def yields {K ι : Type} (reads : List (FrameRead K ι)) : List (K × CapturedFrame ι) :=
  reads.filterMap (fun r => r.yielded.map (r.now, ·))

theorem yields_concat {K ι : Type} (reads : List (FrameRead K ι)) (r : FrameRead K ι) :
    yields (reads ++ [r]) = yields reads ++ (r.yielded.map (r.now, ·)).toList := by
  cases h : r.yielded <;> simp [yields, h]

section Reads
variable {K ι : Type} [LinearOrder K] {reads : List (FrameRead K ι)} {r : FrameRead K ι}
  {n : Nat} {since : K → K → K} {interval : K}

/-- A read that comes too soon after the last frame yielded, where `since` measures the time
from that frame to it. -/
def TooSoon (since : K → K → K) (interval : K) (before : List (FrameRead K ι))
    (r : FrameRead K ι) : Prop :=
  ∃ last ∈ (yields before).getLast?, since last.1 r.now < interval

/-- Frames numbered one by one after `n`, and apart; the first one read is yielded,
and only those that come too soon are dropped. -/
structure PacedFrames (n : Nat) (since : K → K → K) (interval : K)
    (reads : List (FrameRead K ι)) : Prop where
  numbers : (yields reads).map (fun y => y.2.sequenceNumber) =
    List.range' (n + 1) (yields reads).length
  apart : (yields reads).IsChain (fun last next => interval ≤ since last.1 next.1)
  first : ∀ r ∈ reads.head?, r.yielded.isSome
  dropped : ∀ before r after, reads = before ++ r :: after →
    (r.yielded = none ↔ TooSoon since interval before r)

theorem PacedFrames.nil (n : Nat) (since : K → K → K) (interval : K) :
    PacedFrames n since interval ([] : List (FrameRead K ι)) :=
  ⟨rfl, .nil, by simp, by simp⟩

theorem PacedFrames.dropped_concat (h : PacedFrames n since interval reads)
    (hr : r.yielded = none ↔ TooSoon since interval reads r) :
    ∀ before r' after, reads ++ [r] = before ++ r' :: after →
      (r'.yielded = none ↔ TooSoon since interval before r') := by
  intro before r' after he
  rcases Streak.concat_eq_append_cons he with ⟨rfl, rfl, rfl⟩ | ⟨after', rfl, hreads⟩
  · exact hr
  · exact h.dropped _ _ _ hreads

theorem PacedFrames.first_concat (h : PacedFrames n since interval reads)
    (hr : r.yielded = none ↔ TooSoon since interval reads r) :
    ∀ r' ∈ (reads ++ [r]).head?, r'.yielded.isSome := by
  cases reads with
  | nil =>
    intro r' hmem
    obtain rfl : r = r' := by simpa using hmem
    rw [Option.isSome_iff_ne_none, ne_eq, hr]
    simp [TooSoon, yields]
  | cons first reads => simpa using h.first

theorem PacedFrames.drop (h : PacedFrames n since interval reads) (hr : r.yielded = none)
    (hsoon : TooSoon since interval reads r) : PacedFrames n since interval (reads ++ [r]) := by
  have hsame : yields (reads ++ [r]) = yields reads := by simp [yields_concat, hr]
  have hiff : r.yielded = none ↔ TooSoon since interval reads r := iff_of_true hr hsoon
  refine ⟨?_, ?_, h.first_concat hiff, h.dropped_concat hiff⟩
  · rw [hsame]
    exact h.numbers
  · rw [hsame]
    exact h.apart

theorem PacedFrames.yield {frame : CapturedFrame ι} (h : PacedFrames n since interval reads)
    (hr : r.yielded = some frame)
    (hnumber : frame.sequenceNumber = n + (yields reads).length + 1)
    (hlate : ¬ TooSoon since interval reads r) : PacedFrames n since interval (reads ++ [r]) := by
  have hmore : yields (reads ++ [r]) = yields reads ++ [(r.now, frame)] := by
    simp [yields_concat, hr]
  have hiff : r.yielded = none ↔ TooSoon since interval reads r := iff_of_false (by simp [hr]) hlate
  refine ⟨?_, ?_, h.first_concat hiff, h.dropped_concat hiff⟩
  · rw [hmore, List.map_append, h.numbers, List.length_append, List.length_singleton,
      List.range'_concat, List.map_singleton, hnumber]
    congr 2
    omega
  · rw [hmore]
    refine h.apart.append (List.isChain_singleton _) (fun last hlast next hnext => ?_)
    obtain rfl : (r.now, frame) = next := by simpa using hnext
    exact not_lt.mp (fun hlt => hlate ⟨last, hlast, hlt⟩)

end Reads

namespace RtspFrameReader
variable {K ι : Type} [Field K] [LinearOrder K] [Rounding K] {r s s' : RtspFrameReader K ι}
  {reads : List (FrameRead K ι)}

/-- What is seen of an action that returns a frame. -/
def frameRead (s : RtspFrameReader K ι) : ReaderAction K ι → Option (FrameRead K ι)
  | .read (some image) now timeMs => some ⟨now, (s.gotFrame image now timeMs).pc.frame⟩
  | _ => none

/-- What a generator of the reader `r` knows of the frames read so far. -/
structure Emits (r : RtspFrameReader K ι) (reads : List (FrameRead K ι))
    (s : RtspFrameReader K ι) : Prop where
  interval : s.minFrameIntervalS = r.minFrameIntervalS
  number : s.sequenceNumber = r.sequenceNumber + (yields reads).length
  last : s.lastEmittedAt = (yields reads).getLast?.map Prod.fst
  paced : PacedFrames r.sequenceNumber elapsedSinceLast r.minFrameIntervalS reads

theorem frames_emits (r : RtspFrameReader K ι) : Emits r [] r.frames :=
  ⟨rfl, rfl, rfl, .nil _ _ _⟩

theorem Emits.same (h : Emits r reads s) (t : RtspFrameReader K ι)
    (hinterval : t.minFrameIntervalS = s.minFrameIntervalS)
    (hnumber : t.sequenceNumber = s.sequenceNumber)
    (hlast : t.lastEmittedAt = s.lastEmittedAt) : Emits r reads t :=
  ⟨hinterval.trans h.interval, hnumber.trans h.number, hlast.trans h.last, h.paced⟩

theorem Emits.tooSoon_iff (h : Emits r reads s) (now : K) (frame : Option (CapturedFrame ι)) :
    s.tooSoon now = true ↔ TooSoon elapsedSinceLast r.minFrameIntervalS reads ⟨now, frame⟩ := by
  rw [tooSoon, h.last, h.interval, TooSoon]
  cases (yields reads).getLast? <;> simp

/-- A frame that has been read is dropped or yielded as it should be. -/
theorem Emits.gotFrame (h : Emits r reads s) (image : ι) (now : K) (timeMs : Int) :
    Emits r (reads ++ [⟨now, (s.gotFrame image now timeMs).pc.frame⟩])
      (s.gotFrame image now timeMs) := by
  have hiff := h.tooSoon_iff now
  by_cases hsoon : s.tooSoon now = true
  · have hgot : s.gotFrame image now timeMs =
        { s with pc := .head, history := s.history ++ [.read true] } := by
      rw [RtspFrameReader.gotFrame, if_pos hsoon]
    have hsame : yields (reads ++ [⟨now, (s.gotFrame image now timeMs).pc.frame⟩]) =
        yields reads := by
      simp [yields_concat, hgot, ReaderPc.frame]
    rw [hgot] at hsame ⊢
    exact ⟨h.interval, by rw [hsame]; exact h.number, by rw [hsame]; exact h.last,
      h.paced.drop rfl ((hiff _).mp hsoon)⟩
  · have hgot : s.gotFrame image now timeMs = { s with
        lastEmittedAt := some now
        sequenceNumber := s.sequenceNumber + 1
        pc := .yielded ⟨image, s.sequenceNumber + 1, timeMs⟩
        history := s.history ++ [.read true] } := by
      rw [RtspFrameReader.gotFrame, if_neg hsoon]
    have hmore : yields (reads ++ [⟨now, (s.gotFrame image now timeMs).pc.frame⟩]) =
        yields reads ++ [(now, ⟨image, s.sequenceNumber + 1, timeMs⟩)] := by
      simp [yields_concat, hgot, ReaderPc.frame]
    rw [hgot] at hmore ⊢
    refine ⟨h.interval, ?_, by rw [hmore]; simp,
      h.paced.yield rfl (by simp [h.number]) (mt (hiff _).mpr hsoon)⟩
    rw [hmore]
    simp [h.number, Nat.add_assoc]

theorem Emits.step {a : ReaderAction K ι} (h : Emits r reads s) (hstep : step s a = some s') :
    Emits r (reads ++ (s.frameRead a).toList) s' := by
  cases stepped hstep with
  | frame image now timeMs _ => exact h.gotFrame image now timeMs
  | connect opened _ =>
    have hsame : Emits r reads (s.connect opened) := by
      cases opened <;> exact h.same _ rfl rfl rfl
    simpa [frameRead] using hsame
  | reads _ _ => simpa [frameRead] using h.same { s with pc := .reading } rfl rfl rfl
  | connects _ _ => simpa [frameRead] using h.same { s with pc := .connecting } rfl rfl rfl
  | noFrame now timeMs _ => simpa [frameRead] using h.same s.noFrame rfl rfl rfl
  | missing _ _ => simpa [frameRead] using h.same { s with pc := .died } rfl rfl rfl
  | resume _ => simpa [frameRead] using h.same { s with pc := .head } rfl rfl rfl
  | close => simpa [frameRead] using h.same s.close rfl rfl rfl

theorem run_emits (h : Run step r.frames as s) :
    Emits r (observed step frameRead r.frames as) s :=
  h.seen (fun _ _ _ _ he hstep => he.step hstep) (frames_emits r)

/-- `1.0 / fps_cap`. -/
def frameIntervalS (camera : CameraConfig) : K := Rounding.div 1 (Rounding.ofNat camera.fpsCap)

/-- A reader of a camera, as its earlier generators have left it. -/
inductive Used (camera : CameraConfig) : RtspFrameReader K ι → Prop
  | init : Used camera (init camera)
  | frames {r s : RtspFrameReader K ι} {as : List (ReaderAction K ι)} :
      Used camera r → Run step r.frames as s → Used camera s

theorem Used.interval {camera : CameraConfig} (h : Used camera r) :
    r.minFrameIntervalS = frameIntervalS camera := by
  induction h with
  | init => rfl
  | frames _ hrun ih => rw [(run_emits hrun).interval, ih]

section Doubles
variable {K ι : Type} [Field K] [LinearOrder K] [IsStrictOrderedRing K] [FloorRing K]
  {r s : RtspFrameReader K ι} {camera : CameraConfig} {last next : K}

/-- Frames that are apart as doubles tell, are apart but for a rounding of `1 / fps_cap`. -/
theorem apart_of_elapsed (h : frameIntervalS camera ≤ elapsedSinceLast last next) :
    (1 - 1 / 2 ^ 51) / camera.fpsCap ≤ next - last := by
  have hfps : (0 : K) < camera.fpsCap := Nat.cast_pos.mpr camera.fpsPos
  have hcap : (Rounding.ofNat camera.fpsCap : K) ≤ (1 + Rounding.unitRoundoff) * camera.fpsCap :=
    Rounding.round_le hfps.le
  have hpos : (0 : K) < Rounding.ofNat camera.fpsCap := Rounding.round_pos hfps
  have hinterval : (1 - Rounding.unitRoundoff) * (1 / Rounding.ofNat camera.fpsCap) ≤
      elapsedSinceLast last next := (Rounding.le_round (by positivity)).trans h
  have hnonneg : 0 ≤ next - last :=
    Rounding.round_nonneg_iff.mp ((Rounding.round_nonneg_iff.mpr (by positivity)).trans h)
  have hround : elapsedSinceLast last next ≤ (1 + Rounding.unitRoundoff) * (next - last) :=
    Rounding.round_le hnonneg
  rw [mul_one_div, div_le_iff₀ hpos] at hinterval
  have hfirst := mul_le_mul_of_nonneg_right hround hpos.le
  have hsecond := mul_le_mul_of_nonneg_left hcap hnonneg
  rw [div_le_iff₀ hfps]
  simp only [Rounding.unitRoundoff_eq] at *
  linarith

/-- What comes too soon as doubles tell, comes less than `1 / fps_cap` later. -/
theorem soon_of_elapsed (hfps : camera.fpsCap < 2 ^ 53)
    (h : elapsedSinceLast last next < frameIntervalS camera) :
    next - last < 1 / camera.fpsCap := by
  rw [frameIntervalS, Rounding.ofNat_eq hfps] at h
  exact Rounding.round_mono.reflect_lt h

/-- Whatever the source does in between, the frames that one generator yields are
numbered without a gap and keep to the frame rate as doubles measure it, and no frame is
dropped that keeps to it. Doubles measure it but for a relative error of four roundings,
which makes no frame seem too soon. -/
theorem frames_paced (hr : Used camera r) (h : Run step r.frames as s) :
    PacedFrames r.sequenceNumber elapsedSinceLast (frameIntervalS camera)
        (observed step frameRead r.frames as) ∧
      (yields (observed step frameRead r.frames as)).IsChain
        (fun last next => (1 - 1 / 2 ^ 51) / (camera.fpsCap : K) ≤ next.1 - last.1) ∧
      (camera.fpsCap < 2 ^ 53 → ∀ before read after,
        observed step frameRead r.frames as = before ++ read :: after → read.yielded = none →
          TooSoon (fun last now => now - last) (1 / (camera.fpsCap : K)) before read) := by
  have hpaced : PacedFrames r.sequenceNumber elapsedSinceLast (frameIntervalS camera)
      (observed step frameRead r.frames as) := hr.interval ▸ (run_emits h).paced
  refine ⟨hpaced, hpaced.apart.imp (fun _ _ => apart_of_elapsed), ?_⟩
  intro hfps before read after hreads hdropped
  obtain ⟨last, hlast, hsoon⟩ := (hpaced.dropped before read after hreads).mp hdropped
  exact ⟨last, hlast, soon_of_elapsed hfps hsoon⟩

end Doubles

/-- A failed read, a reconnect and a frame that comes too soon, between two frames. -/
def reconnecting : List (ReaderAction ℚ Unit) :=
  [.check, .connect true, .read (some ()) 0 0, .resume, .check, .read none 0 0,
    .check, .connect true, .read (some ()) (1 / 20) 0, .check, .read (some ()) (1 / 8) 0]

theorem frames_paced_reconnecting :
    (∃ s, Run step (init tenFps).frames reconnecting s) ∧
      yields (observed step frameRead (init tenFps).frames reconnecting) =
        [(0, ⟨(), 1, 0⟩), (1 / 8, ⟨(), 2, 0⟩)] ∧
      PacedFrames 0 elapsedSinceLast (frameIntervalS tenFps)
        (observed step frameRead (init tenFps : RtspFrameReader ℚ Unit).frames reconnecting) := by
  obtain ⟨s, hs⟩ : ∃ s, Run step (init tenFps).frames reconnecting s :=
    Option.isSome_iff_exists.mp (by decide +kernel)
  exact ⟨⟨s, hs⟩, by decide +kernel, (frames_paced .init hs).1⟩

def threeFps : CameraConfig := ⟨"cam-1", 3, Nat.succ_pos 2⟩

/-- The double that is nearest to a third, and less. -/
def third : ℚ := 6004799503160661 / 2 ^ 54

/-- Two frames, as far apart as that double tells. -/
def hasty : List (ReaderAction ℚ Unit) :=
  [.check, .connect true, .read (some ()) 0 0, .resume, .check, .read (some ()) third 0]

/-- With no account of roundings the cap is not kept: both frames are yielded, and they are not a
third of a second apart. -/
theorem frames_too_close : ¬ ∀ {as : List (ReaderAction ℚ Unit)} {s},
    Run step (init threeFps).frames as s →
    PacedFrames 0 (fun last now => now - last) (1 / (threeFps.fpsCap : ℚ))
      (observed step frameRead (init threeFps).frames as) := by
  intro h
  obtain ⟨s, hs⟩ : ∃ s, Run step (init threeFps).frames hasty s :=
    Option.isSome_iff_exists.mp (by decide +kernel)
  have hyields : yields (observed step frameRead (init threeFps).frames hasty) =
      [(0, ⟨(), 1, 0⟩), (third, ⟨(), 2, 0⟩)] := by decide +kernel
  have hapart := (h hs).apart
  rw [hyields] at hapart
  norm_num [threeFps, third] at hapart

end RtspFrameReader
end CamTrack
