import CamTrack.FramePublisher
import CamTrack.Proofs.RtspReader

namespace CamTrack
open Machine

namespace FramePublisher
variable {K ι : Type}

/-- The results of the attempts to connect. -/
def attempts (actions : List (PublisherAction K ι)) : List Bool :=
  actions.filterMap (fun a => match a with
    | .reader (.connect opened) => some opened
    | _ => none)

/-- The attempts to connect go as the source has it. -/
def Follows (opens : Nat → Bool) (actions : List (PublisherAction K ι)) : Prop :=
  ∀ i opened, (attempts actions)[i]? = some opened → opens i = opened

variable {s s' m : FramePublisher K ι}

/-- Since `s` no capture has been opened, and no frame read since then has been saved
or published. A frame gets the next number when it has been read. -/
structure Quiet (s s' : FramePublisher K ι) : Prop where
  opened : ∃ since, s'.reader.history = s.reader.history ++ since ∧ .attempted true ∉ since
  saved : ∀ captured ∈ s'.saved, captured.sequenceNumber ≤ s.reader.sequenceNumber
  published : ∀ frame ∈ s'.published, frame.sequenceNumber ≤ s.reader.sequenceNumber

/-- The frames that have been read have numbers up to `n`, and one in the making is
that of the suspended generator. -/
structure Numbered (n : Nat) (s : FramePublisher K ι) : Prop where
  saved : ∀ captured ∈ s.saved, captured.sequenceNumber ≤ n
  published : ∀ frame ∈ s.published, frame.sequenceNumber ≤ n
  yielded : ∀ captured, s.reader.pc = .yielded captured → captured.sequenceNumber ≤ n
  frame : ∀ frame, s.frame = some frame → frame.sequenceNumber ≤ n ∧
    ∃ captured, s.reader.pc = .yielded captured

/-- The loop has no capture and is not about to use one. -/
structure Idle (s : FramePublisher K ι) : Prop where
  capture : s.reader.capture = false
  reading : s.reader.pc ≠ .reading

theorem Numbered.mono {n n' : Nat} (h : Numbered n s) (hn : n ≤ n') : Numbered n' s := by
  refine ⟨fun captured hc => (h.saved captured hc).trans hn, fun frame hf => ?_,
    fun captured hc => (h.yielded captured hc).trans hn, fun frame hf => ?_⟩
  · have := h.published frame hf
    omega
  · obtain ⟨hle, hp⟩ := h.frame frame hf
    exact ⟨by omega, hp⟩

/-- While the generator is not suspended there is no frame in the making. -/
theorem Numbered.frame_none {n : Nat} (h : Numbered n s)
    (hp : ∀ captured, s.reader.pc ≠ .yielded captured) : s.frame = none := by
  cases hf : s.frame with
  | none => rfl
  | some frame =>
    obtain ⟨_, captured, hy⟩ := h.frame frame hf
    exact absurd hy (hp captured)

/-- The generator moves without yielding a frame. -/
theorem Numbered.moved {n : Nat} (h : Numbered n s) {reader : RtspFrameReader K ι}
    (hp : ∀ captured, s.reader.pc ≠ .yielded captured)
    (hp' : ∀ captured, reader.pc ≠ .yielded captured) :
    Numbered n { s with reader := reader } := by
  refine ⟨h.saved, h.published, fun captured hy => absurd hy (hp' captured), fun frame hf => ?_⟩
  have hnone : s.frame = none := h.frame_none hp
  rw [hnone] at hf
  cases hf

theorem Numbered.save {n : Nat} (h : Numbered n s) {captured : CapturedFrame ι}
    (hp : s.reader.pc = .yielded captured) (frameId frameUri : String) :
    Numbered n { s with
      frame := some (s.rawFrame captured frameId frameUri)
      saved := s.saved ++ [captured] } := by
  refine ⟨fun other ho => ?_, h.published, h.yielded, fun frame hf => ?_⟩
  · rcases List.mem_append.mp ho with ho | ho
    · exact h.saved other ho
    · rw [List.mem_singleton.mp ho]
      exact h.yielded captured hp
  · cases hf
    exact ⟨Int.ofNat_le.mpr (h.yielded captured hp), captured, hp⟩

theorem Numbered.publish {n : Nat} (h : Numbered n s) {frame : RawFrame}
    (hf : s.frame = some frame) :
    Numbered n { s with
      reader := { s.reader with pc := .head }
      frame := none
      published := s.published ++ [frame] } := by
  refine ⟨h.saved, fun other ho => ?_, fun _ hy => (nomatch hy), fun _ hn => (nomatch hn)⟩
  rcases List.mem_append.mp ho with ho | ho
  · exact h.published other ho
  · rw [List.mem_singleton.mp ho]
    exact (h.frame frame hf).1

/-- From a stop on, a loop that has opened no capture again. -/
structure Stays (s m : FramePublisher K ι) : Prop where
  idle : Idle m
  numbered : Numbered s.reader.sequenceNumber m
  opened : ∃ since, m.reader.history = s.reader.history ++ since ∧ .attempted true ∉ since

theorem Stays.quiet (h : Stays s m) : Quiet s m :=
  ⟨h.opened, h.numbered.saved, h.numbered.published⟩

theorem stop_stays (h : Numbered s.reader.sequenceNumber s) (hp : s.reader.pc ≠ .reading) :
    Stays s s.stop :=
  ⟨⟨rfl, hp⟩, ⟨h.saved, h.published, h.yielded, h.frame⟩, [], (List.append_nil _).symm, by simp⟩

variable [Field K] [LinearOrder K] [Rounding K]

/-- What each action does, with the place the loop must be in. -/
inductive Stepped (s : FramePublisher K ι) : PublisherAction K ι → FramePublisher K ι → Prop where
  | reader {a : ReaderAction K ι} {reader : RtspFrameReader K ι} : s.reader.Stepped a reader →
      a ≠ .resume → a ≠ .close → Stepped s (.reader a) { s with reader := reader }
  | save {captured : CapturedFrame ι} (frameId frameUri : String) :
      s.reader.pc = .yielded captured → s.frame = none → Stepped s (.save frameId frameUri)
        { s with
          frame := some (s.rawFrame captured frameId frameUri)
          saved := s.saved ++ [captured] }
  | publish {captured : CapturedFrame ι} (frame : RawFrame) : s.reader.pc = .yielded captured →
      s.frame = some frame → Stepped s .publish
        { s with
          reader := { s.reader with pc := .head }
          frame := none
          published := s.published ++ [frame] }
  | stop : Stepped s .stop s.stop

theorem stepped (h : step s a = some s') : Stepped s a s' := by
  cases a with
  | reader a =>
    cases a with
    | resume => cases h
    | close => cases h
    | check =>
      obtain ⟨reader, hr, rfl⟩ := Option.map_eq_some_iff.mp h
      exact .reader (RtspFrameReader.stepped hr) (by simp) (by simp)
    | connect opened =>
      obtain ⟨reader, hr, rfl⟩ := Option.map_eq_some_iff.mp h
      exact .reader (RtspFrameReader.stepped hr) (by simp) (by simp)
    | read outcome now timeMs =>
      obtain ⟨reader, hr, rfl⟩ := Option.map_eq_some_iff.mp h
      exact .reader (RtspFrameReader.stepped hr) (by simp) (by simp)
    | missing =>
      obtain ⟨reader, hr, rfl⟩ := Option.map_eq_some_iff.mp h
      exact .reader (RtspFrameReader.stepped hr) (by simp) (by simp)
  | save frameId frameUri =>
    cases hp : s.reader.pc with
    | yielded captured =>
      cases hf : s.frame with
      | none =>
        simp only [step, hp, hf] at h
        cases h
        exact .save frameId frameUri hp hf
      | some frame => simp [step, hp, hf] at h
    | _ => simp [step, hp] at h
  | publish =>
    cases hf : s.frame with
    | none => simp [step, hf] at h
    | some frame =>
      simp only [step, hf] at h
      obtain ⟨reader, hr, rfl⟩ := Option.map_eq_some_iff.mp h
      cases RtspFrameReader.stepped hr with
      | resume hp => exact .publish frame hp hf
  | stop =>
    cases h
    exact .stop

omit [LinearOrder K] in
theorem start_numbered (camera : CameraConfig) :
    Numbered 0 (start camera : FramePublisher K ι) :=
  ⟨fun _ h => (nomatch h), fun _ h => (nomatch h), fun _ h => (nomatch h), fun _ h => (nomatch h)⟩

theorem gotFrame_numbered (h : Numbered s.reader.sequenceNumber s) (hp : s.reader.pc = .reading)
    (image : ι) (now : K) (timeMs : Int) :
    Numbered (s.reader.gotFrame image now timeMs).sequenceNumber
      { s with reader := s.reader.gotFrame image now timeMs } := by
  have hnone : s.frame = none := h.frame_none (by simp [hp])
  unfold RtspFrameReader.gotFrame
  split
  · exact h.moved (by simp [hp]) (fun _ hy => (nomatch hy))
  · obtain ⟨hs, hpub, _, _⟩ := h.mono (Nat.le_succ _)
    refine ⟨hs, hpub, fun captured hy => ?_, fun frame hf => ?_⟩
    · cases hy
      exact le_rfl
    · change s.frame = some frame at hf
      rw [hnone] at hf
      cases hf

theorem Numbered.step (h : Numbered s.reader.sequenceNumber s) (hstep : step s a = some s') :
    Numbered s'.reader.sequenceNumber s' := by
  cases stepped hstep with
  | reader hr hresume hclose =>
    cases hr with
    | reads hp _ => exact h.moved (by simp [hp]) (by simp)
    | connects hp _ => exact h.moved (by simp [hp]) (by simp)
    | connect opened hp =>
      cases opened with
      | true => exact h.moved (by simp [hp]) (by simp [RtspFrameReader.connect])
      | false => exact h.moved (by simp [hp]) (by simp [RtspFrameReader.connect])
    | frame image now timeMs hp => exact gotFrame_numbered h hp image now timeMs
    | noFrame now timeMs hp =>
      refine h.moved (by simp [hp]) (fun captured hy => ?_)
      simp only [RtspFrameReader.noFrame] at hy
      split at hy <;> cases hy
    | missing hp _ => exact h.moved (by simp [hp]) (by simp)
    | resume _ => exact absurd rfl hresume
    | close => exact absurd rfl hclose
  | save frameId frameUri hp _ => exact h.save hp frameId frameUri
  | publish frame _ hf => exact h.publish hf
  | stop => exact ⟨h.saved, h.published, h.yielded, h.frame⟩

/-- As long as the source cannot be opened, a stopped loop stays as it is. -/
theorem Stays.step (h : Stays s m) (hstep : step m a = some m')
    (hrefused : ∀ opened, m.reader.pc = .connecting → a = .reader (.connect opened) →
      opened = false) : Stays s m' := by
  obtain ⟨since, hhist, hnone⟩ := h.opened
  cases stepped hstep with
  | reader hr hresume hclose =>
    cases hr with
    | reads _ hc =>
      have hcap := h.idle.capture
      rw [hc] at hcap
      cases hcap
    | connects hp hc =>
      exact ⟨⟨hc, by simp⟩, h.numbered.moved (by simp [hp]) (by simp), since, hhist, hnone⟩
    | connect opened hp =>
      obtain rfl := hrefused opened hp rfl
      refine ⟨⟨h.idle.capture, by simp [RtspFrameReader.connect]⟩,
        h.numbered.moved (by simp [hp]) (by simp [RtspFrameReader.connect]),
        since ++ [.attempted false, .slept (backoffDelay m.reader.reconnectAttempt)], ?_, ?_⟩
      · rw [← List.append_assoc, ← hhist]
        rfl
      · simpa using hnone
    | frame image now timeMs hp => exact absurd hp h.idle.reading
    | noFrame now timeMs hp => exact absurd hp h.idle.reading
    | missing hp _ => exact absurd hp h.idle.reading
    | resume _ => exact absurd rfl hresume
    | close => exact absurd rfl hclose
  | save frameId frameUri hp _ =>
    exact ⟨⟨h.idle.capture, h.idle.reading⟩, h.numbered.save hp frameId frameUri, since, hhist,
      hnone⟩
  | publish frame _ hf =>
    exact ⟨⟨h.idle.capture, by simp⟩, h.numbered.publish hf, since, hhist, hnone⟩
  | stop =>
    have hn := h.numbered
    exact ⟨⟨rfl, h.idle.reading⟩, ⟨hn.saved, hn.published, hn.yielded, hn.frame⟩, since, hhist,
      hnone⟩

theorem Stays.run_refused (h : Stays s m) (hrun : Run FramePublisher.step m actions m')
    (hrefused : ∀ opened ∈ attempts actions, opened = false) : Stays s m' := by
  induction actions generalizing m with
  | nil =>
    obtain rfl := run_nil.mp hrun
    exact h
  | cons a actions ih =>
    obtain ⟨t, ht, hr⟩ := run_cons.mp hrun
    have hsplit : attempts (a :: actions) = attempts [a] ++ attempts actions := by
      rw [attempts, attempts, attempts, ← List.filterMap_append]
      rfl
    refine ih (h.step ht (fun opened _ ha => hrefused opened ?_)) hr
      (fun opened ho => hrefused opened ?_)
    · rw [hsplit, ha]
      exact List.mem_append_left _ List.mem_cons_self
    · rw [hsplit]
      exact List.mem_append_right _ ho

theorem Stays.run_died (h : Stays s m) (hd : m.reader.pc = .died)
    (hrun : Run FramePublisher.step m actions m') : Stays s m' := by
  have hkeep : Stays s m' ∧ m'.reader.pc = .died := by
    refine hrun.invariant (P := fun t => Stays s t ∧ t.reader.pc = .died) ?_ ⟨h, hd⟩
    intro t a t' ht hstep
    refine ⟨ht.1.step hstep (fun opened hp _ => by rw [ht.2] at hp; cases hp), ?_⟩
    cases stepped hstep with
    | reader hr _ _ => exact hr.stays_died ht.2
    | save _ _ _ _ => exact ht.2
    | publish _ hp _ => rw [ht.2] at hp; cases hp
    | stop => exact ht.2
  exact hkeep.1

/-- Attempts that are all refused, from one to the next. -/
def refusals (n : Nat) : List (PublisherAction K ι) :=
  (List.replicate n [.reader (.connect false), .reader .check]).flatten

omit [Field K] [LinearOrder K] [Rounding K] in
theorem attempts_refusals (n : Nat) :
    attempts (refusals n : List (PublisherAction K ι)) = List.replicate n false := by
  induction n with
  | zero => rfl
  | succ n ih =>
    rw [List.replicate_succ, ← ih]
    rfl

theorem refusals_run (n : Nat) (hp : m.reader.pc = .connecting) (hc : m.reader.capture = false) :
    ∃ m', Run FramePublisher.step m (refusals n) m' ∧ m'.reader.pc = .connecting ∧
      m'.reader.capture = false := by
  induction n generalizing m with
  | zero => exact ⟨m, run_nil.mpr rfl, hp, hc⟩
  | succ n ih =>
    let refused : FramePublisher K ι := { m with reader := m.reader.connect false }
    let next : FramePublisher K ι :=
      { refused with reader := { refused.reader with pc := .connecting } }
    have hconnect : FramePublisher.step m (.reader (.connect false)) = some refused := by
      simp [FramePublisher.step, RtspFrameReader.step, hp, refused]
    have hcheck : FramePublisher.step refused (.reader .check) = some next := by
      simp [FramePublisher.step, RtspFrameReader.step, refused, next, RtspFrameReader.connect, hc]
    obtain ⟨m', hrun, hend⟩ := ih (m := next) rfl hc
    exact ⟨m', run_cons.mpr ⟨refused, hconnect, run_cons.mpr ⟨next, hcheck, hrun⟩⟩, hend⟩

/-- A stopped loop that is alive comes to connect again. -/
theorem reconnects (hi : Idle m) (hd : m.reader.pc ≠ .died) :
    ∃ actions m', Run FramePublisher.step m actions m' ∧ attempts actions = [] ∧
      m'.reader.pc = .connecting ∧ m'.reader.capture = false := by
  have hhead : ∀ t : FramePublisher K ι, t.reader.pc = .head → t.reader.capture = false →
      FramePublisher.step t (.reader .check) =
        some { t with reader := { t.reader with pc := .connecting } } := by
    intro t hp hc
    simp [FramePublisher.step, RtspFrameReader.step, hp, hc]
  have hpublish : ∀ (t : FramePublisher K ι) captured frame, t.reader.pc = .yielded captured →
      t.frame = some frame → t.reader.capture = false →
      ∃ t', Run FramePublisher.step t [.publish, .reader .check] t' ∧
        t'.reader.pc = .connecting ∧ t'.reader.capture = false := by
    intro t captured frame hp hf hc
    let next : FramePublisher K ι :=
      { t with
        reader := { t.reader with pc := .head }, frame := none
        published := t.published ++ [frame] }
    have hstep : FramePublisher.step t .publish = some next := by
      simp [FramePublisher.step, RtspFrameReader.step, hp, hf, next]
    exact ⟨_, run_cons.mpr ⟨next, hstep, run_singleton.mpr (hhead next rfl hc)⟩, rfl, hc⟩
  have hc := hi.capture
  cases hp : m.reader.pc with
  | head => exact ⟨[.reader .check], _, run_singleton.mpr (hhead m hp hc), rfl, rfl, hc⟩
  | connecting => exact ⟨[], m, run_nil.mpr rfl, rfl, hp, hc⟩
  | reading => exact absurd hp hi.reading
  | died => exact absurd hp hd
  | yielded captured =>
    cases hf : m.frame with
    | some frame =>
      obtain ⟨t, hrun, hend⟩ := hpublish m captured frame hp hf hc
      exact ⟨_, t, hrun, rfl, hend⟩
    | none =>
      let saved : FramePublisher K ι :=
        { m with frame := some (m.rawFrame captured "" ""), saved := m.saved ++ [captured] }
      have hstep : FramePublisher.step m (.save "" "") = some saved := by
        simp [FramePublisher.step, hp, hf, saved]
      obtain ⟨t, hrun, hend⟩ := hpublish saved captured _ hp rfl hc
      exact ⟨_, t, run_cons.mpr ⟨saved, hstep, hrun⟩, rfl, hend⟩

theorem history_prefix (h : Run FramePublisher.step s actions s') :
    s.reader.history <+: s'.reader.history := by
  refine h.related
    (R := fun (s s' : FramePublisher K ι) => s.reader.history <+: s'.reader.history)
    (fun _ => List.prefix_refl _) (fun _ _ _ hab hbc => List.IsPrefix.trans hab hbc) ?_
  intro t a t' hstep
  cases stepped hstep with
  | reader hr _ _ => exact hr.history_prefix
  | save _ _ _ _ => exact List.prefix_refl _
  | publish _ _ _ => exact List.prefix_refl _
  | stop => exact List.prefix_refl _

omit [Field K] [LinearOrder K] [Rounding K] in
/-- The attempts of a loop whose source is shut, and then opens. -/
theorem follows_opening {opens : Nat → Bool} {n : Nat} (hopen : opens n = true)
    (hshut : ∀ i < n, opens i = false) {actions : List (PublisherAction K ι)}
    (ha : attempts actions = List.replicate n false ++ [true]) : Follows opens actions := by
  intro i opened hi
  rw [ha] at hi
  rcases Nat.lt_or_ge i n with hlt | hge
  · rw [List.getElem?_append_left (by simpa using hlt), List.getElem?_replicate, if_pos hlt] at hi
    rw [hshut i hlt]
    exact Option.some.inj hi
  · rw [List.getElem?_append_right (by simpa using hge), List.length_replicate] at hi
    have hz : i - n = 0 := by
      by_contra hne
      obtain ⟨j, hj⟩ := Nat.exists_eq_succ_of_ne_zero hne
      rw [hj] at hi
      cases hi
    rw [hz] at hi
    rw [show i = n by omega, hopen]
    exact Option.some.inj hi

/-- A stopped loop that is alive opens its source when the source lets it. -/
theorem opens_again {opens : Nat → Bool} {n : Nat} (hi : Idle m) (hd : m.reader.pc ≠ .died)
    (hopen : opens n = true) (hshut : ∀ i < n, opens i = false) :
    ∃ actions m' before, Run FramePublisher.step m actions m' ∧ Follows opens actions ∧
      m.reader.history <+: before ∧ m'.reader.history = before ++ [.attempted true] := by
  obtain ⟨actions, t, hrun, hnone, hp, hc⟩ := reconnects hi hd
  obtain ⟨u, hrefused, hpu, _⟩ := refusals_run n hp hc
  have hconnect : FramePublisher.step u (.reader (.connect true)) =
      some { u with reader := u.reader.connect true } := by
    simp [FramePublisher.step, RtspFrameReader.step, hpu]
  have hall := run_append.mpr ⟨t, hrun, hrefused⟩
  refine ⟨(actions ++ refusals n) ++ [.reader (.connect true)], _, u.reader.history,
    run_append.mpr ⟨u, hall, run_singleton.mpr hconnect⟩, ?_, history_prefix hall, rfl⟩
  apply follows_opening hopen hshut
  rw [attempts, List.filterMap_append, List.filterMap_append]
  change (attempts actions ++ attempts (refusals n)) ++ [true] = _
  rw [hnone, attempts_refusals, List.nil_append]

omit [Field K] [LinearOrder K] [Rounding K] in
theorem follows_refused {opens : Nat → Bool} (hshut : ∀ i, opens i = false)
    {actions : List (PublisherAction K ι)} (h : Follows opens actions) :
    ∀ opened ∈ attempts actions, opened = false := by
  intro opened ho
  obtain ⟨i, hi⟩ := List.mem_iff_getElem?.mp ho
  rw [← h i opened hi, hshut i]

/-- A stop between two frames stops the loop for good exactly when the loop has ended
before or its source cannot be opened any more. -/
theorem stop_quiet_iff {camera : CameraConfig}
    (h : Run FramePublisher.step (start camera : FramePublisher K ι) before s)
    (hbetween : s.reader.pc ≠ .reading) (opens : Nat → Bool) :
    (∀ after s', Run FramePublisher.step s (.stop :: after) s' → Follows opens after → Quiet s s') ↔
      s.reader.pc = .died ∨ ∀ i, opens i = false := by
  have hnumbered : Numbered s.reader.sequenceNumber s :=
    h.invariant (P := fun s => Numbered s.reader.sequenceNumber s)
      (fun _ _ _ hm hstep => hm.step hstep) (start_numbered camera)
  have hstays := stop_stays hnumbered hbetween
  constructor
  · intro hquiet
    by_contra hnot
    push Not at hnot
    obtain ⟨halive, hexists⟩ := hnot
    obtain ⟨hopen, hshut⟩ : opens (Nat.find hexists) ≠ false ∧
        ∀ i < Nat.find hexists, opens i = false :=
      ⟨Nat.find_spec hexists, fun i hi => by simpa using Nat.find_min hexists hi⟩
    obtain ⟨after, s', earlier, hrun, hfollows, ⟨since, hsince⟩, hhist⟩ :=
      opens_again hstays.idle halive (by simpa using hopen) hshut
    obtain ⟨later, hlater, hnone⟩ :=
      (hquiet after s' (run_cons.mpr ⟨s.stop, rfl, hrun⟩) hfollows).opened
    rw [hhist, ← hsince, List.append_assoc] at hlater
    apply hnone
    rw [← List.append_cancel_left hlater]
    exact List.mem_append_right _ List.mem_cons_self
  · intro hcond after s' hrun hfollows
    obtain ⟨m, hm, hafter⟩ := run_cons.mp hrun
    cases hm
    rcases hcond with hdied | hshut
    · exact (hstays.run_died hdied hafter).quiet
    · exact (hstays.run_refused hafter (follows_refused hshut hfollows)).quiet

section Runs

/-- A camera whose only frame so far has been published. -/
def oneFrame : FramePublisher ℚ Unit :=
  { (start tenFps : FramePublisher ℚ Unit) with
    reader :=
      { (RtspFrameReader.init tenFps : RtspFrameReader ℚ Unit) with
        capture := true, sequenceNumber := 1, lastEmittedAt := some 0
        history := [.attempted true, .read true] }
    saved := [⟨(), 1, 0⟩]
    published := [⟨"f1", "cam-1", "file://f1.jpg", 1⟩] }

theorem oneFrame_run : Run FramePublisher.step (start tenFps : FramePublisher ℚ Unit)
    [.reader .check, .reader (.connect true), .reader (.read (some ()) 0 0),
      .save "f1" "file://f1.jpg", .publish] oneFrame := rfl

/-- A stopped publisher opens its camera again, and publishes the next frame. -/
theorem stopped_publisher_goes_on :
    ¬ ∀ (before after : List (PublisherAction ℚ Unit)) s s',
      Run FramePublisher.step (start tenFps) before s → s.reader.pc ≠ .reading →
      Run FramePublisher.step s (.stop :: after) s' → Quiet s s' := by
  intro h
  let later : FramePublisher ℚ Unit :=
    { oneFrame with
      reader :=
        { oneFrame.reader with
          sequenceNumber := 2, lastEmittedAt := some 1
          history := [.attempted true, .read true, .attempted true, .read true] }
      saved := [⟨(), 1, 0⟩, ⟨(), 2, 1000⟩]
      published := [⟨"f1", "cam-1", "file://f1.jpg", 1⟩, ⟨"f2", "cam-1", "file://f2.jpg", 2⟩] }
  have hrun : Run FramePublisher.step oneFrame
      [.stop, .reader .check, .reader (.connect true), .reader (.read (some ()) 1 1000),
        .save "f2" "file://f2.jpg", .publish] later := by
    unfold Run
    decide +kernel
  have hquiet := h _ _ oneFrame later oneFrame_run (by decide) hrun
  have hold := hquiet.published ⟨"f2", "cam-1", "file://f2.jpg", 2⟩ (by simp [later])
  exact absurd hold (by decide)

/-- With a camera that is gone for good the stop is final: the loop knocks in vain. -/
theorem stopped_publisher_gone_camera :
    ∃ s', Run FramePublisher.step oneFrame
      [.stop, .reader .check, .reader (.connect false), .reader .check,
        .reader (.connect false)] s' ∧ Quiet oneFrame s' := by
  let refused : FramePublisher ℚ Unit :=
    { oneFrame with
      reader :=
        { oneFrame.reader with
          capture := false, reconnectAttempt := 2
          history := [.attempted true, .read true, .attempted false, .slept 2,
            .attempted false, .slept 4] } }
  have hrun : Run FramePublisher.step oneFrame
      [.stop, .reader .check, .reader (.connect false), .reader .check,
        .reader (.connect false)] refused := rfl
  have hquiet := (stop_quiet_iff oneFrame_run (by decide) (fun _ => false)).mpr
    (.inr (fun _ => rfl))
  refine ⟨refused, hrun, hquiet _ refused hrun ?_⟩
  intro i opened ho
  have hmem : opened ∈ [false, false] := List.mem_of_getElem? ho
  simpa [eq_comm] using hmem

end Runs

end FramePublisher
end CamTrack
