import CamTrack.Lib.Streak
import CamTrack.Proofs.RtspReader

namespace CamTrack
open Machine Streak TimeoutConstants

/-- The sleeps of a history, in order. -/
def sleeps (history : List ReaderEvent) : List Nat :=
  history.filterMap (fun e => match e with
    | .slept seconds => some seconds
    | _ => none)

theorem mem_sleeps : d ∈ sleeps history ↔ .slept d ∈ history := by
  rw [sleeps, List.mem_filterMap]
  constructor
  · intro h
    obtain ⟨e, he, hd⟩ := h
    cases e with
    | slept seconds =>
      cases hd
      exact he
    | attempted _ => cases hd
    | read _ => cases hd
  · exact fun h => ⟨.slept d, h, rfl⟩

/-- Attempts without a frame between them are kept apart by a sleep, and the sleeps
do not get shorter before there is a frame, nor ever too long. -/
structure NeverSpins (history : List ReaderEvent) : Prop where
  spaced : ∀ before between after b b',
    history = (before ++ .attempted b :: between) ++ .attempted b' :: after →
    (∀ b'', .attempted b'' ∉ between) → .read true ∉ between →
    ∃ d, .slept d ∈ between ∧ rtspReconnectBackoffBaseSeconds ≤ d
  growing : ∀ before stretch after, history = (before ++ stretch) ++ after →
    .read true ∉ stretch → (sleeps stretch).Pairwise (· ≤ ·)
  capped : ∀ d ∈ sleeps history, d ≤ rtspReconnectBackoffMaxSeconds

theorem neverSpins_nil : NeverSpins [] := by
  refine ⟨fun _ _ _ _ _ h => ?_, fun _ _ _ h _ => ?_, by simp [sleeps]⟩
  · simp at h
  · simp only [List.nil_eq, List.append_eq_nil_iff] at h
    simp [h.1.2, sleeps]

/-- Since the last attempt there has been a frame or a sleep. -/
def Rested (history : List ReaderEvent) : Prop :=
  ∀ before between b, history = before ++ .attempted b :: between →
    (∀ b', .attempted b' ∉ between) → .read true ∉ between →
    ∃ d, .slept d ∈ between ∧ rtspReconnectBackoffBaseSeconds ≤ d

/-- No sleep since the last frame was longer. -/
def Below (limit : Nat) (history : List ReaderEvent) : Prop :=
  ∀ before stretch, history = before ++ stretch → .read true ∉ stretch →
    ∀ d ∈ sleeps stretch, d ≤ limit

section Concat
variable {history : List ReaderEvent} {e : ReaderEvent}

/-- What a further event must meet for the whole to be as before. -/
theorem NeverSpins.concat (h : NeverSpins history)
    (hattempt : ∀ b, e = .attempted b → Rested history)
    (hsleep : ∀ d, e = .slept d → Below d history ∧ d ≤ rtspReconnectBackoffMaxSeconds) :
    NeverSpins (history ++ [e]) := by
  refine ⟨?_, ?_, ?_⟩
  · intro before between after b b' heq hnone hread
    rcases concat_eq_append_cons heq with ⟨hpre, he, _⟩ | ⟨ws, _, hpre⟩
    · exact hattempt b' he before between b hpre hnone hread
    · exact h.spaced before between ws b b' hpre hnone hread
  · intro before stretch after heq hread
    rcases suffix_concat heq with rfl | ⟨ws, rfl, hpre⟩
    · rw [List.append_nil] at heq
      rcases suffix_concat heq with rfl | ⟨ws, rfl, hpre⟩
      · exact List.Pairwise.nil
      · have hold : .read true ∉ ws := fun hw => hread (List.mem_append_left _ hw)
        have hgrow := h.growing before ws [] (by rw [hpre, List.append_nil]) hold
        cases e with
        | slept d =>
          rw [sleeps, List.filterMap_append]
          refine List.pairwise_append.mpr ⟨hgrow, by simp, ?_⟩
          intro d₁ hd₁ d₂ hd₂
          obtain rfl : d₂ = d := by simpa using hd₂
          exact (hsleep d₂ rfl).1 before ws hpre hold d₁ hd₁
        | attempted _ => simpa [sleeps] using hgrow
        | read _ => simpa [sleeps] using hgrow
    · exact h.growing before stretch ws hpre hread
  · intro d hd
    rcases List.mem_append.mp (mem_sleeps.mp hd) with hd | hd
    · exact h.capped d (mem_sleeps.mpr hd)
    · exact (hsleep d (List.mem_singleton.mp hd).symm).2

theorem rested_concat (h : Rested history) (he : ∀ b, e ≠ .attempted b) :
    Rested (history ++ [e]) := by
  intro before between b heq hnone hread
  rcases concat_eq_append_cons heq with ⟨_, hb, _⟩ | ⟨ws, rfl, hpre⟩
  · exact absurd hb (he b)
  · obtain ⟨d, hd, hle⟩ := h before ws b hpre
      (fun b' hb' => hnone b' (List.mem_append_left _ hb'))
      (fun hr => hread (List.mem_append_left _ hr))
    exact ⟨d, List.mem_append_left _ hd, hle⟩

/-- A frame or a long enough sleep is a rest by itself. -/
theorem rested_after (he : e = .read true ∨
    ∃ d, e = .slept d ∧ rtspReconnectBackoffBaseSeconds ≤ d) : Rested (history ++ [e]) := by
  intro before between b heq hnone hread
  rcases concat_eq_append_cons heq with ⟨_, rfl, _⟩ | ⟨ws, rfl, _⟩
  · rcases he with he | ⟨d, he, _⟩ <;> cases he
  · rcases he with rfl | ⟨d, rfl, hle⟩
    · exact absurd (List.mem_append_right ws List.mem_cons_self) hread
    · exact ⟨d, List.mem_append_right ws List.mem_cons_self, hle⟩

theorem below_concat (h : Below limit history) (he : ∀ d, e = .slept d → d ≤ limit) :
    Below limit (history ++ [e]) := by
  intro before stretch heq hread d hd
  rcases suffix_concat heq with rfl | ⟨ws, rfl, hpre⟩
  · simp [sleeps] at hd
  · rcases List.mem_append.mp (mem_sleeps.mp hd) with hw | hw
    · exact h before ws hpre (fun hr => hread (List.mem_append_left _ hr)) d (mem_sleeps.mpr hw)
    · exact he d (List.mem_singleton.mp hw).symm

theorem below_frame (limit : Nat) (history : List ReaderEvent) :
    Below limit (history ++ [.read true]) := by
  intro before stretch heq hread d hd
  rcases suffix_concat heq with rfl | ⟨ws, rfl, _⟩
  · simp [sleeps] at hd
  · exact absurd (List.mem_append_right ws List.mem_cons_self) hread

theorem Below.mono (h : Below m history) (hmn : m ≤ n) : Below n history :=
  fun before stretch heq hread d hd => (h before stretch heq hread d hd).trans hmn

end Concat

theorem base_le_backoffDelay (n : Nat) : rtspReconnectBackoffBaseSeconds ≤ backoffDelay n := by
  have hpow := Nat.one_le_two_pow (n := n)
  unfold backoffDelay rtspReconnectBackoffBaseSeconds rtspReconnectBackoffMaxSeconds
  omega

theorem backoffDelay_le_max (n : Nat) : backoffDelay n ≤ rtspReconnectBackoffMaxSeconds :=
  Nat.min_le_right _ _

theorem backoffDelay_mono (n : Nat) : backoffDelay n ≤ backoffDelay (n + 1) := by
  have hpow : 2 ^ n ≤ 2 ^ (n + 1) := Nat.pow_le_pow_right (by decide) (Nat.le_succ n)
  exact min_le_min_right _ (Nat.mul_le_mul_left _ hpow)

/-- What the source has answered. -/
def outcomes {K ι : Type} (actions : List (ReaderAction K ι)) : List ReaderEvent :=
  actions.filterMap (fun a => match a with
    | .connect opened => some (.attempted opened)
    | .read outcome _ _ => some (.read outcome.isSome)
    | _ => none)

/-- Somewhere the source opens, its first read fails, and it is opened again. -/
def OpensSilently (history : List ReaderEvent) : Prop :=
  ∃ opened, [.attempted true, .read false, .attempted opened] <:+: history

/-- A history without its sleeps. -/
def heard (history : List ReaderEvent) : List ReaderEvent :=
  history.filter (fun e => match e with
    | .slept _ => false
    | _ => true)

section Histories
variable {history : List ReaderEvent}

/-- Another attempt may be made, and the delay after it is not too short. -/
structure Ready (history : List ReaderEvent) (reconnectAttempt : Nat) : Prop where
  rested : Rested history
  below : Below (backoffDelay reconnectAttempt) history

/-- The source has opened and the first read has failed. -/
def Silent (history : List ReaderEvent) : Prop :=
  ∃ before, history = before ++ [.attempted true, .read false]

theorem NeverSpins.read (h : NeverSpins history) (ok : Bool) :
    NeverSpins (history ++ [.read ok]) :=
  h.concat (fun _ he => (nomatch he)) (fun _ he => (nomatch he))

theorem Ready.opened (h : Ready history n) (hn : NeverSpins history) :
    NeverSpins (history ++ [.attempted true]) :=
  hn.concat (fun _ _ => h.rested) (fun _ he => (nomatch he))

theorem Ready.frame (history : List ReaderEvent) (n : Nat) : Ready (history ++ [.read true]) n :=
  ⟨rested_after (.inl rfl), below_frame _ _⟩

theorem Ready.noFrame (h : Ready history n) : Ready (history ++ [.read false]) n :=
  ⟨rested_concat h.rested (fun _ he => (nomatch he)),
    below_concat h.below (fun _ he => (nomatch he))⟩

/-- A refused attempt, with the sleep after it. -/
theorem Ready.refused (h : Ready history n) (hn : NeverSpins history) :
    NeverSpins (history ++ [.attempted false, .slept (backoffDelay n)]) ∧
      Ready (history ++ [.attempted false, .slept (backoffDelay n)]) (n + 1) := by
  have hattempted : NeverSpins (history ++ [.attempted false]) :=
    hn.concat (fun _ _ => h.rested) (fun _ he => (nomatch he))
  have hbelow : Below (backoffDelay n) (history ++ [.attempted false]) :=
    below_concat h.below (fun _ he => (nomatch he))
  rw [List.append_cons]
  refine ⟨?_, rested_after (.inr ⟨_, rfl, base_le_backoffDelay n⟩), ?_⟩
  · apply hattempted.concat (fun _ he => by cases he)
    intro d he
    cases he
    exact ⟨hbelow, backoffDelay_le_max n⟩
  · apply below_concat (hbelow.mono (backoffDelay_mono n))
    intro d he
    cases he
    exact backoffDelay_mono n

theorem OpensSilently.append (h : OpensSilently history) (rest : List ReaderEvent) :
    OpensSilently (history ++ rest) := by
  obtain ⟨opened, hin⟩ := h
  exact ⟨opened, hin.trans (List.prefix_append _ _).isInfix⟩

/-- Every sleep comes right after a refused attempt. -/
def SleepsRefused (history : List ReaderEvent) : Prop :=
  ∀ before d after, history = before ++ .slept d :: after →
    ∃ earlier, before = earlier ++ [.attempted false]

theorem SleepsRefused.concat (h : SleepsRefused history) {e : ReaderEvent}
    (he : ∀ d, e = .slept d → ∃ earlier, history = earlier ++ [.attempted false]) :
    SleepsRefused (history ++ [e]) := by
  intro before d after heq
  rcases concat_eq_append_cons heq with ⟨rfl, hd, _⟩ | ⟨ws, _, hpre⟩
  · exact he d hd
  · exact h before d ws hpre

theorem SleepsRefused.refused (h : SleepsRefused history) (d : Nat) :
    SleepsRefused (history ++ [.attempted false, .slept d]) := by
  rw [List.append_cons]
  exact (h.concat (fun _ he => by cases he)).concat (fun _ _ => ⟨history, rfl⟩)

/-- What directly follows in what is heard directly follows in the history, unless
a sleep after a refused attempt is between. -/
theorem SleepsRefused.next (h : SleepsRefused history) {before rest : List ReaderEvent}
    {e e' : ReaderEvent} (he : e ≠ .attempted false) (heq : history = before ++ e :: rest)
    (hrest : heard rest = e' :: later) :
    ∃ rest', rest = e' :: rest' ∧ heard rest' = later := by
  obtain ⟨skipped, rest', rfl, hskip, _, hlater⟩ := List.filter_eq_cons_iff.mp hrest
  cases skipped with
  | nil => exact ⟨rest', rfl, hlater⟩
  | cons first skipped =>
    cases first with
    | slept d =>
      obtain ⟨earlier, hearlier⟩ := h (before ++ [e]) d (skipped ++ e' :: rest') (by
        rw [heq]
        simp)
      obtain ⟨-, hlast⟩ := List.append_inj' hearlier rfl
      exact absurd (List.singleton_inj.mp hlast) he
    | attempted opened => exact absurd rfl (hskip _ List.mem_cons_self)
    | read ok => exact absurd rfl (hskip _ List.mem_cons_self)

theorem SleepsRefused.opensSilently (h : SleepsRefused history)
    (hs : OpensSilently (heard history)) : OpensSilently history := by
  obtain ⟨opened, before, after, he⟩ := hs
  rw [List.append_assoc] at he
  obtain ⟨start, rest, hsplit, _, hrest⟩ := List.filter_eq_append_iff.mp he.symm
  obtain ⟨skipped, rest₁, rfl, _, _, h₁⟩ := List.filter_eq_cons_iff.mp hrest
  rw [← List.append_assoc] at hsplit
  obtain ⟨rest₂, rfl, h₂⟩ := h.next (by simp) hsplit h₁
  have hread := hsplit.trans (List.append_cons _ _ _)
  obtain ⟨rest₃, rfl, _⟩ := h.next (by simp) hread h₂
  exact ⟨opened, start ++ skipped, rest₃, by rw [hsplit]; simp⟩

end Histories

namespace RtspFrameReader
variable {K ι : Type} {s s' : RtspFrameReader K ι}

/-- A reader whose history is as it should be, and which is ready for what it does
next unless its source has just opened, or has opened silently. -/
structure Paced (s : RtspFrameReader K ι) : Prop where
  history : NeverSpins s.history
  opened : s.capture = true → s.reconnectAttempt = 0
  connecting : s.pc = .connecting → s.capture = false
  waiting : s.pc ≠ .reading → s.pc ≠ .died →
    Ready s.history s.reconnectAttempt ∨ Silent s.history ∧ s.capture = false
  reading : s.pc = .reading → s.reconnectAttempt = 0 ∧
    (Ready s.history 0 ∨ ∃ before, s.history = before ++ [.attempted true])

theorem Paced.noFrame (h : s.Paced) (hp : s.pc = .reading) : s.noFrame.Paced := by
  obtain ⟨hzero, hready⟩ := h.reading hp
  refine ⟨h.history.read false, fun hc => (nomatch hc), fun _ => rfl, fun _ _ => ?_,
    fun hr => ?_⟩
  · rcases hready with hready | ⟨before, he⟩
    · left
      simp only [RtspFrameReader.noFrame, hzero]
      exact hready.noFrame
    · exact .inr ⟨⟨before, by simp [RtspFrameReader.noFrame, he]⟩, rfl⟩
  · simp only [RtspFrameReader.noFrame] at hr
    split at hr <;> cases hr

theorem connect_heard (opened : Bool) (s : RtspFrameReader K ι) :
    heard (s.connect opened).history = heard s.history ++ [.attempted opened] := by
  cases opened <;> simp [connect, heard]

variable [Field K] [LinearOrder K] [Rounding K]

omit [LinearOrder K] in
theorem init_paced (camera : CameraConfig) : (init camera : RtspFrameReader K ι).Paced := by
  refine ⟨neverSpins_nil, fun hc => (nomatch hc), fun _ => rfl, fun _ _ => .inl ⟨?_, ?_⟩,
    fun hr => (nomatch hr)⟩
  · intro before between b he
    simp [init] at he
  · intro before stretch he
    simp only [init, List.nil_eq, List.append_eq_nil_iff] at he
    simp [he.2, sleeps]

theorem Paced.gotFrame (h : s.Paced) (hp : s.pc = .reading) (image : ι) (now : K) (timeMs : Int) :
    (s.gotFrame image now timeMs).Paced := by
  obtain ⟨hzero, _⟩ := h.reading hp
  obtain ⟨hhist, hcap, hatt, hpc⟩ := gotFrame_same image now timeMs s
  refine ⟨by rw [hhist]; exact h.history.read true, fun _ => hatt.trans hzero, fun hc => ?_,
    fun _ _ => ?_, fun hr => ?_⟩
  · rw [hc] at hpc
    rcases hpc with hpc | ⟨_, hpc⟩ <;> cases hpc
  · rw [hhist]
    exact .inl (Ready.frame _ _)
  · rw [hr] at hpc
    rcases hpc with hpc | ⟨_, hpc⟩ <;> cases hpc

/-- The history follows what the source has answered. -/
theorem heard_step (h : step s a = some s') :
    heard s'.history = heard s.history ++ outcomes [a] := by
  cases stepped h with
  | reads _ _ => exact (List.append_nil _).symm
  | connects _ _ => exact (List.append_nil _).symm
  | connect opened _ => exact connect_heard opened s
  | frame image now timeMs _ =>
    rw [(gotFrame_same image now timeMs s).1, heard, List.filter_append]
    rfl
  | noFrame now timeMs _ =>
    rw [noFrame, heard, List.filter_append]
    rfl
  | missing _ _ => exact (List.append_nil _).symm
  | resume _ => exact (List.append_nil _).symm
  | close => exact (List.append_nil _).symm

omit [Field K] [LinearOrder K] [Rounding K] in
theorem Paced.connect (h : s.Paced) (hp : s.pc = .connecting) (opened : Bool)
    (hs : ¬ OpensSilently (heard (s.connect opened).history)) : (s.connect opened).Paced := by
  have hready : Ready s.history s.reconnectAttempt := by
    rcases h.waiting (by simp [hp]) (by simp [hp]) with hready | ⟨⟨before, he⟩, _⟩
    · exact hready
    · refine absurd ⟨opened, heard before, [], ?_⟩ hs
      rw [connect_heard, he]
      simp [heard]
  cases opened with
  | true =>
    exact ⟨hready.opened h.history, fun _ => rfl, fun hc => (nomatch hc),
      fun hr => absurd rfl hr, fun _ => ⟨rfl, .inr ⟨s.history, rfl⟩⟩⟩
  | false =>
    obtain ⟨hn, hnext⟩ := hready.refused h.history
    refine ⟨hn, fun hc => ?_, fun hc => (nomatch hc), fun _ _ => .inl hnext,
      fun hr => (nomatch hr)⟩
    have hclosed := h.connecting hp
    exact absurd (hclosed.symm.trans hc) (by decide)

/-- A reader stays paced unless its source has opened silently. -/
theorem Paced.step (h : s.Paced) (hstep : step s a = some s')
    (hs : ¬ OpensSilently (heard s'.history)) : s'.Paced := by
  cases stepped hstep with
  | reads hp hc =>
    refine ⟨h.history, h.opened, fun hr => (nomatch hr), fun hr => absurd rfl hr,
      fun _ => ⟨h.opened hc, ?_⟩⟩
    rcases h.waiting (by simp [hp]) (by simp [hp]) with hready | ⟨_, hclosed⟩
    · rw [h.opened hc] at hready
      exact .inl hready
    · rw [hc] at hclosed
      cases hclosed
  | connects hp hc =>
    exact ⟨h.history, h.opened, fun _ => hc, fun _ _ => h.waiting (by simp [hp]) (by simp [hp]),
      fun hr => (nomatch hr)⟩
  | connect opened hp => exact h.connect hp opened hs
  | frame image now timeMs hp => exact h.gotFrame hp image now timeMs
  | noFrame now timeMs hp => exact h.noFrame hp
  | missing _ _ =>
    exact ⟨h.history, h.opened, fun hr => (nomatch hr), fun _ hd => absurd rfl hd,
      fun hr => (nomatch hr)⟩
  | resume hp =>
    exact ⟨h.history, h.opened, fun hr => (nomatch hr),
      fun _ _ => h.waiting (by simp [hp]) (by simp [hp]), fun hr => (nomatch hr)⟩
  | close =>
    refine ⟨h.history, fun hc => (nomatch hc), fun _ => rfl, fun hr hd => ?_, h.reading⟩
    rcases h.waiting hr hd with hready | ⟨hsilent, _⟩
    · exact .inl hready
    · exact .inr ⟨hsilent, rfl⟩

/-- What is heard in a run is what the source answers. -/
theorem heard_run (h : Run step s actions s') :
    heard s'.history = heard s.history ++ outcomes actions := by
  induction actions generalizing s with
  | nil =>
    obtain rfl := run_nil.mp h
    exact (List.append_nil _).symm
  | cons a actions ih =>
    obtain ⟨m, hm, hr⟩ := run_cons.mp h
    rw [ih hr, heard_step hm, List.append_assoc, outcomes, outcomes, outcomes,
      ← List.filterMap_append]
    rfl

theorem Paced.run (h : s.Paced) (hrun : Run RtspFrameReader.step s actions s')
    (hs : ¬ OpensSilently (heard s'.history)) : s'.Paced := by
  induction actions generalizing s with
  | nil =>
    obtain rfl := run_nil.mp hrun
    exact h
  | cons a actions ih =>
    obtain ⟨m, hm, hr⟩ := run_cons.mp hrun
    refine ih (h.step hm (fun hsilent => hs ?_)) hr
    rw [heard_run hr]
    exact hsilent.append _

theorem sleepsRefused_step (h : SleepsRefused s.history) (hstep : step s a = some s') :
    SleepsRefused s'.history := by
  cases stepped hstep with
  | reads _ _ => exact h
  | connects _ _ => exact h
  | connect opened _ =>
    cases opened with
    | true => exact h.concat (fun _ he => (nomatch he))
    | false => exact h.refused _
  | frame image now timeMs _ =>
    rw [(gotFrame_same image now timeMs s).1]
    exact h.concat (fun _ he => (nomatch he))
  | noFrame now timeMs _ => exact h.concat (fun _ he => (nomatch he))
  | missing _ _ => exact h
  | resume _ => exact h
  | close => exact h

/-- In every run the attempts are spaced by growing sleeps, of at least the base and
at most the maximal backoff, exactly when every opening of the source that another
one follows has delivered a first frame. -/
theorem neverSpins_iff {camera : CameraConfig}
    (h : Run step (init camera : RtspFrameReader K ι) actions s) :
    NeverSpins s.history ↔ ¬ OpensSilently (outcomes actions) := by
  have hheard : heard s.history = outcomes actions := heard_run h
  rw [← hheard]
  constructor
  · intro hn hsilent
    have hrefused : SleepsRefused s.history :=
      h.invariant (P := fun s => SleepsRefused s.history)
        (fun _ _ _ hm hstep => sleepsRefused_step hm hstep)
        (fun before d after he => by simp [init] at he)
    obtain ⟨opened, before, after, he⟩ := hrefused.opensSilently hsilent
    obtain ⟨d, hd, _⟩ := hn.spaced before [.read false] after true opened
      (by rw [← he]; simp) (by simp) (by simp)
    simp at hd
  · intro hs
    exact ((init_paced camera).run h hs).history

section Runs

/-- An exhausted file opens again and again, with no sleep between the attempts. -/
theorem silent_source_spins :
    ¬ ∀ (actions : List (ReaderAction ℚ Unit)) s,
      Run step (init tenFps) actions s → NeverSpins s.history := by
  intro h
  let s : RtspFrameReader ℚ Unit :=
    { (init tenFps : RtspFrameReader ℚ Unit) with
      capture := true, pc := .reading
      history := [.attempted true, .read false, .attempted true] }
  have hn := h [.check, .connect true, .read none 0 0, .check, .connect true] s rfl
  obtain ⟨d, hd, _⟩ := hn.spaced [] [.read false] [] true true rfl (by simp) (by simp)
  simp at hd

/-- Refused twice, then opened with a frame, lost and refused again. -/
theorem refused_source_backs_off :
    ∃ s : RtspFrameReader ℚ Unit, NeverSpins s.history ∧ sleeps s.history = [2, 4, 2] := by
  have hrun : Run step (init tenFps : RtspFrameReader ℚ Unit)
      [.check, .connect false, .check, .connect false, .check, .connect true,
        .read (some ()) 0 0, .resume, .check, .read none 1 0, .check, .connect false]
      { (init tenFps : RtspFrameReader ℚ Unit) with
        sequenceNumber := 1, reconnectAttempt := 1, lastEmittedAt := some 0
        history := [.attempted false, .slept 2, .attempted false, .slept 4, .attempted true,
          .read true, .read false, .attempted false, .slept 2] } := rfl
  refine ⟨_, (neverSpins_iff hrun).mpr ?_, rfl⟩
  unfold OpensSilently
  decide

end Runs

end RtspFrameReader
end CamTrack
