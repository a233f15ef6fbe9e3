import CamTrack.Proofs.Batching
import CamTrack.Proofs.Draining

namespace CamTrack
open Python Machine

namespace DynamicBatcher

section Readings
variable {K ω α : Type} {s s' : DynamicBatcher K ω α}

/-- The clock readings that an action makes. -/
def clockReading (s : DynamicBatcher K ω α) : BatcherAction K α → Option K
  | .check now => if s.stopEvent then none else s.batchStartedAt.map (fun _ => now)
  | .take now => if s.pending.isEmpty then some now else none
  | .timeout now => if s.pending.isEmpty then none else some now
  | _ => none

/-- The call of `on_batch`. -/
def HandsOver (s s' : DynamicBatcher K ω α) : Prop :=
  (∃ final, s'.pc = .flushing final) ∧ ∀ final, s.pc ≠ .flushing final

theorem flush_of_pending (final : Bool) (h : s.pending ≠ []) :
    s.flush final = { s with pc := .flushing final } := by
  rw [flush, if_neg (by simpa using h)]

end Readings

section Bounds
variable {K : Type} [Field K] [LinearOrder K] [Rounding K] {ω α : Type} {cfg : BatcherConfig}
  {onBatch : OnBatch ω α} {s s' : DynamicBatcher K ω α} {now startedAt : K}

/-- A batch is in the making and its wait is over, where `since` measures it. -/
def Overdue (since : K → K → K) (wait now : K) (s : DynamicBatcher K ω α) : Prop :=
  s.pending ≠ [] ∧ ∃ startedAt, s.batchStartedAt = some startedAt ∧ wait ≤ since startedAt now

/-- Both flush bounds of a run, where `since` measures how long a batch waits: a batch that is
not full is handed over before `stop` only by an empty poll when its wait is over; from a loop
head at which the wait is over no poll waits until the batch is handed over, at most as many
items are added as it has room for, and a poll that finds no item hands it over; before that a
poll ends by the deadline, and within `_MAX_POLL_INTERVAL_S`. -/
structure HonoursBounds (since : K → K → K) (wait deadline : K) (cfg : BatcherConfig)
    (onBatch : OnBatch ω α) (owner : ω) (actions : List (BatcherAction K α)) : Prop where
  early : ∀ before a after m m', actions = before ++ a :: after →
    Run (step cfg onBatch) (start owner) before m → step cfg onBatch m a = some m' →
    HandsOver m m' → m.stopEvent = false → m'.pending.length < cfg.maxBatchSize →
    ∃ now startedAt t, a = .timeout now ∧ m.pc = .polling t ∧ m.queue = [] ∧
      m.batchStartedAt = some startedAt ∧ wait ≤ since startedAt now
  late : ∀ before now mid after m m', actions = before ++ .check now :: (mid ++ after) →
    Run (step cfg onBatch) (start owner) before m → Overdue since wait now m →
    Run (step cfg onBatch) m (.check now :: mid) m' → m'.handed.length = m.handed.length →
    (∀ t, m'.pc = .polling t → t = 0) ∧
      (∃ items, m'.pending = m.pending ++ items ∧
        items.length ≤ cfg.maxBatchSize - m.pending.length) ∧
      ∀ now' m'', now ≤ now' → step cfg onBatch m' (.timeout now') = some m'' →
        m''.pc = .flushing false
  poll : ∀ before now after m m' t, actions = before ++ .check now :: after →
    Run (step cfg onBatch) (start owner) before m → step cfg onBatch m (.check now) = some m' →
    m'.pc = .polling t → t ≤ maxPollIntervalS ∧ ∀ startedAt, m.batchStartedAt = some startedAt →
      since startedAt now ≤ wait → now + t ≤ startedAt + deadline

theorem pollTimeout_le_cap (cfg : BatcherConfig) (batchStartedAt : Option K) (now : K) :
    pollTimeout cfg batchStartedAt now ≤ maxPollIntervalS := by
  cases batchStartedAt with
  | none => exact le_refl _
  | some startedAt => exact min_le_right _ _

theorem handed_length_le {a : BatcherAction K α} (hstep : step cfg onBatch s a = some s') :
    s.handed.length ≤ s'.handed.length := by
  cases stepped hstep with
  | submit item => exact le_refl _
  | stop => exact le_refl _
  | check now hp => rw [(check_same cfg now s).handed]
  | take now item rest hp hq => rw [(take_same cfg now item rest s).handed]
  | timeout now hp hq => rw [(timeout_same cfg now s).handed]
  | batch final hp => simp [batch]

/-- An overdue batch until it is handed over: nothing of it is lost, its clock stays,
and no poll waits. -/
structure Late (startedAt : K) (pending : List α) (s : DynamicBatcher K ω α) : Prop where
  started : s.batchStartedAt = some startedAt
  added : ∃ items, s.pending = pending ++ items
  poll : ∀ t, s.pc = .polling t → t = 0

omit [LinearOrder K] [Rounding K] in
theorem Late.pending_ne_nil {pending : List α} (h : Late startedAt pending s)
    (hne : pending ≠ []) : s.pending ≠ [] := by
  obtain ⟨items, hitems⟩ := h.added
  simp [hitems, hne]

theorem run_filling {owner : ω} {actions : List (BatcherAction K α)}
    (h : Run (step cfg onBatch) (start owner) actions s) : Filling cfg s :=
  h.invariant (fun _ _ _ hf hstep => hf.step hstep) (start_filling cfg owner)

omit [Field K] [Rounding K] in
theorem Filling.pending_le (h : Filling cfg s) : s.pending.length ≤ cfg.maxBatchSize := by
  by_cases hf : ∃ final, s.pc = .flushing final
  · obtain ⟨final, hp⟩ := hf
    exact (h.flushing final hp).2
  · exact (h.room (not_exists.mp hf)).le

omit [Field K] [LinearOrder K] [Rounding K] in
theorem flush_started {final : Bool} (h : (s.flush final).batchStartedAt = some startedAt) :
    s.batchStartedAt = some startedAt := by
  rw [flush] at h
  split at h
  · cases h
  · exact h

/-- A batch in the making has started at a reading of the clock. -/
theorem started_read {owner : ω} {actions : List (BatcherAction K α)}
    (h : Run (step cfg onBatch) (start owner) actions s) :
    ∀ startedAt, s.batchStartedAt = some startedAt →
      startedAt ∈ observed (step cfg onBatch) clockReading (start owner) actions := by
  refine h.seen (P := fun readings s => ∀ t, s.batchStartedAt = some t → t ∈ readings)
    (fun readings m a m' hm hstep => ?_) (fun _ hs => (by cases hs))
  intro t hs
  cases stepped hstep with
  | submit item => exact List.mem_append_left _ (hm t hs)
  | stop => exact List.mem_append_left _ (hm t hs)
  | check now hp =>
    rw [check] at hs
    split at hs
    · exact List.mem_append_left _ (hm t (flush_started hs))
    · exact List.mem_append_left _ (hm t hs)
  | take now item rest hp hq =>
    have hcollect : (m.collect now item rest).batchStartedAt = some t := by
      rw [take] at hs
      split at hs
      · exact flush_started hs
      · exact hs
    rw [collect] at hcollect
    by_cases hpending : m.pending.isEmpty
    · rw [if_pos hpending] at hcollect
      simp [clockReading, hpending, Option.some.inj hcollect]
    · rw [if_neg hpending] at hcollect
      exact List.mem_append_left _ (hm t hcollect)
  | timeout now hp hq =>
    rw [timeout] at hs
    split at hs
    · exact List.mem_append_left _ (hm t hs)
    · split at hs
      · exact List.mem_append_left _ (hm t hs)
      · split at hs
        · exact List.mem_append_left _ (hm t (flush_started hs))
        · exact List.mem_append_left _ (hm t hs)
  | batch final hp => cases hs

/-- On a clock that does not go back, no reading after one at a loop head is earlier. -/
theorem readings_after_head {owner : ω} {actions before mid after : List (BatcherAction K α)}
    {m : DynamicBatcher K ω α} (hactions : actions = before ++ .check now :: (mid ++ after))
    (hclock : (observed (step cfg onBatch) clockReading (start owner) actions).Pairwise (· ≤ ·))
    (hm : Run (step cfg onBatch) (start owner) before m)
    (hmid : Run (step cfg onBatch) m (.check now :: mid) s)
    (hs : m.batchStartedAt = some startedAt) (hstop : m.stopEvent = false) :
    ∀ reading ∈ observed (step cfg onBatch) clockReading m (.check now :: mid), now ≤ reading := by
  obtain ⟨m₁, hcheck, hrest⟩ := run_cons.mp hmid
  have hhead : observed (step cfg onBatch) clockReading m (.check now :: mid) =
      now :: observed (step cfg onBatch) clockReading m₁ mid := by
    simp [observed, hcheck, clockReading, hstop, hs]
  rw [hactions, observed_append hm, ← List.cons_append, observed_append hmid, hhead] at hclock
  have hsorted := (List.pairwise_append.mp (List.pairwise_append.mp hclock).2.1).1
  rw [hhead]
  intro reading hr
  rcases List.mem_cons.mp hr with rfl | hr
  · exact le_refl _
  · exact (List.pairwise_cons.mp hsorted).1 reading hr

/-- On such a clock no batch has started later than a loop head at which it waits. -/
theorem startedAt_le_head {owner : ω} {actions before after : List (BatcherAction K α)}
    {m : DynamicBatcher K ω α} (hactions : actions = before ++ .check now :: after)
    (hclock : (observed (step cfg onBatch) clockReading (start owner) actions).Pairwise (· ≤ ·))
    (hm : Run (step cfg onBatch) (start owner) before m)
    (hstep : step cfg onBatch m (.check now) = some s) (hs : m.batchStartedAt = some startedAt)
    (hstop : m.stopEvent = false) : startedAt ≤ now := by
  rw [hactions, observed_append hm] at hclock
  refine (List.pairwise_append.mp hclock).2.2 startedAt (started_read hm startedAt hs) now ?_
  simp [observed, hstep, clockReading, hstop, hs]

end Bounds

section Doubles
variable {K : Type} [Field K] [LinearOrder K] [IsStrictOrderedRing K] [FloorRing K] {ω α : Type}
  {cfg : BatcherConfig} {onBatch : OnBatch ω α} {s s' : DynamicBatcher K ω α} {now startedAt : K}

/-- `max_wait_ms` in seconds, as a number. -/
def waitS (cfg : BatcherConfig) : K := cfg.maxWaitMs / (1000 : Nat)

theorem elapsed_mono {now' : K} (h : now ≤ now') : elapsed startedAt now ≤ elapsed startedAt now' :=
  Rounding.round_mono (sub_le_sub_right h startedAt)

theorem waitS_nonneg (cfg : BatcherConfig) : (0 : K) ≤ waitS cfg := by
  rw [waitS]
  positivity

/-- Two roundings, of the whole number and of the quotient. -/
theorem maxWaitS_bounds (cfg : BatcherConfig) :
    (1 - Rounding.unitRoundoff) ^ 2 * (waitS cfg : K) ≤ maxWaitS cfg ∧
      (maxWaitS cfg : K) ≤ (1 + Rounding.unitRoundoff) ^ 2 * waitS cfg := by
  have hms : (0 : K) ≤ cfg.maxWaitMs := cfg.maxWaitMs.cast_nonneg
  have hle : (Rounding.ofNat cfg.maxWaitMs : K) ≤ _ := Rounding.round_le hms
  have hge : _ ≤ (Rounding.ofNat cfg.maxWaitMs : K) := Rounding.le_round hms
  have hnonneg : (0 : K) ≤ Rounding.ofNat cfg.maxWaitMs := Rounding.round_nonneg_iff.mpr hms
  have hquotient : (0 : K) ≤ Rounding.ofNat cfg.maxWaitMs / 1000 := by positivity
  have hle' : (maxWaitS cfg : K) ≤ _ := Rounding.round_le hquotient
  have hge' : _ ≤ (maxWaitS cfg : K) := Rounding.le_round hquotient
  rw [waitS, Nat.cast_ofNat]
  simp only [Rounding.unitRoundoff_eq] at *
  constructor <;> linarith

/-- A wait that is over as doubles tell has taken all but a rounding of `max_wait_ms`. -/
theorem waited (h : maxWaitS cfg ≤ elapsed startedAt now) :
    (1 - 1 / 2 ^ 51) * waitS cfg ≤ now - startedAt := by
  have hwait := waitS_nonneg (K := K) cfg
  have hbound := (maxWaitS_bounds (K := K) cfg).1
  have hnonneg : 0 ≤ elapsed startedAt now := by
    refine le_trans (le_trans ?_ hbound) h
    positivity
  have hround : elapsed startedAt now ≤ _ :=
    Rounding.round_le (Rounding.round_nonneg_iff.mp hnonneg)
  simp only [Rounding.unitRoundoff_eq] at *
  linarith

/-- What has taken `max_wait_ms` is over as doubles tell. -/
theorem overdue_of_waited (hms : cfg.maxWaitMs < 2 ^ 53) (h : waitS cfg ≤ now - startedAt) :
    maxWaitS cfg ≤ elapsed startedAt now := by
  rw [waitS, Nat.cast_ofNat] at h
  rw [maxWaitS, Rounding.ofNat_eq hms]
  exact Rounding.round_mono h

theorem timeLeft_nonpos : max 0 (Rounding.sub (maxWaitS cfg) (elapsed startedAt now)) ≤ 0 ↔
    maxWaitS cfg ≤ elapsed startedAt now := by
  rw [max_le_iff, Rounding.sub_nonpos_iff, and_iff_right (le_refl 0)]

theorem pollTimeout_overdue (h : maxWaitS cfg ≤ elapsed startedAt now) :
    pollTimeout cfg (some startedAt) now = 0 := by
  have hzero : max 0 (Rounding.sub (maxWaitS cfg) (elapsed startedAt now)) = 0 :=
    max_eq_left (Rounding.sub_nonpos_iff.mpr h)
  have hcap : (0 : K) ≤ maxPollIntervalS := Rounding.round_nonneg_iff.mpr (by norm_num)
  simp only [pollTimeout, timeLeft, Option.map_some, hzero]
  exact min_eq_left hcap

/-- Before the wait is over, a poll ends by the deadline, but for the roundings. -/
theorem pollTimeout_le (hstarted : startedAt ≤ now) (h : elapsed startedAt now ≤ maxWaitS cfg) :
    now + pollTimeout cfg (some startedAt) now ≤ startedAt + (1 + 1 / 2 ^ 51) * waitS cfg := by
  have hleft : 0 ≤ maxWaitS cfg - elapsed startedAt now := sub_nonneg.mpr h
  have hpoll : pollTimeout cfg (some startedAt) now ≤
      (1 + Rounding.unitRoundoff) * (maxWaitS cfg - elapsed startedAt now) := by
    refine (min_le_left _ _).trans (max_le ?_ (Rounding.round_le hleft))
    exact (Rounding.round_nonneg_iff.mpr hleft).trans (Rounding.round_le hleft)
  have hround : _ ≤ elapsed startedAt now := Rounding.le_round (sub_nonneg.mpr hstarted)
  have hbound := (maxWaitS_bounds (K := K) cfg).2
  have hwait := waitS_nonneg (K := K) cfg
  simp only [Rounding.unitRoundoff_eq] at *
  linarith

/-- What an empty poll does to a batch in the making. -/
theorem timeout_of_pending (hp : s.pending ≠ []) (hs : s.batchStartedAt = some startedAt) :
    s.timeout cfg now = if maxWaitS cfg ≤ elapsed startedAt now
      then { s with pc := .flushing false } else { s with pc := .head } := by
  rw [timeout, if_neg (by simpa using hp)]
  simp only [hs, timeLeft, Option.map_some, timeLeft_nonpos, flush_of_pending false hp]

/-- A batch is handed over when `stop` is seen, when it is full, or when a poll
finds the queue empty after its wait. -/
theorem handsOver_cases {a : BatcherAction K α} (hfill : Filling cfg s)
    (hstep : step cfg onBatch s a = some s') (h : HandsOver s s') :
    s.stopEvent = true ∨ cfg.maxBatchSize ≤ s'.pending.length ∨
      ∃ now startedAt t, a = .timeout now ∧ s.pc = .polling t ∧ s.queue = [] ∧
        s.batchStartedAt = some startedAt ∧ maxWaitS cfg ≤ elapsed startedAt now := by
  obtain ⟨⟨final, hpc⟩, hnot⟩ := h
  cases stepped hstep with
  | submit item => exact absurd hpc (hnot final)
  | stop => exact absurd hpc (hnot final)
  | check now hp =>
    rw [check] at hpc
    split at hpc
    · rename_i hstop
      exact .inl hstop
    · cases hpc
  | take now item rest hp hq =>
    rw [(take_same cfg now item rest s).pending]
    rw [take] at hpc
    split at hpc
    · rename_i hfull
      exact .inr (.inl hfull)
    · cases hpc
  | @timeout t now hp hq =>
    by_cases hpending : s.pending = []
    · rw [timeout, if_pos (by simp [hpending])] at hpc
      cases hpc
    · obtain ⟨startedAt, hs⟩ := Option.ne_none_iff_exists'.mp (hfill.clocked hpending)
      rw [timeout_of_pending hpending hs] at hpc
      split at hpc
      · rename_i hover
        exact .inr (.inr ⟨now, startedAt, t, rfl, hp, hq, hs, hover⟩)
      · cases hpc
  | batch final' hp => exact absurd hp (hnot final')

theorem Late.step {pending : List α} {a : BatcherAction K α} (h : Late startedAt pending s)
    (hne : pending ≠ []) (hover : maxWaitS cfg ≤ elapsed startedAt now)
    (hclock : s.stopEvent = false → ∀ reading ∈ s.clockReading a, now ≤ reading)
    (hstep : step cfg onBatch s a = some s') (hsame : s'.handed.length = s.handed.length) :
    Late startedAt pending s' := by
  have hpending := h.pending_ne_nil hne
  cases stepped hstep with
  | submit item => exact ⟨h.started, h.added, h.poll⟩
  | stop => exact ⟨h.started, h.added, h.poll⟩
  | check now' hp =>
    rw [check]
    split
    · rw [flush_of_pending true hpending]
      exact ⟨h.started, h.added, fun t ht => by cases ht⟩
    · rename_i hstop
      refine ⟨h.started, h.added, fun t ht => ?_⟩
      have hle : now ≤ now' :=
        hclock (by simpa using hstop) now' (by simp [clockReading, hstop, h.started])
      have htime : maxWaitS cfg ≤ elapsed startedAt now' := hover.trans (elapsed_mono hle)
      cases ht
      rw [h.started]
      exact pollTimeout_overdue htime
  | take now' item rest hp hq =>
    obtain ⟨items, hitems⟩ := h.added
    have hcollect : s.collect now' item rest =
        { s with queue := rest, pending := s.pending ++ [item] } := by
      simp [collect, hpending]
    have hadded : ∃ items, s.pending ++ [item] = pending ++ items :=
      ⟨items ++ [item], by rw [hitems, List.append_assoc]⟩
    rw [take, hcollect]
    dsimp only
    split
    · rw [flush_of_pending false (by simp)]
      exact ⟨h.started, hadded, fun t ht => by cases ht⟩
    · exact ⟨h.started, hadded, fun t ht => by cases ht⟩
  | timeout now' hp hq =>
    rw [timeout_of_pending hpending h.started]
    split <;> exact ⟨h.started, h.added, fun t ht => by cases ht⟩
  | batch final hp => simp [batch] at hsame

/-- What the readings since a loop head `m` say of the state reached. -/
structure SinceHead (m : DynamicBatcher K ω α) (now startedAt : K) (readings : List K)
    (s : DynamicBatcher K ω α) : Prop where
  handed : m.handed.length ≤ s.handed.length
  stopEvent : m.stopEvent = true → s.stopEvent = true
  late : (m.stopEvent = false → ∀ reading ∈ readings, now ≤ reading) →
    s.handed.length = m.handed.length → Late startedAt m.pending s

theorem SinceHead.step {m : DynamicBatcher K ω α} {readings : List K} {a : BatcherAction K α}
    (h : SinceHead m now startedAt readings s) (hp : m.pending ≠ [])
    (hover : maxWaitS cfg ≤ elapsed startedAt now) (hstep : step cfg onBatch s a = some s') :
    SinceHead m now startedAt (readings ++ (s.clockReading a).toList) s' := by
  have hmore := handed_length_le hstep
  refine ⟨h.handed.trans hmore, fun hm => (stopping_step (h.stopEvent hm) hstep).1,
    fun hclock hsame => ?_⟩
  have hsame' : s.handed.length = m.handed.length :=
    le_antisymm (hmore.trans hsame.le) h.handed
  have hlate := h.late
    (fun hm reading hr => hclock hm reading (List.mem_append_left _ hr)) hsame'
  refine hlate.step hp hover (fun hs reading hr => ?_) hstep (hsame.trans hsame'.symm)
  have hm : m.stopEvent = false := by
    by_contra hm
    rw [h.stopEvent (by simpa using hm)] at hs
    cases hs
  exact hclock hm reading (List.mem_append_right _ (Option.mem_toList.mpr hr))

theorem late_run {actions : List (BatcherAction K α)} {m : DynamicBatcher K ω α}
    (hp : m.pending ≠ []) (hs : m.batchStartedAt = some startedAt)
    (hover : maxWaitS cfg ≤ elapsed startedAt now) (hhead : m.pc = .head)
    (h : Run (step cfg onBatch) m actions s)
    (hclock : m.stopEvent = false →
      ∀ reading ∈ observed (step cfg onBatch) clockReading m actions, now ≤ reading)
    (hsame : s.handed.length = m.handed.length) : Late startedAt m.pending s := by
  have hstart : SinceHead m now startedAt [] m :=
    ⟨le_refl _, id, fun _ _ =>
      ⟨hs, ⟨[], by simp⟩, fun t ht => by rw [hhead] at ht; cases ht⟩⟩
  have hend : SinceHead m now startedAt (observed (step cfg onBatch) clockReading m actions) s :=
    h.seen (fun _ _ _ _ hinv hstep => hinv.step hp hover hstep) hstart
  exact hend.late hclock hsame

/-- The batcher honours both flush bounds as doubles measure them, whatever arrives and whenever,
on a clock that does not go back; and doubles measure `max_wait_ms` but for a relative error of
four roundings, which makes no wait of as many milliseconds seem shorter. -/
theorem honours_bounds {owner : ω} {actions : List (BatcherAction K α)}
    (hclock : (observed (step cfg onBatch) clockReading (start owner) actions).Pairwise (· ≤ ·)) :
    HonoursBounds elapsed (maxWaitS cfg) ((1 + 1 / 2 ^ 51) * waitS cfg) cfg onBatch owner
        actions ∧
      ∀ startedAt now : K, (maxWaitS cfg ≤ elapsed startedAt now →
          (1 - 1 / 2 ^ 51) * waitS cfg ≤ now - startedAt) ∧
        (cfg.maxWaitMs < 2 ^ 53 → waitS cfg ≤ now - startedAt →
          maxWaitS cfg ≤ elapsed startedAt now) := by
  refine ⟨⟨fun before a after m m' _ hm hstep hhands hstop hsize => ?_,
    fun before now mid after m m' hactions hm hover hmid hsame => ?_,
    fun before now after m m' t hactions hm hstep ht => ?_⟩,
    fun startedAt now => ⟨waited, overdue_of_waited⟩⟩
  · rcases handsOver_cases (run_filling hm) hstep hhands with hs | hfull | hempty
    · rw [hstop] at hs
      cases hs
    · exact absurd hsize (not_lt.mpr hfull)
    · exact hempty
  · obtain ⟨hpending, startedAt, hs, helapsed⟩ := hover
    have hhead : m.pc = .head := by
      obtain ⟨_, hcheck, _⟩ := run_cons.mp hmid
      cases stepped hcheck with
      | check _ hp => exact hp
    have hlate := late_run hpending hs helapsed hhead hmid
      (readings_after_head hactions hclock hm hmid hs) hsame
    refine ⟨hlate.poll, ?_, fun now' m'' hle hstep => ?_⟩
    · obtain ⟨items, hitems⟩ := hlate.added
      refine ⟨items, hitems, ?_⟩
      have hle := (run_filling (run_append.mpr ⟨m, hm, hmid⟩)).pending_le
      rw [hitems, List.length_append] at hle
      omega
    · cases stepped hstep with
      | timeout _ hp hq =>
        rw [timeout_of_pending (hlate.pending_ne_nil hpending) hlate.started,
          if_pos (helapsed.trans (elapsed_mono hle))]
  · have hstepped := stepped hstep
    cases hstepped with
    | check _ hp =>
      rw [check] at ht
      split at ht
      · rw [flush] at ht
        split at ht <;> cases ht
      · rename_i hstop
        cases ht
        refine ⟨pollTimeout_le_cap cfg _ now, fun startedAt hs hle => ?_⟩
        rw [hs]
        exact pollTimeout_le
          (startedAt_le_head hactions hclock hm hstep hs (by simpa using hstop)) hle

end Doubles

/-- Batches of at most two items, which wait for 40 ms. -/
def pairsConfig : BatcherConfig := ⟨2, 40, Nat.le_succ 1⟩

/-- One item that waits for another. -/
def lonelyItem : List (BatcherAction ℚ Nat) :=
  [.submit 1, .check 0, .take 0, .check (3 / 100), .timeout (1 / 20), .batch]

theorem honours_bounds_lonely_item :
    (∃ s, Run (step pairsConfig (fun _ _ => ((), none))) (start ()) lonelyItem s ∧
      s.handed = [[1]]) ∧
    HonoursBounds elapsed (maxWaitS pairsConfig) ((1 + 1 / 2 ^ 51) * waitS pairsConfig)
      pairsConfig (fun _ _ => ((), none)) () lonelyItem := by
  have hhanded : (lonelyItem.foldlM (step pairsConfig (fun _ _ => ((), none)))
      (start ())).map handed = some [[1]] := by decide +kernel
  exact ⟨Option.map_eq_some_iff.mp hhanded, (honours_bounds (by decide +kernel)).1⟩

/-- Batches of at most two items, which wait for 9 ms. -/
def nineConfig : BatcherConfig := ⟨2, 9, Nat.le_succ 1⟩

/-- The double that is nearest to 9 ms, and less. -/
def nineMs : ℚ := 5188146770730811 / 2 ^ 59

/-- One item, which waits until the clock shows that double. -/
def hastyItem : List (BatcherAction ℚ Nat) := [.submit 1, .check 0, .take 0, .check 0]

/-- With no account of roundings the bounds are not honoured: a batch is handed over, and 9 ms
have not passed. -/
theorem handed_over_early : ¬ ∀ {actions : List (BatcherAction ℚ Nat)},
    (observed (step nineConfig (fun _ _ => ((), none))) clockReading (start ()) actions).Pairwise
      (· ≤ ·) →
    HonoursBounds (fun startedAt now => now - startedAt) (waitS nineConfig) (waitS nineConfig)
      nineConfig (fun _ _ => ((), none)) () actions := by
  intro h
  have hrun : (hastyItem.foldlM (step nineConfig (fun _ _ => ((), none))) (start ())).any
      (fun m => m.batchStartedAt == some 0 && !m.stopEvent && m.pc == .polling nineMs &&
        (step nineConfig (fun _ _ => ((), none)) m (.timeout nineMs)).any
          (fun m' => m'.pc == .flushing false && m'.pending == [1])) = true := by
    decide +kernel
  obtain ⟨m, hm, hp⟩ := (Option.any_eq_true _ _).mp hrun
  simp only [Bool.and_eq_true, Bool.not_eq_true', beq_iff_eq] at hp
  obtain ⟨⟨⟨hs, hstop⟩, hpolling⟩, hlast⟩ := hp
  obtain ⟨m', hstep, hp⟩ := (Option.any_eq_true _ _).mp hlast
  simp only [Bool.and_eq_true, beq_iff_eq] at hp
  obtain ⟨hflushing, hpending⟩ := hp
  have hclock : (observed (step nineConfig (fun _ _ => ((), none))) clockReading (start ())
      (hastyItem ++ [.timeout nineMs])).Pairwise (· ≤ ·) := by
    decide +kernel
  obtain ⟨_, startedAt, _, ha, _, _, hs', hwaited⟩ := (h hclock).early hastyItem _ [] m m' rfl hm
    hstep ⟨⟨false, hflushing⟩, by simp [hpolling]⟩ hstop (by simp [hpending, nineConfig])
  obtain rfl : 0 = startedAt := Option.some.inj (hs.symm.trans hs')
  cases ha
  norm_num [waitS, nineConfig, nineMs] at hwaited

end DynamicBatcher
end CamTrack
