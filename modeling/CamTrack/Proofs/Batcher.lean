import CamTrack.Batcher
import CamTrack.Lib.Machine

namespace CamTrack
open Python Machine

namespace DynamicBatcher

section Items
variable {K ω α : Type} {s s' : DynamicBatcher K ω α}

/-- Two states that differ in the locals `batch_started_at` and program point only. -/
structure SameItems (s s' : DynamicBatcher K ω α) : Prop where
  queue : s'.queue = s.queue
  pending : s'.pending = s.pending
  submitted : s'.submitted = s.submitted
  handed : s'.handed = s.handed
  owner : s'.owner = s.owner
  stopEvent : s'.stopEvent = s.stopEvent

theorem flush_same (final : Bool) (s : DynamicBatcher K ω α) : SameItems s (s.flush final) := by
  unfold flush
  split <;> exact ⟨rfl, rfl, rfl, rfl, rfl, rfl⟩

/-- Every submitted item is in one place, in order. -/
def Accounted (s : DynamicBatcher K ω α) : Prop :=
  s.handed.flatten ++ s.pending ++ s.queue = s.submitted

theorem Accounted.same (h : Accounted s) (hs : SameItems s s') : Accounted s' := by
  unfold Accounted
  rw [hs.handed, hs.pending, hs.queue, hs.submitted]
  exact h

theorem start_accounted (owner : ω) : Accounted (start owner : DynamicBatcher K ω α) := rfl

/-- Taking an item moves it from the queue to `pending`. -/
theorem take_same (cfg : BatcherConfig) (now : K) (item : α) (rest : List α)
    (s : DynamicBatcher K ω α) :
    SameItems { s with queue := rest, pending := s.pending ++ [item] }
      (s.take cfg now item rest) := by
  unfold take
  dsimp only
  split
  · obtain ⟨h1, h2, h3, h4, h5, h6⟩ := flush_same false (s.collect now item rest)
    exact ⟨h1, h2, h3, h4, h5, h6⟩
  · exact ⟨rfl, rfl, rfl, rfl, rfl, rfl⟩

/-- A thread that has left the loop has flushed its last batch. -/
def Flushed (s : DynamicBatcher K ω α) : Prop := s.pc = .exited → s.pending = []

theorem flush_flushed (final : Bool) (s : DynamicBatcher K ω α) : Flushed (s.flush final) := by
  intro hx
  unfold flush at hx ⊢
  split at hx <;> rename_i he
  · rw [if_pos he]
    simpa using he
  · cases hx

theorem take_flushed (cfg : BatcherConfig) (now : K) (item : α) (rest : List α)
    (s : DynamicBatcher K ω α) : Flushed (s.take cfg now item rest) := by
  unfold take
  dsimp only
  split
  · exact flush_flushed false _
  · exact fun hx => by cases hx

/-- A batch in the making has a start time. -/
def Clocked (s : DynamicBatcher K ω α) : Prop := s.pending ≠ [] → s.batchStartedAt ≠ none

theorem flush_clocked (final : Bool) (h : Clocked s) : Clocked (s.flush final) := by
  intro hp
  have hne : s.pending ≠ [] := (flush_same final s).pending ▸ hp
  have he : s.pending.isEmpty = false := by simpa using hne
  rw [flush, if_neg (by simp [he])]
  exact h hne

/-- A flush leaves the thread alive. -/
theorem flush_alive (final : Bool) (s : DynamicBatcher K ω α) :
    ∀ e, (s.flush final).pc ≠ .died e := by
  intro e
  unfold flush
  split
  · cases final <;> simp
  · simp

theorem take_clocked (cfg : BatcherConfig) (now : K) (item : α) (rest : List α) (h : Clocked s) :
    Clocked (s.take cfg now item rest) := by
  have hc : Clocked (s.collect now item rest) := by
    intro _
    by_cases hp : s.pending = []
    · simp [collect, hp]
    · simpa [collect, hp] using h hp
  unfold take
  dsimp only
  split
  · exact flush_clocked false hc
  · exact hc

theorem take_alive (cfg : BatcherConfig) (now : K) (item : α) (rest : List α)
    (s : DynamicBatcher K ω α) :
    ∀ e, (s.take cfg now item rest).pc ≠ .died e := by
  intro e
  unfold take
  dsimp only
  split
  · exact flush_alive false _ e
  · simp

end Items

variable {K : Type} [Field K] [LinearOrder K] [Rounding K] {ω α : Type} {cfg : BatcherConfig}
  {onBatch : OnBatch ω α} {s s' : DynamicBatcher K ω α}

/-- What each action can do, with the place its thread must be in. -/
inductive Stepped (cfg : BatcherConfig) (onBatch : OnBatch ω α) (s : DynamicBatcher K ω α) :
    BatcherAction K α → DynamicBatcher K ω α → Prop where
  | submit (item : α) : Stepped cfg onBatch s (.submit item)
      { s with queue := s.queue ++ [item], submitted := s.submitted ++ [item] }
  | stop : Stepped cfg onBatch s .stop { s with stopEvent := true }
  | check (now : K) : s.pc = .head → Stepped cfg onBatch s (.check now) (s.check cfg now)
  | take {t : K} (now : K) (item : α) (rest : List α) : s.pc = .polling t →
      s.queue = item :: rest → Stepped cfg onBatch s (.take now) (s.take cfg now item rest)
  | timeout {t : K} (now : K) : s.pc = .polling t → s.queue = [] →
      Stepped cfg onBatch s (.timeout now) (s.timeout cfg now)
  | batch (final : Bool) : s.pc = .flushing final →
      Stepped cfg onBatch s .batch (s.batch onBatch final)

theorem stepped (h : step cfg onBatch s a = some s') : Stepped cfg onBatch s a s' := by
  cases a with
  | submit item =>
    cases h
    exact .submit item
  | stop =>
    cases h
    exact .stop
  | check now =>
    cases hp : s.pc <;> simp only [step, hp] at h <;> cases h
    exact .check now hp
  | take now =>
    cases hp : s.pc <;> cases hq : s.queue <;> simp only [step, hp, hq] at h <;> cases h
    exact .take now _ _ hp hq
  | timeout now =>
    cases hp : s.pc <;> cases hq : s.queue <;> simp only [step, hp, hq] at h <;> cases h
    exact .timeout now hp hq
  | batch =>
    cases hp : s.pc <;> simp only [step, hp] at h <;> cases h
    exact .batch _ hp

theorem check_same (cfg : BatcherConfig) (now : K) (s : DynamicBatcher K ω α) :
    SameItems s (s.check cfg now) := by
  unfold check
  split
  · exact flush_same true s
  · exact ⟨rfl, rfl, rfl, rfl, rfl, rfl⟩

theorem timeout_same (cfg : BatcherConfig) (now : K) (s : DynamicBatcher K ω α) :
    SameItems s (s.timeout cfg now) := by
  unfold timeout
  split
  · exact ⟨rfl, rfl, rfl, rfl, rfl, rfl⟩
  · split
    · exact ⟨rfl, rfl, rfl, rfl, rfl, rfl⟩
    · split
      · exact flush_same false s
      · exact ⟨rfl, rfl, rfl, rfl, rfl, rfl⟩

theorem Accounted.step (h : Accounted s) (hstep : step cfg onBatch s a = some s') :
    Accounted s' := by
  cases stepped hstep with
  | submit item =>
    change s.handed.flatten ++ s.pending ++ (s.queue ++ [item]) = s.submitted ++ [item]
    rw [← List.append_assoc, h]
  | stop => exact h
  | check now _ => exact h.same (check_same cfg now s)
  | take now item rest _ hq =>
    refine Accounted.same ?_ (take_same cfg now item rest s)
    change s.handed.flatten ++ (s.pending ++ [item]) ++ rest = s.submitted
    rw [← h, hq]
    simp
  | timeout now _ _ => exact h.same (timeout_same cfg now s)
  | batch final _ =>
    change (s.handed ++ [s.pending]).flatten ++ [] ++ s.queue = s.submitted
    rw [← h]
    simp

theorem check_flushed (now : K) (s : DynamicBatcher K ω α) : Flushed (s.check cfg now) := by
  unfold check
  split
  · exact flush_flushed true s
  · exact fun hx => by cases hx

theorem timeout_flushed (now : K) (s : DynamicBatcher K ω α) : Flushed (s.timeout cfg now) := by
  unfold timeout
  split
  · exact fun hx => by cases hx
  · split
    · exact fun hx => by cases hx
    · split
      · exact flush_flushed false s
      · exact fun hx => by cases hx

theorem Flushed.step (h : Flushed s) (hstep : step cfg onBatch s a = some s') : Flushed s' := by
  cases stepped hstep with
  | submit item => exact h
  | stop => exact h
  | check now _ => exact check_flushed now s
  | take now item rest _ _ => exact take_flushed cfg now item rest s
  | timeout now _ _ => exact timeout_flushed now s
  | batch final _ => exact fun _ => rfl

theorem timeout_clocked (now : K) (h : Clocked s) : Clocked (s.timeout cfg now) := by
  unfold timeout
  split
  · exact h
  · split
    · exact h
    · split
      · exact flush_clocked false h
      · exact h

theorem check_clocked (now : K) (h : Clocked s) : Clocked (s.check cfg now) := by
  unfold check
  split
  · exact flush_clocked true h
  · exact h

theorem Clocked.step (h : Clocked s) (hstep : step cfg onBatch s a = some s') : Clocked s' := by
  cases stepped hstep with
  | submit item => exact h
  | stop => exact h
  | check now _ => exact check_clocked now h
  | take now item rest _ _ => exact take_clocked cfg now item rest h
  | timeout now _ _ => exact timeout_clocked now h
  | batch final _ => exact fun hp => absurd rfl hp

/-- With a start time the poll's timeout is handled without an exception. -/
theorem timeout_alive (now : K) (h : Clocked s) : ∀ e, (s.timeout cfg now).pc ≠ .died e := by
  intro e
  unfold timeout
  split
  · simp
  · rename_i hp
    have hne : s.pending ≠ [] := by simpa using hp
    obtain ⟨t, ht⟩ := Option.ne_none_iff_exists'.mp (h hne)
    simp only [timeLeft, ht, Option.map_some]
    split
    · exact flush_alive false s e
    · simp

theorem check_alive (now : K) (s : DynamicBatcher K ω α) : ∀ e, (s.check cfg now).pc ≠ .died e := by
  intro e
  unfold check
  split
  · exact flush_alive true s e
  · simp

/-- The items that actions submit. -/
def submissions {α : Type} (actions : List (BatcherAction K α)) : List α :=
  actions.filterMap (fun a => match a with
    | .submit item => some item
    | _ => none)

theorem step_submitted (hstep : DynamicBatcher.step cfg onBatch s a = some s') :
    s'.submitted = s.submitted ++ submissions [a] := by
  cases stepped hstep with
  | submit item => rfl
  | stop => exact (List.append_nil _).symm
  | check now _ => exact (check_same cfg now s).submitted.trans (List.append_nil _).symm
  | take now item rest _ _ =>
    exact (take_same cfg now item rest s).submitted.trans (List.append_nil _).symm
  | timeout now _ _ => exact (timeout_same cfg now s).submitted.trans (List.append_nil _).symm
  | batch final _ => exact (List.append_nil _).symm

theorem run_submitted (h : Run (DynamicBatcher.step cfg onBatch) s actions s') :
    s'.submitted = s.submitted ++ submissions actions := by
  induction actions generalizing s with
  | nil =>
    obtain rfl := run_nil.mp h
    exact (List.append_nil _).symm
  | cons a actions ih =>
    obtain ⟨m, hm, hr⟩ := run_cons.mp h
    rw [ih hr, step_submitted hm, List.append_assoc, submissions, submissions, submissions,
      ← List.filterMap_append]
    rfl

/-- Every item submitted so far is in one place. -/
theorem run_accounted {owner : ω}
    (h : Run (DynamicBatcher.step cfg onBatch) (start owner) actions s) :
    s.handed.flatten ++ s.pending ++ s.queue = submissions actions := by
  have hacc : Accounted s :=
    h.invariant (fun _ _ _ ha hstep => Accounted.step ha hstep) (start_accounted owner)
  rw [hacc, run_submitted h]
  rfl

/-- Nothing but submissions happens once the thread has died. -/
structure Frozen (s : DynamicBatcher K ω α) (items : List α) (s' : DynamicBatcher K ω α) :
    Prop where
  pc : s'.pc = s.pc
  pending : s'.pending = s.pending
  handed : s'.handed = s.handed
  owner : s'.owner = s.owner
  queue : s'.queue = s.queue ++ items

theorem died_frozen (h : Run (step cfg onBatch) s actions s') (hd : s.pc = .died e) :
    Frozen s (submissions actions) s' := by
  induction actions generalizing s with
  | nil =>
    obtain rfl := run_nil.mp h
    exact ⟨rfl, rfl, rfl, rfl, by simp [submissions]⟩
  | cons a actions ih =>
    obtain ⟨m, hm, hr⟩ := run_cons.mp h
    cases stepped hm with
    | submit item =>
      obtain ⟨h1, h2, h3, h4, h5⟩ := ih hr hd
      exact ⟨h1, h2, h3, h4, by rw [h5]; simp [submissions]⟩
    | stop =>
      obtain ⟨h1, h2, h3, h4, h5⟩ := ih hr hd
      exact ⟨h1, h2, h3, h4, h5⟩
    | check now hp => rw [hd] at hp; cases hp
    | take now item rest hp _ => rw [hd] at hp; cases hp
    | timeout now hp _ => rw [hd] at hp; cases hp
    | batch final hp => rw [hd] at hp; cases hp

end DynamicBatcher
end CamTrack
