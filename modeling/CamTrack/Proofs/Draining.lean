import CamTrack.Proofs.Batcher

namespace CamTrack
open Python Machine

namespace DynamicBatcher

section Items
variable {K ω α : Type} {s s' : DynamicBatcher K ω α}

/-- The items the thread has taken from the queue. -/
def taken (s : DynamicBatcher K ω α) : Nat := (s.handed.flatten ++ s.pending).length

theorem Accounted.length (h : Accounted s) : s.taken + s.queue.length = s.submitted.length := by
  rw [← h, List.length_append]
  rfl

/-- How many items the thread still takes once the stop event is set: one when
it is past the loop test and inside its poll. -/
def room : Pc K → Nat
  | .polling _ => 1
  | _ => 0

theorem SameItems.taken (h : SameItems s s') : s'.taken = s.taken := by
  rw [DynamicBatcher.taken, h.handed, h.pending]
  rfl

theorem flush_room (final : Bool) (s : DynamicBatcher K ω α) : room (s.flush final).pc = 0 := by
  unfold flush
  split
  · cases final <;> rfl
  · rfl

theorem batch_room (onBatch : OnBatch ω α) (final : Bool) (s : DynamicBatcher K ω α) :
    room (s.batch onBatch final).pc = 0 := by
  unfold batch
  dsimp only
  split
  · rfl
  · cases final <;> rfl

theorem take_room (cfg : BatcherConfig) (now : K) (item : α) (rest : List α)
    (s : DynamicBatcher K ω α) :
    room (s.take cfg now item rest).pc = 0 := by
  unfold take
  dsimp only
  split
  · exact flush_room false _
  · rfl

end Items

variable {K : Type} [Field K] [LinearOrder K] [Rounding K] {ω α : Type} {cfg : BatcherConfig}
  {onBatch : OnBatch ω α} {s s' : DynamicBatcher K ω α}

theorem check_room (h : s.stopEvent = true) (now : K) : room (s.check cfg now).pc = 0 := by
  rw [check, if_pos h]
  exact flush_room true s

theorem timeout_room (now : K) (s : DynamicBatcher K ω α) : room (s.timeout cfg now).pc = 0 := by
  unfold timeout
  split
  · rfl
  · split
    · rfl
    · split
      · exact flush_room false s
      · rfl

/-- After `stop` the thread takes no item beyond the one its poll may return; a
poll that returns none has found the queue empty. -/
theorem stopping_step (h : s.stopEvent = true) (hstep : step cfg onBatch s a = some s') :
    s'.stopEvent = true ∧ (s'.taken + room s'.pc = s.taken + room s.pc ∨
      s'.taken + room s'.pc < s.taken + room s.pc ∧ s'.queue = [] ∧ room s'.pc = 0) := by
  cases stepped hstep with
  | submit item => exact ⟨h, .inl rfl⟩
  | stop => exact ⟨rfl, .inl rfl⟩
  | check now hp =>
    have hs := check_same cfg now s
    exact ⟨hs.stopEvent.trans h, .inl (by rw [hs.taken, check_room h, hp]; rfl)⟩
  | take now item rest hp hq =>
    have hs := take_same cfg now item rest s
    refine ⟨hs.stopEvent.trans h, .inl ?_⟩
    rw [hs.taken, take_room, hp]
    simp [DynamicBatcher.taken, room, Nat.add_assoc]
  | timeout now hp hq =>
    have hs := timeout_same cfg now s
    refine ⟨hs.stopEvent.trans h, .inr ⟨?_, hs.queue.trans hq, timeout_room now s⟩⟩
    rw [hs.taken, timeout_room, hp]
    exact Nat.lt_succ_self _
  | batch final hp =>
    refine ⟨h, .inl ?_⟩
    rw [batch_room, hp]
    simp [DynamicBatcher.taken, batch, room]

/-- What a run after `stop` preserves, for the `n` items submitted before it. -/
structure Stopping (n level : Nat) (s : DynamicBatcher K ω α) : Prop where
  stopEvent : s.stopEvent = true
  accounted : Accounted s
  flushed : Flushed s
  before : n ≤ s.submitted.length
  reach : n ≤ s.taken + room s.pc ↔ n ≤ level

theorem Stopping.step (h : Stopping n level s) (hstep : step cfg onBatch s a = some s') :
    Stopping n level s' := by
  obtain ⟨hstop, hlevel⟩ := stopping_step h.stopEvent hstep
  have hacc := h.accounted.step hstep
  have hbefore : n ≤ s'.submitted.length := by
    rw [step_submitted hstep, List.length_append]
    exact h.before.trans (Nat.le_add_right _ _)
  refine ⟨hstop, hacc, h.flushed.step hstep, hbefore, ?_⟩
  rw [← h.reach]
  rcases hlevel with he | ⟨hlt, hq, _⟩
  · rw [he]
  · -- the queue was empty, so every item submitted by then had been taken
    have hlen := hacc.length
    rw [hq] at hlen
    simp only [List.length_nil] at hlen
    constructor <;> omega

/-- A stopped batcher has handed over what was submitted before `stop` was called
exactly when at most one item was then waiting and the thread was polling for it,
or none was. What it hands over is handed over once and in order. -/
theorem drained_iff {before after : List (BatcherAction K α)} {owner : ω}
    (h : Run (step cfg onBatch) (start owner) before s)
    (h' : Run (step cfg onBatch) s (.stop :: after) s') (hexit : s'.pc = .exited) :
    (s.submitted <+: s'.handed.flatten ∧ s'.handed.flatten <+: s'.submitted) ↔
      s.queue.length ≤ room s.pc := by
  have hacc : Accounted s := h.invariant (fun _ _ _ hs ht => hs.step ht) (start_accounted owner)
  have hfl : Flushed s := h.invariant (fun _ _ _ hs ht => hs.step ht) (fun hx => by cases hx)
  obtain ⟨m, hm, hrun⟩ := run_cons.mp h'
  cases hm
  have hstart : Stopping s.submitted.length (s.taken + room s.pc)
      ({ s with stopEvent := true } : DynamicBatcher K ω α) :=
    ⟨rfl, hacc, hfl, le_refl _, Iff.rfl⟩
  obtain ⟨_, hacc', hfl', _, hreach⟩ := hrun.invariant (fun _ _ _ hs ht => hs.step ht) hstart
  have hpre : s.submitted <+: s'.submitted := ⟨_, (run_submitted hrun).symm⟩
  have hpend := hfl' hexit
  have hhanded : s'.handed.flatten <+: s'.submitted := by
    rw [← hacc', hpend, List.append_nil]
    exact List.prefix_append _ _
  have htaken : s'.taken + room s'.pc = s'.handed.flatten.length := by
    rw [taken, hpend, hexit, List.append_nil]
    rfl
  rw [htaken, ← hacc.length] at hreach
  have hlen := hacc.length
  constructor
  · intro hx
    obtain ⟨hp, _⟩ := hx
    have := hp.length_le
    omega
  · intro hq
    exact ⟨List.prefix_of_prefix_length_le hpre hhanded (by omega), hhanded⟩

section Runs

/-- The bounds of the worker's settings. -/
def defaultConfig : BatcherConfig := ⟨8, 40, by decide⟩

/-- A callback that returns. -/
def ignore : OnBatch Unit String := fun owner _ => (owner, none)

/-- Two items wait when `stop` is called: the poll takes the first, the loop test
then ends the loop, and the second is never handed over. -/
theorem stop_drops_waiting_item :
    ¬ ∀ (before after : List (BatcherAction ℚ String)) (s s' : DynamicBatcher ℚ Unit String),
      Run (step defaultConfig ignore) (start ()) before s →
      Run (step defaultConfig ignore) s (.stop :: after) s' → s'.pc = .exited →
      s.submitted <+: s'.handed.flatten ∧ s'.handed.flatten <+: s'.submitted := by
  intro h
  have hd := h [.check 0, .submit "a", .submit "b"] [.take 0, .check 0, .batch]
    { queue := ["a", "b"], stopEvent := false, pending := [], batchStartedAt := none,
      pc := .polling maxPollIntervalS, owner := (), submitted := ["a", "b"], handed := [] }
    { queue := ["b"], stopEvent := true, pending := [], batchStartedAt := none, pc := .exited,
      owner := (), submitted := ["a", "b"], handed := [["a"]] } rfl rfl rfl
  exact absurd hd.1 (by decide)

/-- One item waits while the thread polls for it. -/
theorem drained_iff_polled_item :
    ["a"] <+: [["a"]].flatten ∧ [["a"]].flatten <+: ["a"] :=
  (@drained_iff ℚ _ _ _ Unit String defaultConfig ignore
    { queue := ["a"], stopEvent := false, pending := [], batchStartedAt := none,
      pc := .polling maxPollIntervalS, owner := (), submitted := ["a"], handed := [] }
    { queue := [], stopEvent := true, pending := [], batchStartedAt := none, pc := .exited,
      owner := (), submitted := ["a"], handed := [["a"]] }
    [.check 0, .submit "a"] [.take 0, .check 0, .batch] () rfl rfl rfl).mpr (by decide)

end Runs

end DynamicBatcher
end CamTrack
