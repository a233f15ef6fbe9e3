import CamTrack.Proofs.Batcher

namespace CamTrack
open Python Machine

namespace DynamicBatcher

section Sizes
variable {K ω α : Type} {cfg : BatcherConfig} {onBatch : OnBatch ω α} {s : DynamicBatcher K ω α}

/-- The batch sizes a batcher keeps: those handed over are not empty and not too
large, and one in the making has room for an item or is being handed over. -/
structure Filling (cfg : BatcherConfig) (s : DynamicBatcher K ω α) : Prop where
  handed : ∀ batch ∈ s.handed, batch ≠ [] ∧ batch.length ≤ cfg.maxBatchSize
  room : (∀ final, s.pc ≠ .flushing final) → s.pending.length < cfg.maxBatchSize
  flushing : ∀ final, s.pc = .flushing final →
    s.pending ≠ [] ∧ s.pending.length ≤ cfg.maxBatchSize
  clock : s.batchStartedAt = none ↔ s.pending = []

theorem start_filling (cfg : BatcherConfig) (owner : ω) :
    Filling cfg (start owner : DynamicBatcher K ω α) :=
  ⟨fun _ h => (nomatch h), fun _ => cfg.sizePos, fun _ h => (nomatch h), by simp [start]⟩

theorem Filling.clocked (h : Filling cfg s) : Clocked s :=
  fun hp hn => hp (h.clock.mp hn)

/-- Handing over what there is, unless there is nothing. -/
theorem flush_filling (final : Bool)
    (hh : ∀ batch ∈ s.handed, batch ≠ [] ∧ batch.length ≤ cfg.maxBatchSize)
    (hle : s.pending.length ≤ cfg.maxBatchSize) (hc : s.batchStartedAt = none ↔ s.pending = []) :
    Filling cfg (s.flush final) := by
  unfold flush
  by_cases hp : s.pending = []
  · rw [if_pos (by simp [hp])]
    refine ⟨hh, fun _ => ?_, fun f hf => ?_, by simp [hp]⟩
    · have hpos := cfg.sizePos
      simp only [hp, List.length_nil]
      omega
    · cases final <;> cases hf
  · rw [if_neg (by simp [hp])]
    exact ⟨hh, fun hn => absurd rfl (hn final), fun _ _ => ⟨hp, hle⟩, hc⟩

theorem batch_filling (h : Filling cfg s) (hp : s.pc = .flushing final) :
    Filling cfg (s.batch onBatch final) := by
  refine ⟨?_, fun _ => ?_, fun f hf => ?_, by simp [batch]⟩
  · intro batch hb
    rcases List.mem_append.mp hb with hb | hb
    · exact h.handed batch hb
    · obtain rfl := List.mem_singleton.mp hb
      exact h.flushing final hp
  · exact cfg.sizePos
  · simp only [batch] at hf
    split at hf
    · cases hf
    · split at hf <;> cases hf

theorem take_filling (now : K) (item : α) (rest : List α) (h : Filling cfg s)
    (hp : s.pc = .polling t) : Filling cfg (s.take cfg now item rest) := by
  have hroom := h.room (fun final hf => by rw [hp] at hf; cases hf)
  have hlen : (s.collect now item rest).pending.length = s.pending.length + 1 := by
    simp [collect]
  have hclock : (s.collect now item rest).batchStartedAt = none ↔
      (s.collect now item rest).pending = [] := by
    by_cases he : s.pending = []
    · simp [collect, he]
    · have hstarted : s.batchStartedAt ≠ none := fun hn => he (h.clock.mp hn)
      simp [collect, he, hstarted]
  unfold take
  dsimp only
  split
  · exact flush_filling false h.handed (by omega) hclock
  · refine ⟨h.handed, fun _ => ?_, fun _ hf => ?_, hclock⟩
    · change (s.collect now item rest).pending.length < _
      omega
    · cases hf

end Sizes

variable {K : Type} [Field K] [LinearOrder K] [Rounding K] {ω α : Type} {cfg : BatcherConfig}
  {onBatch : OnBatch ω α} {s s' : DynamicBatcher K ω α}

theorem check_filling (now : K) (h : Filling cfg s) (hp : s.pc = .head) :
    Filling cfg (s.check cfg now) := by
  have hroom := h.room (fun final hf => by rw [hp] at hf; cases hf)
  unfold check
  split
  · exact flush_filling true h.handed hroom.le h.clock
  · exact ⟨h.handed, fun _ => hroom, fun _ hf => (nomatch hf), h.clock⟩

theorem timeout_filling (now : K) (h : Filling cfg s) (hp : s.pc = .polling t) :
    Filling cfg (s.timeout cfg now) := by
  have hroom := h.room (fun final hf => by rw [hp] at hf; cases hf)
  unfold timeout
  split
  · exact ⟨h.handed, fun _ => hroom, fun _ hf => (nomatch hf), h.clock⟩
  · split
    · exact ⟨h.handed, fun _ => hroom, fun _ hf => (nomatch hf), h.clock⟩
    · split
      · exact flush_filling false h.handed hroom.le h.clock
      · exact ⟨h.handed, fun _ => hroom, fun _ hf => (nomatch hf), h.clock⟩

theorem Filling.step (h : Filling cfg s) (hstep : step cfg onBatch s a = some s') :
    Filling cfg s' := by
  cases stepped hstep with
  | submit item => exact ⟨h.handed, h.room, h.flushing, h.clock⟩
  | stop => exact ⟨h.handed, h.room, h.flushing, h.clock⟩
  | check now hp => exact check_filling now h hp
  | take now item rest hp _ => exact take_filling now item rest h hp
  | timeout now hp _ => exact timeout_filling now h hp
  | batch final hp => exact batch_filling h hp

/-- Only a callback that raises can end the thread with an exception. -/
theorem alive_step (hok : ∀ owner batch, (onBatch owner batch).2 = none) (h : Filling cfg s)
    (ha : ∀ e, s.pc ≠ .died e) (hstep : DynamicBatcher.step cfg onBatch s a = some s') :
    ∀ e, s'.pc ≠ .died e := by
  cases stepped hstep with
  | submit item => exact ha
  | stop => exact ha
  | check now _ => exact check_alive now s
  | take now item rest _ _ => exact take_alive cfg now item rest s
  | timeout now _ _ => exact timeout_alive now h.clocked
  | batch final _ =>
    intro e
    simp only [batch, hok]
    cases final <;> simp

/-- While the callback does not raise, every submitted item is handed over once and
in order, in batches that are neither empty nor too large. -/
theorem handed_in_order (hok : ∀ owner batch, (onBatch owner batch).2 = none) {owner : ω}
    (h : Run (DynamicBatcher.step cfg onBatch) (start owner) actions s) :
    s.handed.flatten ++ s.pending ++ s.queue = submissions actions ∧
      (∀ batch ∈ s.handed, batch ≠ [] ∧ batch.length ≤ cfg.maxBatchSize) ∧
      (s.pc = .head → s.pending.length < cfg.maxBatchSize) ∧
      (s.batchStartedAt = none ↔ s.pending = []) ∧
      (s.pending ≠ [] → ∀ now, timeLeft cfg s.batchStartedAt now ≠ none) ∧
      ∀ e, s.pc ≠ .died e := by
  have hinv : Filling cfg s ∧ ∀ e, s.pc ≠ .died e := by
    apply h.invariant (P := fun s => Filling cfg s ∧ ∀ e, s.pc ≠ .died e)
    · intro m a m' hm hstep
      exact ⟨hm.1.step hstep, alive_step hok hm.1 hm.2 hstep⟩
    · exact ⟨start_filling cfg owner, fun e he => (nomatch he)⟩
  obtain ⟨hfill, halive⟩ := hinv
  refine ⟨run_accounted h, hfill.handed, fun hp => ?_, hfill.clock, fun hp now => ?_, halive⟩
  · exact hfill.room (fun final hf => by rw [hp] at hf; cases hf)
  · have hstarted := hfill.clocked hp
    simpa [timeLeft] using hstarted

/-- Three items in batches of at most two: one batch is full, and one item pending. -/
theorem three_handed_in_order :
    ∃ s : DynamicBatcher ℚ Unit Nat, s.handed = [[1, 2]] ∧
      s.handed.flatten ++ s.pending ++ s.queue = [1, 2, 3] := by
  let s : DynamicBatcher ℚ Unit Nat :=
    { queue := [], stopEvent := false, pending := [3], batchStartedAt := some 1, pc := .head
      owner := (), submitted := [1, 2, 3], handed := [[1, 2]] }
  have hrun : Run (DynamicBatcher.step ⟨2, 40, by decide⟩ (fun _ _ => ((), none))) (start ())
      [.submit 1, .submit 2, .check 0, .take 0, .check 0, .submit 3, .take 0, .batch, .check 1,
        .take 1] s := rfl
  exact ⟨s, rfl, (handed_in_order (fun _ _ => rfl) hrun).1⟩

end DynamicBatcher
end CamTrack
