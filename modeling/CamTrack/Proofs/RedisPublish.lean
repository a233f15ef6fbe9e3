import CamTrack.RedisPublish

namespace CamTrack
open Machine RetryConstants

namespace Publishers
variable {φ : Type} {entries : List φ} {call : PublishCall φ} {s s' : Publishers φ}

/-- How far a call has come, and what it has slept and sent on the way. -/
structure Attempted (call : PublishCall φ) : Prop where
  slept : call.slept = (List.range call.attempt).map retryBackoffSeconds
  going : call.result = none → call.attempt < maxRetries ∧ call.copies.length ≤ call.attempt
  ended : call.result ≠ none → call.attempt ≤ maxRetries ∧ call.copies.length ≤ maxRetries
  returned : ∀ j, call.result = some (.returned j) → j ∈ call.copies
  exhausted : call.result = some .connectionError → call.attempt = maxRetries

theorem new_attempted (fields : φ) : Attempted (PublishCall.new fields) := by
  have hfirst : 0 < maxRetries := by decide
  refine ⟨rfl, fun _ => ⟨hfirst, le_rfl⟩, fun h => absurd rfl h, fun j h => ?_, fun h => ?_⟩
  · cases h
  · cases h

@[simp] theorem fields_xadd (position : Nat) (outcome : XaddOutcome) (call : PublishCall φ) :
    (call.xadd position outcome).fields = call.fields := by
  cases outcome <;> rfl

theorem copies_xadd (position : Nat) (outcome : XaddOutcome) (call : PublishCall φ) :
    (call.xadd position outcome).copies =
      if outcome.arrives then call.copies ++ [position] else call.copies := by
  cases outcome <;> rfl

theorem Attempted.xadd (h : Attempted call) (hgoing : call.result = none) (position : Nat)
    (outcome : XaddOutcome) : Attempted (call.xadd position outcome) := by
  obtain ⟨hattempt, hcopies⟩ := h.going hgoing
  have hlength : (call.xadd position outcome).copies.length ≤ call.attempt + 1 := by
    rw [copies_xadd]
    split
    · simpa using hcopies
    · exact hcopies.trans (Nat.le_succ _)
  cases outcome with
  | returned =>
    refine ⟨h.slept, fun he => (by cases he), fun _ => ⟨hattempt.le, hlength.trans hattempt⟩,
      ?_, ?_⟩
    · intro j he
      cases he
      simp [PublishCall.xadd, XaddOutcome.arrives]
    · intro he
      cases he
  | otherError arrived =>
    refine ⟨h.slept, fun he => (by cases he), fun _ => ⟨hattempt.le, hlength.trans hattempt⟩,
      ?_, ?_⟩
    · intro j he
      cases he
    · intro he
      cases he
  | connectionError arrived =>
    have hslept : (call.xadd position (.connectionError arrived)).slept =
        (List.range (call.attempt + 1)).map retryBackoffSeconds := by
      simp [PublishCall.xadd, h.slept, List.range_succ]
    refine ⟨hslept, ?_, fun _ => ⟨hattempt, hlength.trans hattempt⟩, ?_, ?_⟩
    · intro he
      simp only [PublishCall.xadd] at he
      split at he
      · rename_i hlt
        exact ⟨hlt, hlength⟩
      · cases he
    · intro j he
      simp only [PublishCall.xadd] at he
      split at he <;> cases he
    · intro he
      simp only [PublishCall.xadd] at he
      split at he
      · cases he
      · rename_i hlt
        exact Nat.le_antisymm hattempt (Nat.not_lt.mp hlt)

/-- Every entry is a copy that one of the calls has made. -/
structure Owned (s : Publishers φ) : Prop where
  attempted : ∀ call ∈ s.calls, Attempted call
  placed : ∀ call ∈ s.calls, ∀ j ∈ call.copies, s.entries[j]? = some call.fields
  shared : (s.calls.flatMap PublishCall.copies).Perm (List.range s.entries.length)

theorem new_owned : Owned (new : Publishers φ) :=
  ⟨fun _ h => (by cases h), fun _ h => (by cases h), List.Perm.refl _⟩

theorem Owned.xadd {before after : List (PublishCall φ)} (h : Owned s)
    (hcalls : s.calls = before ++ call :: after) (hgoing : call.result = none)
    (outcome : XaddOutcome) : Owned {
      entries := if outcome.arrives then s.entries ++ [call.fields] else s.entries
      calls := before ++ call.xadd s.entries.length outcome :: after } := by
  have hcall : call ∈ s.calls := hcalls ▸ List.mem_append_right _ List.mem_cons_self
  have hrest : ∀ other ∈ before ++ call.xadd s.entries.length outcome :: after,
      other = call.xadd s.entries.length outcome ∨ other ∈ s.calls := by
    intro other hother
    rw [hcalls]
    simp only [List.mem_append, List.mem_cons] at hother ⊢
    tauto
  have hprefix : s.entries <+: if outcome.arrives then s.entries ++ [call.fields]
      else s.entries := by
    split
    · exact List.prefix_append _ _
    · exact List.prefix_rfl
  have hold : ∀ other ∈ s.calls, ∀ j ∈ other.copies,
      (if outcome.arrives then s.entries ++ [call.fields] else s.entries)[j]? =
        some other.fields := by
    intro other hother j hj
    have hentry := h.placed other hother j hj
    obtain ⟨more, hmore⟩ := hprefix
    rw [← hmore, List.getElem?_append_left (List.getElem?_eq_some_iff.mp hentry).1, hentry]
  refine ⟨?_, ?_, ?_⟩
  · intro other hother
    rcases hrest other hother with rfl | hother
    · exact (h.attempted call hcall).xadd hgoing _ outcome
    · exact h.attempted other hother
  · intro other hother j hj
    rcases hrest other hother with rfl | hother
    · rw [copies_xadd] at hj
      rw [fields_xadd]
      split at hj
      · rename_i harrives
        rcases List.mem_append.mp hj with hj | hj
        · exact hold call hcall j hj
        · rw [List.mem_singleton.mp hj, if_pos harrives, List.getElem?_concat_length]
      · exact hold call hcall j hj
    · exact hold other hother j hj
  · have hshared := h.shared
    rw [hcalls] at hshared
    simp only [List.flatMap_append, List.flatMap_cons] at hshared ⊢
    rw [copies_xadd]
    split
    · rw [List.length_append, List.length_singleton, List.range_succ]
      refine List.Perm.trans ?_ (hshared.append_right [s.entries.length])
      simp only [List.append_assoc]
      exact (List.Perm.append_left _ (List.Perm.append_left _ List.perm_append_comm))
    · exact hshared

theorem Owned.step {a : PublishAction φ} (h : Owned s) (hstep : step s a = some s') :
    Owned s' := by
  cases a with
  | publish fields =>
    cases hstep
    refine ⟨?_, ?_, by simpa [PublishCall.new] using h.shared⟩
    · intro call hcall
      rcases List.mem_append.mp hcall with hcall | hcall
      · exact h.attempted call hcall
      · rw [List.mem_singleton.mp hcall]
        exact new_attempted fields
    · intro call hcall j hj
      rcases List.mem_append.mp hcall with hcall | hcall
      · exact h.placed call hcall j hj
      · rw [List.mem_singleton.mp hcall] at hj
        cases hj
  | xadd c outcome =>
    obtain ⟨call, hcall, hstep⟩ := Option.bind_eq_some_iff.mp hstep
    split at hstep
    · cases hstep
    · rename_i hgoing
      cases hstep
      obtain ⟨hlt, hget⟩ := List.getElem?_eq_some_iff.mp hcall
      obtain ⟨before, after, hcalls, _, hset⟩ :=
        @List.exists_of_set _ c (call.xadd s.entries.length outcome) s.calls hlt
      rw [hset]
      rw [hget] at hcalls
      exact h.xadd hcalls (by simpa using hgoing) outcome

theorem slept_le {attempt : Nat} (h : attempt ≤ maxRetries) :
    ((List.range attempt).map retryBackoffSeconds).sum ≤ 31 := by
  unfold maxRetries at h
  interval_cases attempt <;> decide +kernel

/-- Whatever fails and whoever else publishes, every entry of the stream is a copy of one call,
a call makes five at most, has made the one whose id it returns, and raises for want of a
connection only after five attempts and 31 seconds of sleep. -/
theorem publishes_owned {actions : List (PublishAction φ)} (h : Run step new actions s) :
    (∀ call ∈ s.calls, (∀ j ∈ call.copies, s.entries[j]? = some call.fields) ∧
      call.copies.length ≤ maxRetries ∧
      (∀ j, call.result = some (.returned j) → j ∈ call.copies) ∧
      (call.result = some .connectionError → call.slept.sum = 31) ∧ call.slept.sum ≤ 31) ∧
    (s.calls.flatMap PublishCall.copies).Perm (List.range s.entries.length) := by
  have howned := h.invariant (P := Owned) (fun _ _ _ hs hstep => hs.step hstep) new_owned
  refine ⟨fun call hcall => ?_, howned.shared⟩
  have hattempted := howned.attempted call hcall
  have hbounds : call.attempt ≤ maxRetries ∧ call.copies.length ≤ maxRetries := by
    by_cases hresult : call.result = none
    · obtain ⟨hlt, hle⟩ := hattempted.going hresult
      exact ⟨hlt.le, hle.trans hlt.le⟩
    · exact hattempted.ended hresult
  refine ⟨howned.placed call hcall, hbounds.2, hattempted.returned, fun hraised => ?_, ?_⟩
  · rw [hattempted.slept, hattempted.exhausted hraised]
    decide +kernel
  · rw [hattempted.slept]
    exact slept_le hbounds.1

/-- The answer to the first attempt of a call is lost, and another call gets in between. -/
theorem publishes_owned_answer_lost : ∃ s : Publishers String,
    Run step new [.publish "frame-1", .publish "frame-2", .xadd 0 (.connectionError true),
      .xadd 1 .returned, .xadd 0 .returned] s ∧
    s.entries = ["frame-1", "frame-2", "frame-1"] ∧
      (s.calls.flatMap PublishCall.copies).Perm (List.range s.entries.length) := by
  let s : Publishers String := ⟨["frame-1", "frame-2", "frame-1"],
    [⟨"frame-1", 1, [0, 2], [1], some (.returned 2)⟩, ⟨"frame-2", 0, [1], [], some (.returned 1)⟩]⟩
  have hs : Run step new [.publish "frame-1", .publish "frame-2", .xadd 0 (.connectionError true),
      .xadd 1 .returned, .xadd 0 .returned] s := by
    unfold Run
    decide +kernel
  exact ⟨s, hs, rfl, (publishes_owned hs).2⟩

end Publishers
end CamTrack
