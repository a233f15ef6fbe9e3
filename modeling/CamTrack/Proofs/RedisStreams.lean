import CamTrack.Lib.Delivery
import CamTrack.RedisStreams

namespace CamTrack
open Python Machine

namespace RedisStreams
variable {φ π : Type} {decode : φ → Except Error π} {s s' : RedisStreams φ} {id : Nat}

/-- How many entries the group has been delivered. -/
def delivered (s : RedisStreams φ) : Nat :=
  match s.group with
  | some g => g.lastDelivered
  | none => 0

def pendingIds (s : RedisStreams φ) : List Nat :=
  match s.group with
  | some g => g.pending.map Prod.fst
  | none => []

/-- Some `consume` has taken the entry off the stream. -/
def Taken (s : RedisStreams φ) (id : Nat) : Prop := id < s.delivered

def Acked (s : RedisStreams φ) (id : Nat) : Prop := s.Taken id ∧ id ∉ s.pendingIds

/-- The entries the next `consume` takes. -/
def fresh (s : RedisStreams φ) (count : Nat) : List φ := (s.entries.drop s.delivered).take count

/-- What one call of `consume` does. -/
structure Consumed (decode : φ → Except Error π) (s : RedisStreams φ) (count : Nat)
    (s' : RedisStreams φ) (result : Except Error (List (Message Nat π))) : Prop where
  entries : s'.entries = s.entries
  held : s'.held = s.held
  delivered : s'.delivered = s.delivered + (s.fresh count).length
  pendingIds : s'.pendingIds = s.pendingIds ++ List.range' s.delivered (s.fresh count).length
  result : result =
    decodeAll decode ((List.range' s.delivered (s.fresh count).length).zip (s.fresh count))

theorem zip_range_ids (n : Nat) (xs : List φ) :
    ((List.range' n xs.length).zip xs).map Prod.fst = List.range' n xs.length :=
  List.map_fst_zip (by simp)

theorem consumed_of_group (decode : φ → Except Error π) (entries : List φ) (g : ConsumerGroup)
    (held : List (String × Nat)) (name : String) (count : Nat) :
    Consumed decode ⟨entries, some g, held⟩ count
      (consume decode name count ⟨entries, some g, held⟩).1
      (consume decode name count ⟨entries, some g, held⟩).2 := by
  refine ⟨rfl, rfl, rfl, ?_, rfl⟩
  change (g.pending ++ _).map Prod.fst = g.pending.map Prod.fst ++ _
  rw [List.map_append, List.map_map]
  exact congrArg (g.pending.map Prod.fst ++ ·) (zip_range_ids _ _)

theorem consumed (decode : φ → Except Error π) (s : RedisStreams φ) (name : String) (count : Nat) :
    Consumed decode s count (s.consume decode name count).1 (s.consume decode name count).2 := by
  obtain ⟨entries, group, held⟩ := s
  cases group with
  | none =>
    obtain ⟨h1, h2, h3, h4, h5⟩ := consumed_of_group decode entries ⟨0, []⟩ held name count
    exact ⟨h1, h2, h3, h4, h5⟩
  | some g => exact consumed_of_group decode entries g held name count

/-- What a `consume` takes are entries of the stream, under their positions. -/
theorem mem_taken {fields : φ} {count : Nat}
    (h : (id, fields) ∈ (List.range' s.delivered (s.fresh count).length).zip (s.fresh count)) :
    s.delivered ≤ id ∧ id < s.delivered + (s.fresh count).length ∧
      s.entries[id]? = some fields := by
  obtain ⟨k, hk⟩ := List.mem_iff_getElem?.mp h
  obtain ⟨hi, hf⟩ := List.getElem?_zip_eq_some.mp hk
  obtain ⟨hlt, hi⟩ := List.getElem?_eq_some_iff.mp hi
  rw [List.getElem_range', Nat.one_mul] at hi
  rw [List.length_range'] at hlt
  dsimp only at hi hf
  subst hi
  refine ⟨by omega, by omega, ?_⟩
  rw [fresh, List.length_take] at hlt
  rw [fresh, List.getElem?_take_of_lt (by omega), List.getElem?_drop] at hf
  exact hf

/-- A returned message is an entry the group had not been delivered, and decodes. -/
theorem mem_returns (h : id ∈ s.returns decode (.consume name count)) :
    s.delivered ≤ id ∧ id < s.delivered + (s.fresh count).length ∧
      ∃ fields payload, s.entries[id]? = some fields ∧ decode fields = .ok payload := by
  have hc := consumed decode s name count
  simp only [returns, hc.result] at h
  split at h
  · rename_i messages hm
    obtain ⟨message, hmem, rfl⟩ := List.mem_map.mp h
    obtain ⟨fields, htaken, hd⟩ := mem_decodeAll hm hmem
    obtain ⟨hle, hlt, hf⟩ := mem_taken htaken
    exact ⟨hle, hlt, fields, message.payload, hf, hd⟩
  · simp at h

/-- An action, with what it does to the stream and the group. -/
inductive Stepped (decode : φ → Except Error π) (s : RedisStreams φ) :
    StreamAction φ → RedisStreams φ → Prop
  | publish (fields : φ) :
      Stepped decode s (.publish fields) { s with entries := s.entries ++ [fields] }
  | consume (name : String) (count : Nat) (s' : RedisStreams φ) : 0 < count →
      s'.entries = s.entries → s'.delivered = s.delivered + (s.fresh count).length →
      s'.pendingIds = s.pendingIds ++ List.range' s.delivered (s.fresh count).length →
      s'.held = s.held ++ (s.returns decode (.consume name count)).map (name, ·) →
      Stepped decode s (.consume name count) s'
  | ack (name : String) (id : Nat) (s' : RedisStreams φ) : (name, id) ∈ s.held →
      s'.entries = s.entries → s'.delivered = s.delivered →
      s'.pendingIds = s.pendingIds.filter (fun j => j ≠ id) →
      s'.held = s.held.filter (fun h => h ≠ (name, id)) → Stepped decode s (.ack name id) s'
  | fail (name : String) :
      Stepped decode s (.fail name) { s with held := s.held.filter (fun h => h.1 ≠ name) }

theorem stepped {a : StreamAction φ} (h : step decode s a = some s') : Stepped decode s a s' := by
  cases a with
  | publish fields =>
    cases h
    exact .publish fields
  | consume name count =>
    simp only [step] at h
    split at h
    · cases h
    · rename_i hcount
      cases h
      have hc := consumed decode s name count
      exact .consume name count _ (by omega) hc.entries hc.delivered hc.pendingIds rfl
  | ack name id =>
    simp only [step] at h
    split at h
    · rename_i hheld
      cases h
      refine .ack name id _ hheld rfl ?_ ?_ rfl
      · unfold xack delivered
        cases s.group <;> rfl
      · unfold xack pendingIds
        cases s.group <;> simp [List.filter_map, Function.comp_def]
    · cases h
  | fail name =>
    cases h
    exact .fail name

theorem fresh_length (s : RedisStreams φ) (count : Nat) :
    (s.fresh count).length = min count (s.entries.length - s.delivered) := by
  simp [fresh]

theorem Taken.step {a : StreamAction φ} (h : s.Taken id) (hstep : step decode s a = some s') :
    s'.Taken id := by
  unfold Taken at *
  cases stepped hstep with
  | publish fields => exact h
  | consume name count s' _ _ hd _ _ => omega
  | ack name j s' _ _ hd _ _ => omega
  | fail name => exact h

theorem entries_step {a : StreamAction φ} (hstep : step decode s a = some s') :
    s.entries <+: s'.entries := by
  cases stepped hstep with
  | publish fields => exact List.prefix_append _ _
  | consume name count s' _ he _ _ _ => rw [he]
  | ack name j s' _ he _ _ _ => rw [he]
  | fail name => exact List.prefix_rfl

theorem not_mem_returns {a : StreamAction φ}
    (h : ∀ name count, a = .consume name count → id ∉ s.returns decode a) :
    id ∉ s.returns decode a := by
  cases a with
  | consume name count => exact h name count rfl
  | publish fields => simp [returns]
  | ack name j => simp [returns]
  | fail name => simp [returns]

/-- What a `consume` has taken, no `consume` returns again. -/
theorem Taken.not_returnable (h : s.Taken id) :
    ¬ Returnable (RedisStreams.step decode) (returns decode) s id := by
  apply Machine.not_returnable (P := fun s => s.Taken id) (fun _ _ _ ht hstep => ht.step hstep) _ h
  intro s a s' ht _
  refine not_mem_returns (fun name count ha hmem => ?_)
  subst ha
  exact absurd ht (Nat.not_lt.mpr (mem_returns hmem).1)

theorem not_returnable_of_undecodable {fields : φ} (hf : s.entries[id]? = some fields)
    (hd : ∀ payload, decode fields ≠ .ok payload) :
    ¬ Returnable (RedisStreams.step decode) (returns decode) s id := by
  apply Machine.not_returnable (P := fun s => s.entries[id]? = some fields) _ _ hf
  · intro s a s' he hstep
    obtain ⟨more, hmore⟩ := entries_step hstep
    rw [← hmore, List.getElem?_append_left (List.getElem?_eq_some_iff.mp he).1]
    exact he
  · intro s a s' he _
    refine not_mem_returns (fun name count ha hmem => ?_)
    subst ha
    obtain ⟨_, _, fields', payload, he', hp⟩ := mem_returns hmem
    rw [he] at he'
    cases he'
    exact hd payload hp

theorem consume_step (decode : φ → Except Error π) (s : RedisStreams φ) (name : String) :
    ∃ s', RedisStreams.step decode s (.consume name 1) = some s' :=
  ⟨_, rfl⟩

/-- The next entry is returned by a `consume` of one message. -/
theorem consume_next {fields : φ} {payload : π} (hf : s.entries[s.delivered]? = some fields)
    (hd : decode fields = .ok payload) (name : String) :
    (s.consume decode name 1).2 = .ok [⟨s.delivered, payload⟩] := by
  obtain ⟨hlen, he⟩ := List.getElem?_eq_some_iff.mp hf
  have hfresh : s.fresh 1 = [fields] := by
    rw [fresh, List.drop_eq_getElem_cons hlen, he]
    rfl
  rw [(consumed decode s name 1).result, hfresh]
  exact decodeAll_singleton _ hd

theorem returns_next {fields : φ} {payload : π} (hf : s.entries[s.delivered]? = some fields)
    (hd : decode fields = .ok payload) (name : String) :
    s.returns decode (.consume name 1) = [s.delivered] := by
  simp [returns, consume_next hf hd name]

/-- An entry that has not been taken is returned once the ones before it are taken. -/
theorem returnable_of_decodes {fields : φ} {payload : π} (hf : s.entries[id]? = some fields)
    (hd : decode fields = .ok payload) (hn : ¬ s.Taken id) :
    Returnable (RedisStreams.step decode) (returns decode) s id := by
  obtain ⟨k, hk⟩ : ∃ k, id = s.delivered + k := ⟨id - s.delivered, by unfold Taken at hn; omega⟩
  have hlen := (List.getElem?_eq_some_iff.mp hf).1
  induction k generalizing s with
  | zero =>
    subst hk
    obtain ⟨s', hs'⟩ := consume_step decode s "reader"
    exact .of_step hs' (by rw [returns_next hf hd]; exact List.mem_singleton_self _)
  | succ k ih =>
    obtain ⟨s', hs'⟩ := consume_step decode s "reader"
    have hrest : Returnable (RedisStreams.step decode) (returns decode) s' id := by
      cases stepped hs' with
      | consume _ _ _ _ he hdel _ _ =>
        have hone : s'.delivered = s.delivered + 1 := by
          rw [hdel, fresh_length]
          omega
        exact ih (he ▸ hf) (by unfold Taken; omega) (by omega) (he ▸ hlen)
    exact hrest.of_run (run_singleton.mpr hs')

/-- What a run so far says of the group: the pending entries are those taken and
not acked by anybody. -/
structure Recorded (actions : List (StreamAction φ)) (s : RedisStreams φ) : Prop where
  inBounds : s.delivered ≤ s.entries.length
  held : ∀ h ∈ s.held, h.2 < s.delivered
  acked : ∀ name id, .ack name id ∈ actions → id < s.delivered
  pending : ∀ id, id ∈ s.pendingIds ↔
    id < s.delivered ∧ ∀ name, StreamAction.ack name id ∉ actions

section Recording
variable {actions : List (StreamAction φ)} {a : StreamAction φ}

theorem ack_mem_concat (ha : ∀ name id, a ≠ .ack name id) (name : String) (id : Nat) :
    StreamAction.ack name id ∈ actions ++ [a] ↔ StreamAction.ack name id ∈ actions := by
  simp [(ha name id).symm]

/-- An action that neither takes nor acks an entry. -/
theorem Recorded.still (h : Recorded actions s) (ha : ∀ name id, a ≠ .ack name id)
    (he : s.entries.length ≤ s'.entries.length) (hh : s'.held ⊆ s.held)
    (hd : s'.delivered = s.delivered) (hp : s'.pendingIds = s.pendingIds) :
    Recorded (actions ++ [a]) s' := by
  refine ⟨?_, fun held hm => ?_, ?_, ?_⟩
  · rw [hd]
    exact h.inBounds.trans he
  · rw [hd]
    exact h.held held (hh hm)
  · simpa only [ack_mem_concat ha, hd] using h.acked
  · simpa only [ack_mem_concat ha, hd, hp] using h.pending

/-- What a `consume` takes becomes pending. -/
theorem Recorded.consume (h : Recorded actions s) (ha : ∀ name id, a ≠ .ack name id)
    (he : s'.entries = s.entries) (hd : s'.delivered = s.delivered + (s.fresh count).length)
    (hp : s'.pendingIds = s.pendingIds ++ List.range' s.delivered (s.fresh count).length)
    (hh : ∀ held ∈ s'.held, held ∈ s.held ∨ held.2 < s'.delivered) :
    Recorded (actions ++ [a]) s' := by
  have hlen := fresh_length s count
  have hbounds := h.inBounds
  refine ⟨by rw [he]; omega, fun held hm => ?_, fun name id hack => ?_, fun id => ?_⟩
  · rcases hh held hm with hold | hnew
    · have := h.held held hold
      omega
    · exact hnew
  · have := h.acked name id ((ack_mem_concat ha name id).mp hack)
    omega
  · simp only [ack_mem_concat ha, hp, List.mem_append, h.pending, List.mem_range'_1]
    constructor
    · intro hx
      rcases hx with ⟨hlt, hack⟩ | ⟨hge, hlt⟩
      · exact ⟨by omega, hack⟩
      · refine ⟨by omega, fun name hack => ?_⟩
        have := h.acked name id hack
        omega
    · intro hx
      obtain ⟨hlt, hack⟩ := hx
      by_cases hold : id < s.delivered
      · exact .inl ⟨hold, hack⟩
      · exact .inr ⟨by omega, by omega⟩

/-- An acked entry is pending no more. -/
theorem Recorded.ack (h : Recorded actions s) (hj : j < s.delivered)
    (he : s'.entries = s.entries) (hd : s'.delivered = s.delivered)
    (hp : s'.pendingIds = s.pendingIds.filter (fun id => id ≠ j)) (hh : s'.held ⊆ s.held) :
    Recorded (actions ++ [.ack name j]) s' := by
  refine ⟨by rw [hd, he]; exact h.inBounds, fun held hm => ?_, fun name' id hack => ?_,
    fun id => ?_⟩
  · rw [hd]
    exact h.held held (hh hm)
  · rw [hd]
    rcases List.mem_append.mp hack with hack | hack
    · exact h.acked name' id hack
    · cases List.mem_singleton.mp hack
      exact hj
  · simp only [hp, List.mem_filter, h.pending, hd, List.mem_append, List.mem_singleton,
      StreamAction.ack.injEq, decide_eq_true_eq, not_or, not_and]
    constructor
    · intro hx
      obtain ⟨⟨hlt, hack⟩, hne⟩ := hx
      exact ⟨hlt, fun name' => ⟨hack name', fun _ => hne⟩⟩
    · intro hx
      obtain ⟨hlt, hack⟩ := hx
      exact ⟨⟨hlt, fun name' => (hack name').1⟩, (hack name).2 rfl⟩

theorem Recorded.step (h : Recorded actions s) (hstep : step decode s a = some s') :
    Recorded (actions ++ [a]) s' := by
  cases stepped hstep with
  | publish fields =>
    exact h.still (by simp) (by simp) (List.Subset.refl _) rfl rfl
  | consume name count s' hcount he hd hp hh =>
    refine h.consume (by simp) he hd hp (fun held hm => ?_)
    rw [hh] at hm
    rcases List.mem_append.mp hm with hm | hm
    · exact .inl hm
    · obtain ⟨id, hi, rfl⟩ := List.mem_map.mp hm
      have := (mem_returns hi).2.1
      exact .inr (by simp only; omega)
  | ack name j s' hheld he hd hp hh =>
    refine h.ack (h.held _ hheld) he hd hp ?_
    rw [hh]
    exact List.filter_subset_self _
  | fail name => exact h.still (by simp) (Nat.le_refl _) (List.filter_subset_self _) rfl rfl

end Recording

theorem recorded {actions : List (StreamAction φ)}
    (h : Run (RedisStreams.step decode) new actions s) : Recorded actions s := by
  induction actions using List.reverseRecOn generalizing s with
  | nil =>
    obtain rfl := run_nil.mp h
    exact ⟨Nat.le_refl 0, by simp [new], by simp, by simp [new, pendingIds, delivered]⟩
  | append_singleton actions a ih =>
    obtain ⟨m, hm, hlast⟩ := run_append.mp h
    exact (ih hm).step (run_singleton.mp hlast)

theorem Recorded.acked_iff {actions : List (StreamAction φ)} (h : Recorded actions s) :
    s.Acked id ↔ ∃ name, .ack name id ∈ actions := by
  constructor
  · intro hx
    obtain ⟨htaken, hn⟩ := hx
    rw [h.pending] at hn
    simpa [Taken] using not_and.mp hn htaken
  · intro hx
    obtain ⟨name, ha⟩ := hx
    refine ⟨h.acked name id ha, fun hp => ?_⟩
    exact ((h.pending id).mp hp).2 name ha

/-- An entry that is pending while no living consumer has its message. -/
structure Abandoned (s : RedisStreams φ) (id : Nat) : Prop where
  taken : s.Taken id
  pending : id ∈ s.pendingIds
  unheld : ∀ name, (name, id) ∉ s.held

theorem Abandoned.step {a : StreamAction φ} (h : Abandoned s id)
    (hstep : step decode s a = some s') : Abandoned s' id := by
  have htaken := h.taken.step hstep
  cases stepped hstep with
  | publish fields => exact ⟨htaken, h.pending, h.unheld⟩
  | consume name count s' _ _ _ hp hh =>
    refine ⟨htaken, hp ▸ List.mem_append_left _ h.pending, fun name' hm => ?_⟩
    rw [hh] at hm
    rcases List.mem_append.mp hm with hm | hm
    · exact h.unheld name' hm
    · obtain ⟨j, hj, he⟩ := List.mem_map.mp hm
      cases he
      exact absurd h.taken (Nat.not_lt.mpr (mem_returns hj).1)
  | ack name j s' hheld _ _ hp hh =>
    have hne : id ≠ j := by
      intro hx
      subst hx
      exact h.unheld name hheld
    refine ⟨htaken, ?_, fun name' hm => ?_⟩
    · rw [hp]
      exact List.mem_filter.mpr ⟨h.pending, by simpa using hne⟩
    · rw [hh] at hm
      exact h.unheld name' (List.mem_filter.mp hm).1
  | fail name =>
    exact ⟨htaken, h.pending, fun name' hm => h.unheld name' (List.mem_filter.mp hm).1⟩

/-- A message whose consumer ended before its `ack` is lost for good. -/
theorem Abandoned.lost {more : List (StreamAction φ)} (h : Abandoned s id)
    (hmore : Run (RedisStreams.step decode) s more s') :
    ¬ s'.Acked id ∧ ¬ Returnable (RedisStreams.step decode) (returns decode) s' id := by
  have hend := hmore.invariant (P := fun s => Abandoned s id) (fun _ _ _ hm hs => hm.step hs) h
  exact ⟨fun ha => ha.2 hend.pending, hend.taken.not_returnable⟩

/-- At any moment every published message is acked or can still be returned by a
`consume`, exactly when every entry that a `consume` has taken has been acked and
every other one decodes. -/
theorem acked_or_returnable_iff {actions : List (StreamAction φ)}
    (h : Run (RedisStreams.step decode) new actions s) :
    (∀ id < s.entries.length, s.Acked id ∨
        Returnable (RedisStreams.step decode) (returns decode) s id) ↔
      (∀ id, s.Taken id → ∃ name, .ack name id ∈ actions) ∧
      ∀ id fields, s.entries[id]? = some fields → ¬ s.Taken id →
        ∃ payload, decode fields = .ok payload := by
  have hrec := recorded h
  constructor
  · intro hall
    refine ⟨fun id ht => ?_, fun id fields hf hn => ?_⟩
    · rcases hall id (ht.trans_le hrec.inBounds) with ha | hr
      · exact hrec.acked_iff.mp ha
      · exact absurd hr ht.not_returnable
    · by_contra hd
      rcases hall id (List.getElem?_eq_some_iff.mp hf).1 with ha | hr
      · exact hn ha.1
      · exact not_returnable_of_undecodable hf (not_exists.mp hd) hr
  · rintro ⟨htaken, hdecodes⟩ id hid
    by_cases ht : s.Taken id
    · exact .inl (hrec.acked_iff.mpr (htaken id ht))
    · have hf := List.getElem?_eq_getElem hid
      obtain ⟨payload, hd⟩ := hdecodes id _ hf ht
      exact .inr (returnable_of_decodes hf hd ht)

section Runs

/-- Payloads that all decode. -/
def plain (data : String) : Except Error String := .ok data

/-- A consumer ends between its `consume` and its `ack`. -/
theorem crashed_consumer_loses_message :
    ¬ ∀ (actions : List (StreamAction String)) (s : RedisStreams String),
      Run (RedisStreams.step plain) new actions s → ∀ id < s.entries.length,
        s.Acked id ∨ Returnable (RedisStreams.step plain) (returns plain) s id := by
  intro h
  let s : RedisStreams String := ⟨["frame"], some ⟨1, [(0, "worker-1")]⟩, []⟩
  have hrun : Run (RedisStreams.step plain) new
      [.publish "frame", .consume "worker-1" 10, .fail "worker-1"] s := rfl
  have hlost : Abandoned s 0 := ⟨Nat.zero_lt_one, List.mem_singleton_self 0, by simp [s]⟩
  have hend : Run (RedisStreams.step plain) s [] s := run_nil.mpr rfl
  rcases h _ s hrun 0 Nat.zero_lt_one with ha | hr
  · exact (hlost.lost hend).1 ha
  · exact (hlost.lost hend).2 hr

/-- One message is acked and the next has not been taken. -/
theorem acked_or_returnable_two :
    ∃ s, Run (RedisStreams.step plain) new
        [.publish "frame-1", .consume "worker-1" 10, .ack "worker-1" 0, .publish "frame-2"] s ∧
      s.entries.length = 2 ∧ ∀ id < s.entries.length,
        s.Acked id ∨ Returnable (RedisStreams.step plain) (returns plain) s id := by
  let s : RedisStreams String := ⟨["frame-1", "frame-2"], some ⟨1, []⟩, []⟩
  have hrun : Run (RedisStreams.step plain) new
      [.publish "frame-1", .consume "worker-1" 10, .ack "worker-1" 0, .publish "frame-2"] s := rfl
  refine ⟨s, hrun, rfl, (acked_or_returnable_iff hrun).mpr ⟨fun id ht => ⟨"worker-1", ?_⟩, ?_⟩⟩
  · obtain rfl : id = 0 := Nat.lt_one_iff.mp ht
    simp
  · exact fun _ fields _ _ => ⟨fields, rfl⟩

end Runs

end RedisStreams
end CamTrack
