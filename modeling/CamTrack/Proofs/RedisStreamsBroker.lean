import CamTrack.RedisStreamsBroker
import CamTrack.Proofs.RedisStreams

namespace CamTrack
open Python Machine

/-- A call that publishes. -/
def StreamCall.publishes {φ : Type} : StreamCall φ → Bool
  | .publish _ _ => true
  | _ => false

/-- A call that consumes `stream` for `group`. -/
def StreamCall.consumes {φ : Type} (stream group : String) : StreamCall φ → Bool
  | .consume stream' group' _ _ => decide (stream' = stream ∧ group' = group)
  | _ => false

namespace RedisStreamsBroker
variable {φ π : Type} {decode : φ → Except Error π} {s s' : RedisStreamsBroker φ}
  {stream group : String}

/-- The stream and the group as `XREADGROUP` finds them. -/
def ready (stream group : String) (s : RedisStreamsBroker φ) : RedisStreams φ :=
  (s.ensureGroup stream group).view stream group

/-- The groups that the object takes for granted exist. -/
def Sound (s : RedisStreamsBroker φ) : Prop :=
  ∀ stream group, (stream, group) ∈ s.knownGroups → (s.groups stream group).isSome

@[simp] theorem setGroup_self (g : Option ConsumerGroup) :
    (s.setGroup stream group g).groups stream group = g := by
  simp [setGroup]

theorem setGroup_of_ne {g : Option ConsumerGroup} {stream' group' : String}
    (h : ¬(stream' = stream ∧ group' = group)) :
    (s.setGroup stream group g).groups stream' group' = s.groups stream' group' := by
  by_cases hs : stream' = stream
  · subst hs
    have hg : group' ≠ group := fun hg => h ⟨rfl, hg⟩
    simp [setGroup, Function.update_of_ne hg]
  · simp [setGroup, Function.update_of_ne hs]

theorem setGroup_isSome {g : Option ConsumerGroup} (hg : g.isSome) {stream' group' : String}
    (h : (s.groups stream' group').isSome) :
    ((s.setGroup stream group g).groups stream' group').isSome := by
  by_cases hx : stream' = stream ∧ group' = group
  · obtain ⟨rfl, rfl⟩ := hx
    rwa [setGroup_self]
  · rwa [setGroup_of_ne hx]

theorem ensureGroup_of_known (h : (stream, group) ∈ s.knownGroups) :
    s.ensureGroup stream group = s := by
  simp [ensureGroup, h]

theorem ensureGroup_of_unknown (h : (stream, group) ∉ s.knownGroups) :
    s.ensureGroup stream group =
      { s.setGroup stream group (s.view stream group).ensureGroup.group with
        knownGroups := s.knownGroups ++ [(stream, group)] } := by
  simp [ensureGroup, h]

theorem ensureGroup_sound (h : Sound s) (stream group : String) :
    Sound (s.ensureGroup stream group) ∧ ((s.ensureGroup stream group).groups stream group).isSome ∧
      (s.ensureGroup stream group).entries = s.entries ∧
      (stream, group) ∈ (s.ensureGroup stream group).knownGroups := by
  by_cases hknown : (stream, group) ∈ s.knownGroups
  · rw [ensureGroup_of_known hknown]
    exact ⟨h, h stream group hknown, rfl, hknown⟩
  · rw [ensureGroup_of_unknown hknown]
    have hsome : (s.view stream group).ensureGroup.group.isSome := by
      unfold RedisStreams.ensureGroup view
      cases s.groups stream group <;> rfl
    refine ⟨fun stream' group' hk => ?_, ?_, rfl, by simp⟩
    · rcases List.mem_append.mp hk with hk | hk
      · exact setGroup_isSome hsome (h stream' group' hk)
      · obtain ⟨rfl, rfl⟩ := Prod.mk.inj (List.mem_singleton.mp hk)
        simpa using hsome
    · simpa using hsome

/-- One call reads its own stream, as that stream alone would be read. -/
theorem consume_eq (h : Sound s) (decode : φ → Except Error π) (stream group name : String)
    (count : Nat) :
    (s.consume decode stream group name count).2 =
        ((s.ready stream group).consume decode name count).2 ∧
      (s.consume decode stream group name count).1 =
        (s.ensureGroup stream group).setGroup stream group
          ((s.ready stream group).consume decode name count).1.group := by
  obtain ⟨g, hg⟩ := Option.isSome_iff_exists.mp (ensureGroup_sound h stream group).2.1
  have hready : s.ready stream group =
      ⟨(s.ensureGroup stream group).entries stream, some g, []⟩ := by
    rw [ready, view, hg]
  have hconsume : s.consume decode stream group name count =
      ((s.ensureGroup stream group).setGroup stream group
        ((s.ready stream group).xreadgroup name count).1.group,
        decodeAll decode ((s.ready stream group).xreadgroup name count).2) := rfl
  rw [hconsume, hready]
  exact ⟨rfl, rfl⟩

theorem ready_of_known (h : (stream, group) ∈ s.knownGroups) :
    s.ready stream group = s.view stream group := by
  rw [ready, ensureGroup_of_known h]

theorem ready_entries (h : Sound s) : (s.ready stream group).entries = s.entries stream :=
  congrFun (ensureGroup_sound h stream group).2.2.1 stream

/-- Where a call of `consume` leaves its stream and its group. -/
theorem consume_ready (h : Sound s) (stream group : String) (decode : φ → Except Error π)
    (name : String) (count : Nat) :
    Sound (s.consume decode stream group name count).1 ∧
      (s.consume decode stream group name count).1.entries = s.entries ∧
      ((s.consume decode stream group name count).1.ready stream group).delivered =
        (s.ready stream group).delivered + ((s.ready stream group).fresh count).length := by
  obtain ⟨hsound, hsome, hentries, hknown⟩ := ensureGroup_sound h stream group
  have hc := RedisStreams.consumed decode (s.ready stream group) name count
  have hgroup : ((s.ready stream group).consume decode name count).1.group.isSome := by
    obtain ⟨g, hg⟩ := Option.isSome_iff_exists.mp hsome
    rw [ready, view, hg]
    rfl
  rw [(consume_eq h decode stream group name count).2]
  refine ⟨fun stream' group' hk => setGroup_isSome hgroup (hsound stream' group' hk), hentries, ?_⟩
  rw [ready_of_known (s := (s.ensureGroup stream group).setGroup stream group _) hknown,
    ← hc.delivered]
  simp [RedisStreams.delivered, view]

theorem Sound.step {c : StreamCall φ} (h : Sound s) (hstep : step decode s c = some s') :
    Sound s' := by
  cases c with
  | publish stream fields =>
    cases hstep
    exact h
  | consume stream group name count =>
    simp only [RedisStreamsBroker.step] at hstep
    split at hstep
    · cases hstep
    · cases hstep
      exact (consume_ready h stream group decode name count).1
  | ack stream group id =>
    cases hstep
    intro stream' group' hk
    have hold := h stream' group' hk
    by_cases hx : stream' = stream ∧ group' = group
    · obtain ⟨rfl, rfl⟩ := hx
      simpa [ack, RedisStreams.xack, view] using hold
    · rw [ack, setGroup_of_ne hx]
      exact hold

/-- A message as it was published to a stream. -/
def Published (decode : φ → Except Error π) (stream : String) (s : RedisStreamsBroker φ)
    (m : Message Nat π) : Prop :=
  ∃ fields, (s.entries stream)[m.messageId]? = some fields ∧ decode fields = .ok m.payload

theorem mem_returns {m : Message Nat π} {name : String} {count : Nat} (h : Sound s)
    (hm : m ∈ s.returns decode (.consume stream group name count)) :
    Published decode stream s m := by
  rw [returns, (consume_eq h decode stream group name count).1,
    (RedisStreams.consumed decode _ name count).result] at hm
  split at hm
  · rename_i messages hmessages
    obtain ⟨fields, htaken, hd⟩ := mem_decodeAll hmessages hm
    exact ⟨fields, ready_entries h ▸ (RedisStreams.mem_taken htaken).2.2, hd⟩
  · simp at hm

theorem StreamCall.consumes_eq {c : StreamCall φ} (h : c.consumes stream group = true) :
    ∃ name count, c = .consume stream group name count := by
  cases c with
  | consume stream' group' name count =>
    obtain ⟨rfl, rfl⟩ : stream' = stream ∧ group' = group := by
      simpa [StreamCall.consumes] using h
    exact ⟨name, count, rfl⟩
  | publish => simp [StreamCall.consumes] at h
  | ack => simp [StreamCall.consumes] at h

/-- An entry not delivered yet is returned once the ones before it are. -/
theorem returnable_of_fresh {m : Message Nat π} (h : Sound s) (hm : Published decode stream s m)
    (hfresh : (s.ready stream group).delivered ≤ m.messageId) :
    Returnable (only (StreamCall.consumes stream group) (step decode)) (returns decode) s m := by
  obtain ⟨id, payload⟩ := m
  obtain ⟨fields, hf, hd⟩ := hm
  dsimp only at hf hd hfresh
  obtain ⟨k, hk⟩ := Nat.exists_eq_add_of_le hfresh
  have hlen := (List.getElem?_eq_some_iff.mp hf).1
  induction k generalizing s with
  | zero =>
    rw [Nat.add_zero] at hk
    subst hk
    refine .of_step (a := .consume stream group "reader" 1)
      (only_eq_some.mpr ⟨by simp [StreamCall.consumes], rfl⟩) ?_
    rw [returns, (consume_eq h decode stream group "reader" 1).1,
      RedisStreams.consume_next (by rw [ready_entries h]; exact hf) hd]
    exact List.mem_singleton_self _
  | succ k ih =>
    obtain ⟨hsound, hentries, hdelivered⟩ :=
      consume_ready h stream group decode "reader" 1
    have hone : ((s.ready stream group).fresh 1).length = 1 := by
      rw [RedisStreams.fresh_length, ready_entries h]
      omega
    have hstep : only (StreamCall.consumes stream group) (step decode) s
        (.consume stream group "reader" 1) =
          some (s.consume decode stream group "reader" 1).1 :=
      only_eq_some.mpr ⟨by simp [StreamCall.consumes], rfl⟩
    exact Returnable.of_run (run_singleton.mpr hstep)
      (ih hsound (by omega) (by rw [hentries]; exact hf) (by omega) (by rw [hentries]; exact hlen))

/-- Publishing leaves every group where it is. -/
structure SameGroups (s s' : RedisStreamsBroker φ) : Prop where
  groups : s'.groups = s.groups
  known : s'.knownGroups = s.knownGroups

theorem SameGroups.delivered (h : SameGroups s s') (stream group : String) :
    (s'.ready stream group).delivered = (s.ready stream group).delivered := by
  have hview : (s'.view stream group).ensureGroup.group =
      (s.view stream group).ensureGroup.group := by
    simp only [view, RedisStreams.ensureGroup, h.groups]
    cases s.groups stream group <;> rfl
  by_cases hknown : (stream, group) ∈ s.knownGroups
  · rw [ready_of_known hknown, ready_of_known (h.known ▸ hknown)]
    simp [RedisStreams.delivered, view, h.groups]
  · have hknown' : (stream, group) ∉ s'.knownGroups := h.known ▸ hknown
    simp only [ready, ensureGroup_of_unknown hknown, ensureGroup_of_unknown hknown',
      RedisStreams.delivered, view, setGroup, Function.update_self]
    simp only [view] at hview
    rw [hview]

theorem publishes_run {calls : List (StreamCall φ)}
    (h : Run (only StreamCall.publishes (step decode)) s calls s') : SameGroups s s' := by
  refine h.related (R := SameGroups) (fun _ => ⟨rfl, rfl⟩)
    (fun _ _ _ h h' => ⟨h'.groups.trans h.groups, h'.known.trans h.known⟩) (fun s c s' hstep => ?_)
  obtain ⟨hp, hstep⟩ := only_eq_some.mp hstep
  cases c with
  | publish stream fields =>
    cases hstep
    exact ⟨rfl, rfl⟩
  | consume => simp [StreamCall.publishes] at hp
  | ack => simp [StreamCall.publishes] at hp

/-- In every state reached, `consume(stream, group)` keeps to its stream and keeps
none of it back, whatever else the group reads. -/
theorem readsOnly {entries : String → List φ} {groups : String → String → Option ConsumerGroup}
    {calls : List (StreamCall φ)} (h : Run (step decode) (new entries groups) calls s)
    (stream group : String) :
    Reads (step decode) (returns decode) (StreamCall.consumes stream group) StreamCall.publishes
      (Published decode stream)
      (fun s m => (s.ready stream group).delivered ≤ m.messageId) s := by
  have hsound : Sound s := h.invariant (fun _ _ _ hs hstep => hs.step hstep)
    (fun _ _ hk => by simp [new] at hk)
  refine ⟨fun c hc m hm => ?_, fun more s' hmore m hm hfresh => ?_⟩
  · obtain ⟨name, count, rfl⟩ := StreamCall.consumes_eq hc
    exact mem_returns hsound hm
  · have hsame := publishes_run hmore
    have hsound' : Sound s' := fun stream group hk => by
      rw [hsame.groups]
      exact hsound stream group (hsame.known ▸ hk)
    exact returnable_of_fresh hsound' hm (by rw [hsame.delivered]; exact hfresh)

end RedisStreamsBroker
end CamTrack
