import CamTrack.KafkaStorage
import CamTrack.Proofs.Idempotence
import CamTrack.Proofs.KafkaBackend
import CamTrack.Proofs.StorageLoop

namespace CamTrack
open Python Machine StorageLoop

namespace KafkaBackend
variable {φ : Type} {n : Nat}

/-- A call skips nothing between the positions before and after it. -/
theorem poll_all {log : Fin n → List φ} {ps : List (Fin n)} {position last : Fin n → Nat}
    {records : List ((Fin n × Nat) × φ)} (h : poll log ps position = some (last, records))
    {p : Fin n} {o : Nat} (hle : position p ≤ o) (hlt : o < last p) :
    ∃ value, ((p, o), value) ∈ records := by
  induction ps generalizing position records with
  | nil =>
    cases h
    exact absurd hlt (Nat.not_lt.mpr hle)
  | cons q ps ih =>
    obtain ⟨value, _, h⟩ := Option.bind_eq_some_iff.mp h
    obtain ⟨⟨last', rest⟩, hrest, h⟩ := Option.bind_eq_some_iff.mp h
    cases h
    by_cases hfirst : p = q ∧ o = position q
    · obtain ⟨rfl, rfl⟩ := hfirst
      exact ⟨value, List.mem_cons_self⟩
    · have hnext : Function.update position q (position q + 1) p ≤ o := by
        by_cases hp : p = q
        · subst hp
          rw [Function.update_self]
          have hne : o ≠ position p := fun ho => hfirst ⟨rfl, ho⟩
          omega
        · rwa [Function.update_of_ne hp]
      obtain ⟨v, hv⟩ := ih hrest hnext
      exact ⟨v, List.mem_cons_of_mem _ hv⟩

end KafkaBackend

namespace StorageLoop
variable {K : Type} [Field K] [LinearOrder K] {π : Type}
  {validate : π → Except Error (TrackEvent K)} {s s' : StorageLoop K π}

/-- No row is taken back from the table. -/
theorem committed_step {a : StorageAction π} (hs : Sound validate s)
    (h : step validate s a = some s') :
    Extends s.connection.committed s'.connection.committed := by
  have hsame : ∀ {t : StorageLoop K π}, t.connection.committed = s.connection.committed →
      Extends s.connection.committed t.connection.committed := by
    intro t ht k row hrow
    rwa [ht]
  cases a with
  | commit =>
    simp only [step] at h
    split at h <;> cases h
    exact hs.kept
  | consumed messages =>
    simp only [step] at h
    split at h <;> cases h
    exact hsame rfl
  | validate =>
    simp only [step] at h
    split at h
    · split at h <;> cases h <;> exact hsame rfl
    · cases h
  | rows =>
    simp only [step] at h
    split at h
    · split at h <;> cases h <;> exact hsame rfl
    · cases h
  | page =>
    simp only [step] at h
    split at h <;> cases h
    exact hsame rfl
  | ack =>
    simp only [step] at h
    split at h <;> cases h
    exact hsame rfl
  | restart =>
    cases h
    exact hsame rfl
  | raise e reached =>
    simp only [step, StorageLoop.raise] at h
    split at h <;> cases h <;> exact hsame rfl

end StorageLoop

namespace KafkaStorage
variable {K : Type} [Field K] [LinearOrder K] {φ π : Type} {n : Nat}
  {decode : φ → Except Error π} {validate : π → Except Error (TrackEvent K)} {topic : String}
  {s s' : KafkaStorage K φ π n}

/-- The payload of a record. -/
def Holds (decode : φ → Except Error π) (log : Fin n → List φ) (r : Fin n × Nat) (payload : π) :
    Prop :=
  ∃ value, (log r.1)[r.2]? = some value ∧ decode value = .ok payload

/-- A row of the event of the record is in the table. -/
def Handled (decode : φ → Except Error π) (validate : π → Except Error (TrackEvent K))
    (log : Fin n → List φ) (table : Table K) (r : Fin n × Nat) : Prop :=
  ∃ payload event row, Holds decode log r payload ∧ validate payload = .ok event ∧
    table.get? event.eventId = some row

/-- What has been read beyond what is committed, where the process is. -/
def Reading (decode : φ → Except Error π) (validate : π → Except Error (TrackEvent K))
    (s : KafkaStorage K φ π n) : StoragePc K π → Prop
  | .consuming => s.backend.position = s.backend.committed
  | .validating messages _ _ | .executing messages _ => ∀ r : Fin n × Nat,
      s.backend.committed r.1 ≤ r.2 → r.2 < s.backend.position r.1 →
        ∃ message ∈ messages, Holds decode s.backend.log r message.payload
  | .acking _ => ∀ r : Fin n × Nat, r.2 < s.backend.position r.1 →
      Handled decode validate s.backend.log s.storage.connection.committed r
  | .died _ => True

/-- What holds all along. -/
structure Kept (decode : φ → Except Error π) (validate : π → Except Error (TrackEvent K))
    (s : KafkaStorage K φ π n) : Prop where
  sound : Sound validate s.storage
  delivered : ∀ message ∈ s.storage.delivered, ∃ r, Holds decode s.backend.log r message.payload
  handled : ∀ r : Fin n × Nat, r.2 < s.backend.committed r.1 →
    Handled decode validate s.backend.log s.storage.connection.committed r
  reading : Reading decode validate s s.storage.pc

theorem start_kept : Kept decode validate (start : KafkaStorage K φ π n) :=
  ⟨start_sound, fun _ hm => (by cases hm), fun _ hr => absurd hr (Nat.not_lt_zero _), rfl⟩

section Log
variable {log log' : Fin n → List φ} {table table' : Table K} {r : Fin n × Nat}

theorem Holds.mono {payload : π} (h : Holds decode log r payload) (hlog : ∀ p, log p <+: log' p) :
    Holds decode log' r payload := by
  obtain ⟨value, hvalue, hdecode⟩ := h
  obtain ⟨more, hmore⟩ := hlog r.1
  refine ⟨value, ?_, hdecode⟩
  rw [← hmore, List.getElem?_append_left (List.getElem?_eq_some_iff.mp hvalue).1, hvalue]

theorem Handled.mono (h : Handled decode validate log table r) (hlog : ∀ p, log p <+: log' p)
    (htable : Extends table table') : Handled decode validate log' table' r := by
  obtain ⟨payload, event, row, hholds, hvalidate, hrow⟩ := h
  exact ⟨payload, event, row, hholds.mono hlog, hvalidate, htable _ _ hrow⟩

end Log

/-- Records that are added to the log change nothing of what has been read. -/
theorem Kept.produce (h : Kept decode validate s) (p : Fin n) (value : φ) :
    Kept decode validate { s with backend := { s.backend with
      log := Function.update s.backend.log p (s.backend.log p ++ [value]) } } := by
  have hlog : ∀ q, s.backend.log q <+:
      Function.update s.backend.log p (s.backend.log p ++ [value]) q := by
    intro q
    by_cases hq : q = p
    · subst hq
      rw [Function.update_self]
      exact List.prefix_append _ _
    · rw [Function.update_of_ne hq]
  obtain ⟨hsound, hdelivered, hhandled, hreading⟩ := h
  refine ⟨hsound, fun message hm => (hdelivered message hm).imp (fun _ hr => hr.mono hlog),
    fun r hr => (hhandled r hr).mono hlog (fun _ _ hrow => hrow), ?_⟩
  simp only
  cases hpc : s.storage.pc <;> rw [hpc] at hreading
  · exact hreading
  · exact fun r hle hlt => (hreading r hle hlt).imp (fun m hm => ⟨hm.1, hm.2.mono hlog⟩)
  · exact fun r hle hlt => (hreading r hle hlt).imp (fun m hm => ⟨hm.1, hm.2.mono hlog⟩)
  · exact fun r hlt => (hreading r hlt).mono hlog (fun _ _ hrow => hrow)
  · trivial

/-- The process goes somewhere else, and acks nothing. -/
theorem Kept.move {storage : StorageLoop K π} (h : Kept decode validate s)
    (hsound : Sound validate storage) (hdelivered : storage.delivered = s.storage.delivered)
    (hextends : Extends s.storage.connection.committed storage.connection.committed)
    (hreading : Reading decode validate ⟨s.backend, storage⟩ storage.pc) :
    Kept decode validate ⟨s.backend, storage⟩ :=
  ⟨hsound, fun message hm => h.delivered message (hdelivered ▸ hm),
    fun r hr => (h.handled r hr).mono (fun _ => List.prefix_rfl) hextends, hreading⟩

/-- An ack commits what has been read, all of which is in the table. -/
theorem Kept.commit {storage : StorageLoop K π} {remaining : List (Message String π)}
    (h : Kept decode validate s) (hpc : s.storage.pc = .acking remaining)
    (hsound : Sound validate storage) (hdelivered : storage.delivered = s.storage.delivered)
    (htable : storage.connection = s.storage.connection)
    (hreading : Reading decode validate ⟨s.backend.commit, storage⟩ storage.pc) :
    Kept decode validate ⟨s.backend.commit, storage⟩ := by
  refine ⟨hsound, fun message hm => h.delivered message (hdelivered ▸ hm), fun r hr => ?_, hreading⟩
  have hread := h.reading
  rw [hpc] at hread
  rw [htable]
  exact hread r hr

theorem Kept.raise {storage : StorageLoop K π} {e : Error} {reached : Bool}
    (h : Kept decode validate s) (hraise : s.storage.raise e reached = some storage) :
    Kept decode validate ⟨(storage.acked.drop s.storage.acked.length).foldl
      (fun backend _ => backend.commit) s.backend, storage⟩ := by
  have hsound := h.sound.raise hraise
  unfold StorageLoop.raise at hraise
  split at hraise <;> cases hraise
  · rw [List.drop_length]
    exact h.move hsound rfl (fun _ _ hrow => hrow) trivial
  · rw [List.drop_length]
    exact h.move hsound rfl (fun _ _ hrow => hrow) trivial
  · rw [List.drop_length]
    exact h.move hsound rfl (fun _ _ hrow => hrow) trivial
  · rename_i message remaining hpc
    cases reached with
    | false =>
      simp only [Bool.false_eq_true, if_false, List.drop_length]
      exact h.move hsound rfl (fun _ _ hrow => hrow) trivial
    | true =>
      simp only [if_true, List.drop_left]
      exact h.commit hpc hsound rfl rfl trivial

theorem Kept.storageStep {a : StorageAction π} (hconsumed : ∀ messages, a ≠ .consumed messages)
    (hrestart : a ≠ .restart) (h : Kept decode validate s)
    (hstep : s.storageStep validate a = some s') : Kept decode validate s' := by
  obtain ⟨storage, hstorage, hstep⟩ := Option.bind_eq_some_iff.mp hstep
  cases hstep
  have hsound := h.sound.step hstorage
  have hextends := committed_step h.sound hstorage
  have hread := h.reading
  cases a with
  | consumed messages => exact absurd rfl (hconsumed messages)
  | restart => exact absurd rfl hrestart
  | raise e reached => exact h.raise hstorage
  | validate =>
    simp only [StorageLoop.step] at hstorage
    split at hstorage
    · rename_i hpc
      rw [hpc] at hread
      split at hstorage <;> cases hstorage <;> rw [List.drop_length]
      · exact h.move hsound rfl hextends hread
      · exact h.move hsound rfl hextends trivial
    · cases hstorage
  | rows =>
    simp only [StorageLoop.step] at hstorage
    split at hstorage
    · rename_i hpc
      rw [hpc] at hread
      split at hstorage <;> cases hstorage <;> rw [List.drop_length]
      · exact h.move hsound rfl hextends hread
      · exact h.move hsound rfl hextends trivial
    · cases hstorage
  | page =>
    simp only [StorageLoop.step] at hstorage
    split at hstorage <;> cases hstorage
    rename_i hpc
    rw [hpc] at hread
    rw [List.drop_length]
    exact h.move hsound rfl hextends hread
  | commit =>
    simp only [StorageLoop.step] at hstorage
    split at hstorage <;> cases hstorage
    rename_i messages hpc
    rw [hpc] at hread
    have hplace := h.sound.place
    rw [hpc] at hplace
    rw [List.drop_length]
    refine h.move hsound rfl hextends (fun r hlt => ?_)
    by_cases hr : r.2 < s.backend.committed r.1
    · exact (h.handled r hr).mono (fun _ => List.prefix_rfl) hextends
    · obtain ⟨message, hm, hholds⟩ := hread r (Nat.not_lt.mp hr) hlt
      obtain ⟨_, event, hvalidate, hrow⟩ := hplace.1 message hm
      rcases hrow with hrow | ⟨row, hrow⟩
      · cases hrow
      · exact ⟨message.payload, event, row, hholds, hvalidate, hrow⟩
  | ack =>
    simp only [StorageLoop.step] at hstorage
    split at hstorage <;> cases hstorage
    rename_i message remaining hpc
    rw [hpc] at hread
    simp only [List.drop_left, List.foldl_cons, List.foldl_nil]
    refine h.commit hpc hsound rfl rfl ?_
    cases remaining with
    | nil => rfl
    | cons next remaining => exact hread

section Consume
variable {last : Fin n → Nat} {records : List ((Fin n × Nat) × φ)}

/-- A call that raises leaves the records that it was delivered for the next process. -/
theorem Kept.lost {e : Error} (h : Kept decode validate s) (hpc : s.storage.isConsuming = true)
    (hstep : { s with backend := { s.backend with position := last } }.storageStep validate
      (.raise e false) = some s') : Kept decode validate s' := by
  obtain ⟨storage, hstorage, hstep⟩ := Option.bind_eq_some_iff.mp hstep
  cases hstep
  have hsound := h.sound.step hstorage
  unfold isConsuming at hpc
  split at hpc
  · rename_i hconsuming
    simp only [StorageLoop.step, StorageLoop.raise, hconsuming, Option.some.injEq] at hstorage
    subst hstorage
    simp only [List.drop_length, List.foldl_nil]
    exact ⟨hsound, h.delivered, h.handled, trivial⟩
  · cases hpc

theorem Kept.consumed {messages : List (Message (Fin n × Nat) π)}
    (h : Kept decode validate s)
    (hpoll : KafkaBackend.poll s.backend.log partitions s.backend.position = some (last, records))
    (hdecoded : decodeAll decode records = .ok messages)
    (hstep : { s with backend := { s.backend with position := last } }.storageStep validate
      (.consumed (messages.map (fun message : Message (Fin n × Nat) π =>
        ⟨offsetId topic message.messageId, message.payload⟩))) = some s') :
    Kept decode validate s' := by
  obtain ⟨storage, hstorage, hstep⟩ := Option.bind_eq_some_iff.mp hstep
  cases hstep
  have hsound := h.sound.step hstorage
  have hread := h.reading
  simp only [StorageLoop.step] at hstorage
  split at hstorage <;> cases hstorage
  rename_i hpc
  rw [hpc] at hread
  simp only [List.drop_length, List.foldl_nil]
  have hfound : ∀ r : Fin n × Nat, s.backend.committed r.1 ≤ r.2 → r.2 < last r.1 →
      ∃ message ∈ messages, Holds decode s.backend.log r message.payload := by
    intro r hle hlt
    rw [← hread] at hle
    obtain ⟨value, hrecord⟩ := KafkaBackend.poll_all hpoll hle hlt
    obtain ⟨message, hm, _, hdecode⟩ := forall₂_mem (decodeAll_eq_ok hdecoded) hrecord
    exact ⟨message, hm, value, ((KafkaBackend.poll_spec hpoll).2 _ hrecord).2.2, hdecode⟩
  refine ⟨hsound, fun message hm => ?_, h.handled, ?_⟩
  · rcases List.mem_append.mp hm with hm | hm
    · exact h.delivered message hm
    · obtain ⟨raw, hraw, rfl⟩ := List.mem_map.mp hm
      obtain ⟨value, hrecord, hdecode⟩ := mem_decodeAll hdecoded hraw
      exact ⟨raw.messageId, value, ((KafkaBackend.poll_spec hpoll).2 _ hrecord).2.2, hdecode⟩
  · cases messages with
    | nil =>
      funext p
      refine Nat.le_antisymm (Nat.not_lt.mp (fun hlt => ?_)) ?_
      · obtain ⟨message, hm, _⟩ := hfound (p, s.backend.committed p) le_rfl hlt
        cases hm
      · rw [← hread]
        exact (KafkaBackend.poll_spec hpoll).1 p
    | cons message messages =>
      intro r hle hlt
      obtain ⟨found, hm, hholds⟩ := hfound r hle hlt
      exact ⟨_, List.mem_map_of_mem hm, hholds⟩

end Consume

/-- Whatever a step does, or fails to do, what is committed is in the table. -/
theorem Kept.step {a : KafkaStorageAction φ π n} (h : Kept decode validate s)
    (hstep : step decode validate topic s a = some s') : Kept decode validate s' := by
  cases a with
  | produce p value =>
    cases hstep
    exact h.produce p value
  | consume partitions =>
    simp only [KafkaStorage.step] at hstep
    split at hstep
    · rename_i hpc
      obtain ⟨⟨backend, result⟩, hconsume, hstep⟩ := Option.bind_eq_some_iff.mp hstep
      obtain ⟨⟨last, records⟩, hpoll, hconsume⟩ := Option.bind_eq_some_iff.mp hconsume
      cases hconsume
      simp only at hstep
      split at hstep
      · rename_i messages hdecoded
        exact h.consumed hpoll hdecoded hstep
      · exact h.lost hpc.1 hstep
    · cases hstep
  | consumeLost partitions e =>
    simp only [KafkaStorage.step] at hstep
    split at hstep
    · rename_i hpc
      obtain ⟨⟨backend, result⟩, hconsume, hstep⟩ := Option.bind_eq_some_iff.mp hstep
      obtain ⟨⟨last, records⟩, _, hconsume⟩ := Option.bind_eq_some_iff.mp hconsume
      cases hconsume
      exact h.lost hpc.1 hstep
    · cases hstep
  | storage a =>
    cases a with
    | consumed messages => cases hstep
    | restart =>
      cases hstep
      exact ⟨h.sound.step (a := .restart) rfl, h.delivered, h.handled, rfl⟩
    | validate => exact h.storageStep (by simp) (by simp) hstep
    | rows => exact h.storageStep (by simp) (by simp) hstep
    | page => exact h.storageStep (by simp) (by simp) hstep
    | commit => exact h.storageStep (by simp) (by simp) hstep
    | ack => exact h.storageStep (by simp) (by simp) hstep
    | raise e reached => exact h.storageStep (by simp) (by simp) hstep

theorem kept_run {actions : List (KafkaStorageAction φ π n)}
    (h : Run (KafkaStorage.step decode validate topic) start actions s) :
    Kept decode validate s :=
  h.invariant (fun _ _ _ hs hstep => hs.step hstep) start_kept

/-- Among the records of the log, equal event ids mean equal events. -/
def LogIdentifies (decode : φ → Except Error π) (validate : π → Except Error (TrackEvent K))
    (log : Fin n → List φ) : Prop :=
  ∀ r r' payload payload' event event', Holds decode log r payload → Holds decode log r' payload' →
    validate payload = .ok event → validate payload' = .ok event' →
    event.eventId = event'.eventId → event = event'

/-- Every record below a committed offset decodes to an event whose own row is in the table,
although one ack commits whatever has been read; and the table holds nothing else than rows
of records. -/
theorem committed_offsets_stored {actions : List (KafkaStorageAction φ π n)} (topic : String)
    (h : Run (KafkaStorage.step decode validate topic) start actions s)
    (hids : LogIdentifies decode validate s.backend.log) :
    (∀ p o, o < s.backend.committed p → ∃ value payload event,
      (s.backend.log p)[o]? = some value ∧ decode value = .ok payload ∧
      validate payload = .ok event ∧
      s.storage.connection.committed.get? event.eventId = some (rowOf event)) ∧
    ∀ id row, s.storage.connection.committed.get? id = some row →
      ∃ p, ∃ o : Nat, ∃ value payload event, (s.backend.log p)[o]? = some value ∧ decode value = .ok payload ∧
      validate payload = .ok event ∧ row = rowOf event := by
  have hkept := kept_run h
  have hrows : ∀ id row, s.storage.connection.committed.get? id = some row → row.eventId = id ∧
      ∃ r payload event, Holds decode s.backend.log r payload ∧ validate payload = .ok event ∧
        row = rowOf event := by
    intro id row hrow
    obtain ⟨hid, message, hm, event, hvalidate, hown⟩ :=
      hkept.sound.filed id row (hkept.sound.kept _ _ hrow)
    obtain ⟨r, hholds⟩ := hkept.delivered message hm
    exact ⟨hid, r, message.payload, event, hholds, hvalidate, hown⟩
  constructor
  · intro p o hlt
    obtain ⟨payload, event, row, hholds, hvalidate, hrow⟩ := hkept.handled (p, o) hlt
    obtain ⟨hid, r, payload', event', hholds', hvalidate', rfl⟩ := hrows _ row hrow
    obtain rfl := hids _ _ _ _ _ _ hholds hholds' hvalidate hvalidate' hid.symm
    obtain ⟨value, hvalue, hdecode⟩ := hholds
    exact ⟨value, payload, event, hvalue, hdecode, hvalidate, hrow⟩
  · intro id row hrow
    obtain ⟨_, ⟨p, o⟩, payload, event, ⟨value, hvalue, hdecode⟩, hvalidate, hown⟩ :=
      hrows id row hrow
    exact ⟨p, o, value, payload, event, hvalue, hdecode, hvalidate, hown⟩

section FixedRun

/-- A producer has sent an event twice, to two partitions. Both records are read, and the
process ends between its two acks. -/
def readTwice (p q : Fin 2) : List (KafkaStorageAction (TrackEvent ℚ) (TrackEvent ℚ) 2) :=
  [.produce p (Connection.personEvent "e1" "t1"), .produce q (Connection.personEvent "e1" "t1"),
    .consume [q, p], .storage .validate, .storage .validate, .storage .rows, .storage .page,
    .storage .commit, .storage .ack, .storage .restart]

theorem committed_offsets_stored_twice : ∃ s : KafkaStorage ℚ (TrackEvent ℚ) (TrackEvent ℚ) 2,
    Run (KafkaStorage.step .ok .ok "track-events") start (readTwice 0 1) s ∧
      s.backend.committed 0 = 1 ∧ s.storage.connection.committed.get? "e1" =
        some (rowOf (Connection.personEvent "e1" "t1")) := by
  have hrun : ((readTwice 0 1).foldlM (KafkaStorage.step (K := ℚ) .ok .ok "track-events") start).any
      (fun s => s.backend.log 0 == [Connection.personEvent "e1" "t1"] &&
        s.backend.log 1 == [Connection.personEvent "e1" "t1"] &&
        s.backend.committed 0 == 1) = true := by
    decide +kernel
  obtain ⟨s, hs, hp⟩ := (Option.any_eq_true _ _).mp hrun
  simp only [Bool.and_eq_true, beq_iff_eq] at hp
  obtain ⟨⟨hzero, hone⟩, hcommitted⟩ := hp
  have hlog : ∀ p, s.backend.log p = [Connection.personEvent "e1" "t1"] :=
    Fin.forall_fin_two.mpr ⟨hzero, hone⟩
  have hall : ∀ r payload event, Holds .ok s.backend.log r payload →
      Except.ok (ε := Error) payload = .ok event → event = Connection.personEvent "e1" "t1" := by
    rintro r payload event ⟨value, hvalue, hdecode⟩ hvalidate
    cases hdecode
    cases hvalidate
    rw [hlog] at hvalue
    exact List.mem_singleton.mp (List.mem_of_getElem? hvalue)
  have hids : LogIdentifies .ok .ok s.backend.log := by
    intro r r' payload payload' event event' hr hr' hv hv' _
    rw [hall r payload event hr hv, hall r' payload' event' hr' hv']
  obtain ⟨_, _, event, hvalue, hdecode, hvalidate, hrow⟩ :=
    (committed_offsets_stored "track-events" hs hids).1 0 0 (by omega)
  have hevent := hall (0, 0) _ event ⟨_, hvalue, hdecode⟩ hvalidate
  rw [hevent] at hrow
  exact ⟨s, hs, hcommitted, hrow⟩

end FixedRun

end KafkaStorage
end CamTrack
