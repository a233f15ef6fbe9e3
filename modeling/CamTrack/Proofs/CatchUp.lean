import CamTrack.Proofs.EndToEnd

namespace CamTrack
open Python Machine RedisStreams

variable {K : Type} [Field K] [LinearOrder K]

namespace StorageLoop
variable {π : Type} {validate : π → Except Error (TrackEvent K)} {s s' : StorageLoop K π}

/-- The messages that the process has consumed and has yet to ack. -/
def inHand (s : StorageLoop K π) : List (Message String π) :=
  match s.pc with
  | .consuming => []
  | .validating messages _ _ => messages
  | .executing messages _ => messages
  | .acking remaining => remaining
  | .died _ => []

/-- Where the process has a batch in hand, the batch is not empty. -/
def Busy (s : StorageLoop K π) : Prop :=
  match s.pc with
  | .consuming => True
  | .died _ => True
  | _ => s.inHand ≠ []

/-- The calls that bring a batch into the table, none of which raises. -/
inductive Smooth : StorageAction π → Prop
  | validate : Smooth .validate
  | rows : Smooth .rows
  | page : Smooth .page
  | commit : Smooth .commit
  | ack : Smooth .ack

/-- The message holds an event with a time that the table can hold. -/
def Storable (validate : π → Except Error (TrackEvent K)) (message : Message String π) : Prop :=
  ∃ event row, validate message.payload = .ok event ∧ eventToRow event = .ok row

theorem busy_step {a : StorageAction π} (h : s.Busy) (hstep : step validate s a = some s') :
    s'.Busy := by
  cases a with
  | consumed messages =>
    simp only [step] at hstep
    split at hstep <;> cases hstep
    cases messages with
    | nil => trivial
    | cons message messages => exact List.cons_ne_nil _ _
  | validate =>
    simp only [step] at hstep
    split at hstep
    · rename_i hpc
      rw [Busy, inHand, hpc] at h
      split at hstep <;> cases hstep
      · exact h
      · trivial
    · cases hstep
  | rows =>
    simp only [step] at hstep
    split at hstep
    · rename_i hpc
      rw [Busy, inHand, hpc] at h
      split at hstep <;> cases hstep
      · exact h
      · trivial
    · cases hstep
  | page =>
    simp only [step] at hstep
    split at hstep <;> cases hstep
    rename_i hpc
    rw [Busy, inHand, hpc] at h
    exact h
  | commit =>
    simp only [step] at hstep
    split at hstep <;> cases hstep
    rename_i hpc
    rw [Busy, inHand, hpc] at h
    exact h
  | ack =>
    simp only [step] at hstep
    split at hstep <;> cases hstep
    rename_i message remaining hpc
    cases remaining with
    | nil => trivial
    | cons message remaining => exact List.cons_ne_nil _ _
  | raise e reached =>
    simp only [step, StorageLoop.raise] at hstep
    split at hstep <;> cases hstep <;> trivial
  | restart =>
    cases hstep
    trivial

section Finish
variable {c : Connection K} {messages delivered acked : List (Message String π)}

theorem runs_acks {remaining : List (Message String π)} (h : remaining ≠ []) :
    Run (step validate) ⟨c, .acking remaining, delivered, acked⟩
      (remaining.map (fun _ => .ack)) ⟨c, .consuming, delivered, acked ++ remaining⟩ := by
  induction remaining generalizing acked with
  | nil => exact absurd rfl h
  | cons message remaining ih =>
    cases remaining with
    | nil => exact run_singleton.mpr rfl
    | cons next remaining =>
      have hrest : Run (step validate)
          ⟨c, .acking (next :: remaining), delivered, acked ++ [message]⟩ _ _ :=
        ih (List.cons_ne_nil _ _)
      rw [List.append_assoc] at hrest
      exact run_cons.mpr ⟨_, rfl, hrest⟩

theorem runs_to_commit (pages : List (List (Row K))) : ∃ c',
    Run (step validate) ⟨c, .executing messages pages, delivered, acked⟩
      (pages.map (fun _ => .page) ++ [.commit]) ⟨c', .acking messages, delivered, acked⟩ := by
  induction pages generalizing c with
  | nil => exact ⟨_, run_singleton.mpr rfl⟩
  | cons page pages ih =>
    obtain ⟨c', hrest⟩ := ih (c := { c with
      transaction := page.foldl Table.insert c.transaction })
    exact ⟨c', run_cons.mpr ⟨_, rfl, hrest⟩⟩

/-- Storable messages are all validated, and their rows are built. -/
theorem runs_to_rows {events : List (TrackEvent K)} {remaining : List (Message String π)}
    (hrows : ∀ event ∈ events, ∃ row, eventToRow event = .ok row)
    (hremaining : ∀ message ∈ remaining, Storable validate message) : ∃ pages,
    Run (step validate) ⟨c, .validating messages events remaining, delivered, acked⟩
      (remaining.map (fun _ => .validate) ++ [.rows])
      ⟨c, .executing messages pages, delivered, acked⟩ := by
  induction remaining generalizing events with
  | nil =>
    obtain ⟨rows, hmap, _⟩ : ∃ rows, events.mapM eventToRow = .ok rows ∧
        List.Forall₂ (fun _ _ => True) events rows :=
      mapM_forall₂ (fun event he => (hrows event he).imp (fun _ hr => ⟨hr, trivial⟩))
    exact ⟨paginate rows, run_singleton.mpr (by simp [step, hmap])⟩
  | cons message remaining ih =>
    obtain ⟨event, row, hvalidate, hrow⟩ := hremaining message List.mem_cons_self
    have hmore : ∀ e ∈ events ++ [event], ∃ row, eventToRow e = .ok row := by
      intro e he
      rcases List.mem_append.mp he with he | he
      · exact hrows e he
      · exact ⟨row, List.mem_singleton.mp he ▸ hrow⟩
    obtain ⟨pages, hrest⟩ := ih hmore (fun m hm => hremaining m (List.mem_cons_of_mem _ hm))
    exact ⟨pages, run_cons.mpr ⟨_, by simp [step, hvalidate], hrest⟩⟩

end Finish

theorem Sound.inHand_delivered (h : s.Sound validate) : s.inHand ⊆ s.delivered := by
  have hplace := h.place
  unfold inHand
  cases hpc : s.pc with
  | consuming => exact List.nil_subset _
  | died e => exact List.nil_subset _
  | validating messages events remaining =>
    rw [hpc] at hplace
    exact hplace.2.1
  | executing messages pages =>
    rw [hpc] at hplace
    exact fun message hm => (hplace.1 message hm).1
  | acking remaining =>
    rw [hpc] at hplace
    exact fun message hm => (hplace.2 message hm).1

theorem smooth_append {actions actions' : List (StorageAction π)} (h : ∀ a ∈ actions, Smooth a)
    (h' : ∀ a ∈ actions', Smooth a) : ∀ a ∈ actions ++ actions', Smooth a := by
  intro a ha
  exact (List.mem_append.mp ha).elim (h a) (h' a)

theorem smooth_map {β : Type} {a : StorageAction π} (ha : Smooth a) (xs : List β) :
    ∀ b ∈ xs.map (fun _ => a), Smooth b := by
  intro b hb
  obtain ⟨_, _, rfl⟩ := List.mem_map.mp hb
  exact ha

theorem smooth_singleton {a : StorageAction π} (ha : Smooth a) : ∀ b ∈ [a], Smooth b := by
  intro b hb
  rw [List.mem_singleton.mp hb]
  exact ha

/-- A process that has not died can finish its batch, where it can be stored, and acks all of
it. -/
theorem finishes (hbusy : s.Busy) (hsound : s.Sound validate) (hpc : ∀ e, s.pc ≠ .died e)
    (hstorable : ∀ message ∈ s.inHand, Storable validate message) :
    ∃ actions c, (∀ a ∈ actions, Smooth a) ∧
      Run (step validate) s actions ⟨c, .consuming, s.delivered, s.acked ++ s.inHand⟩ := by
  obtain ⟨c, pc, delivered, acked⟩ := s
  cases pc with
  | consuming => exact ⟨[], c, fun _ ha => (by cases ha), run_nil.mpr (by simp [inHand])⟩
  | died e => exact absurd rfl (hpc e)
  | acking remaining => exact ⟨_, c, smooth_map .ack remaining, runs_acks hbusy⟩
  | executing messages pages =>
    obtain ⟨c', hcommit⟩ := runs_to_commit pages
    exact ⟨_, c', smooth_append (smooth_append (smooth_map .page pages) (smooth_singleton .commit))
      (smooth_map .ack messages), run_append.mpr ⟨_, hcommit, runs_acks hbusy⟩⟩
  | validating messages events remaining =>
    obtain ⟨_, _, done, hmessages, hdone⟩ := hsound.place
    have hmem : ∀ message, message ∈ messages ↔ message ∈ done ∨ message ∈ remaining := by
      simp [hmessages]
    have hrows : ∀ event ∈ events, ∃ row, eventToRow event = .ok row := by
      intro event he
      obtain ⟨message, hm, hvalidate⟩ := (validated_mem hdone).2 event he
      obtain ⟨event', row, hvalidate', hrow⟩ := hstorable message ((hmem message).mpr (.inl hm))
      obtain rfl : event = event' := Except.ok.inj (hvalidate.symm.trans hvalidate')
      exact ⟨row, hrow⟩
    obtain ⟨pages, hbuilt⟩ := runs_to_rows hrows
      (fun message hm => hstorable message ((hmem message).mpr (.inr hm)))
    obtain ⟨c', hcommit⟩ := runs_to_commit pages
    exact ⟨_, c', smooth_append (smooth_append (smooth_append
        (smooth_map .validate remaining) (smooth_singleton .rows))
        (smooth_append (smooth_map .page pages) (smooth_singleton .commit)))
        (smooth_map .ack messages),
      run_append.mpr ⟨_, run_append.mpr ⟨_, hbuilt, hcommit⟩, runs_acks hbusy⟩⟩

end StorageLoop

namespace Pipeline
variable {m n : Nat} {ι φ π ψ ρ : Type} [HasSqrt K] [Rounding K] {cfg : Fin n → BatcherConfig}
  {svc : Fin n → Services K ι} {wires : Wires K φ π ψ ρ} {cameras : Fin m → CameraConfig}
  {s s' : Pipeline m n K ι φ π ψ ρ}

omit [HasSqrt K] [Rounding K] in
/-- Acks go on from those that have been sent. -/
theorem acked_run {s t : StorageLoop K ρ} {actions : List (StorageAction ρ)}
    (hsmooth : ∀ a ∈ actions, StorageLoop.Smooth a)
    (h : Run (StorageLoop.step wires.events.validate) s actions t) : s.acked <+: t.acked := by
  induction actions generalizing s with
  | nil =>
    obtain rfl := run_nil.mp h
    exact List.prefix_rfl
  | cons a actions ih =>
    obtain ⟨mid, ha, hrest⟩ := run_cons.mp h
    have hquiet : ∀ messages, a ≠ .consumed messages := by
      rintro messages rfl
      cases hsmooth _ List.mem_cons_self
    exact (StorageLoop.delivered_step hquiet ha).2.trans
      (ih (fun b hb => hsmooth b (List.mem_cons_of_mem _ hb)) hrest)

/-- What the storage process does smoothly, the pipeline does, and its acks arrive. -/
theorem lift_storage (cfg : Fin n → BatcherConfig) (svc : Fin n → Services K ι)
    {actions : List (StorageAction ρ)} {t : StorageLoop K ρ}
    (hsmooth : ∀ a ∈ actions, StorageLoop.Smooth a)
    (h : Run (StorageLoop.step wires.events.validate) s.storage actions t) :
    Run (step cfg svc wires) s (actions.map .storage) { s with
      storage := t
      events := (t.acked.drop s.storage.acked.length).foldl
        (fun events message => events.xackId message.messageId) s.events } := by
  induction actions generalizing s with
  | nil =>
    obtain rfl := run_nil.mp h
    exact run_nil.mpr (by simp)
  | cons a actions ih =>
    obtain ⟨mid, ha, hrest⟩ := run_cons.mp h
    have hlater : ∀ b ∈ actions, StorageLoop.Smooth b :=
      fun b hb => hsmooth b (List.mem_cons_of_mem _ hb)
    have hquiet : ∀ messages, a ≠ .consumed messages := by
      rintro messages rfl
      cases hsmooth _ List.mem_cons_self
    have hstep : step cfg svc wires s (.storage a) = s.storageStep wires a := by
      cases a with
      | consumed messages => exact absurd rfl (hquiet messages)
      | _ => rfl
    obtain ⟨more, hmore⟩ := (StorageLoop.delivered_step hquiet ha).2
    obtain ⟨rest, hrestAcked⟩ := acked_run hlater hrest
    have hfirst : step cfg svc wires s (.storage a) = some { s with
        storage := mid
        events := (mid.acked.drop s.storage.acked.length).foldl
          (fun events message => events.xackId message.messageId) s.events } := by
      rw [hstep, storageStep, ha]
      rfl
    have hdrop : t.acked.drop s.storage.acked.length =
        mid.acked.drop s.storage.acked.length ++ t.acked.drop mid.acked.length := by
      rw [← hrestAcked, ← hmore]
      simp
    have hnext := ih (s := { s with
      storage := mid
      events := (mid.acked.drop s.storage.acked.length).foldl
        (fun events message => events.xackId message.messageId) s.events }) hlater hrest
    rw [hdrop, List.foldl_append]
    exact run_cons.mpr ⟨_, hfirst, hnext⟩

/-- Acks take what they name out of what is pending, all of it. -/
theorem xackIds_pending (acked : List (Message String ρ)) (t : RedisStreams ψ) {j : Nat}
    (hj : j ∈ (acked.foldl (fun events message => events.xackId message.messageId) t).pendingIds) :
    j ∈ t.pendingIds ∧ ∀ message ∈ acked, message.messageId ≠ entryId j := by
  induction acked generalizing t with
  | nil => exact ⟨hj, fun _ hm => (by cases hm)⟩
  | cons message acked ih =>
    obtain ⟨hmem, hrest⟩ := ih (t.xackId message.messageId) hj
    rw [pendingIds_xackId, List.mem_filter] at hmem
    refine ⟨hmem.1, fun m hm => ?_⟩
    rcases List.mem_cons.mp hm with rfl | hm
    · exact fun hid => of_decide_eq_true hmem.2 hid.symm
    · exact hrest m hm

/-- The clocks of the workers show times that a table can hold. -/
def OnTime (svc : Fin n → Services K ι) : Prop :=
  ∀ i k, ∃ t, fromTimestamp ((svc i).nowMs k) = .ok t

/-- Every event in the stream can be made a row. -/
def Timely (wires : Wires K φ π ψ ρ) (entries : List ψ) : Prop :=
  ∀ event, wires.events.dump event ∈ entries → ∃ row, eventToRow event = .ok row

omit [HasSqrt K] [Rounding K] in
theorem Timely.add (hclock : OnTime svc) {entries : List ψ} (h : Timely wires entries)
    {added : List (TrackEvent K)}
    (hadded : ∀ event ∈ added, ∃ i k, event.eventTimeMs = (svc i).nowMs k) :
    Timely wires (entries ++ added.map wires.events.dump) := by
  intro event he
  rcases List.mem_append.mp he with he | he
  · exact h event he
  · obtain ⟨i, k, htime⟩ :=
      hadded event ((List.mem_map_of_injective wires.events.dump_injective).mp he)
    obtain ⟨t, ht⟩ := hclock i k
    exact ⟨_, bind_eq_ok.mpr ⟨t, htime ▸ ht, rfl⟩⟩

omit [HasSqrt K] [Rounding K] in
theorem time_atHand {i : Fin n} {process : BatchProcess K ι} {event : TrackEvent K}
    (h : process.eventAtHand (svc i) = some event) :
    ∃ i k, event.eventTimeMs = (svc i).nowMs k := by
  obtain ⟨_, _, _, _, _, _, _, rfl⟩ := BatchProcess.eventAtHand_eq_some.mp h
  exact ⟨i, _, rfl⟩

theorem timely_move (hclock : OnTime svc) (h : Timely wires s.events.entries)
    (hmove : Move cfg svc wires s s') : Timely wires s'.events.entries := by
  cases hmove with
  | camera c camera sent _ hs => exact hs ▸ h
  | taken frames result _ hs => exact hs ▸ h
  | consumed i frames messages worker _ _ hs => exact hs ▸ h
  | worker i a worker _ hworker hs =>
    have hprocessed := WorkerLoop.processed hworker
    have htold := told_tell wires ((s.workers i).process.told worker.process) (s.setWorker i worker)
    rw [hs, htold.events]
    refine h.add hclock (fun event he => ?_)
    obtain ⟨effect, heffect, he⟩ := List.mem_filterMap.mp he
    rw [Effect.event_eq_some.mp he] at heffect
    exact time_atHand (hprocessed.published heffect)
  | retried i event hhand hs =>
    rw [hs]
    have hone : ∀ event' ∈ [event], ∃ i k, event'.eventTimeMs = (svc i).nowMs k := by
      intro event' he
      rw [List.mem_singleton.mp he]
      exact time_atHand hhand
    exact h.add hclock hone
  | eventsTaken events result hreceived hs =>
    rw [hs]
    exact hreceived.entries ▸ h
  | stored events messages storage hreceived _ hs =>
    rw [hs]
    exact hreceived.entries ▸ h
  | storage a storage _ _ hs =>
    rw [hs]
    exact (xackIds_spec (storage.acked.drop s.storage.acked.length) s.events).1 ▸ h

theorem busy_move (h : s.storage.Busy) (hmove : Move cfg svc wires s s') : s'.storage.Busy := by
  cases hmove with
  | camera c camera sent _ hs => exact hs ▸ h
  | taken frames result _ hs => exact hs ▸ h
  | consumed i frames messages worker _ _ hs => exact hs ▸ h
  | worker i a worker _ _ hs =>
    have htold := told_tell wires ((s.workers i).process.told worker.process) (s.setWorker i worker)
    rw [hs, htold.storage]
    exact h
  | retried i event _ hs => exact hs ▸ h
  | eventsTaken events result _ hs => exact hs ▸ h
  | stored events messages storage _ hstorage hs =>
    rw [hs]
    exact StorageLoop.busy_step h hstorage
  | storage a storage _ hstorage hs =>
    rw [hs]
    exact StorageLoop.busy_step h hstorage

/-- What is known of every state that is reached. -/
structure Ready (svc : Fin n → Services K ι) (wires : Wires K φ π ψ ρ)
    (s : Pipeline m n K ι φ π ψ ρ) : Prop where
  emitting : Emitting svc wires s.processes s.events.entries
  storing : Storing wires s.storage s.events
  busy : s.storage.Busy
  timely : Timely wires s.events.entries

theorem ready_run {actions : List (PipelineAction m n K ι π ρ)} (hfresh : FreshIds svc)
    (hclock : OnTime svc) (h : Run (step cfg svc wires) (start cameras) actions s) :
    Ready svc wires s where
  emitting := emitting_run hfresh h
  storing := storing_run hfresh h
  busy := kept (P := fun s => s.storage.Busy) (fun _ _ => busy_move) h trivial
  timely := kept (P := fun s => Timely wires s.events.entries) (fun _ _ => timely_move hclock) h
    (fun _ he => (by cases he))

omit [HasSqrt K] [Rounding K] in
theorem Ready.storable (h : Ready svc wires s) :
    ∀ message ∈ s.storage.inHand, StorageLoop.Storable wires.events.validate message := by
  intro message hm
  obtain ⟨_, event, _, hentry, hloads⟩ :=
    h.storing.sent message (h.storing.sound.inHand_delivered hm)
  obtain ⟨row, hrow⟩ := h.timely event (List.mem_of_getElem? hentry)
  exact ⟨event, row, wires.events.validate_of_loads hloads, hrow⟩

/-- What the pipeline does while the storage process alone goes on from `storage`, and nothing
fails. It is started anew only where it has died. -/
inductive Undisturbed (storage : StorageLoop K ρ) : PipelineAction m n K ι π ρ → Prop
  | smooth {a : StorageAction ρ} : StorageLoop.Smooth a → Undisturbed storage (.storage a)
  | consume (consumerName : String) : Undisturbed storage (.storageConsume consumerName)
  | restart (e : Error) : storage.pc = .died e → Undisturbed storage (.storage .restart)

/-- The batch in hand is brought into the table and acked, all of it. -/
theorem Ready.drains (cfg : Fin n → BatcherConfig) (h : Ready svc wires s)
    (hpc : ∀ e, s.storage.pc ≠ .died e) :
    ∃ more s', (∀ a ∈ more, ∀ storage, Undisturbed storage a) ∧
      Run (step cfg svc wires) s more s' ∧ s'.storage.pc = .consuming ∧
      s'.events.entries = s.events.entries ∧ s'.events.delivered = s.events.delivered ∧
      ∀ j ∈ s'.events.pendingIds, j ∈ s.events.pendingIds ∧
        ∀ message ∈ s.storage.inHand, message.messageId ≠ entryId j := by
  obtain ⟨actions, c, hsmooth, hrun⟩ :=
    StorageLoop.finishes h.busy h.storing.sound hpc h.storable
  have hlift := lift_storage cfg svc hsmooth hrun
  obtain ⟨hentries, hdelivered, _⟩ := xackIds_spec s.storage.inHand s.events
  rw [List.drop_left] at hlift
  refine ⟨_, _, fun a ha storage => ?_, hlift, rfl, hentries, hdelivered,
    fun j hj => xackIds_pending s.storage.inHand s.events hj⟩
  obtain ⟨b, hb, rfl⟩ := List.mem_map.mp ha
  exact .smooth (hsmooth b hb)

omit [HasSqrt K] [Rounding K] in
/-- Nothing of what workers have published fails to decode. -/
theorem Ready.received (h : Ready svc wires s) (consumerName : String) (count : Nat) :
    ∃ messages, (s.events.received wires.events.loads consumerName count).2 = .ok messages := by
  have hconsumed := consumed wires.events.loads s.events consumerName count
  have hdecodes : ∀ entry ∈ (List.range' s.events.delivered (s.events.fresh count).length).zip
      (s.events.fresh count), ∃ message : Message Nat ρ,
        (do
          let payload ← wires.events.loads entry.2
          return (⟨entry.1, payload⟩ : Message Nat ρ)) = .ok message ∧ True := by
    rintro ⟨j, fields⟩ hentry
    obtain ⟨_, event, rfl, _⟩ :=
      h.emitting.issued fields (List.mem_of_getElem? (mem_taken hentry).2.2)
    obtain ⟨payload, hloads, _⟩ := wires.events.roundTrip event
    exact ⟨⟨j, payload⟩, bind_eq_ok.mpr ⟨payload, hloads, rfl⟩, trivial⟩
  obtain ⟨decoded, hdecoded, _⟩ := mapM_forall₂ hdecodes
  exact ⟨_, congrArg (Except.map _) (hconsumed.result.trans hdecoded)⟩

/-- The process consumes a batch of what waits for it, or all of it. -/
theorem Ready.consumes (cfg : Fin n → BatcherConfig) (h : Ready svc wires s)
    (hpc : s.storage.pc = .consuming) :
    ∃ s', step cfg svc wires s (.storageConsume "storage") = some s' ∧
      s'.events.entries = s.events.entries ∧ s.events.delivered +
        min batchSize (s.events.entries.length - s.events.delivered) = s'.events.delivered ∧
      (∀ e, s'.storage.pc ≠ .died e) ∧ ∀ j ∈ s'.events.pendingIds, j ∈ s.events.pendingIds ∨
        ∃ message ∈ s'.storage.inHand, message.messageId = entryId j := by
  have hconsumed := consumed wires.events.loads s.events "storage" batchSize
  have hspec := received_spec wires.events.loads "storage" batchSize s.events
  obtain ⟨messages, hmessages⟩ := h.received "storage" batchSize
  obtain ⟨count, hdelivered, hpending, hids⟩ := hspec.taken
  let storage : StorageLoop K ρ := { s.storage with
    delivered := s.storage.delivered ++ messages
    pc := if messages.isEmpty then .consuming else .validating messages [] messages }
  have hstorage : s.storage.step wires.events.validate (.consumed messages) = some storage := by
    simp only [StorageLoop.step, hpc]
    rfl
  have hhand : storage.inHand = messages := by
    cases messages <;> rfl
  refine ⟨{ s with
    storage := storage
    events := (s.events.received wires.events.loads "storage" batchSize).1 },
    ?_, hspec.entries, ?_, ?_, fun j hj => ?_⟩
  · simp only [step, StorageLoop.isConsuming, hpc, if_true, hmessages, storageStep, hstorage]
    simp [storage]
  · have htaken : (s.events.fresh batchSize).length =
        min batchSize (s.events.entries.length - s.events.delivered) := by
      simp [fresh]
    exact htaken ▸ hconsumed.delivered.symm
  · intro e hdied
    cases messages <;> cases hdied
  · rw [hpending] at hj
    refine (List.mem_append.mp hj).imp_right (fun hj => ?_)
    have hmem := List.mem_map_of_mem (f := entryId) hj
    rw [← hids messages hmessages] at hmem
    obtain ⟨message, hm, hid⟩ := List.mem_map.mp hmem
    exact ⟨message, hhand ▸ hm, hid⟩

/-- A process that has died is started anew, with nothing in hand. -/
theorem revives (cfg : Fin n → BatcherConfig) (svc : Fin n → Services K ι)
    (wires : Wires K φ π ψ ρ) (s : Pipeline m n K ι φ π ψ ρ) : ∃ more s',
    (∀ a ∈ more, Undisturbed s.storage a) ∧ Run (step cfg svc wires) s more s' ∧
      (∀ e, s'.storage.pc ≠ .died e) ∧ s'.events = s.events ∧
      s'.storage.inHand = s.storage.inHand := by
  by_cases hdied : ∃ e, s.storage.pc = .died e
  · obtain ⟨e, hpc⟩ := hdied
    refine ⟨[.storage .restart], { s with storage := { s.storage with
      connection := s.storage.connection.rollback, pc := .consuming } }, fun a ha => ?_, ?_,
      fun e he => (by cases he), rfl, ?_⟩
    · rw [List.mem_singleton.mp ha]
      exact .restart e hpc
    · refine run_singleton.mpr ?_
      simp [step, storageStep, StorageLoop.step]
    · rw [StorageLoop.inHand, StorageLoop.inHand, hpc]
  · exact ⟨[], s, fun _ ha => (by cases ha), run_nil.mpr rfl, fun e he => hdied ⟨e, he⟩, rfl, rfl⟩

/-- One turn of the loop: a batch is consumed, brought into the table and acked, all of it. -/
theorem takes_batch {actions : List (PipelineAction m n K ι π ρ)} (hfresh : FreshIds svc)
    (hclock : OnTime svc) (h : Run (step cfg svc wires) (start cameras) actions s)
    (hpc : s.storage.pc = .consuming) :
    ∃ more s', (∀ a ∈ more, ∀ storage, Undisturbed storage a) ∧
      Run (step cfg svc wires) s more s' ∧ s'.storage.pc = .consuming ∧
      s'.events.entries = s.events.entries ∧ s.events.delivered +
        min batchSize (s.events.entries.length - s.events.delivered) = s'.events.delivered ∧
      s'.events.pendingIds ⊆ s.events.pendingIds := by
  obtain ⟨s₁, hstep₁, hentries₁, hdelivered₁, halive₁, hpending₁⟩ :=
    (ready_run hfresh hclock h).consumes cfg hpc
  have hto₁ := run_append.mpr ⟨s, h, run_singleton.mpr hstep₁⟩
  obtain ⟨more, s₂, hmore, hrun₂, hpc₂, hentries₂, hdelivered₂, hpending₂⟩ :=
    (ready_run hfresh hclock hto₁).drains cfg halive₁
  refine ⟨_ :: more, s₂, fun a ha storage => ?_, run_cons.mpr ⟨s₁, hstep₁, hrun₂⟩, hpc₂,
    hentries₂.trans hentries₁, hdelivered₁.trans hdelivered₂.symm, fun j hj => ?_⟩
  · rcases List.mem_cons.mp ha with rfl | ha
    · exact .consume _
    · exact hmore a ha storage
  · obtain ⟨hold, hnot⟩ := hpending₂ j hj
    refine (hpending₁ j hold).resolve_right ?_
    rintro ⟨message, hm, hid⟩
    exact hnot message hm hid

/-- Turn after turn, all that waits in the stream is consumed and brought into the table. -/
theorem takes_all (hfresh : FreshIds svc) (hclock : OnTime svc) (waiting : Nat)
    {actions : List (PipelineAction m n K ι π ρ)}
    (h : Run (step cfg svc wires) (start cameras) actions s) (hpc : s.storage.pc = .consuming)
    (hwaiting : s.events.entries.length ≤ s.events.delivered + waiting) :
    ∃ more s', (∀ a ∈ more, ∀ storage, Undisturbed storage a) ∧
      Run (step cfg svc wires) s more s' ∧ s'.storage.pc = .consuming ∧
      s'.events.entries = s.events.entries ∧
      s'.events.entries.length ≤ s'.events.delivered ∧
      s'.events.pendingIds ⊆ s.events.pendingIds := by
  induction waiting generalizing s actions with
  | zero =>
    exact ⟨[], s, fun a ha => (by cases ha), run_nil.mpr rfl, hpc, rfl, hwaiting,
      List.Subset.refl _⟩
  | succ waiting ih =>
    obtain ⟨first, s₁, hfirst, hrun₁, hpc₁, hentries₁, hdelivered₁, hpending₁⟩ :=
      takes_batch hfresh hclock h hpc
    -- a batch is not empty where anything waits
    have hless : s₁.events.entries.length ≤ s₁.events.delivered + waiting := by
      rw [hentries₁, ← hdelivered₁, batchSize]
      omega
    obtain ⟨rest, s₂, hrest, hrun₂, hpc₂, hentries₂, hall, hpending₂⟩ :=
      ih (run_append.mpr ⟨s, h, hrun₁⟩) hpc₁ hless
    refine ⟨first ++ rest, s₂, fun a ha => ?_, run_append.mpr ⟨s₁, hrun₁, hrun₂⟩, hpc₂,
      hentries₂.trans hentries₁, hall,
      List.Subset.trans hpending₂ hpending₁⟩
    exact (List.mem_append.mp ha).elim (hfirst a) (hrest a)

/-- Wherever the pipeline has got to, the storage process can catch up by itself: after some
of its own calls every event in the stream is in the table, but for those that a process had
consumed, and not acked, when it died. -/
theorem storage_catches_up {actions : List (PipelineAction m n K ι π ρ)} (hfresh : FreshIds svc)
    (hclock : OnTime svc) (h : Run (step cfg svc wires) (start cameras) actions s) :
    ∃ more s', (∀ a ∈ more, Undisturbed s.storage a) ∧ Run (step cfg svc wires) s more s' ∧
      s'.events.entries = s.events.entries ∧ s'.storage.pc = .consuming ∧
      ∀ k event, s.events.entries[k]? = some (wires.events.dump event) →
        s'.storage.connection.committed.get? event.eventId = some (rowOf event) ∨
          k ∈ s.events.pendingIds ∧
            ∀ message ∈ s.storage.inHand, message.messageId ≠ entryId k := by
  obtain ⟨first, s₁, hfirst, hrun₁, halive₁, hevents₁, hhand₁⟩ :=
    revives cfg svc wires s
  have hto₁ := run_append.mpr ⟨s, h, hrun₁⟩
  obtain ⟨second, s₂, hsecond, hrun₂, hpc₂, hentries₂, _, hpending₂⟩ :=
    (ready_run hfresh hclock hto₁).drains cfg halive₁
  have hto₂ := run_append.mpr ⟨s₁, hto₁, hrun₂⟩
  obtain ⟨last, s₃, hlast, hrun₃, hpc₃, hentries₃, hall₃, hpending₃⟩ :=
    takes_all hfresh hclock _ hto₂ hpc₂ (Nat.le_add_left s₂.events.entries.length _)
  have hready := ready_run hfresh hclock (run_append.mpr ⟨s₂, hto₂, hrun₃⟩)
  have hentries : s₃.events.entries = s.events.entries := by
    rw [hentries₃, hentries₂, hevents₁]
  refine ⟨first ++ (second ++ last), s₃, fun a ha => ?_, run_append.mpr ⟨s₁, hrun₁,
    run_append.mpr ⟨s₂, hrun₂, hrun₃⟩⟩, hentries, hpc₃, fun k event hentry => ?_⟩
  · rcases List.mem_append.mp ha with ha | ha
    · exact hfirst a ha
    · exact (List.mem_append.mp ha).elim (fun ha => hsecond a ha _) (fun ha => hlast a ha _)
  · by_cases hpending : k ∈ s₃.events.pendingIds
    · obtain ⟨hold₁, hnot₁⟩ := hpending₂ k (hpending₃ hpending)
      exact .inr ⟨hevents₁ ▸ hold₁, hhand₁ ▸ hnot₁⟩
    · have hentry₃ : s₃.events.entries[k]? = some (wires.events.dump event) := hentries ▸ hentry
      have hlt : k < s₃.events.delivered :=
        (List.getElem?_eq_some_iff.mp hentry₃).1.trans_le hall₃
      exact .inl (hready.storing.row hready.emitting hentry₃ hlt hpending)

/-- The storage process is amid a batch of two copies of one event when it is left to itself. -/
theorem storage_catches_up_one_dies : ∃ s more s' row,
    Run (step (fun _ => InferenceWorker.singleConfig) pairServices plainWires)
        (start (fun _ => tenFps)) ((oneDies 0 1).rdrop 3) s ∧
      s.storage.connection.committed.get? "1" = none ∧
      Run (step (fun _ => InferenceWorker.singleConfig) pairServices plainWires) s more s' ∧
      s'.storage.connection.committed.get? "1" = some row := by
  have hrun : (((oneDies 0 1).rdrop 3).foldlM
      (step (fun _ => InferenceWorker.singleConfig) pairServices plainWires)
      (start (fun _ => tenFps))).any (fun s =>
        s.storage.connection.committed.get? "1" == none &&
          (s.events.entries[1]?).map TrackEvent.eventId == some "1" &&
            s.storage.inHand.map Message.messageId == [entryId 0, entryId 1]) = true := by
    decide +kernel
  obtain ⟨s, hs, hp⟩ := (Option.any_eq_true _ _).mp hrun
  simp only [Bool.and_eq_true, beq_iff_eq] at hp
  obtain ⟨⟨hnone, hevent⟩, hhand⟩ := hp
  obtain ⟨event, hentry, hid⟩ := Option.map_eq_some_iff.mp hevent
  have hclock : OnTime pairServices := fun _ _ => ⟨0, rfl⟩
  obtain ⟨more, s', _, hmore, _, _, hrows⟩ := storage_catches_up pairServices_fresh hclock hs
  rcases hrows 1 event hentry with hrow | ⟨_, hnot⟩
  · exact ⟨s, more, s', _, hs, hnone, hmore, hid ▸ hrow⟩
  · have hmem : entryId 1 ∈ s.storage.inHand.map Message.messageId := by simp [hhand]
    obtain ⟨message, hm, hmessage⟩ := List.mem_map.mp hmem
    exact absurd hmessage (hnot message hm)

end Pipeline
end CamTrack
