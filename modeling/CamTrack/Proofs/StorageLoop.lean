import CamTrack.StorageLoop
import CamTrack.Lib.Machine
import CamTrack.Proofs.Storage

namespace CamTrack
open Python Machine

namespace StorageLoop
variable {K : Type} [Field K] [LinearOrder K] {π : Type}
  {validate : π → Except Error (TrackEvent K)} {s s' : StorageLoop K π}

/-- A message has been delivered, and its event has a row in the table. -/
def Stored (validate : π → Except Error (TrackEvent K)) (delivered : List (Message String π))
    (table : Table K) (message : Message String π) : Prop :=
  message ∈ delivered ∧
    ∃ event row, validate message.payload = .ok event ∧ table.get? event.eventId = some row

/-- A row is that of the event of a message that has been delivered. -/
def Delivered (validate : π → Except Error (TrackEvent K)) (delivered : List (Message String π))
    (row : Row K) : Prop :=
  ∃ message ∈ delivered, ∃ event, validate message.payload = .ok event ∧ row = rowOf event

/-- Every row of the first table is in the second. -/
def Extends (table table' : Table K) : Prop :=
  ∀ k row, table.get? k = some row → table'.get? k = some row

/-- Every row is filed under its id, and of a message that has been delivered. -/
def Filed (validate : π → Except Error (TrackEvent K)) (delivered : List (Message String π))
    (table : Table K) : Prop :=
  ∀ k row, table.get? k = some row → row.eventId = k ∧ Delivered validate delivered row

theorem Stored.extend {delivered : List (Message String π)} {table table' : Table K}
    {message : Message String π} (h : Stored validate delivered table message)
    (hle : Extends table table') : Stored validate delivered table' message := by
  obtain ⟨hm, event, row, hv, hrow⟩ := h
  exact ⟨hm, event, row, hv, hle _ _ hrow⟩

theorem Stored.deliver {delivered more : List (Message String π)} {table : Table K}
    {message : Message String π} (h : Stored validate delivered table message) :
    Stored validate (delivered ++ more) table message :=
  ⟨List.mem_append_left _ h.1, h.2⟩

theorem Filed.deliver {delivered more : List (Message String π)} {table : Table K}
    (h : Filed validate delivered table) : Filed validate (delivered ++ more) table := by
  intro k row hk
  obtain ⟨hid, message, hm, hrow⟩ := h k row hk
  exact ⟨hid, message, List.mem_append_left _ hm, hrow⟩

/-- A page adds its rows. -/
theorem Extends.inserts {table table' : Table K} (h : Extends table table')
    (page : List (Row K)) : Extends table (page.foldl Table.insert table') := by
  intro k row hk
  rw [get?_inserts, h k row hk]
  rfl

theorem Filed.inserts {delivered : List (Message String π)} {table : Table K}
    {page : List (Row K)} (h : Filed validate delivered table)
    (hpage : ∀ row ∈ page, Delivered validate delivered row) :
    Filed validate delivered (page.foldl Table.insert table) := by
  intro k row hk
  rw [get?_inserts] at hk
  rcases Option.or_eq_some_iff.mp hk with hk | ⟨_, hk⟩
  · exact h k row hk
  · exact ⟨by simpa using List.find?_some hk, hpage row (List.mem_of_find?_eq_some hk)⟩

theorem exists_inserts {page : List (Row K)} {row : Row K} (hrow : row ∈ page) (table : Table K) :
    ∃ row', (page.foldl Table.insert table).get? row.eventId = some row' := by
  rw [get?_inserts]
  cases table.get? row.eventId with
  | some old => exact ⟨old, rfl⟩
  | none =>
    rw [Option.none_or]
    apply Option.isSome_iff_exists.mp
    rw [List.find?_isSome]
    exact ⟨row, hrow, by simp⟩

/-- What holds where the process is. -/
def Place (validate : π → Except Error (TrackEvent K)) (s : StorageLoop K π) :
    StoragePc K π → Prop
  | .consuming => s.connection.Idle
  | .validating messages events remaining => s.connection.Idle ∧ messages ⊆ s.delivered ∧
      ∃ done, messages = done ++ remaining ∧
        done.map (fun message => validate message.payload) = events.map Except.ok
  | .executing messages pages =>
      (∀ message ∈ messages, message ∈ s.delivered ∧
        ∃ event, validate message.payload = .ok event ∧ (rowOf event ∈ pages.flatten ∨
          ∃ row, s.connection.transaction.get? event.eventId = some row)) ∧
      ∀ row ∈ pages.flatten, Delivered validate s.delivered row
  | .acking remaining => s.connection.Idle ∧
      ∀ message ∈ remaining, Stored validate s.delivered s.connection.committed message
  | .died _ => s.connection.Idle

/-- What holds all along. -/
structure Sound (validate : π → Except Error (TrackEvent K)) (s : StorageLoop K π) : Prop where
  filed : Filed validate s.delivered s.connection.transaction
  kept : Extends s.connection.committed s.connection.transaction
  acked : ∀ message ∈ s.acked, Stored validate s.delivered s.connection.committed message
  place : Place validate s s.pc

theorem start_sound : Sound validate (start : StorageLoop K π) := by
  constructor
  · intro k row hk
    cases hk
  · intro k row hk
    cases hk
  · intro message hm
    cases hm
  · exact Connection.new_idle

/-- The process is taken somewhere else, with its connection, and nothing is acked. -/
theorem Sound.move {pc : StoragePc K π} (h : Sound validate s)
    (hplace : Place validate { s with pc := pc } pc) : Sound validate { s with pc := pc } :=
  ⟨h.filed, h.kept, h.acked, hplace⟩

/-- What was not committed is gone. -/
theorem Sound.rollback {pc : StoragePc K π} (h : Sound validate s)
    (hplace : Place validate { s with connection := s.connection.rollback, pc := pc } pc) :
    Sound validate { s with connection := s.connection.rollback, pc := pc } :=
  ⟨fun k row hk => h.filed k row (h.kept k row hk), fun _ _ hk => hk, h.acked, hplace⟩

theorem Sound.acks {message : Message String π} {remaining : List (Message String π)}
    {pc : StoragePc K π} (h : Sound validate s) (hpc : s.pc = .acking (message :: remaining))
    (hplace : Place validate { s with acked := s.acked ++ [message], pc := pc } pc) :
    Sound validate { s with acked := s.acked ++ [message], pc := pc } := by
  refine ⟨h.filed, h.kept, ?_, hplace⟩
  have hstored := h.place
  rw [hpc] at hstored
  intro m hm
  rcases List.mem_append.mp hm with hm | hm
  · exact h.acked m hm
  · rw [List.mem_singleton.mp hm]
    exact hstored.2 message List.mem_cons_self

theorem Sound.raise {e : Error} {reached : Bool} (h : Sound validate s)
    (hraise : s.raise e reached = some s') : Sound validate s' := by
  have hplace := h.place
  unfold StorageLoop.raise at hraise
  split at hraise
  · rename_i hpc
    cases hraise
    rw [hpc] at hplace
    exact h.move hplace
  · rename_i hpc
    cases hraise
    rw [hpc] at hplace
    exact h.move hplace.1
  · cases hraise
    exact h.rollback rfl
  · rename_i hpc
    cases hraise
    rw [hpc] at hplace
    cases reached with
    | true => exact h.acks hpc hplace.1
    | false => exact h.move hplace.1
  · cases hraise

/-- The events of the messages are those that have been validated. -/
theorem validated_mem {messages : List (Message String π)} {events : List (TrackEvent K)}
    (h : messages.map (fun message => validate message.payload) = events.map Except.ok) :
    (∀ message ∈ messages, ∃ event ∈ events, validate message.payload = .ok event) ∧
      ∀ event ∈ events, ∃ message ∈ messages, validate message.payload = .ok event := by
  constructor
  · intro message hm
    have hmem : validate message.payload ∈ events.map Except.ok :=
      h ▸ List.mem_map_of_mem (f := fun message => validate message.payload) hm
    obtain ⟨event, he, hv⟩ := List.mem_map.mp hmem
    exact ⟨event, he, hv.symm⟩
  · intro event he
    have hmem : Except.ok event ∈ messages.map (fun message => validate message.payload) :=
      h ▸ List.mem_map_of_mem he
    exact List.mem_map.mp hmem

/-- Whatever a step does, or fails to do, what is acked has been committed. -/
theorem Sound.step {a : StorageAction π} (h : Sound validate s)
    (hstep : step validate s a = some s') : Sound validate s' := by
  have hplace := h.place
  cases a with
  | consumed messages =>
    simp only [StorageLoop.step] at hstep
    split at hstep
    · rename_i hpc
      cases hstep
      rw [hpc] at hplace
      refine ⟨h.filed.deliver, h.kept, fun m hm => (h.acked m hm).deliver, ?_⟩
      cases messages with
      | nil => exact hplace
      | cons message messages =>
        exact ⟨hplace, List.subset_append_right _ _, [], rfl, rfl⟩
    · cases hstep
  | validate =>
    simp only [StorageLoop.step] at hstep
    split at hstep
    · rename_i messages events message remaining hpc
      rw [hpc] at hplace
      obtain ⟨hidle, hsub, done, hmessages, hevents⟩ := hplace
      split at hstep
      · rename_i event hv
        cases hstep
        refine h.move ⟨hidle, hsub, done ++ [message], by simp [hmessages], ?_⟩
        simp [hevents, hv]
      · cases hstep
        exact h.move hidle
    · cases hstep
  | rows =>
    simp only [StorageLoop.step] at hstep
    split at hstep
    · rename_i messages events hpc
      rw [hpc] at hplace
      obtain ⟨hidle, hsub, done, hmessages, hevents⟩ := hplace
      rw [List.append_nil] at hmessages
      subst hmessages
      obtain ⟨hvalid, hfrom⟩ := validated_mem hevents
      split at hstep
      · rename_i rows hrows
        cases hstep
        apply h.move
        rw [Place, paginate_flatten, rows_eq_ok hrows]
        constructor
        · intro message hm
          obtain ⟨event, he, hv⟩ := hvalid message hm
          exact ⟨hsub hm, event, hv, Or.inl (List.mem_map_of_mem he)⟩
        · intro row hrow
          obtain ⟨event, he, rfl⟩ := List.mem_map.mp hrow
          obtain ⟨message, hm, hv⟩ := hfrom event he
          exact ⟨message, hsub hm, event, hv, rfl⟩
      · cases hstep
        exact h.move hidle
    · cases hstep
  | page =>
    simp only [StorageLoop.step] at hstep
    split at hstep
    · rename_i messages page pages hpc
      cases hstep
      rw [hpc] at hplace
      obtain ⟨hvalid, hrows⟩ := hplace
      rw [List.flatten_cons] at hvalid hrows
      refine ⟨h.filed.inserts (fun row hr => hrows row (List.mem_append_left _ hr)),
        h.kept.inserts page, h.acked, ?_, fun row hr => hrows row (List.mem_append_right _ hr)⟩
      intro message hm
      obtain ⟨hdelivered, event, hv, hrow⟩ := hvalid message hm
      refine ⟨hdelivered, event, hv, ?_⟩
      rcases hrow with hrow | ⟨row, hrow⟩
      · rcases List.mem_append.mp hrow with hrow | hrow
        · exact Or.inr (exists_inserts hrow s.connection.transaction)
        · exact Or.inl hrow
      · exact Or.inr ⟨row, Extends.inserts (fun _ _ hk => hk) page _ _ hrow⟩
    · cases hstep
  | commit =>
    simp only [StorageLoop.step] at hstep
    split at hstep
    · rename_i messages hpc
      cases hstep
      rw [hpc] at hplace
      refine ⟨h.filed, fun _ _ hk => hk, fun m hm => (h.acked m hm).extend h.kept, rfl, ?_⟩
      intro message hm
      obtain ⟨hdelivered, event, hv, hrow⟩ := hplace.1 message hm
      rcases hrow with hrow | ⟨row, hrow⟩
      · cases hrow
      · exact ⟨hdelivered, event, row, hv, hrow⟩
    · cases hstep
  | ack =>
    simp only [StorageLoop.step] at hstep
    split at hstep
    · rename_i message remaining hpc
      cases hstep
      apply h.acks hpc
      rw [hpc] at hplace
      cases remaining with
      | nil => exact hplace.1
      | cons next remaining =>
        exact ⟨hplace.1, fun m hm => hplace.2 m (List.mem_cons_of_mem _ hm)⟩
    · cases hstep
  | raise e reached => exact h.raise hstep
  | restart =>
    cases hstep
    exact h.rollback rfl

theorem sound {actions : List (StorageAction π)} {s : StorageLoop K π}
    (h : Run (step validate) start actions s) : Sound validate s :=
  h.invariant (fun _ _ _ hs hstep => hs.step hstep) start_sound

/-- Among what has been delivered, equal event ids mean equal events. -/
def IdsIdentify (validate : π → Except Error (TrackEvent K))
    (delivered : List (Message String π)) : Prop :=
  ∀ event event' message message', message ∈ delivered → message' ∈ delivered →
    validate message.payload = .ok event → validate message'.payload = .ok event' →
    event.eventId = event'.eventId → event = event'

/-- A message whose event is stored has its own row, where equal ids mean equal events. -/
theorem Sound.own_row (h : Sound validate s) (hids : IdsIdentify validate s.delivered)
    {message : Message String π} {event : TrackEvent K} {row : Row K}
    (hm : message ∈ s.delivered) (hv : validate message.payload = .ok event)
    (hrow : s.connection.committed.get? event.eventId = some row) : row = rowOf event := by
  obtain ⟨hid, message', hm', event', hv', rfl⟩ := h.filed _ _ (h.kept _ _ hrow)
  rw [hids event event' message message' hm hm' hv hv' hid.symm]

/-- The calls of `write_batch` short of a commit that returns. -/
def Uncommitted : StorageAction π → Prop
  | .rows | .page | .raise _ _ => True
  | _ => False

/-- A process that has been in `write_batch` since `s`, or has died there. -/
structure Writing (s t : StorageLoop K π) : Prop where
  committed : t.connection.committed = s.connection.committed
  acked : t.acked = s.acked
  place : (∃ messages events, t.pc = .validating messages events []) ∨
    (∃ messages pages, t.pc = .executing messages pages) ∨ ∃ e, t.pc = .died e

theorem Writing.step {s t t' : StorageLoop K π} {a : StorageAction π} (h : Writing s t)
    (ha : Uncommitted a) (hstep : step validate t a = some t') : Writing s t' := by
  obtain ⟨hcommitted, hacked, hplace⟩ := h
  cases a with
  | rows =>
    simp only [StorageLoop.step] at hstep
    split at hstep
    · split at hstep
      · cases hstep
        exact ⟨hcommitted, hacked, Or.inr (Or.inl ⟨_, _, rfl⟩)⟩
      · cases hstep
        exact ⟨hcommitted, hacked, Or.inr (Or.inr ⟨_, rfl⟩)⟩
    · cases hstep
  | page =>
    simp only [StorageLoop.step] at hstep
    split at hstep
    · cases hstep
      exact ⟨hcommitted, hacked, Or.inr (Or.inl ⟨_, _, rfl⟩)⟩
    · cases hstep
  | raise e reached =>
    simp only [StorageLoop.step, StorageLoop.raise] at hstep
    rcases hplace with ⟨_, _, hpc⟩ | ⟨_, _, hpc⟩ | ⟨_, hpc⟩
    · rw [hpc] at hstep
      cases hstep
      exact ⟨hcommitted, hacked, Or.inr (Or.inr ⟨_, rfl⟩)⟩
    · rw [hpc] at hstep
      cases hstep
      exact ⟨hcommitted, hacked, Or.inr (Or.inr ⟨_, rfl⟩)⟩
    · rw [hpc] at hstep
      cases hstep
  | consumed messages => cases ha
  | validate => cases ha
  | commit => cases ha
  | ack => cases ha
  | restart => cases ha

theorem Writing.run {s t t' : StorageLoop K π} {actions : List (StorageAction π)}
    (h : Writing s t) (hactions : ∀ a ∈ actions, Uncommitted a)
    (hrun : Run (StorageLoop.step validate) t actions t') : Writing s t' := by
  induction actions generalizing t with
  | nil =>
    obtain rfl := run_nil.mp hrun
    exact h
  | cons a actions ih =>
    obtain ⟨m, hm, hrest⟩ := run_cons.mp hrun
    exact ih (h.step (hactions a List.mem_cons_self) hm)
      (fun a ha => hactions a (List.mem_cons_of_mem _ ha)) hrest

/-- A process that has died does nothing until it is started again. -/
theorem died_quiet {e : Error} (hpc : s.pc = .died e) {actions : List (StorageAction π)}
    (hactions : .restart ∉ actions) (hrun : Run (StorageLoop.step validate) s actions s') :
    s' = s := by
  cases actions with
  | nil => exact (run_nil.mp hrun).symm
  | cons a actions =>
    obtain ⟨m, hm, _⟩ := run_cons.mp hrun
    cases a with
    | restart => exact absurd List.mem_cons_self hactions
    | raise e reached => simp [StorageLoop.step, StorageLoop.raise, hpc] at hm
    | consumed messages => simp [StorageLoop.step, hpc] at hm
    | validate => simp [StorageLoop.step, hpc] at hm
    | rows => simp [StorageLoop.step, hpc] at hm
    | page => simp [StorageLoop.step, hpc] at hm
    | commit => simp [StorageLoop.step, hpc] at hm
    | ack => simp [StorageLoop.step, hpc] at hm

/-- A `write_batch` that raises leaves the table as it was and acks nothing, and nothing
is acked before the process is started again. -/
theorem failed_write {messages : List (Message String π)} {events : List (TrackEvent K)}
    {e : Error} (hpc : s.pc = .validating messages events [])
    {actions later : List (StorageAction π)} (hactions : ∀ a ∈ actions, Uncommitted a)
    (hrun : Run (StorageLoop.step validate) s actions t) (hdied : t.pc = .died e)
    (hlater : .restart ∉ later) (hrest : Run (StorageLoop.step validate) t later s') :
    s'.connection.committed = s.connection.committed ∧ s'.acked = s.acked := by
  have hwriting : Writing s s := ⟨rfl, rfl, Or.inl ⟨_, _, hpc⟩⟩
  have hfailed := hwriting.run hactions hrun
  rw [died_quiet hdied hlater hrest]
  exact ⟨hfailed.committed, hfailed.acked⟩

section WriteBatch
open Connection

/-- The statements of `execute_values` are steps of the process. -/
theorem runs_pages (validate : π → Except Error (TrackEvent K)) (fault : Option Fault) (i : Nat)
    (pages : List (List (Row K))) (c : Connection K)
    (messages delivered acked : List (Message String π)) :
    ∃ actions pages', Run (StorageLoop.step validate)
        ⟨c, .executing messages pages, delivered, acked⟩ actions
        ⟨(executePages fault i pages c).1, .executing messages pages', delivered, acked⟩ ∧
      ((executePages fault i pages c).2 = none → pages' = []) ∧
      ∀ e, (executePages fault i pages c).2 = some e → e = .databaseError := by
  induction pages generalizing i c with
  | nil => exact ⟨[], [], run_nil.mpr rfl, fun _ => rfl, fun _ he => nomatch he⟩
  | cons page pages ih =>
    unfold executePages
    split
    · refine ⟨[], page :: pages, run_nil.mpr rfl, ?_, fun _ he => (Option.some.inj he).symm⟩
      intro hnone
      cases hnone
    · obtain ⟨actions, pages', hrun, hdone, herror⟩ := ih (i + 1)
        { c with transaction := page.foldl Table.insert c.transaction }
      exact ⟨.page :: actions, pages', run_cons.mpr ⟨_, rfl, hrun⟩, hdone, herror⟩

/-- A call of `write_batch`, whatever is refused in it, is a run of its calls. -/
theorem runs_writeBatch (validate : π → Except Error (TrackEvent K)) (fault : Option Fault)
    (c : Connection K) (messages delivered acked : List (Message String π))
    {events : List (TrackEvent K)} (hevents : events.isEmpty = false) :
    ∃ actions, Run (StorageLoop.step validate)
      ⟨c, .validating messages events [], delivered, acked⟩ actions
      ⟨(c.writeBatch fault events).1,
        match (c.writeBatch fault events).2 with
        | none => .acking messages
        | some e => .died e, delivered, acked⟩ := by
  unfold writeBatch
  simp only [hevents, Bool.false_eq_true, if_false]
  cases hrows : events.mapM eventToRow with
  | error e =>
    refine ⟨[.rows], run_singleton.mpr ?_⟩
    simp [StorageLoop.step, hrows]
  | ok rows =>
    have hfirst : StorageLoop.step validate
        ⟨c, .validating messages events [], delivered, acked⟩ .rows =
        some ⟨c, .executing messages (paginate rows), delivered, acked⟩ := by
      simp [StorageLoop.step, hrows]
    obtain ⟨actions, pages, hrun, hdone, herror⟩ :=
      runs_pages validate fault 0 (paginate rows) c messages delivered acked
    cases hex : executePages fault 0 (paginate rows) c with
    | mk c' raised =>
      rw [hex] at hrun hdone herror
      cases raised with
      | some e =>
        obtain rfl := herror e rfl
        refine ⟨.rows :: (actions ++ [.raise .databaseError false]), run_cons.mpr ⟨_, hfirst,
          run_append.mpr ⟨_, hrun, run_singleton.mpr ?_⟩⟩⟩
        simp [hex, StorageLoop.step, StorageLoop.raise]
      | none =>
        obtain rfl := hdone rfl
        by_cases hf : fault = some .commit
        · subst hf
          refine ⟨.rows :: (actions ++ [.raise .databaseError false]), run_cons.mpr ⟨_, hfirst,
            run_append.mpr ⟨_, hrun, run_singleton.mpr ?_⟩⟩⟩
          simp [hex, StorageLoop.step, StorageLoop.raise]
        · refine ⟨.rows :: (actions ++ [.commit]), run_cons.mpr ⟨_, hfirst,
            run_append.mpr ⟨_, hrun, run_singleton.mpr ?_⟩⟩⟩
          simp [hex, hf, StorageLoop.step]

end WriteBatch

end StorageLoop
end CamTrack
