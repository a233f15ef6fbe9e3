import CamTrack.Proofs.Storage

namespace CamTrack
open Python

variable {K : Type} [Field K] [LinearOrder K]

/-- The table after a call that returns: old rows as they were, and under each id
that was not there the row of the first of the events with it. -/
structure Inserted (events : List (TrackEvent K)) (old new : Table K) : Prop where
  kept : ∀ k row, old.get? k = some row → new.get? k = some row
  added : ∀ k, old.get? k = none →
    new.get? k = (events.find? (fun event => event.eventId == k)).map rowOf

/-- Equal event ids mean equal events. -/
def Identified (events : List (TrackEvent K)) : Prop :=
  ∀ event ∈ events, ∀ event' ∈ events, event.eventId = event'.eventId → event = event'

/-- The rows of the table are those of the events, each of them once. -/
structure HoldsExactly (events : List (TrackEvent K)) (table : Table K) : Prop where
  rows : ∀ row, row ∈ table.values ↔ ∃ event ∈ events, rowOf event = row
  once : table.values.Nodup

theorem find?_rowOf (events : List (TrackEvent K)) (k : String) :
    (events.map rowOf).find? (fun row => row.eventId == k) =
      (events.find? (fun event => event.eventId == k)).map rowOf := by
  rw [List.find?_map]
  rfl

theorem foldl_inserted (events : List (TrackEvent K)) (table : Table K) :
    Inserted events table ((events.map rowOf).foldl Table.insert table) := by
  refine ⟨fun k row h => ?_, fun k h => ?_⟩
  · rw [get?_inserts, h]
    rfl
  · rw [get?_inserts, h, Option.none_or, find?_rowOf]

/-- Under equal ids there are equal events, so it does not matter which is found. -/
theorem Identified.find? {events : List (TrackEvent K)} (h : Identified events)
    {event : TrackEvent K} (he : event ∈ events) :
    events.find? (fun other => other.eventId == event.eventId) = some event := by
  obtain ⟨other, ho⟩ : ∃ other,
      events.find? (fun other => other.eventId == event.eventId) = some other := by
    apply Option.isSome_iff_exists.mp
    apply List.find?_isSome.mpr
    exact ⟨event, he, by simp⟩
  have hid : other.eventId = event.eventId := by simpa using List.find?_some ho
  rw [ho, h other (List.mem_of_find?_eq_some ho) event he hid]

/-- Lists with the same events show the same event under every id. -/
theorem Identified.find?_congr {events events' : List (TrackEvent K)} (h : Identified events)
    (hmem : ∀ event, event ∈ events' ↔ event ∈ events) (k : String) :
    events'.find? (fun event => event.eventId == k) =
      events.find? (fun event => event.eventId == k) := by
  have h' : Identified events' := fun event he event' he' =>
    h event ((hmem event).mp he) event' ((hmem event').mp he')
  cases hf : events.find? (fun event => event.eventId == k) with
  | none =>
    apply List.find?_eq_none.mpr
    intro event he
    exact List.find?_eq_none.mp hf event ((hmem event).mp he)
  | some event =>
    obtain rfl : event.eventId = k := by simpa using List.find?_some hf
    exact h'.find? ((hmem event).mpr (List.mem_of_find?_eq_some hf))

namespace Connection

/-- The rows of the calls that returned, under the ids of their events. -/
theorem writeAll_get? (calls : List (Option Fault × List (TrackEvent K))) (k : String) :
    (new.writeAll calls).1.committed.get? k =
      ((new.writeAll calls).2.find? (fun event => event.eventId == k)).map rowOf := by
  rw [writeAll_committed new_idle, get?_inserts, find?_rowOf]
  exact Option.none_or

theorem writeAll_filed {calls : List (Option Fault × List (TrackEvent K))} {k : String}
    {row : Row K} (h : (new.writeAll calls).1.committed.get? k = some row) : row.eventId = k := by
  rw [writeAll_get?] at h
  obtain ⟨event, he, rfl⟩ := Option.map_eq_some_iff.mp h
  have hid := List.find?_some he
  rwa [beq_iff_eq] at hid

theorem writeAll_once (calls : List (Option Fault × List (TrackEvent K))) :
    (new.writeAll calls).1.committed.values.Nodup := by
  generalize ht : (new.writeAll calls).1.committed = table
  have hkeys : table.values.map Row.eventId = table.keys := by
    rw [Dict.values, List.map_map, Dict.keys]
    apply List.map_congr_left
    intro entry he
    have hget := Dict.get?_eq_some.mpr he
    rw [← ht] at hget
    exact writeAll_filed hget
  exact List.Nodup.of_map Row.eventId (hkeys ▸ table.keys_nodup)

theorem writeAll_idle {c : Connection K} (h : Idle c)
    (calls : List (Option Fault × List (TrackEvent K))) : Idle (c.writeAll calls).1 := by
  induction calls generalizing c with
  | nil => exact h
  | cons call calls ih =>
    obtain ⟨fault, events⟩ := call
    rw [writeAll]
    rcases writeBatch_cases fault h events with ⟨e, he⟩ | ⟨c', hc', hidle, _⟩
    · rw [he]
      exact ih h
    · rw [hc']
      exact ih hidle

theorem writeAll_holds {calls : List (Option Fault × List (TrackEvent K))}
    (h : Identified (new.writeAll calls).2) :
    HoldsExactly (new.writeAll calls).2 (new.writeAll calls).1.committed := by
  refine ⟨fun row => ?_, writeAll_once calls⟩
  constructor
  · intro hrow
    obtain ⟨⟨k, row⟩, hentry, rfl⟩ := List.mem_map.mp hrow
    have hget := Dict.get?_eq_some.mpr hentry
    rw [writeAll_get?] at hget
    obtain ⟨event, he, hr⟩ := Option.map_eq_some_iff.mp hget
    exact ⟨event, List.mem_of_find?_eq_some he, hr⟩
  · intro hevent
    obtain ⟨event, he, rfl⟩ := hevent
    have hget : (new.writeAll calls).1.committed.get? event.eventId = some (rowOf event) := by
      rw [writeAll_get?, h.find? he, Option.map_some]
    exact List.mem_map_of_mem (Dict.get?_eq_some.mp hget)

/-- Whatever the calls before it, a call that raises changes nothing, and one that
returns adds the rows of the new ids. The table in the end is the set of the events
of the calls that returned, in whichever calls and order they came. -/
theorem writeBatch_idempotent (calls : List (Option Fault × List (TrackEvent K))) :
    (∀ before fault events after, calls = before ++ (fault, events) :: after →
      let c := (new.writeAll before).1
      ((c.writeBatch fault events).2 ≠ none → (c.writeBatch fault events).1 = c) ∧
      ((c.writeBatch fault events).2 = none →
        Inserted events c.committed (c.writeBatch fault events).1.committed)) ∧
    (Identified (new.writeAll calls).2 →
      HoldsExactly (new.writeAll calls).2 (new.writeAll calls).1.committed ∧
      ∀ calls', (∀ event, event ∈ (new.writeAll calls').2 ↔ event ∈ (new.writeAll calls).2) →
        ∀ k, (new.writeAll calls').1.committed.get? k =
          (new.writeAll calls).1.committed.get? k) := by
  refine ⟨fun before fault events after _ => ?_, fun h => ⟨writeAll_holds h, ?_⟩⟩
  · rcases writeBatch_cases fault (writeAll_idle new_idle before) events with
      ⟨e, he⟩ | ⟨c', hc', _, htable⟩
    · simp [he]
    · simp only [hc', ne_eq, not_true_eq_false, false_implies, forall_const, true_and, htable]
      exact foldl_inserted events _
  · intro calls' hmem k
    rw [writeAll_get?, writeAll_get?, h.find?_congr hmem]

section FixedCalls

def personEvent (eventId trackId : String) : TrackEvent ℚ where
  eventId := eventId
  track :=
    { trackId := trackId, cameraId := "cam-1", frameId := "f1", box := ⟨0, 0, 1, 1⟩
      classId := 0, className := "person", confidence := ⟨1, zero_le_one, le_rfl⟩
      state := .confirmed, hits := 3, ageFrames := 3 }
  globalIdentityId := none
  eventTimeMs := 0

/-- Two events, written, then redelivered with one of them twice after a call that fails. -/
def redeliveredCalls : List (Option Fault × List (TrackEvent ℚ)) :=
  [(none, [personEvent "e1" "cam-1-1", personEvent "e2" "cam-1-2"]),
    (some .commit, [personEvent "e3" "cam-1-3"]),
    (none, [personEvent "e2" "cam-1-2", personEvent "e1" "cam-1-1", personEvent "e2" "cam-1-2"])]

theorem redelivered_stored_once :
    HoldsExactly [personEvent "e1" "cam-1-1", personEvent "e2" "cam-1-2"]
      (new.writeAll redeliveredCalls).1.committed := by
  have hall : Identified (new.writeAll redeliveredCalls).2 := by
    unfold Identified
    decide +kernel
  have hmem : ∀ event, event ∈ (new.writeAll redeliveredCalls).2 ↔
      event ∈ [personEvent "e1" "cam-1-1", personEvent "e2" "cam-1-2"] := by
    have hwritten : (new.writeAll redeliveredCalls).2 =
        [personEvent "e1" "cam-1-1", personEvent "e2" "cam-1-2", personEvent "e2" "cam-1-2",
          personEvent "e1" "cam-1-1", personEvent "e2" "cam-1-2"] := by decide +kernel
    rw [hwritten]
    intro event
    simp only [List.mem_cons, List.not_mem_nil, or_false]
    tauto
  obtain ⟨⟨hrows, honce⟩, _⟩ := (writeBatch_idempotent redeliveredCalls).2 hall
  refine ⟨fun row => ?_, honce⟩
  simp only [hrows row, hmem]

end FixedCalls

end Connection
/-- A table that the storage service can end up with: every one of the events, and
nothing else, has been in a call that returned, whatever the calls were. -/
def Stores (events : List (TrackEvent K)) (table : Table K) : Prop :=
  ∃ calls, (Connection.new.writeAll calls).1.committed = table ∧
    ∀ event, event ∈ (Connection.new.writeAll calls).2 ↔ event ∈ events

/-- The rows of such a table are those of the events, in some order. -/
theorem Stores.perm {events : List (TrackEvent K)} {table : Table K} (h : Stores events table)
    (hids : (events.map TrackEvent.eventId).Nodup) : table.values.Perm (events.map rowOf) := by
  obtain ⟨calls, rfl, hwritten⟩ := h
  have hall : Identified (Connection.new.writeAll calls).2 := fun event he event' he' hid =>
    List.inj_on_of_nodup_map hids ((hwritten event).mp he) ((hwritten event').mp he') hid
  obtain ⟨hrows, honce⟩ := Connection.writeAll_holds hall
  have hnodup : (events.map rowOf).Nodup := by
    apply List.Nodup.of_map Row.eventId
    rwa [List.map_map]
  apply (List.perm_ext_iff_of_nodup honce hnodup).mpr
  intro row
  simp only [hrows row, hwritten, List.mem_map]

/-- All events can be stored in one call when `datetime` knows their times. -/
theorem exists_stores {events : List (TrackEvent K)}
    (h : ∀ event ∈ events, ∃ t, fromTimestamp event.eventTimeMs = .ok t) :
    ∃ table, Stores events table := by
  refine ⟨_, [(none, events)], rfl, fun event => ?_⟩
  have hret := Connection.writeBatch_returns (c := Connection.new) h
  simp [Connection.writeAll, hret]

end CamTrack
