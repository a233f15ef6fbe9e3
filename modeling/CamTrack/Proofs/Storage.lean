import CamTrack.Storage

namespace CamTrack
open Python

variable {K : Type} [Field K] [LinearOrder K]

section Rows

theorem take_flatMap (n m : Nat) (xs : List α) :
    (List.range m).flatMap (fun i => (xs.drop (n * i)).take n) = xs.take (n * m) := by
  induction m with
  | zero => simp
  | succ m ih =>
    rw [List.range_succ, List.flatMap_append, ih, Nat.mul_succ, List.take_add]
    simp

/-- The pages of a call are its rows, in order. -/
theorem paginate_flatten (rows : List α) : (paginate rows).flatten = rows := by
  have hlen : rows.length ≤ pageSize * ((rows.length + (pageSize - 1)) / pageSize) := by
    unfold pageSize
    omega
  rw [paginate, ← List.flatMap_def, take_flatMap, List.take_of_length_le hlen]

/-- The row of an event whose time is one that `datetime` knows. -/
def rowOf (event : TrackEvent K) : Row K where
  eventId := event.eventId
  eventTime := event.eventTimeMs
  cameraId := event.track.cameraId
  zone := event.track.cameraId
  trackId := event.track.trackId
  globalIdentityId := event.globalIdentityId
  classId := event.track.classId
  className := event.track.className
  confidence := event.track.confidence
  trackState := event.track.state
  boxX1 := event.track.box.x1
  boxY1 := event.track.box.y1
  boxX2 := event.track.box.x2
  boxY2 := event.track.box.y2

theorem eventToRow_of_ok {event : TrackEvent K} {t : Int}
    (h : fromTimestamp event.eventTimeMs = .ok t) : eventToRow event = .ok (rowOf event) := by
  have ht : event.eventTimeMs = t := by
    unfold fromTimestamp at h
    split at h
    · exact Except.ok.inj h
    · cases h
  rw [eventToRow, h, ← ht]
  rfl

theorem eventToRow_eq_ok {event : TrackEvent K} {row : Row K} (h : eventToRow event = .ok row) :
    row = rowOf event := by
  obtain ⟨t, ht, _⟩ := bind_eq_ok.mp h
  rw [eventToRow_of_ok ht] at h
  exact (Except.ok.inj h).symm

theorem rows_eq_ok {events : List (TrackEvent K)} {rows : List (Row K)}
    (h : events.mapM eventToRow = .ok rows) : rows = events.map rowOf := by
  replace h := mapM_eq_ok h
  induction h with
  | nil => rfl
  | cons hrow _ ih => rw [eventToRow_eq_ok hrow, ih, List.map_cons]

end Rows

section Inserts

theorem get?_insert (table : Table K) (row : Row K) (k : String) :
    (table.insert row).get? k =
      if k = row.eventId then some ((table.get? k).getD row) else table.get? k := by
  unfold Table.insert
  by_cases hmem : row.eventId ∈ table.keys
  · rw [if_pos hmem]
    split
    · rename_i hk
      subst hk
      obtain ⟨old, hold⟩ := Dict.mem_keys_iff.mp hmem
      rw [hold, Option.getD_some]
    · rfl
  · rw [if_neg hmem, Dict.get?_set]
    split
    · rename_i hk
      subst hk
      rw [Dict.get?_eq_none.mpr hmem, Option.getD_none]
    · rfl

/-- Old rows stay as they are, and the first of the new rows under an id is stored. -/
theorem get?_inserts (rows : List (Row K)) (table : Table K) (k : String) :
    (rows.foldl Table.insert table).get? k =
      (table.get? k).or (rows.find? (fun row => row.eventId == k)) := by
  induction rows generalizing table with
  | nil => simp
  | cons row rows ih =>
    rw [List.foldl_cons, ih, get?_insert, List.find?_cons]
    by_cases hk : k = row.eventId
    · subst hk
      cases table.get? row.eventId <;> simp
    · have hne : (row.eventId == k) = false := by simpa using Ne.symm hk
      simp [hk, hne]

end Inserts

namespace Connection

/-- No transaction is open. -/
def Idle (c : Connection K) : Prop := c.transaction = c.committed

theorem new_idle : Idle (new : Connection K) := rfl

theorem executePages_cases (fault : Option Fault) (i : Nat) (pages : List (List (Row K)))
    (c : Connection K) :
    (executePages fault i pages c).1.committed = c.committed ∧
      ((executePages fault i pages c).2 = none →
        (executePages fault i pages c).1.transaction =
          pages.flatten.foldl Table.insert c.transaction) := by
  induction pages generalizing i c with
  | nil => exact ⟨rfl, fun _ => rfl⟩
  | cons page pages ih =>
    unfold executePages
    split
    · exact ⟨rfl, fun h => nomatch h⟩
    · obtain ⟨hc, ht⟩ := ih (i + 1) { c with transaction := page.foldl Table.insert c.transaction }
      refine ⟨hc, fun h => ?_⟩
      rw [ht h, List.flatten_cons, List.foldl_append]

theorem executePages_none (i : Nat) (pages : List (List (Row K))) (c : Connection K) :
    (executePages none i pages c).2 = none := by
  induction pages generalizing i c with
  | nil => rfl
  | cons page pages ih => simpa [executePages] using ih (i + 1) _

/-- A call that raises leaves the table as it was; one that returns has inserted
the rows of its events. -/
theorem writeBatch_cases (fault : Option Fault) {c : Connection K} (h : Idle c)
    (events : List (TrackEvent K)) :
    (∃ e, c.writeBatch fault events = (c, some e)) ∨
      ∃ c', c.writeBatch fault events = (c', none) ∧ Idle c' ∧
        c'.committed = (events.map rowOf).foldl Table.insert c.committed := by
  have hback : ∀ c' : Connection K, c'.committed = c.committed → c'.rollback = c := by
    intro c' hc'
    obtain ⟨t, t'⟩ := c
    cases h
    rw [rollback, hc']
  cases hempty : events.isEmpty with
  | true =>
    obtain rfl := List.isEmpty_iff.mp hempty
    exact .inr ⟨c, rfl, h, rfl⟩
  | false =>
    simp only [writeBatch, hempty]
    cases hrows : events.mapM eventToRow with
    | error e => exact .inl ⟨e, rfl⟩
    | ok rows =>
      obtain ⟨hc, ht⟩ := executePages_cases fault 0 (paginate rows) c
      dsimp only
      cases hex : executePages fault 0 (paginate rows) c with
      | mk c' raised =>
        rw [hex] at hc ht
        cases raised with
        | some e => exact .inl ⟨e, by simp [hback c' hc]⟩
        | none =>
          by_cases hf : fault = some .commit
          · exact .inl ⟨.databaseError, by simp [hf, hback c' hc]⟩
          · refine .inr ⟨c'.commit, by simp [hf], rfl, ?_⟩
            rw [← rows_eq_ok hrows, ← paginate_flatten rows, ← h]
            exact ht rfl

theorem writeBatch_returns {c : Connection K} {events : List (TrackEvent K)}
    (h : ∀ event ∈ events, ∃ t, fromTimestamp event.eventTimeMs = .ok t) :
    (c.writeBatch none events).2 = none := by
  have hrows : events.mapM eventToRow = .ok (events.map rowOf) := by
    apply mapM_ok
    intro event he
    obtain ⟨t, ht⟩ := h event he
    exact eventToRow_of_ok ht
  unfold writeBatch
  split
  · rfl
  · rw [hrows]
    have hnone := executePages_none 0 (paginate (events.map rowOf)) c
    dsimp only
    cases hex : executePages none 0 (paginate (events.map rowOf)) c with
    | mk c' raised =>
      rw [hex] at hnone
      cases hnone
      rfl

/-- Any calls leave the rows of the events of those that returned. -/
theorem writeAll_committed {c : Connection K} (h : Idle c)
    (calls : List (Option Fault × List (TrackEvent K))) :
    (c.writeAll calls).1.committed =
      ((c.writeAll calls).2.map rowOf).foldl Table.insert c.committed := by
  induction calls generalizing c with
  | nil => rfl
  | cons call calls ih =>
    obtain ⟨fault, events⟩ := call
    rw [writeAll]
    rcases writeBatch_cases fault h events with ⟨e, he⟩ | ⟨c', hc', hidle, htable⟩
    · simp only [he]
      exact ih h
    · simp only [hc', ↓reduceIte, List.map_append, List.foldl_append, ← htable]
      exact ih hidle

end Connection

end CamTrack
