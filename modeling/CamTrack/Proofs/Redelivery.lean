import CamTrack.Proofs.Fleet
import CamTrack.Proofs.Idempotence

namespace CamTrack
open Python Machine Assignment InferenceWorker

variable {K : Type} [Field K] [LinearOrder K] {ι : Type}

/-- The same deployment with other fresh ids and another clock. -/
def Services.renew (svc : Services K ι) (uuid : Nat → String) (nowMs : Nat → Int) :
    Services K ι :=
  { svc with uuid := uuid, nowMs := nowMs }

/-- No id is drawn twice, and the clock shows times that `datetime` knows. -/
structure Services.Fresh (svc : Services K ι) : Prop where
  uuid : Function.Injective svc.uuid
  nowMs : ∀ n, ∃ t, fromTimestamp (svc.nowMs n) = .ok t

/-- A row without its fresh id and its time. -/
def Row.content (row : Row K) : Row K := { row with eventId := "", eventTime := 0 }

/-- The frames as they come when the further deliveries of one frame are left out. -/
def onceDelivered (frame : RawFrame) : List FrameItem → List FrameItem
  | [] => []
  | item :: rest =>
    item :: if item.2 = frame then rest.filter (fun other => other.2 ≠ frame)
      else onceDelivered frame rest

theorem onceDelivered_concat (frame : RawFrame) (items : List FrameItem) (item : FrameItem) :
    onceDelivered frame (items ++ [item]) = onceDelivered frame items ++
      if item.2 = frame ∧ frame ∈ items.map Prod.snd then [] else [item] := by
  induction items with
  | nil => simp [onceDelivered]
  | cons first rest ih =>
    rw [List.cons_append, onceDelivered, onceDelivered]
    by_cases hf : first.2 = frame
    · by_cases hi : item.2 = frame
      · simp [hf, hi, List.filter_append]
      · simp [hf, hi, List.filter_append]
    · have hmem : frame ∈ (first :: rest).map Prod.snd ↔ frame ∈ rest.map Prod.snd := by
        rw [List.map_cons, List.mem_cons]
        exact or_iff_right (Ne.symm hf)
      simp only [hf, ↓reduceIte, ih, hmem, List.cons_append]

theorem mem_of_onceDelivered {frame : RawFrame} {items : List FrameItem} {item : FrameItem}
    (h : item ∈ onceDelivered frame items) : item ∈ items := by
  induction items with
  | nil => exact h
  | cons first rest ih =>
    rcases List.mem_cons.mp h with rfl | h
    · exact List.mem_cons_self
    · split at h
      · exact List.mem_cons_of_mem _ (List.mem_of_mem_filter h)
      · exact List.mem_cons_of_mem _ (ih h)

section Rows
variable {svc : Services K ι}

/-- What the row of an event shows of a track. -/
def Track.rowContent (track : Track K) : Row K := rowOf ⟨"", track, none, 0⟩

theorem newEvents_content (svc : Services K ι) (n : Nat) (tracks : List (Track K)) :
    (newEvents svc n tracks).map (fun event => (rowOf event).content) =
      tracks.map Track.rowContent := by
  induction tracks generalizing n with
  | nil => rfl
  | cons t ts ih =>
    rw [newEvents, List.map_cons, List.map_cons, ih]
    rfl

theorem newEvents_ids (svc : Services K ι) (n : Nat) (tracks : List (Track K)) :
    (newEvents svc n tracks).map TrackEvent.eventId =
      (List.range' n tracks.length).map svc.uuid := by
  induction tracks generalizing n with
  | nil => rfl
  | cons t ts ih => simp [newEvents, ih, List.range'_succ]

theorem newEvents_times {n : Nat} {tracks : List (Track K)} {event : TrackEvent K}
    (h : event ∈ newEvents svc n tracks) : ∃ m, event.eventTimeMs = svc.nowMs m := by
  induction tracks generalizing n with
  | nil => simp [newEvents] at h
  | cons t ts ih =>
    rcases List.mem_cons.mp h with rfl | h
    · exact ⟨n, rfl⟩
    · exact ih h

end Rows

section Outcome
variable {svc svc' : Services K ι} {w w' : InferenceWorker K}

/-- Two workers with the same trackers, whose events end up as the same rows but
for fresh ids and times. -/
structure SameOutcome (w w' : InferenceWorker K) : Prop where
  trackers : w.trackers = w'.trackers
  rows : ∀ table table', Stores w.events table → Stores w'.events table' →
    (table.values.map Row.content).Perm (table'.values.map Row.content)

/-- The rows of a worker's events, in publication order. -/
def rowContents (w : InferenceWorker K) : List (Row K) :=
  w.events.map (fun event => (rowOf event).content)

/-- The same, with the rows in the order in which they are published. -/
structure Alike (w w' : InferenceWorker K) : Prop where
  trackers : w.trackers = w'.trackers
  rows : rowContents w = rowContents w'

theorem Alike.trans {w'' : InferenceWorker K} (h : Alike w w') (h' : Alike w' w'') : Alike w w'' :=
  ⟨h.trackers.trans h'.trackers, h.rows.trans h'.rows⟩

/-- The events of a worker have the ids it has drawn, and times its clock has shown. -/
structure Stamped (svc : Services K ι) (w : InferenceWorker K) : Prop where
  ids : w.events.map TrackEvent.eventId = (List.range w.constructed).map svc.uuid
  times : ∀ event ∈ w.events, ∃ n, event.eventTimeMs = svc.nowMs n

theorem Stamped.nodup (h : Stamped svc w) (hf : svc.Fresh) :
    (w.events.map TrackEvent.eventId).Nodup := by
  rw [h.ids]
  exact List.nodup_range.map hf.uuid

theorem Stamped.stores_perm (h : Stamped svc w) (hf : svc.Fresh) {table : Table K}
    (ht : Stores w.events table) : (table.values.map Row.content).Perm (rowContents w) := by
  have hp := (ht.perm (h.nodup hf)).map Row.content
  rwa [List.map_map] at hp

theorem Stamped.exists_stores (h : Stamped svc w) (hf : svc.Fresh) :
    ∃ table, Stores w.events table := by
  apply CamTrack.exists_stores
  intro event he
  obtain ⟨n, hn⟩ := h.times event he
  rw [hn]
  exact hf.nowMs n

/-- What a comparison of the stored tables comes to. -/
theorem sameOutcome_iff (h : Stamped svc w) (h' : Stamped svc' w') (hf : svc.Fresh)
    (hf' : svc'.Fresh) :
    SameOutcome w w' ↔ w.trackers = w'.trackers ∧ (rowContents w).Perm (rowContents w') := by
  constructor
  · intro hx
    obtain ⟨htrackers, hrows⟩ := hx
    obtain ⟨table, ht⟩ := h.exists_stores hf
    obtain ⟨table', ht'⟩ := h'.exists_stores hf'
    exact ⟨htrackers, ((h.stores_perm hf ht).symm.trans (hrows table table' ht ht')).trans
      (h'.stores_perm hf' ht')⟩
  · intro hx
    obtain ⟨htrackers, hrows⟩ := hx
    refine ⟨htrackers, fun table table' ht ht' => ?_⟩
    exact ((h.stores_perm hf ht).trans hrows).trans (h'.stores_perm hf' ht').symm

variable [HasSqrt K] {item : FrameItem} {tracks : List (Track K)} {tracker : ByteTracker K}

theorem InferenceWorker.Handled.stamped (h : Handled svc w item tracks tracker w')
    (hw : Stamped svc w) : Stamped svc w' := by
  refine ⟨?_, fun event he => ?_⟩
  · have hrange := @List.range'_append_1 0 w.constructed tracks.length
    rw [Nat.zero_add] at hrange
    rw [h.events, List.map_append, hw.ids, newEvents_ids, h.constructed, ← List.map_append,
      List.range_eq_range', List.range_eq_range', hrange]
  · rw [h.events] at he
    rcases List.mem_append.mp he with he | he
    · exact hw.times event he
    · exact newEvents_times he

theorem InferenceWorker.Handled.rowContents (h : Handled svc w item tracks tracker w') :
    rowContents w' = rowContents w ++ tracks.map Track.rowContent := by
  rw [CamTrack.rowContents, h.events, List.map_append, newEvents_content]
  rfl

theorem after_concat (svc : Services K ι) (items : List FrameItem) (item : FrameItem) :
    after svc (items ++ [item]) = handled svc (after svc items) item := by
  rw [after, List.foldl_append, List.foldl_cons, List.foldl_nil]

theorem after_stamped [IsStrictOrderedRing K] (hs : Assigns svc.solver) (items : List FrameItem) :
    Stamped svc (after svc items) := by
  induction items using List.reverseRecOn with
  | nil => exact ⟨rfl, fun _ he => (nomatch he)⟩
  | append_singleton items item ih =>
    obtain ⟨_, _, _, _, h, _⟩ := handled_updated hs (after_sound hs items) item
    rw [after_concat]
    exact h.stamped ih

end Outcome

section Runs
variable [HasSqrt K] [IsStrictOrderedRing K] {svc : Services K ι} {uuid : Nat → String}
  {nowMs : Nat → Int} {w w' : InferenceWorker K}

/-- At this point the frame does nothing: its camera has no tracks, and nothing is
detected in it with high confidence. -/
def Inert (svc : Services K ι) (items : List FrameItem) (frame : RawFrame) : Prop :=
  ((after svc items).trackerOf frame.cameraId).tracks.keys = [] ∧
    ∀ d ∈ detections svc frame, ByteTracker.isHighConf d = false

omit [HasSqrt K] [IsStrictOrderedRing K] in
theorem renew_assigns (hs : Assigns svc.solver) : Assigns (svc.renew uuid nowMs).solver := hs

/-- Workers with the same trackers return the same tracks for a frame. -/
theorem handled_same (hs : Assigns svc.solver) (hw : Sound svc w)
    (hw' : Sound (svc.renew uuid nowMs) w') (ht : w.trackers = w'.trackers) (item : FrameItem) :
    ∃ tracks tracker, Handled svc w item tracks tracker (handled svc w item) ∧
      Handled (svc.renew uuid nowMs) w' item tracks tracker
        (handled (svc.renew uuid nowMs) w' item) := by
  obtain ⟨_, _, tracks, tracker, h, _⟩ := handled_updated hs hw item
  obtain ⟨_, _, tracks', tracker', h', _⟩ := handled_updated (renew_assigns hs) hw' item
  have hof : w'.trackerOf item.2.cameraId = w.trackerOf item.2.cameraId := by
    rw [trackerOf, trackerOf, ht]
  have hu : (w.trackerOf item.2.cameraId).update svc.solver (detections svc item.2)
      item.2.frameId = .ok (tracks', tracker') := by
    rw [← hof]
    exact h'.update
  obtain ⟨rfl, rfl⟩ : tracks = tracks' ∧ tracker = tracker' := by
    simpa using h.update.symm.trans hu
  exact ⟨tracks, tracker, h, h'⟩

/-- Workers that are alike do the same with a frame. -/
theorem Alike.handled (hs : Assigns svc.solver) (hw : Sound svc w)
    (hw' : Sound (svc.renew uuid nowMs) w') (ha : Alike w w') (item : FrameItem) :
    Alike (handled svc w item) (handled (svc.renew uuid nowMs) w' item) := by
  obtain ⟨tracks, tracker, h, h'⟩ := handled_same hs hw hw' ha.trackers item
  exact ⟨by rw [h.trackers, h'.trackers, ha.trackers],
    by rw [h.rowContents, h'.rowContents, ha.rows]⟩

theorem mem_trackers (hs : Assigns svc.solver) {items : List FrameItem} {item : FrameItem}
    (h : item ∈ items) : item.2.cameraId ∈ (after svc items).trackers.keys := by
  induction items using List.reverseRecOn with
  | nil => simp at h
  | append_singleton items last ih =>
    obtain ⟨_, _, _, tracker, hh, _⟩ := handled_updated hs (after_sound hs items) last
    rw [after_concat, hh.trackers, Dict.mem_keys_iff]
    simp only [Dict.get?_set]
    rcases List.mem_append.mp h with h | h
    · obtain ⟨t, ht⟩ := Dict.mem_keys_iff.mp (ih h)
      split
      · exact ⟨_, rfl⟩
      · exact ⟨t, ht⟩
    · obtain rfl := List.mem_singleton.mp h
      exact ⟨_, if_pos rfl⟩

/-- A frame that has come before changes nothing, and publishes nothing, exactly
when it is inert. -/
theorem redelivered_iff (hs : Assigns svc.solver) {before : List FrameItem} {item : FrameItem}
    (hin : item.2 ∈ before.map Prod.snd) :
    Alike (after svc (before ++ [item])) (after svc before) ↔ Inert svc before item.2 := by
  rw [after_concat]
  obtain ⟨_, _, tracks, tracker, h, hu⟩ := handled_updated hs (after_sound hs before) item
  obtain ⟨hwf, _⟩ := ((after_sound hs before).trackerOf item.2.cameraId).wellFormed hs
  obtain ⟨t, ht⟩ : ∃ t, (after svc before).trackers.get? item.2.cameraId = some t := by
    obtain ⟨other, ho, he⟩ := List.mem_map.mp hin
    rw [← he]
    exact Dict.mem_keys_iff.mp (mem_trackers hs ho)
  have hof : (after svc before).trackerOf item.2.cameraId = t := by
    rw [trackerOf, ht, Option.getD_some]
  rw [Inert, ← hu.inert_iff hwf, hof]
  constructor
  · intro hx
    obtain ⟨hset, hrows⟩ := hx
    rw [h.trackers] at hset
    rw [h.rowContents, List.append_right_eq_self, List.map_eq_nil_iff] at hrows
    have hget := congrArg (fun d => Dict.get? d item.2.cameraId) hset
    simp only [Dict.get?_set_self, ht, Option.some.injEq] at hget
    exact ⟨hget, hrows⟩
  · intro hx
    obtain ⟨rfl, rfl⟩ := hx
    exact ⟨h.trackers.trans (Dict.set_eq_self ht), h.rowContents.trans (List.append_nil _)⟩

/-- Where every redelivery is inert, leaving the redeliveries out changes nothing. -/
theorem alike_of_inert (hs : Assigns svc.solver) {frame : RawFrame} {items : List FrameItem}
    (h : ∀ before item rest, items = before ++ item :: rest → item.2 = frame →
      frame ∈ before.map Prod.snd → Inert svc before frame) :
    Alike (after svc items) (after (svc.renew uuid nowMs) (onceDelivered frame items)) := by
  induction items using List.reverseRecOn with
  | nil => exact ⟨rfl, rfl⟩
  | append_singleton items item ih =>
    have hprev : Alike (after svc items)
        (after (svc.renew uuid nowMs) (onceDelivered frame items)) :=
      ih (fun before other rest he => h before other (rest ++ [item]) (by rw [he]; simp))
    rw [onceDelivered_concat]
    split
    · rename_i hre
      obtain ⟨rfl, hin⟩ := hre
      rw [List.append_nil]
      exact ((redelivered_iff hs hin).mpr (h items item [] rfl rfl hin)).trans hprev
    · rw [after_concat, after_concat]
      exact hprev.handled hs (after_sound hs _) (after_sound (renew_assigns hs) _) item

omit [HasSqrt K] [IsStrictOrderedRing K] in
theorem processed_loadable {s : Batching K} :
    ∀ item ∈ processed svc s, loadable svc item = true := by
  intro item hi
  obtain ⟨batch, hb, hi⟩ := List.mem_flatten.mp hi
  exact List.all_eq_true.mp (List.mem_filter.mp hb).2 item hi

omit [IsStrictOrderedRing K] in
theorem processed_waiting {items : List FrameItem}
    (hload : ∀ item ∈ items, loadable svc item = true) :
    processed svc (waiting svc items) = items := by
  have hflat : (items.map (fun item => [item])).flatten = items := by
    rw [← List.flatMap_def, List.flatMap_singleton']
  rw [processed, waiting, filter_loaded (by rwa [hflat]), hflat]

variable [Rounding K]

/-- A worker of a renewed deployment that processes the same frames, each delivery
but the first of one frame left out, has the same outcome. -/
def HarmlessAt (svc svc' : Services K ι) (frame : RawFrame) (s : Batching K) : Prop :=
  ∀ (cfg : BatcherConfig) (actions : List (BatcherAction K FrameItem)) (s' : Batching K),
    Run (DynamicBatcher.step cfg (onBatch svc')) (DynamicBatcher.start new) actions s' →
    processed svc' s' = onceDelivered frame (processed svc s) → SameOutcome s.owner s'.owner

/-- A redelivery that is harmless up to it and with it is inert. -/
theorem inert_of_harmless (hs : Assigns svc.solver) (hf : svc.Fresh)
    (hf' : (svc.renew uuid nowMs).Fresh) {before : List FrameItem} {item : FrameItem}
    (hload : ∀ other ∈ before ++ [item], loadable svc other = true)
    (hin : item.2 ∈ before.map Prod.snd)
    (h : HarmlessAt svc (svc.renew uuid nowMs) item.2 (waiting svc before))
    (h' : HarmlessAt svc (svc.renew uuid nowMs) item.2 (waiting svc (before ++ [item]))) :
    Inert svc before item.2 := by
  have hbefore : ∀ other ∈ before, loadable svc other = true :=
    fun other ho => hload other (List.mem_append_left _ ho)
  have honce : ∀ other ∈ onceDelivered item.2 before,
      loadable (svc.renew uuid nowMs) other = true :=
    fun other ho => hbefore other (mem_of_onceDelivered ho)
  obtain ⟨actions, hrun⟩ := waiting_run (renew_assigns hs) honce
  have hp := processed_waiting honce
  have h1 := h _ actions _ hrun (by rw [hp, processed_waiting hbefore])
  have h2 := h' _ actions _ hrun (by
    rw [hp, processed_waiting hload, onceDelivered_concat, if_pos ⟨rfl, hin⟩, List.append_nil])
  have hst : Stamped (svc.renew uuid nowMs)
      (after (svc.renew uuid nowMs) (onceDelivered item.2 before)) :=
    after_stamped (renew_assigns hs) _
  obtain ⟨ht1, hp1⟩ := (sameOutcome_iff (after_stamped hs before) hst hf hf').mp h1
  obtain ⟨ht2, hp2⟩ := (sameOutcome_iff (after_stamped hs (before ++ [item])) hst hf hf').mp h2
  obtain ⟨_, _, tracks, tracker, hh, _⟩ := handled_updated hs (after_sound hs before) item
  have hpre : rowContents (after svc before) <+: rowContents (after svc (before ++ [item])) := by
    rw [after_concat, hh.rowContents]
    exact List.prefix_append _ _
  exact (redelivered_iff hs hin).mp ⟨ht2.trans ht1.symm,
    (hpre.eq_of_length (hp1.length_eq.trans hp2.length_eq.symm)).symm⟩

/-- Some run of a worker processes exactly these frames. -/
def Processes (svc : Services K ι) (items : List FrameItem) : Prop :=
  ∃ (cfg : BatcherConfig) (actions : List (BatcherAction K FrameItem)) (s : Batching K),
    Run (DynamicBatcher.step cfg (onBatch svc)) (DynamicBatcher.start new) actions s ∧
      processed svc s = items

/-- Redelivery of a frame is harmless all along the processing of some frames
exactly when, whenever it comes again, its camera has no tracks and nothing is
detected in it with high confidence. -/
theorem redelivery_harmless_iff {items : List FrameItem} (hs : Assigns svc.solver)
    (hf : svc.Fresh) (hf' : (svc.renew uuid nowMs).Fresh) (h : Processes svc items)
    (frame : RawFrame) :
    (∀ (cfg : BatcherConfig) actions s,
        Run (DynamicBatcher.step cfg (onBatch svc)) (DynamicBatcher.start new) actions s →
        processed svc s <+: items → HarmlessAt svc (svc.renew uuid nowMs) frame s) ↔
      ∀ before item rest, items = before ++ item :: rest → item.2 = frame →
        frame ∈ before.map Prod.snd → Inert svc before frame := by
  constructor
  · rintro hall before item rest rfl rfl hin
    obtain ⟨_, _, s, _, he⟩ := h
    have hload : ∀ other ∈ before ++ [item], loadable svc other = true := by
      intro other ho
      have hin' : other ∈ before ++ item :: rest := by
        rw [List.append_cons]
        exact List.mem_append_left _ ho
      rw [← he] at hin'
      exact processed_loadable other hin'
    have hbefore : ∀ other ∈ before, loadable svc other = true :=
      fun other ho => hload other (List.mem_append_left _ ho)
    obtain ⟨_, hrun⟩ := waiting_run hs hbefore
    obtain ⟨_, hrun'⟩ := waiting_run hs hload
    refine inert_of_harmless hs hf hf' hload hin (hall _ _ _ hrun ?_) (hall _ _ _ hrun' ?_)
    · rw [processed_waiting hbefore]
      exact List.prefix_append _ _
    · rw [processed_waiting hload]
      exact ⟨rest, by simp⟩
  · intro hinert cfg actions s hrun hpre cfg' actions' s' hrun' hp
    obtain ⟨rest, rfl⟩ := hpre
    have halike : Alike (after svc (processed svc s))
        (after (svc.renew uuid nowMs) (onceDelivered frame (processed svc s))) :=
      alike_of_inert hs (fun before item tail he =>
        hinert before item (tail ++ rest) (by rw [he]; simp))
    have hst : Stamped (svc.renew uuid nowMs)
        (after (svc.renew uuid nowMs) (onceDelivered frame (processed svc s))) :=
      after_stamped (renew_assigns hs) _
    rw [owner_eq_after hs hrun, owner_eq_after (renew_assigns hs) hrun', hp]
    exact (sameOutcome_iff (after_stamped hs _) hst hf hf').mpr
      ⟨halike.trackers, halike.rows ▸ List.Perm.refl _⟩

end Runs

section FixedRuns

/-- The ids of another run. -/
def otherUuid (n : Nat) : String := "again-" ++ toString n

theorem otherUuid_injective : Function.Injective otherUuid := by
  intro n m h
  exact Nat.repr_injective (String.append_right_inj _ |>.mp h)

theorem squareServices_fresh : squareServices.Fresh :=
  ⟨fun _ _ h => Nat.repr_injective h, fun _ => ⟨0, rfl⟩⟩

theorem renewed_fresh (svc : Services ℚ Unit) : (svc.renew otherUuid (fun _ => 0)).Fresh :=
  ⟨otherUuid_injective, fun _ => ⟨0, rfl⟩⟩

/-- Two messages with one frame. -/
def twice : List FrameItem :=
  [("1-0", squareFrame "f1" "file://f1.jpg"), ("2-0", squareFrame "f1" "file://f1.jpg")]

/-- A square delivered twice counts as two hits, and is stored twice. -/
theorem redelivery_changes_outcome :
    ¬ ∀ (cfg : BatcherConfig) actions s frame,
      Run (DynamicBatcher.step cfg (onBatch squareServices)) (DynamicBatcher.start new) actions s →
      HarmlessAt squareServices (squareServices.renew otherUuid (fun _ => 0)) frame s := by
  intro h
  let frame := squareFrame "f1" "file://f1.jpg"
  have hs := squareServices_assigns
  have hload : ∀ item ∈ ([("1-0", frame)] ++ [("2-0", frame)] : List FrameItem),
      loadable squareServices item = true := by decide
  have hload' : ∀ item ∈ ([("1-0", frame)] : List FrameItem),
      loadable squareServices item = true := by decide
  obtain ⟨_, hrun⟩ := waiting_run hs hload'
  obtain ⟨_, hrun'⟩ := waiting_run hs hload
  have hinert := inert_of_harmless hs squareServices_fresh (renewed_fresh squareServices) hload
    (by decide) (h _ _ _ frame hrun) (h _ _ _ frame hrun')
  exact absurd (hinert.2 _ List.mem_cons_self) (by decide +kernel)

/-- A detector that is unsure of its square. -/
def faintServices : Services ℚ Unit :=
  { squareServices with detect := fun _ _ _ => [faintSquare] }

/-- A frame in which nothing is detected with high confidence may come twice. -/
theorem redelivery_harmless_faint :
    ∃ actions s, Run (DynamicBatcher.step singleConfig (onBatch faintServices))
        (DynamicBatcher.start new) actions s ∧
      processed faintServices s = twice ∧
      HarmlessAt faintServices (faintServices.renew otherUuid (fun _ => 0))
        (squareFrame "f1" "file://f1.jpg") s := by
  have hs : Assigns faintServices.solver := squareServices_assigns
  have hf : faintServices.Fresh := ⟨squareServices_fresh.uuid, squareServices_fresh.nowMs⟩
  have hload : ∀ item ∈ twice, loadable faintServices item = true := by decide
  obtain ⟨actions, hrun⟩ := waiting_run hs hload
  have hp := processed_waiting hload
  refine ⟨actions, _, hrun, hp, ?_⟩
  refine (redelivery_harmless_iff hs hf (renewed_fresh faintServices) ⟨_, _, _, hrun, hp⟩ _).mpr
    ?_ _ _ _ hrun (by rw [hp])
  intro before item rest he _ _
  have hquiet : ∀ other ∈ twice, spawns faintServices "cam-1" other = false := by decide +kernel
  refine ⟨?_, by decide +kernel⟩
  have hnew := after_new hs before "cam-1"
    (fun other ho => hquiet other (by rw [he]; exact List.mem_append_left _ ho))
  change ((after faintServices before).trackerOf "cam-1").tracks.keys = []
  rw [hnew]
  rfl

end FixedRuns
end CamTrack
