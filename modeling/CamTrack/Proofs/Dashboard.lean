import CamTrack.Dashboard
import CamTrack.Proofs.Idempotence
import CamTrack.Proofs.StorageLoop

namespace CamTrack
open Python Machine Grouping

namespace Dashboard
variable {K : Type} [Field K] [LinearOrder K] {rows : List (Row K)} {view : List CountRow}
  {now minutes bucket : Int}

/-- Every row is in the zone of its camera, as the writer names it. -/
def Zoned (rows : List (Row K)) : Prop := ∀ row ∈ rows, row.zone = row.cameraId

/-- The rows of a minute. -/
def ofMinute (rows : List (Row K)) (bucket : Int) : List (Row K) :=
  rows.filter (fun row => timeBucket row.eventTime = bucket)

/-- How many tracks, of all cameras, a minute has. -/
def tracksIn (rows : List (Row K)) (bucket : Int) : Nat :=
  countDistinct (fun row => (row.cameraId, row.trackId)) (ofMinute rows bucket)

/-- How many tracks of one camera a minute has. -/
def tracksOf (rows : List (Row K)) (cameraId : String) (bucket : Int) : Nat :=
  countDistinct Row.trackId ((ofMinute rows bucket).filter (fun row => row.cameraId = cameraId))

theorem mem_ofMinute {row : Row K} :
    row ∈ ofMinute rows bucket ↔ row ∈ rows ∧ timeBucket row.eventTime = bucket := by
  simp [ofMinute]

/-- The view has one row for each minute, camera and zone, with what they count. -/
theorem mem_view (hview : view.Perm (trackCountsPerMinute rows)) {row : CountRow} :
    row ∈ view ↔ 0 < row.distinctTrackCount ∧ row.distinctTrackCount =
      countDistinct Row.trackId
        (rows.filter (fun r => r.group = (row.bucket, row.cameraId, row.zone))) := by
  rw [hview.mem_iff, trackCountsPerMinute, List.mem_map]
  constructor
  · rintro ⟨⟨⟨bucket, cameraId, zone⟩, count⟩, hmem, rfl⟩
    exact mem_groupCount.mp hmem
  · intro h
    exact ⟨((row.bucket, row.cameraId, row.zone), row.distinctTrackCount), mem_groupCount.mpr h, rfl⟩

theorem traffic_eq_ok (hminutes : 0 < minutes ∧ minutes ≤ maxLookbackMinutes)
    (cameraId : Option String) : traffic now (.ok view) cameraId none minutes =
      .ok (sortOn CountRow.bucket (view.filter (CountRow.wanted now cameraId none minutes))) := by
  simp [traffic, hminutes, given]

section AllCameras

/-- What the counts of one minute come to, over all cameras. -/
theorem sum_minute (hzoned : Zoned rows) (hview : view.Perm (trackCountsPerMinute rows))
    (bucket : Int) : ((view.filter (fun row => row.bucket = bucket)).map
      CountRow.distinctTrackCount).sum = tracksIn rows bucket := by
  have hgroups : ((view.filter (fun row => row.bucket = bucket)).map
      CountRow.distinctTrackCount).sum =
      (((groupCount Row.group Row.trackId rows).filter (fun g => decide (g.1.1 = bucket))).map
        Prod.snd).sum := by
    rw [((hview.filter _).map _).sum_eq, trackCountsPerMinute, List.filter_map, List.map_map]
    rfl
  rw [hgroups, sum_groupCount (fun k : Int × String × String => decide (k.1 = bucket))]
  refine countDistinct_eq_of_iff (fun row hrow row' hrow' => ?_)
  obtain ⟨hmem, hbucket⟩ := List.mem_filter.mp hrow
  obtain ⟨hmem', hbucket'⟩ := List.mem_filter.mp hrow'
  replace hbucket : timeBucket row.eventTime = bucket := of_decide_eq_true hbucket
  replace hbucket' : timeBucket row'.eventTime = bucket := of_decide_eq_true hbucket'
  simp only [Row.group, Prod.mk.injEq, hbucket, hbucket', hzoned row hmem, hzoned row' hmem',
    true_and, and_self]

theorem chart_all (hminutes : 0 < minutes ∧ minutes ≤ maxLookbackMinutes) :
    chart now (.ok view) "" minutes =
      .ok (aggregateByBucket (sortOn CountRow.bucket
        (view.filter (CountRow.wanted now none none minutes)))) := by
  simp [chart, traffic_eq_ok hminutes]

theorem mem_aggregateByBucket {counts : List CountRow} {count : Nat} :
    (bucket, count) ∈ aggregateByBucket counts ↔ bucket ∈ counts.map CountRow.bucket ∧
      count = ((counts.filter (fun row => row.bucket = bucket)).map
        CountRow.distinctTrackCount).sum := by
  rw [aggregateByBucket, mem_sortOn, ← Dict.get?_eq_some, get?_tally, List.map_map,
    List.filter_map, List.map_map]
  split
  · rename_i hmem
    simp only [Option.some.injEq]
    exact ⟨fun h => ⟨hmem, h.symm⟩, fun h => h.2.symm⟩
  · rename_i hmem
    exact ⟨fun h => (by cases h), fun h => absurd h.1 hmem⟩

theorem aggregateByBucket_sorted (counts : List CountRow) :
    (aggregateByBucket counts).Pairwise (fun p q => p.1 < q.1) :=
  sortOn_sorted (Dict.keys_nodup _)

/-- The minutes of the window that have tracks, in order, with how many. -/
theorem mem_chart_all (hzoned : Zoned rows) (hview : view.Perm (trackCountsPerMinute rows))
    {count : Nat} : (bucket, count) ∈ aggregateByBucket (sortOn CountRow.bucket
        (view.filter (CountRow.wanted now none none minutes))) ↔
      now - minutes * minuteMs ≤ bucket ∧ 0 < count ∧ count = tracksIn rows bucket := by
  have hsum : ∀ b, now - minutes * minuteMs ≤ b →
      (((sortOn CountRow.bucket (view.filter (CountRow.wanted now none none minutes))).filter
        (fun row => row.bucket = b)).map CountRow.distinctTrackCount).sum = tracksIn rows b := by
    intro b hb
    rw [← sum_minute hzoned hview b, (((sortOn_perm _ _).filter _).map _).sum_eq,
      List.filter_filter]
    refine congrArg (fun counts => (List.map CountRow.distinctTrackCount counts).sum) ?_
    refine List.filter_congr (fun row _ => ?_)
    by_cases hrow : row.bucket = b
    · simp [CountRow.wanted, given, hrow, hb]
    · simp [hrow]
  have hbuckets : bucket ∈ (sortOn CountRow.bucket
      (view.filter (CountRow.wanted now none none minutes))).map CountRow.bucket ↔
      now - minutes * minuteMs ≤ bucket ∧ 0 < tracksIn rows bucket := by
    simp only [List.mem_map, mem_sortOn, List.mem_filter, CountRow.wanted, given, Bool.not_false,
      Bool.true_or, Bool.and_true, decide_eq_true_eq]
    constructor
    · rintro ⟨row, ⟨hrow, hwindow⟩, rfl⟩
      obtain ⟨hpos, hcount⟩ := (mem_view hview).mp hrow
      obtain ⟨r, hr⟩ := exists_mem_of_countDistinct (hcount ▸ hpos)
      obtain ⟨hmem, hgroup⟩ := List.mem_filter.mp hr
      have hbucket : timeBucket r.eventTime = row.bucket :=
        congrArg Prod.fst (of_decide_eq_true hgroup)
      exact ⟨hwindow, countDistinct_pos (mem_ofMinute.mpr ⟨hmem, hbucket⟩)⟩
    · rintro ⟨hwindow, hpos⟩
      obtain ⟨r, hr⟩ := exists_mem_of_countDistinct hpos
      obtain ⟨hmem, hbucket⟩ := mem_ofMinute.mp hr
      have hsame : r ∈ rows.filter (fun x => x.group = (bucket, r.cameraId, r.zone)) :=
        List.mem_filter.mpr ⟨hmem, by simp [Row.group, hbucket]⟩
      refine ⟨⟨bucket, r.cameraId, r.zone, countDistinct Row.trackId
        (rows.filter (fun x => x.group = (bucket, r.cameraId, r.zone)))⟩, ⟨?_, hwindow⟩, rfl⟩
      exact (mem_view hview).mpr ⟨countDistinct_pos hsame, rfl⟩
  rw [mem_aggregateByBucket, hbuckets]
  constructor
  · rintro ⟨⟨hwindow, hpos⟩, rfl⟩
    rw [hsum bucket hwindow]
    exact ⟨hwindow, hpos, rfl⟩
  · rintro ⟨hwindow, hpos, rfl⟩
    exact ⟨⟨hwindow, hpos⟩, (hsum bucket hwindow).symm⟩

end AllCameras

section OneCamera
variable {cameraId : String}

theorem chart_camera (hcamera : cameraId ≠ "")
    (hminutes : 0 < minutes ∧ minutes ≤ maxLookbackMinutes) :
    chart now (.ok view) cameraId minutes =
      .ok ((sortOn CountRow.bucket (view.filter
        (CountRow.wanted now (some cameraId) none minutes))).map
          (fun row => (row.bucket, row.distinctTrackCount))) := by
  simp [chart, traffic_eq_ok hminutes, hcamera]

theorem wanted_camera (hcamera : cameraId ≠ "") {row : CountRow} :
    row.wanted now (some cameraId) none minutes = true ↔
      now - minutes * minuteMs ≤ row.bucket ∧ row.cameraId = cameraId := by
  simp [CountRow.wanted, given, hcamera]

/-- The rows of one camera, in its zone. -/
theorem filter_group (hzoned : Zoned rows) (bucket : Int) (cameraId : String) :
    rows.filter (fun r => r.group = (bucket, cameraId, cameraId)) =
      (ofMinute rows bucket).filter (fun row => row.cameraId = cameraId) := by
  rw [ofMinute, List.filter_filter]
  refine List.filter_congr (fun row hrow => ?_)
  have hzone := hzoned row hrow
  rw [← Bool.decide_and, decide_eq_decide]
  simp only [Row.group, Prod.mk.injEq, hzone]
  tauto

/-- The zone of a row of the view is that of its camera. -/
theorem view_zone (hzoned : Zoned rows) (hview : view.Perm (trackCountsPerMinute rows))
    {row : CountRow} (hrow : row ∈ view) : row.zone = row.cameraId := by
  obtain ⟨hpos, hcount⟩ := (mem_view hview).mp hrow
  obtain ⟨r, hr⟩ := exists_mem_of_countDistinct (hcount ▸ hpos)
  obtain ⟨hmem, hgroup⟩ := List.mem_filter.mp hr
  obtain ⟨_, hname, hzone⟩ : timeBucket r.eventTime = row.bucket ∧ r.cameraId = row.cameraId ∧
      r.zone = row.zone := by
    simpa [Row.group] using hgroup
  rw [← hzone, hzoned r hmem, hname]

theorem mem_chart_camera (hzoned : Zoned rows) (hview : view.Perm (trackCountsPerMinute rows))
    (hcamera : cameraId ≠ "") {count : Nat} :
    (bucket, count) ∈ (sortOn CountRow.bucket (view.filter
        (CountRow.wanted now (some cameraId) none minutes))).map
          (fun row => (row.bucket, row.distinctTrackCount)) ↔
      now - minutes * minuteMs ≤ bucket ∧ 0 < count ∧ count = tracksOf rows cameraId bucket := by
  simp only [List.mem_map, mem_sortOn, List.mem_filter, wanted_camera hcamera, Prod.mk.injEq]
  constructor
  · rintro ⟨row, ⟨hrow, hwindow, rfl⟩, rfl, rfl⟩
    obtain ⟨hpos, hcount⟩ := (mem_view hview).mp hrow
    rw [view_zone hzoned hview hrow, filter_group hzoned] at hcount
    exact ⟨hwindow, hpos, hcount⟩
  · rintro ⟨hwindow, hpos, hcount⟩
    refine ⟨⟨bucket, cameraId, cameraId, count⟩, ⟨(mem_view hview).mpr ⟨hpos, ?_⟩, hwindow, rfl⟩,
      rfl, rfl⟩
    rw [hcount, tracksOf, filter_group hzoned]

theorem chart_camera_sorted (hzoned : Zoned rows)
    (hview : view.Perm (trackCountsPerMinute rows)) (hcamera : cameraId ≠ "") :
    ((sortOn CountRow.bucket (view.filter
      (CountRow.wanted now (some cameraId) none minutes))).map
        (fun row => (row.bucket, row.distinctTrackCount))).Pairwise (fun p q => p.1 < q.1) := by
  refine List.pairwise_map.mpr (sortOn_sorted ?_)
  have hkeys : (view.map (fun row => (row.bucket, row.cameraId, row.zone))).Nodup := by
    have hgroups : ((groupCount Row.group Row.trackId rows).map Prod.fst).Nodup :=
      groupCount_nodup rows
    rw [(hview.map _).nodup_iff, trackCountsPerMinute, List.map_map]
    exact hgroups
  rw [List.nodup_map_iff_inj_on (hkeys.of_map.filter _)]
  intro row hrow row' hrow' hbucket
  obtain ⟨hmem, hwanted⟩ := List.mem_filter.mp hrow
  obtain ⟨hmem', hwanted'⟩ := List.mem_filter.mp hrow'
  have hname := ((wanted_camera hcamera).mp hwanted).2
  have hname' := ((wanted_camera hcamera).mp hwanted').2
  refine List.inj_on_of_nodup_map hkeys hmem hmem' ?_
  simp only [Prod.mk.injEq]
  refine ⟨hbucket, hname.trans hname'.symm, ?_⟩
  rw [view_zone hzoned hview hmem, view_zone hzoned hview hmem', hname, hname']

end OneCamera

section Stored
variable {π : Type} {validate : π → Except Error (TrackEvent K)} {s s' : StorageLoop K π}
  {actions actions' : List (StorageAction π)}

/-- The committed rows. -/
def stored (s : StorageLoop K π) : List (Row K) := s.connection.committed.values

theorem stored_zoned (h : Run (StorageLoop.step validate) StorageLoop.start actions s) :
    Zoned (stored s) := by
  intro row hrow
  obtain ⟨⟨id, row⟩, hentry, rfl⟩ := List.mem_map.mp hrow
  have hsound := StorageLoop.sound h
  obtain ⟨_, _, _, _, _, hfiled⟩ := hsound.filed id row
    (hsound.kept id row (Dict.get?_eq_some.mpr hentry))
  rw [hfiled]
  rfl

section FixedRun

/-- A person that another camera has tracked. -/
def onSecondCamera (eventId trackId : String) : TrackEvent ℚ :=
  let event := Connection.personEvent eventId trackId
  { event with track := { event.track with cameraId := "cam-2" } }

/-- Two tracks of one camera, one of them in two events, and one of another, in one batch. -/
def storedTogether : List (StorageAction (TrackEvent ℚ)) :=
  [.consumed [⟨"1", Connection.personEvent "e1" "t1"⟩, ⟨"2", onSecondCamera "e2" "t3"⟩,
      ⟨"3", Connection.personEvent "e3" "t2"⟩, ⟨"4", Connection.personEvent "e4" "t1"⟩],
    .validate, .validate, .validate, .validate, .rows, .page, .commit, .ack, .ack, .ack, .ack]

/-- The tracks again, in two batches, the first of which is written twice. -/
def storedApart : List (StorageAction (TrackEvent ℚ)) :=
  [.consumed [⟨"1", Connection.personEvent "e5" "t2"⟩], .validate, .rows, .page, .commit, .restart,
    .consumed [⟨"1", Connection.personEvent "e5" "t2"⟩], .validate, .rows, .page, .commit, .ack,
    .consumed [⟨"2", Connection.personEvent "e6" "t1"⟩, ⟨"3", onSecondCamera "e7" "t3"⟩],
    .validate, .validate, .rows, .page, .commit, .ack, .ack]

/-- Both runs end with a table in which one camera has two tracks of one minute and the
other one. -/
theorem run_stored {actions : List (StorageAction (TrackEvent ℚ))}
    (h : actions = storedTogether ∨ actions = storedApart) :
    ∃ s : StorageLoop ℚ (TrackEvent ℚ), Run (StorageLoop.step .ok) StorageLoop.start actions s ∧
      tracksIn (stored s) 0 = 3 ∧ tracksOf (stored s) "cam-1" 0 = 2 ∧
      tracksOf (stored s) "cam-2" 0 = 1 ∧
      ((stored s).map (fun row => (timeBucket row.eventTime, row.cameraId, row.trackId))).toFinset =
        {(0, "cam-1", "t1"), (0, "cam-1", "t2"), (0, "cam-2", "t3")} := by
  have hrun : (actions.foldlM (StorageLoop.step (K := ℚ) .ok) StorageLoop.start).any (fun s =>
      decide (tracksIn (stored s) 0 = 3 ∧ tracksOf (stored s) "cam-1" 0 = 2 ∧
        tracksOf (stored s) "cam-2" 0 = 1 ∧
        ((stored s).map (fun row =>
          (timeBucket row.eventTime, row.cameraId, row.trackId))).toFinset =
            {(0, "cam-1", "t1"), (0, "cam-1", "t2"), (0, "cam-2", "t3")})) = true := by
    rcases h with rfl | rfl <;> decide +kernel
  obtain ⟨s, hs, hp⟩ := (Option.any_eq_true _ _).mp hrun
  exact ⟨s, hs, of_decide_eq_true hp⟩

end FixedRun

/-- Whatever the storage process has been through, the page draws for all cameras, once the
view is refreshed, the minutes of the window in which something was tracked, in order and
each with the number of different tracks that its events are of. -/
theorem all_cameras_chart (now : Int)
    (h : Run (StorageLoop.step validate) StorageLoop.start actions s)
    (hview : view.Perm (trackCountsPerMinute (stored s)))
    (hminutes : 0 < minutes ∧ minutes ≤ maxLookbackMinutes) :
    ∃ points, chart now (.ok view) "" minutes = .ok points ∧
      points.Pairwise (fun p q => p.1 < q.1) ∧ ∀ bucket count, (bucket, count) ∈ points ↔
        now - minutes * minuteMs ≤ bucket ∧ 0 < count ∧ count = tracksIn (stored s) bucket :=
  ⟨_, chart_all hminutes, aggregateByBucket_sorted _,
    fun _ _ => mem_chart_all (stored_zoned h) hview⟩

/-- Of a minute that ended more than a minute ago, which a refresh covers. -/
theorem all_cameras_chart_together : ∃ s : StorageLoop ℚ (TrackEvent ℚ),
    Run (StorageLoop.step .ok) StorageLoop.start storedTogether s ∧
      ∃ points, chart 150000 (.ok (trackCountsPerMinute (stored s))) "" 60 = .ok points ∧
        (0, 3) ∈ points := by
  obtain ⟨s, hs, htracks, _⟩ := run_stored (.inl rfl)
  obtain ⟨points, hchart, _, hpoints⟩ := all_cameras_chart 150000 hs (List.Perm.refl _)
    (by decide : (0 : Int) < 60 ∧ (60 : Int) ≤ maxLookbackMinutes)
  exact ⟨s, hs, points, hchart, (hpoints 0 3).mpr ⟨by decide, by decide, htracks.symm⟩⟩

/-- The page offers every camera once; what it draws for one of them are the minutes in which
this camera has tracked something; and the charts of the cameras on offer add up to that of
all cameras. -/
theorem camera_charts_add_up (now : Int)
    (h : Run (StorageLoop.step validate) StorageLoop.start actions s)
    (hview : view.Perm (trackCountsPerMinute (stored s)))
    (hminutes : 0 < minutes ∧ minutes ≤ maxLookbackMinutes) :
    ∃ cameras, listCameras (.ok (stored s)) = .ok cameras ∧
      cameras.Pairwise (fun c d => c.1 < d.1) ∧
      (∀ cameraId, cameraId ≠ "" → ∃ points, chart now (.ok view) cameraId minutes = .ok points ∧
        points.Pairwise (fun p q => p.1 < q.1) ∧ ∀ bucket count, (bucket, count) ∈ points ↔
          now - minutes * minuteMs ≤ bucket ∧ 0 < count ∧
            count = tracksOf (stored s) cameraId bucket) ∧
      ∀ bucket, (cameras.map (fun c => tracksOf (stored s) c.1 bucket)).sum =
        tracksIn (stored s) bucket := by
  have hzoned := stored_zoned h
  have hpairs : ∀ c ∈ ((stored s).map (fun row => (row.cameraId, row.zone))).dedup, c.2 = c.1 := by
    intro c hc
    obtain ⟨row, hrow, rfl⟩ := List.mem_map.mp (List.mem_dedup.mp hc)
    exact hzoned row hrow
  have hnodup : ((((stored s).map (fun row => (row.cameraId, row.zone))).dedup).map
      Prod.fst).Nodup := by
    rw [List.nodup_map_iff_inj_on (List.nodup_dedup _)]
    intro c hc d hd hname
    exact Prod.ext hname (by rw [hpairs c hc, hpairs d hd, hname])
  refine ⟨_, rfl, sortOn_sorted hnodup, fun cameraId hcamera => ?_, fun bucket => ?_⟩
  · exact ⟨_, chart_camera hcamera hminutes, chart_camera_sorted hzoned hview hcamera,
      fun _ _ => mem_chart_camera hzoned hview hcamera⟩
  · have hcover : ∀ row ∈ ofMinute (stored s) bucket, row.cameraId ∈
        (((stored s).map (fun row => (row.cameraId, row.zone))).dedup).map Prod.fst := by
      intro row hrow
      exact List.mem_map.mpr ⟨(row.cameraId, row.zone),
        List.mem_dedup.mpr (List.mem_map_of_mem (mem_ofMinute.mp hrow).1), rfl⟩
    rw [((sortOn_perm _ _).map _).sum_eq, tracksIn, ← sum_countDistinct hnodup hcover,
      List.map_map]
    rfl

/-- Two tracks of one camera and one of another are three. -/
theorem camera_charts_add_up_together : ∃ s : StorageLoop ℚ (TrackEvent ℚ),
    Run (StorageLoop.step .ok) StorageLoop.start storedTogether s ∧
      ∃ cameras points points', listCameras (.ok (stored s)) = .ok cameras ∧
        chart 150000 (.ok (trackCountsPerMinute (stored s))) "cam-1" 60 = .ok points ∧
        chart 150000 (.ok (trackCountsPerMinute (stored s))) "cam-2" 60 = .ok points' ∧
        (0, 2) ∈ points ∧ (0, 1) ∈ points' ∧
        (cameras.map (fun c => tracksOf (stored s) c.1 0)).sum = 3 := by
  obtain ⟨s, hs, htracks, hfirst, hsecond, _⟩ := run_stored (.inl rfl)
  obtain ⟨cameras, hcameras, _, hcharts, hsum⟩ := camera_charts_add_up 150000 hs
    (List.Perm.refl _) (by decide : (0 : Int) < 60 ∧ (60 : Int) ≤ maxLookbackMinutes)
  obtain ⟨points, hchart, _, hpoints⟩ := hcharts "cam-1" (by decide)
  obtain ⟨points', hchart', _, hpoints'⟩ := hcharts "cam-2" (by decide)
  exact ⟨s, hs, cameras, points, points', hcameras, hchart, hchart',
    (hpoints 0 2).mpr ⟨by decide, by decide, hfirst.symm⟩,
    (hpoints' 0 1).mpr ⟨by decide, by decide, hsecond.symm⟩, (hsum 0).trans htracks⟩

/-- Charts tell only which tracks were seen in which minutes: a table that has them in other
rows, or more often, under other event ids, is drawn the same. -/
theorem charts_ignore_repeats (now : Int) (cameraId : String)
    (h : Run (StorageLoop.step validate) StorageLoop.start actions s)
    (h' : Run (StorageLoop.step validate) StorageLoop.start actions' s')
    {view' : List CountRow} (hview : view.Perm (trackCountsPerMinute (stored s)))
    (hview' : view'.Perm (trackCountsPerMinute (stored s')))
    (hsame : ∀ point : Int × String × String,
      (∃ row ∈ stored s, (timeBucket row.eventTime, row.cameraId, row.trackId) = point) ↔
        ∃ row ∈ stored s', (timeBucket row.eventTime, row.cameraId, row.trackId) = point) :
    chart now (.ok view) cameraId minutes = chart now (.ok view') cameraId minutes := by
  have htracksIn : ∀ b, tracksIn (stored s) b = tracksIn (stored s') b := by
    intro b
    refine countDistinct_congr (fun q => ?_)
    have hpoint := hsame (b, q)
    simpa [mem_ofMinute, and_assoc, Prod.ext_iff] using hpoint
  have htracksOf : ∀ b, tracksOf (stored s) cameraId b = tracksOf (stored s') cameraId b := by
    intro b
    refine countDistinct_congr (fun t => ?_)
    have hpoint := hsame (b, cameraId, t)
    simpa [mem_ofMinute, and_assoc, Prod.ext_iff] using hpoint
  by_cases hminutes : 0 < minutes ∧ minutes ≤ maxLookbackMinutes
  · have hequal : ∀ {points points' : List (Int × Nat)},
        points.Pairwise (fun p q => p.1 < q.1) → points'.Pairwise (fun p q => p.1 < q.1) →
        (∀ p, p ∈ points ↔ p ∈ points') → points = points' := by
      intro points points' hsorted hsorted' hmem
      have hirrefl : Std.Irrefl (fun p q : Int × Nat => p.1 < q.1) := ⟨fun p => lt_irrefl p.1⟩
      have hasymm : Std.Antisymm (fun p q : Int × Nat => p.1 < q.1) :=
        ⟨fun p q hpq hqp => absurd hpq (lt_asymm hqp)⟩
      exact hsorted.eq_of_mem_iff hsorted' hmem
    by_cases hcamera : cameraId = ""
    · subst hcamera
      rw [chart_all hminutes, chart_all hminutes]
      refine congrArg Except.ok (hequal (aggregateByBucket_sorted _) (aggregateByBucket_sorted _)
        (fun p => ?_))
      rw [mem_chart_all (stored_zoned h) hview, mem_chart_all (stored_zoned h') hview', htracksIn]
    · rw [chart_camera hcamera hminutes, chart_camera hcamera hminutes]
      refine congrArg Except.ok (hequal (chart_camera_sorted (stored_zoned h) hview hcamera)
        (chart_camera_sorted (stored_zoned h') hview' hcamera) (fun p => ?_))
      rw [mem_chart_camera (stored_zoned h) hview hcamera,
        mem_chart_camera (stored_zoned h') hview' hcamera, htracksOf]
  · simp [chart, traffic, hminutes]

theorem charts_ignore_repeats_apart : ∃ s s' : StorageLoop ℚ (TrackEvent ℚ),
    Run (StorageLoop.step .ok) StorageLoop.start storedTogether s ∧
      Run (StorageLoop.step .ok) StorageLoop.start storedApart s' ∧
      chart 150000 (.ok (trackCountsPerMinute (stored s))) "" 60 =
        chart 150000 (.ok (trackCountsPerMinute (stored s'))) "" 60 := by
  obtain ⟨s, hs, _, _, _, hpoints⟩ := run_stored (.inl rfl)
  obtain ⟨s', hs', _, _, _, hpoints'⟩ := run_stored (.inr rfl)
  refine ⟨s, s', hs, hs', charts_ignore_repeats 150000 "" hs hs' (List.Perm.refl _)
    (List.Perm.refl _) (fun point => ?_)⟩
  have hmem := Finset.ext_iff.mp (hpoints.trans hpoints'.symm) point
  simpa only [List.mem_toFinset, List.mem_map] using hmem

end Stored

end Dashboard
end CamTrack
