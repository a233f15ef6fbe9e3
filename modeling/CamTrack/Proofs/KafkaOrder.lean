import CamTrack.KafkaProducer
import CamTrack.Proofs.KafkaBackend

namespace CamTrack
open Python Machine

namespace KafkaBackend
variable {φ π : Type} {n : Nat} {decode : φ → Except Error π} {s s' : KafkaBackend φ n}

/-- The records of one call are, partition by partition, in the order of the log. -/
theorem poll_in_order {log : Fin n → List φ} {ps : List (Fin n)} {position last : Fin n → Nat}
    {records : List ((Fin n × Nat) × φ)} (h : poll log ps position = some (last, records)) :
    (records.map Prod.fst).Pairwise (fun a b => a.1 = b.1 → a.2 < b.2) := by
  induction ps generalizing position records with
  | nil =>
    cases h
    exact List.Pairwise.nil
  | cons p ps ih =>
    obtain ⟨value, _, h⟩ := Option.bind_eq_some_iff.mp h
    obtain ⟨⟨last', rest⟩, hrest, h⟩ := Option.bind_eq_some_iff.mp h
    cases h
    refine List.pairwise_cons.mpr ⟨fun r hr hp => ?_, ih hrest⟩
    obtain ⟨e, he, rfl⟩ := List.mem_map.mp hr
    have hle := ((poll_spec hrest).2 e he).1
    rw [← hp, Function.update_self] at hle
    exact hle

/-- An action returns nothing, or all of the records that were polled. -/
theorem returns_eq (decode : φ → Except Error π) (count : Nat) {last : Fin n → Nat}
    {records : List ((Fin n × Nat) × φ)}
    (hp : poll s.log partitions s.position = some (last, records)) :
    s.returns decode (.consume count partitions) = [] ∨
      ∃ messages, decodeAll decode records = .ok messages ∧
        s.returns decode (.consume count partitions) = records.map Prod.fst := by
  have hc : s.consume decode partitions =
      some ({ s with position := last }, decodeAll decode records) := by
    simp [consume, hp]
  cases hm : decodeAll decode records with
  | error e =>
    left
    simp [returns, hc, hm]
  | ok messages =>
    right
    refine ⟨messages, rfl, ?_⟩
    simp [returns, hc, hm, decodeAll_ids hm]

/-- What this process holds has been read, and partition by partition in order. -/
structure Held (s : KafkaBackend φ n) : Prop where
  before : ∀ r ∈ s.held, r.2 < s.position r.1
  inOrder : s.held.Pairwise (fun a b => a.1 = b.1 → a.2 < b.2)

theorem Held.step {a : KafkaAction φ n} (h : s.Held) (hstep : step decode s a = some s') :
    s'.Held := by
  cases stepped hstep with
  | produce p value => exact ⟨h.before, h.inOrder⟩
  | consume count partitions last records hpoll =>
    obtain ⟨hle, hmem⟩ := poll_spec hpoll
    have hold : ∀ r ∈ s.held, r.2 < last r.1 := fun r hr => (h.before r hr).trans_le (hle r.1)
    rcases returns_eq decode count hpoll with hret | ⟨messages, _, hret⟩
    · simp only [hret, List.append_nil]
      exact ⟨hold, h.inOrder⟩
    · simp only [hret]
      constructor
      · intro r hr
        rcases List.mem_append.mp hr with hr | hr
        · exact hold r hr
        · obtain ⟨e, he, rfl⟩ := List.mem_map.mp hr
          exact (hmem e he).2.1
      · refine List.pairwise_append.mpr ⟨h.inOrder, poll_in_order hpoll, ?_⟩
        intro a ha b hb hab
        obtain ⟨e, he, rfl⟩ := List.mem_map.mp hb
        have := h.before a ha
        rw [hab] at this
        exact this.trans_le (hmem e he).1
  | ack m _ => exact ⟨h.before, h.inOrder⟩
  | restart => exact ⟨by simp [resume], List.Pairwise.nil⟩

theorem held_in_order {actions : List (KafkaAction φ n)}
    (h : Run (KafkaBackend.step decode) new actions s) : s.Held :=
  h.invariant (fun _ _ _ hs hstep => hs.step hstep) ⟨by simp [new], List.Pairwise.nil⟩

/-- All the values of a topic decode. -/
def Decodes (decode : φ → Except Error π) (s : KafkaBackend φ n) : Prop :=
  ∀ p, ∀ value ∈ s.log p, ∃ payload, decode value = .ok payload

/-- One partition can be read on its own, record by record. -/
theorem read_partition (hdec : s.Decodes decode) (p : Fin n) (k : Nat)
    (hk : s.position p + k ≤ (s.log p).length) :
    ∃ s', Run (KafkaBackend.step decode) s (List.replicate k (.consume 1 [p])) s' ∧
      s'.log = s.log ∧ s'.position = Function.update s.position p (s.position p + k) ∧
      s'.held = s.held ++ (List.range' (s.position p) k).map (p, ·) := by
  induction k generalizing s with
  | zero => exact ⟨s, run_nil.mpr rfl, rfl, by simp, by simp⟩
  | succ k ih =>
    have hlt : s.position p < (s.log p).length := by omega
    have hlog := List.getElem?_eq_getElem hlt
    obtain ⟨payload, hd⟩ := hdec p _ (List.mem_of_getElem? hlog)
    have hone := returns_one hlog hd
    obtain ⟨t, ht, htlog, htpos⟩ := consume_one decode hlog
    have htheld : t.held = s.held ++ [(p, s.position p)] := by
      cases stepped ht with
      | consume _ _ _ _ _ => simp only [hone]
    have hp : t.position p = s.position p + 1 := by rw [htpos, Function.update_self]
    have htdec : t.Decodes decode := by
      intro q value hv
      rw [htlog] at hv
      exact hdec q value hv
    obtain ⟨s', hs', hlog', hpos', hheld'⟩ := ih htdec (by rw [hp, htlog]; omega)
    refine ⟨s', run_cons.mpr ⟨t, ht, hs'⟩, hlog'.trans htlog, ?_, ?_⟩
    · rw [hpos', hp, htpos, Function.update_idem]
      congr 1
      omega
    · rw [hheld', htheld, hp, List.range'_succ]
      simp

/-- A partition can be read up to a record, which is then among what was received. -/
theorem read_up_to (hdec : s.Decodes decode) {p : Fin n} {i : Nat} {value : φ} {payload : π}
    (hpos : s.position p = 0) (hlog : (s.log p)[i]? = some value)
    (hd : decode value = .ok payload) :
    ∃ s' batch, Run (KafkaBackend.step decode) s (List.replicate (i + 1) (.consume 1 [p])) s' ∧
      s'.log = s.log ∧ (∀ q ≠ p, s'.position q = s.position q) ∧
      s'.received decode = s.received decode ++ batch ∧ payload ∈ batch := by
  have hlen := (List.getElem?_eq_some_iff.mp hlog).1
  obtain ⟨s', hs', hlog', hpos', hheld'⟩ := read_partition hdec p (i + 1) (by omega)
  have hsame : s'.payloadAt decode = s.payloadAt decode := by
    funext r
    simp only [payloadAt, hlog']
  refine ⟨s', ((List.range' (s.position p) (i + 1)).map (p, ·)).filterMap (s.payloadAt decode),
    hs', hlog', fun q hq => by rw [hpos', Function.update_of_ne hq], ?_, ?_⟩
  · simp only [received, hheld', hsame, List.filterMap_append]
  · refine List.mem_filterMap.mpr ⟨(p, i), ?_, by simp [payloadAt, hlog, hd, Except.toOption]⟩
    exact List.mem_map.mpr ⟨i, List.mem_range'_1.mpr (by omega), rfl⟩

end KafkaBackend

namespace KafkaProducer
variable {φ π : Type} {n : Nat} {decode : φ → Except Error π} {s : KafkaBackend φ n}
  {producer : KafkaProducer π φ n}

theorem published_append (calls later : List (KafkaCall π n)) :
    KafkaCall.published (calls ++ later) =
      KafkaCall.published calls ++ KafkaCall.published later :=
  List.filterMap_append

/-- A partition holds the payloads whose keys it has been chosen for, in order. -/
theorem log_eq {calls : List (KafkaCall π n)}
    (h : Run (KafkaBackend.step decode) .new (calls.map producer.action) s) (p : Fin n) :
    s.log p = ((KafkaCall.published calls).filter (fun payload =>
      producer.partitionFor payload = p)).map producer.dumps := by
  induction calls using List.reverseRecOn generalizing s with
  | nil =>
    obtain rfl := run_nil.mp h
    rfl
  | append_singleton calls call ih =>
    rw [List.map_append] at h
    obtain ⟨t, ht, hlast⟩ := run_append.mp h
    have hstep := KafkaBackend.stepped (run_singleton.mp hlast)
    rw [published_append, List.filter_append, List.map_append, ← ih ht]
    cases call with
    | publish payload =>
      cases hstep with
      | produce q value =>
        by_cases hp : producer.partitionFor payload = p
        · subst hp
          simp [KafkaCall.published]
        · have hne : p ≠ producer.partitionFor payload := fun he => hp he.symm
          simp [KafkaCall.published, hp, Function.update_of_ne hne]
    | consume count partitions =>
      cases hstep with
      | consume _ _ _ _ _ => simp [KafkaCall.published]
    | ack messageId =>
      cases hstep with
      | ack _ _ => simp [KafkaCall.published, KafkaBackend.commit]
    | restart =>
      cases hstep with
      | restart => simp [KafkaCall.published, KafkaBackend.resume]

/-- The publishes of some payloads are possible one after the other. -/
theorem publish_all (decode : φ → Except Error π) (producer : KafkaProducer π φ n)
    (payloads : List π) (s : KafkaBackend φ n) : ∃ s',
    Run (KafkaBackend.step decode) s ((payloads.map KafkaCall.publish).map producer.action) s' ∧
      s'.position = s.position ∧ s'.held = s.held := by
  induction payloads generalizing s with
  | nil => exact ⟨s, run_nil.mpr rfl, rfl, rfl⟩
  | cons payload payloads ih =>
    obtain ⟨s', hs', hpos, hheld⟩ := ih { s with
      log := Function.update s.log (producer.partitionFor payload)
        (s.log (producer.partitionFor payload) ++ [producer.dumps payload]) }
    exact ⟨s', run_cons.mpr ⟨_, rfl, hs'⟩, hpos, hheld⟩

theorem published_reads (k count : Nat) (partitions : List (Fin n)) :
    KafkaCall.published (List.replicate k (.consume count partitions : KafkaCall π n)) = [] := by
  rw [KafkaCall.published, List.filterMap_replicate_of_none rfl]

theorem published_map (payloads : List π) :
    KafkaCall.published (payloads.map (KafkaCall.publish (n := n))) = payloads := by
  induction payloads with
  | nil => rfl
  | cons payload payloads ih =>
    rw [List.map_cons, KafkaCall.published, List.filterMap_cons]
    exact congrArg _ ih

end KafkaProducer

namespace FrameOrder
variable {φ : Type} {n : Nat} {decode : φ → Except Error RawFrame} {dumps : RawFrame → φ}
  {partitionOf : String → Fin n} {s : KafkaBackend φ n} {frames : List RawFrame}

/-- Frames in increasing `sequence_number`. -/
def InOrder (frames : List RawFrame) : Prop :=
  frames.Pairwise (fun f g => f.sequenceNumber < g.sequenceNumber)

def ofCamera (cameraId : String) (frames : List RawFrame) : List RawFrame :=
  frames.filter (fun f => f.cameraId = cameraId)

theorem recordKey_frame (frame : RawFrame) : recordKey frame.get = frame.frameId := by
  by_cases h : frame.frameId = "" <;> simp [recordKey, RawFrame.get, Option.filter, h]

theorem partitionFor_frame (frame : RawFrame) :
    (frameProducer dumps partitionOf).partitionFor frame = partitionOf frame.frameId :=
  congrArg partitionOf (recordKey_frame frame)

/-- The frames of a partition, out of those published. -/
def queued (partitionOf : String → Fin n) (p : Fin n) (frames : List RawFrame) : List RawFrame :=
  frames.filter (fun f => partitionOf f.frameId = p)

/-- What a record decodes to is a frame of its partition. -/
theorem frame_at (hjson : ∀ frame, decode (dumps frame) = .ok frame)
    {calls : List (KafkaCall RawFrame n)}
    (h : Run (KafkaBackend.step decode) .new (calls.map (frameProducer dumps partitionOf).action) s)
    (p : Fin n) (o : Nat) : s.payloadAt decode (p, o) =
      (queued partitionOf p (KafkaCall.published calls))[o]? := by
  rw [KafkaBackend.payloadAt, KafkaProducer.log_eq h p, List.getElem?_map]
  simp only [partitionFor_frame, queued]
  cases (List.filter (fun f => decide (partitionOf f.frameId = p))
      (KafkaCall.published calls))[o]? with
  | none => rfl
  | some frame =>
    have hd : decode ((frameProducer (n := n) dumps partitionOf).dumps frame) = .ok frame :=
      hjson frame
    simp only [Option.map_some, Option.bind_some, hd]
    rfl

/-- Of one partition, the frames of a camera are in the order they were published in. -/
theorem queued_in_order {cameraId : String} (hseq : InOrder (ofCamera cameraId frames)) {p : Fin n}
    {i j : Nat} {f g : RawFrame} (hij : i < j) (hf : (queued partitionOf p frames)[i]? = some f)
    (hg : (queued partitionOf p frames)[j]? = some g) (hfc : f.cameraId = cameraId)
    (hgc : g.cameraId = cameraId) : f.sequenceNumber < g.sequenceNumber := by
  have hall : frames.Pairwise (fun f g => f.cameraId = cameraId → g.cameraId = cameraId →
      f.sequenceNumber < g.sequenceNumber) := by
    have := List.pairwise_filter.mp hseq
    simpa using this
  have hpart : (queued partitionOf p frames).Pairwise (fun f g => f.cameraId = cameraId →
      g.cameraId = cameraId → f.sequenceNumber < g.sequenceNumber) :=
    hall.sublist List.filter_sublist
  obtain ⟨hi, rfl⟩ := List.getElem?_eq_some_iff.mp hf
  obtain ⟨hj, rfl⟩ := List.getElem?_eq_some_iff.mp hg
  exact List.pairwise_iff_getElem.mp hpart i j hi hj hij hfc hgc

/-- Frames whose keys share a partition are received in order. -/
theorem received_in_order (hjson : ∀ frame, decode (dumps frame) = .ok frame)
    {calls : List (KafkaCall RawFrame n)} {cameraId : String}
    (hseq : InOrder (ofCamera cameraId (KafkaCall.published calls)))
    (hsame : ∀ f ∈ ofCamera cameraId (KafkaCall.published calls),
      ∀ g ∈ ofCamera cameraId (KafkaCall.published calls),
        partitionOf f.frameId = partitionOf g.frameId)
    (h : Run (KafkaBackend.step decode) .new
      (calls.map (frameProducer dumps partitionOf).action) s) :
    InOrder (ofCamera cameraId (s.received decode)) := by
  apply List.pairwise_filter.mpr
  apply List.pairwise_filterMap.mpr
  apply (KafkaBackend.held_in_order h).inOrder.imp
  intro a b hab f hf g hg hfc hgc
  rw [frame_at hjson h] at hf hg
  have hfm := List.mem_filter.mp (List.mem_of_getElem? hf)
  have hgm := List.mem_filter.mp (List.mem_of_getElem? hg)
  have hpart : a.1 = b.1 := by
    have := hsame f (List.mem_filter.mpr ⟨hfm.1, hfc⟩) g (List.mem_filter.mpr ⟨hgm.1, hgc⟩)
    rw [← of_decide_eq_true hfm.2, this, of_decide_eq_true hgm.2]
  rw [← hpart] at hg
  exact queued_in_order hseq (hab hpart) hf hg (of_decide_eq_true hfc) (of_decide_eq_true hgc)

/-- A published frame is a record of its partition. -/
theorem record_of_published {calls : List (KafkaCall RawFrame n)} {f : RawFrame}
    (h : Run (KafkaBackend.step decode) .new (calls.map (frameProducer dumps partitionOf).action) s)
    (hf : f ∈ KafkaCall.published calls) :
    ∃ i : Nat, (s.log (partitionOf f.frameId))[i]? = some (dumps f) := by
  apply List.mem_iff_getElem?.mp
  rw [KafkaProducer.log_eq h]
  refine List.mem_map.mpr ⟨f, List.mem_filter.mpr ⟨hf, ?_⟩, rfl⟩
  rw [partitionFor_frame]
  exact decide_eq_true rfl

/-- Of two frames with different partitions, either can be received before the other. -/
theorem received_reordered (hjson : ∀ frame, decode (dumps frame) = .ok frame) {f g : RawFrame}
    (hf : f ∈ frames) (hg : g ∈ frames) (hne : partitionOf f.frameId ≠ partitionOf g.frameId) :
    ∃ calls s, KafkaCall.published calls = frames ∧
      Run (KafkaBackend.step decode) .new (calls.map (frameProducer dumps partitionOf).action) s ∧
      ∃ before after, s.received decode = before ++ after ∧ g ∈ before ∧ f ∈ after := by
  obtain ⟨s, hs, hpos, hheld⟩ :=
    KafkaProducer.publish_all decode (frameProducer dumps partitionOf) frames .new
  have hdec : s.Decodes decode := by
    intro p value hv
    rw [KafkaProducer.log_eq hs p] at hv
    obtain ⟨frame, _, rfl⟩ := List.mem_map.mp hv
    exact ⟨frame, hjson frame⟩
  rw [← KafkaProducer.published_map (n := n) frames] at hf hg
  obtain ⟨i, hi⟩ := record_of_published hs hf
  obtain ⟨j, hj⟩ := record_of_published hs hg
  obtain ⟨t, before, ht, htlog, htpos, htrec, hgmem⟩ :=
    KafkaBackend.read_up_to hdec (by rw [hpos]; rfl) hj (hjson g)
  have hdect : t.Decodes decode := by
    intro p value hv
    rw [htlog] at hv
    exact hdec p value hv
  obtain ⟨u, after, hu, _, _, hurec, hfmem⟩ := KafkaBackend.read_up_to hdect
    (by rw [htpos _ hne, hpos]; rfl) (by rw [htlog]; exact hi) (hjson f)
  refine ⟨frames.map .publish ++ List.replicate (j + 1) (.consume 1 [partitionOf g.frameId]) ++
    List.replicate (i + 1) (.consume 1 [partitionOf f.frameId]), u, ?_, ?_,
    before, after, ?_, hgmem, hfmem⟩
  · rw [KafkaProducer.published_append, KafkaProducer.published_append,
      KafkaProducer.published_reads, KafkaProducer.published_reads, KafkaProducer.published_map,
      List.append_nil, List.append_nil]
  · simp only [List.map_append, List.map_replicate]
    exact run_append.mpr ⟨t, run_append.mpr ⟨s, hs, ht⟩, hu⟩
  · rw [hurec, htrec, KafkaBackend.received, hheld]
    simp [KafkaBackend.new]

/-- However the calls on a topic interleave, the frames that a consumer receives of one
camera are in increasing `sequence_number`, exactly when the `frame_id`s of that
camera's frames all choose the same partition. -/
theorem camera_in_order_iff (hjson : ∀ frame, decode (dumps frame) = .ok frame)
    (partitionOf : String → Fin n) (cameraId : String) (hcamera : ∀ f ∈ frames, f.cameraId = cameraId)
    (hseq : InOrder frames) :
    (∀ (calls : List (KafkaCall RawFrame n)) (s : KafkaBackend φ n),
      ofCamera cameraId (KafkaCall.published calls) = frames →
      Run (KafkaBackend.step decode) .new (calls.map (frameProducer dumps partitionOf).action) s →
      InOrder (ofCamera cameraId (s.received decode))) ↔
    ∀ f ∈ frames, ∀ g ∈ frames, partitionOf f.frameId = partitionOf g.frameId := by
  constructor
  · intro hall
    have hreorder : ∀ f ∈ frames, ∀ g ∈ frames, f.sequenceNumber < g.sequenceNumber →
        partitionOf f.frameId = partitionOf g.frameId := by
      intro f hf g hg hlt
      by_contra hne
      obtain ⟨calls, s, hpub, hs, before, after, hrec, hgm, hfm⟩ :=
        received_reordered hjson hf hg hne
      have hself : ofCamera cameraId (KafkaCall.published calls) = frames := by
        rw [hpub]
        exact List.filter_eq_self.mpr (fun f hf => decide_eq_true (hcamera f hf))
      have hin := hall calls s hself hs
      rw [hrec, ofCamera, List.filter_append] at hin
      have hcross := (List.pairwise_append.mp hin).2.2
        g (List.mem_filter.mpr ⟨hgm, decide_eq_true (hcamera g hg)⟩)
        f (List.mem_filter.mpr ⟨hfm, decide_eq_true (hcamera f hf)⟩)
      exact absurd hcross (not_lt_of_gt hlt)
    have hnumbers : (frames.map RawFrame.sequenceNumber).Nodup :=
      List.pairwise_map.mpr (hseq.imp (fun h => ne_of_lt h))
    intro f hf g hg
    rcases lt_trichotomy f.sequenceNumber g.sequenceNumber with hlt | heq | hlt
    · exact hreorder f hf g hg hlt
    · rw [List.inj_on_of_nodup_map hnumbers hf hg heq]
    · exact (hreorder g hg f hf hlt).symm
  · rintro hsame calls s rfl hs
    exact received_in_order hjson hseq hsame hs

section Runs

/-- The frame of one camera that carries a number. -/
def numbered (frameId : String) (sequenceNumber : Int) : RawFrame :=
  { frameId := frameId, cameraId := "cam-1", frameUri := "", sequenceNumber := sequenceNumber }

/-- A partitioner of two keys. -/
def ofKey (key : String) : Fin 2 :=
  if key = "f0" then ⟨0, Nat.two_pos⟩ else ⟨1, Nat.one_lt_two⟩

/-- The second frame of a camera lies in another partition and is delivered first. -/
theorem later_frame_first :
    ¬ ∀ (calls : List (KafkaCall RawFrame 2)) (s : KafkaBackend RawFrame 2),
      InOrder (ofCamera "cam-1" (KafkaCall.published calls)) →
      Run (KafkaBackend.step .ok) .new (calls.map (frameProducer id ofKey).action) s →
      InOrder (ofCamera "cam-1" (s.received .ok)) := by
  intro h
  obtain ⟨s, hs, hrec⟩ : ∃ s, Run (KafkaBackend.step .ok) .new
      (([.publish (numbered "f0" 0), .publish (numbered "f1" 1), .consume 10 [1, 0]] :
        List (KafkaCall RawFrame 2)).map (frameProducer id ofKey).action) s ∧
      s.received .ok = [numbered "f1" 1, numbered "f0" 0] := ⟨_, rfl, rfl⟩
  have hin := h _ s (by unfold InOrder; decide) hs
  rw [hrec] at hin
  revert hin
  unfold InOrder
  decide

/-- Two frames of a camera whose keys choose one partition, and a frame of another camera
in the other, which is delivered between them. -/
def sharedPartition : List (KafkaCall RawFrame 2) :=
  [.publish (numbered "f1" 1), .publish { numbered "f0" 0 with cameraId := "cam-2" },
    .publish (numbered "f2" 2), .consume 10 [ofKey "f1", ofKey "f0", ofKey "f2"]]

theorem same_partition_in_order :
    ∃ s, Run (KafkaBackend.step .ok) .new
        (sharedPartition.map (frameProducer id ofKey).action) s ∧
      s.received .ok = [numbered "f1" 1, { numbered "f0" 0 with cameraId := "cam-2" },
        numbered "f2" 2] ∧
      InOrder (ofCamera "cam-1" (s.received .ok)) := by
  have hcamera : ∀ f ∈ [numbered "f1" 1, numbered "f2" 2], f.cameraId = "cam-1" := by decide
  have hseq : InOrder [numbered "f1" 1, numbered "f2" 2] := by
    unfold InOrder
    decide
  refine ⟨_, rfl, rfl, ?_⟩
  exact (camera_in_order_iff (fun _ => rfl) ofKey "cam-1" hcamera hseq).mpr (by decide)
    sharedPartition _ rfl rfl

end Runs

end FrameOrder
end CamTrack
