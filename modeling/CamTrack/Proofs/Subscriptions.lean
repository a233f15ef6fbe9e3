import CamTrack.KafkaBroker
import CamTrack.Proofs.KafkaBackend

namespace CamTrack
open Python Machine

/-- A call that publishes. -/
def BrokerCall.publishes {φ : Type} {n : Nat} : BrokerCall φ n → Bool
  | .publish _ _ _ => true
  | _ => false

/-- A call that consumes `stream` for `group`. -/
def BrokerCall.consumes {φ : Type} {n : Nat} (stream group : String) : BrokerCall φ n → Bool
  | .consume stream' group' _ _ => decide (stream' = stream ∧ group' = group)
  | _ => false

namespace KafkaBroker
variable {φ π : Type} {n : Nat} {decode : φ → Except Error π} {s s' : KafkaBroker φ n}
  {stream group : String}

/-- The object on which `consume` calls the client library. -/
def ready (stream group : String) (s : KafkaBroker φ n) : KafkaBroker φ n :=
  ((s.ensureGroup stream group).consumerFor group).1

/-- The consumer object it uses. -/
def reader (stream group : String) (s : KafkaBroker φ n) : KafkaConsumer n :=
  ((s.ensureGroup stream group).consumerFor group).2

/-- Getting a group its consumer object touches nothing else. -/
structure Kept (group : String) (s s' : KafkaBroker φ n) : Prop where
  log : s'.log = s.log
  committed : s'.committed = s.committed
  others : ∀ other, other ≠ group → s'.consumers.get? other = s.consumers.get? other

theorem Kept.trans {s₁ s₂ s₃ : KafkaBroker φ n} (h : Kept group s₁ s₂) (h' : Kept group s₂ s₃) :
    Kept group s₁ s₃ :=
  ⟨h'.log.trans h.log, h'.committed.trans h.committed,
    fun other hne => (h'.others other hne).trans (h.others other hne)⟩

theorem Kept.set (group : String) (consumer : KafkaConsumer n) (known : List (String × String))
    (s : KafkaBroker φ n) :
    Kept group s { s with consumers := s.consumers.set group consumer, knownGroups := known } :=
  ⟨rfl, rfl, fun other hne => by rw [Dict.get?_set, if_neg hne]⟩

theorem consumerFor_kept (group : String) (s : KafkaBroker φ n) :
    Kept group s (s.consumerFor group).1 := by
  unfold consumerFor
  cases s.consumers.get? group with
  | some consumer => exact ⟨rfl, rfl, fun _ _ => rfl⟩
  | none => exact .set group _ _ s

theorem consumerFor_get? (group : String) (s : KafkaBroker φ n) :
    (s.consumerFor group).1.consumers.get? group = some (s.consumerFor group).2 := by
  unfold consumerFor
  cases hc : s.consumers.get? group with
  | some consumer => exact hc
  | none => exact Dict.get?_set_self _ _ _

theorem consumerFor_of_some {consumer : KafkaConsumer n}
    (h : s.consumers.get? group = some consumer) : s.consumerFor group = (s, consumer) := by
  simp [consumerFor, h]

theorem consumerFor_known (group : String) (s : KafkaBroker φ n) :
    (s.consumerFor group).1.knownGroups = s.knownGroups := by
  unfold consumerFor
  cases s.consumers.get? group <;> rfl

theorem ensureGroup_kept (stream group : String) (s : KafkaBroker φ n) :
    Kept group s (s.ensureGroup stream group) := by
  unfold ensureGroup
  split
  · exact ⟨rfl, rfl, fun _ _ => rfl⟩
  · exact (consumerFor_kept group s).trans (.set group _ _ _)

theorem ready_kept (stream group : String) (s : KafkaBroker φ n) :
    Kept group s (s.ready stream group) :=
  (ensureGroup_kept stream group s).trans (consumerFor_kept group _)

theorem ready_get? (stream group : String) (s : KafkaBroker φ n) :
    (s.ready stream group).consumers.get? group = some (s.reader stream group) :=
  consumerFor_get? group _

theorem mem_ready_known {x : String × String} :
    x ∈ (s.ready stream group).knownGroups ↔ x ∈ s.knownGroups ∨ x = (stream, group) := by
  rw [ready, consumerFor_known, ensureGroup]
  split
  · rename_i h
    constructor
    · exact .inl
    · rintro (hx | rfl)
      · exact hx
      · exact h
  · simp [consumerFor_known]

/-- A known group goes on with the consumer it has. -/
theorem reader_of_known {consumer : KafkaConsumer n} (h : (stream, group) ∈ s.knownGroups)
    (hc : s.consumers.get? group = some consumer) : s.reader stream group = consumer := by
  rw [reader, ensureGroup, if_pos h, consumerFor_of_some hc]

/-- The first use of a stream subscribes to it. -/
theorem reader_of_unknown (h : (stream, group) ∉ s.knownGroups) :
    s.reader stream group = .subscribe stream (s.committed group stream) := by
  rw [reader, ensureGroup, if_neg h]
  have hget : ∀ (t : KafkaBroker φ n) known, { t with
      consumers := t.consumers.set group (.subscribe stream (t.committed group stream))
      knownGroups := known }.consumerFor group = ({ t with
      consumers := t.consumers.set group (.subscribe stream (t.committed group stream))
      knownGroups := known }, .subscribe stream (t.committed group stream)) :=
    fun t known => consumerFor_of_some (Dict.get?_set_self _ _ _)
  rw [hget, (consumerFor_kept group s).committed]

theorem consume_cases (decode : φ → Except Error π) (stream group : String)
    (partitions : List (Fin n)) (s : KafkaBroker φ n) :
    s.consume decode stream group partitions =
      match (s.reader stream group).subscription with
      | none => if partitions = [] then some (s.ready stream group, .ok []) else none
      | some topic => do
        let (position, records) ← KafkaBackend.poll ((s.ready stream group).log topic) partitions
          (s.reader stream group).position
        return ({ s.ready stream group with
            consumers := (s.ready stream group).consumers.set group
              { s.reader stream group with position := position } },
          decodeAll decode (records.map (fun r => ((topic, r.1), r.2)))) :=
  rfl

/-- `consume` reads the topic its consumer object is subscribed to, whatever stream
it was asked for. -/
theorem consume_eq (decode : φ → Except Error π) (partitions : List (Fin n)) {topic : String}
    (h : (s.reader stream group).subscription = some topic) :
    s.consume decode stream group partitions =
      (KafkaBackend.poll (s.log topic) partitions (s.reader stream group).position).map (fun r =>
        ({ s.ready stream group with
            consumers := (s.ready stream group).consumers.set group ⟨some topic, r.1⟩ },
          decodeAll decode (r.2.map (fun e => ((topic, e.1), e.2))))) := by
  rw [consume_cases, (ready_kept stream group s).log]
  simp only [h]
  cases KafkaBackend.poll (s.log topic) partitions (s.reader stream group).position <;> rfl

/-- A topic as one consumer of a group reads it. -/
def backend (topic group : String) (position : Fin n → Nat) (s : KafkaBroker φ n) :
    KafkaBackend φ n :=
  ⟨s.log topic, s.committed group topic, position, [], [], []⟩

/-- On the topic of the subscription `consume` does what it does for one topic and
one group. -/
theorem consume_backend (decode : φ → Except Error π) (partitions : List (Fin n)) {topic : String}
    (h : (s.reader stream group).subscription = some topic) :
    s.consume decode stream group partitions =
      ((s.backend topic group (s.reader stream group).position).consume decode partitions).map
        (fun r => ({ s.ready stream group with
            consumers := (s.ready stream group).consumers.set group ⟨some topic, r.1.position⟩ },
          r.2.map (List.map (fun m => ⟨(topic, m.messageId), m.payload⟩)))) := by
  rw [consume_eq decode partitions h, KafkaBackend.consume, backend]
  cases KafkaBackend.poll (s.log topic) partitions (s.reader stream group).position with
  | none => rfl
  | some r => exact congrArg (fun x => some (_, x)) (decodeAll_relabel decode (topic, ·) r.2)

theorem ack_backend {consumer : KafkaConsumer n} {topic : String}
    (hc : s.consumers.get? group = some consumer) (h : consumer.subscription = some topic) :
    (s.ack group).committed group topic =
      (s.backend topic group consumer.position).commit.committed := by
  simp [ack, hc, h, KafkaBackend.commit, backend]

theorem consume_idle (decode : φ → Except Error π) (partitions : List (Fin n))
    (h : (s.reader stream group).subscription = none) :
    s.consume decode stream group partitions =
      if partitions = [] then some (s.ready stream group, .ok []) else none := by
  rw [consume_cases, h]

/-- A call, with what it does. -/
inductive Stepped (s : KafkaBroker φ n) : BrokerCall φ n → KafkaBroker φ n → Prop
  | publish (stream : String) (p : Fin n) (value : φ) : Stepped s (.publish stream p value)
      { s with
        log := Function.update s.log stream
          (Function.update (s.log stream) p (s.log stream p ++ [value])) }
  | consume (stream group : String) (count : Nat) (partitions : List (Fin n)) (topic : String)
      (position : Fin n → Nat) (records : List ((Fin n × Nat) × φ)) :
      (s.reader stream group).subscription = some topic →
      KafkaBackend.poll (s.log topic) partitions (s.reader stream group).position =
        some (position, records) →
      Stepped s (.consume stream group count partitions)
        { s.ready stream group with
          consumers := (s.ready stream group).consumers.set group ⟨some topic, position⟩ }
  | idle (stream group : String) (count : Nat) :
      (s.reader stream group).subscription = none →
      Stepped s (.consume stream group count []) (s.ready stream group)
  | ack (stream group : String) (messageId : String × Fin n × Nat) :
      Stepped s (.ack stream group messageId) (s.ack group)

theorem stepped {c : BrokerCall φ n} (h : step decode s c = some s') : Stepped s c s' := by
  cases c with
  | publish stream p value =>
    cases h
    exact .publish stream p value
  | ack stream group m =>
    cases h
    exact .ack stream group m
  | consume stream group count partitions =>
    simp only [step] at h
    split at h
    case isFalse => cases h
    obtain ⟨⟨t, result⟩, ht, h⟩ := Option.bind_eq_some_iff.mp h
    cases h
    cases hsub : (s.reader stream group).subscription with
    | none =>
      rw [consume_idle decode partitions hsub] at ht
      split at ht
      case isFalse => cases ht
      rename_i hnil
      subst hnil
      cases ht
      exact .idle stream group count hsub
    | some topic =>
      rw [consume_eq decode partitions hsub] at ht
      obtain ⟨⟨position, records⟩, hpoll, ht⟩ := Option.map_eq_some_iff.mp ht
      cases ht
      exact .consume stream group count partitions topic position records hsub hpoll

/-- A message of a stream that decodes. -/
def Published (decode : φ → Except Error π) (stream : String) (s : KafkaBroker φ n)
    (m : String × Fin n × Nat) : Prop :=
  m.1 = stream ∧ ∃ value payload, (s.log stream m.2.1)[m.2.2]? = some value ∧
    decode value = .ok payload

/-- What a call returns are messages of the subscription. -/
theorem mem_returns {m : String × Fin n × Nat} {count : Nat} {partitions : List (Fin n)}
    (h : m ∈ s.returns decode (.consume stream group count partitions)) :
    ∃ topic, (s.reader stream group).subscription = some topic ∧ Published decode topic s m := by
  cases hsub : (s.reader stream group).subscription with
  | none =>
    simp only [returns, consume_idle decode partitions hsub] at h
    split at h
    · rename_i hm
      split at hm <;> cases hm
      simp at h
    · simp at h
  | some topic =>
    simp only [returns, consume_eq decode partitions hsub] at h
    split at h
    · rename_i messages hm
      obtain ⟨⟨position, records⟩, hpoll, hm⟩ := Option.map_eq_some_iff.mp hm
      obtain ⟨message, hmem, rfl⟩ := List.mem_map.mp h
      obtain ⟨value, he, hd⟩ := mem_decodeAll (Prod.mk.inj hm).2 hmem
      obtain ⟨r, hr, he⟩ := List.mem_map.mp he
      obtain ⟨hid, rfl⟩ := Prod.mk.inj he
      rw [← hid]
      exact ⟨topic, rfl, rfl, r.2, message.payload, ((KafkaBackend.poll_spec hpoll).2 r hr).2.2,
        hd⟩
    · simp at h

/-- A call that is delivered the next record of one partition. -/
theorem consume_one {topic : String} {p : Fin n} {value : φ} (decode : φ → Except Error π)
    (hsub : (s.reader stream group).subscription = some topic)
    (h : (s.log topic p)[(s.reader stream group).position p]? = some value) :
    (∃ s', step decode s (.consume stream group 1 [p]) = some s' ∧ s'.log = s.log ∧
      s'.reader stream group = ⟨some topic, Function.update (s.reader stream group).position p
        ((s.reader stream group).position p + 1)⟩) ∧
    ∀ payload, decode value = .ok payload → s.returns decode (.consume stream group 1 [p]) =
      [(topic, p, (s.reader stream group).position p)] := by
  have hconsume := consume_eq decode [p] hsub
  rw [KafkaBackend.poll_one h, Option.map_some] at hconsume
  let position := Function.update (s.reader stream group).position p
    ((s.reader stream group).position p + 1)
  refine ⟨⟨{ s.ready stream group with
    consumers := (s.ready stream group).consumers.set group ⟨some topic, position⟩ },
    ?_, (ready_kept stream group s).log, ?_⟩, ?_⟩
  · simp [step, hconsume, position]
  · exact reader_of_known (mem_ready_known.mpr (.inr rfl)) (Dict.get?_set_self _ _ _)
  · intro payload hd
    simp [returns, hconsume, decodeAll_singleton _ hd]

/-- An unread message of the subscription is returned once the ones before it are. -/
theorem returnable_of_subscription {p : Fin n} {o : Nat} {value : φ} {payload : π}
    (hsub : (s.reader stream group).subscription = some stream)
    (hlog : (s.log stream p)[o]? = some value) (hd : decode value = .ok payload)
    (hpos : (s.reader stream group).position p ≤ o) :
    Returnable (only (BrokerCall.consumes stream group) (step decode)) (returns decode) s
      (stream, p, o) := by
  have hcall : (BrokerCall.consume stream group 1 [p] : BrokerCall φ n).consumes stream group =
      true := by
    simp [BrokerCall.consumes]
  obtain ⟨k, rfl⟩ := Nat.exists_eq_add_of_le hpos
  induction k generalizing s with
  | zero =>
    obtain ⟨⟨s', hs', _, _⟩, hreturns⟩ := consume_one decode hsub hlog
    exact .of_step (only_eq_some.mpr ⟨hcall, hs'⟩) (by
      rw [hreturns payload hd]
      exact List.mem_singleton_self _)
  | succ k ih =>
    have hlen := (List.getElem?_eq_some_iff.mp hlog).1
    have hnext : (s.reader stream group).position p < (s.log stream p).length := by omega
    obtain ⟨⟨s', hs', hlog', hreader⟩, _⟩ :=
      consume_one decode hsub (List.getElem?_eq_getElem hnext)
    have hone : (s'.reader stream group).position p = (s.reader stream group).position p + 1 := by
      rw [hreader]
      exact Function.update_self _ _ _
    have he : (s.reader stream group).position p + (k + 1) =
        (s'.reader stream group).position p + k := by omega
    have hrest := ih (by rw [hreader]) (by rw [hlog', ← he]; exact hlog) (by omega)
    rw [he]
    exact hrest.of_run (run_singleton.mpr (only_eq_some.mpr ⟨hcall, hs'⟩))

/-- The streams of a group in the order of their first use. -/
def firstUse (group : String) (streams : List String) : BrokerCall φ n → List String
  | .consume stream group' _ _ =>
    if group' = group ∧ stream ∉ streams then streams ++ [stream] else streams
  | _ => streams

def firstUses (group : String) (calls : List (BrokerCall φ n)) : List String :=
  calls.foldl (firstUse group) []

theorem firstUses_concat (group : String) (calls : List (BrokerCall φ n)) (c : BrokerCall φ n) :
    firstUses group (calls ++ [c]) = firstUse group (firstUses group calls) c := by
  simp [firstUses, List.foldl_append]

/-- The object's tables say what has been used so far. -/
structure Subscribed (calls : List (BrokerCall φ n)) (s : KafkaBroker φ n) : Prop where
  known : ∀ stream group, (stream, group) ∈ s.knownGroups ↔ stream ∈ firstUses group calls
  subscription : ∀ group, (s.consumers.get? group).bind KafkaConsumer.subscription =
    (firstUses group calls).getLast?

variable {calls : List (BrokerCall φ n)}

theorem new_subscribed (log : String → Fin n → List φ)
    (committed : String → String → Fin n → Nat) : Subscribed [] (new log committed) :=
  ⟨by simp [new, firstUses], by simp [new, firstUses]⟩

/-- A call reads the stream that its group was last to use for the first time, the
call itself counted. -/
theorem Subscribed.reader (h : Subscribed calls s) (stream group : String) (count : Nat)
    (partitions : List (Fin n)) : (s.reader stream group).subscription =
      (firstUses group (calls ++ [.consume stream group count partitions])).getLast? := by
  rw [firstUses_concat, firstUse]
  by_cases hmem : stream ∈ firstUses group calls
  · have hknown := (h.known stream group).mpr hmem
    have hsub := h.subscription group
    obtain ⟨topic, hlast⟩ := Option.ne_none_iff_exists'.mp (mt List.getLast?_eq_none_iff.mp
      (List.ne_nil_of_mem hmem))
    rw [hlast] at hsub
    obtain ⟨consumer, hget, htopic⟩ := Option.bind_eq_some_iff.mp hsub
    rw [reader_of_known hknown hget, htopic]
    simp [hmem, hlast]
  · rw [reader_of_unknown (mt (h.known stream group).mp hmem)]
    simp [hmem, KafkaConsumer.subscribe]

theorem getLast?_firstUses (calls : List (BrokerCall φ n)) (stream group : String) (count : Nat)
    (partitions : List (Fin n)) : ∃ topic,
      (firstUses group (calls ++ [.consume stream group count partitions])).getLast? =
        some topic := by
  refine Option.ne_none_iff_exists'.mp (fun hnone => ?_)
  rw [List.getLast?_eq_none_iff, firstUses_concat, firstUse] at hnone
  split at hnone
  · simp at hnone
  · rename_i hmem
    rw [hnone] at hmem
    simp at hmem

theorem Subscribed.step {c : BrokerCall φ n} (h : Subscribed calls s)
    (hstep : step decode s c = some s') : Subscribed (calls ++ [c]) s' := by
  cases stepped hstep with
  | publish stream p value => exact ⟨by simpa [firstUses_concat, firstUse] using h.known,
      by simpa [firstUses_concat, firstUse] using h.subscription⟩
  | ack stream group m =>
    have hack : (s.ack group).knownGroups = s.knownGroups ∧
        (s.ack group).consumers = s.consumers := by
      unfold KafkaBroker.ack
      split
      · exact ⟨rfl, rfl⟩
      · split <;> exact ⟨rfl, rfl⟩
    refine ⟨?_, ?_⟩
    · rw [hack.1]
      simpa [firstUses_concat, firstUse] using h.known
    · rw [hack.2]
      simpa [firstUses_concat, firstUse] using h.subscription
  | idle stream group count hidle =>
    obtain ⟨topic, hlast⟩ := getLast?_firstUses calls stream group count []
    rw [h.reader stream group count [], hlast] at hidle
    cases hidle
  | consume stream group count partitions topic position records hsub hpoll =>
    have hreader := h.reader stream group count partitions
    refine ⟨fun stream' group' => ?_, fun group' => ?_⟩
    · rw [mem_ready_known, h.known, firstUses_concat, firstUse]
      by_cases hg : group = group'
      · subst hg
        by_cases hmem : stream ∈ firstUses group calls
        · simp only [hmem, not_true_eq_false, and_false, ↓reduceIte, Prod.mk.injEq, and_true]
          exact ⟨fun hx => hx.elim id (fun he => he ▸ hmem), .inl⟩
        · simp [hmem]
      · simp [hg, Ne.symm hg]
    · by_cases hg : group' = group
      · subst hg
        rw [Dict.get?_set_self, Option.bind_some, ← hreader, hsub]
      · rw [Dict.get?_set, if_neg hg, (ready_kept stream group s).others group' hg, h.subscription,
          firstUses_concat, firstUse]
        simp [Ne.symm hg]

/-- Nothing is read or committed past the end of a partition. -/
structure Bounded (s : KafkaBroker φ n) : Prop where
  committed : ∀ group topic p, s.committed group topic p ≤ (s.log topic p).length
  position : ∀ group consumer topic p, s.consumers.get? group = some consumer →
    consumer.subscription = some topic → consumer.position p ≤ (s.log topic p).length

theorem Bounded.reader (h : Bounded s) {topic : String}
    (hsub : (s.reader stream group).subscription = some topic) (p : Fin n) :
    (s.reader stream group).position p ≤ (s.log topic p).length := by
  by_cases hknown : (stream, group) ∈ s.knownGroups
  · cases hc : s.consumers.get? group with
    | some consumer =>
      rw [reader_of_known hknown hc] at hsub ⊢
      exact h.position group consumer topic p hc hsub
    | none =>
      have hnew : s.reader stream group = .new n := by
        rw [KafkaBroker.reader, ensureGroup, if_pos hknown, consumerFor, hc]
      rw [hnew] at hsub
      cases hsub
  · rw [reader_of_unknown hknown] at hsub ⊢
    cases hsub
    exact h.committed group _ p

theorem Bounded.step {c : BrokerCall φ n} (h : Bounded s) (hstep : step decode s c = some s') :
    Bounded s' := by
  cases stepped hstep with
  | publish stream q value =>
    have hgrow : ∀ topic p, (s.log topic p).length ≤ (Function.update s.log stream
        (Function.update (s.log stream) q (s.log stream q ++ [value])) topic p).length := by
      intro topic p
      by_cases ht : topic = stream
      · subst ht
        rw [Function.update_self]
        by_cases hp : p = q
        · subst hp
          simp
        · rw [Function.update_of_ne hp]
      · rw [Function.update_of_ne ht]
    exact ⟨fun group topic p => (h.committed group topic p).trans (hgrow topic p),
      fun group consumer topic p hc hsub =>
        (h.position group consumer topic p hc hsub).trans (hgrow topic p)⟩
  | ack stream group m =>
    unfold KafkaBroker.ack
    split
    · exact h
    · rename_i consumer hc
      split
      · exact h
      · rename_i topic hsub
        refine ⟨fun group' topic' p => ?_, h.position⟩
        by_cases hg : group' = group
        · subst hg
          by_cases ht : topic' = topic
          · subst ht
            simpa using h.position group' consumer topic' p hc hsub
          · simpa [Function.update_of_ne ht] using h.committed group' topic' p
        · simpa [Function.update_of_ne hg] using h.committed group' topic' p
  | idle stream group count hidle =>
    have hkept := ready_kept stream group s
    refine ⟨by rw [hkept.log, hkept.committed]; exact h.committed, ?_⟩
    intro group' consumer topic p hc hsub
    rw [hkept.log]
    by_cases hg : group' = group
    · subst hg
      rw [ready_get?] at hc
      cases hc
      exact h.reader hsub p
    · rw [hkept.others group' hg] at hc
      exact h.position group' consumer topic p hc hsub
  | consume stream group count partitions topic position records hsub hpoll =>
    have hkept := ready_kept stream group s
    refine ⟨by rw [hkept.log, hkept.committed]; exact h.committed, ?_⟩
    intro group' consumer topic' p hc hsub'
    rw [hkept.log]
    by_cases hg : group' = group
    · subst hg
      rw [Dict.get?_set_self] at hc
      cases hc
      cases hsub'
      exact KafkaBackend.poll_le hpoll (fun q => h.reader hsub q) p
    · rw [Dict.get?_set, if_neg hg, hkept.others group' hg] at hc
      exact h.position group' consumer topic' p hc hsub'

/-- Where a call starts to read `stream`, if it reads it. -/
def nextOffset (stream group : String) (s : KafkaBroker φ n) : Fin n → Nat :=
  if (s.reader stream group).subscription = some stream then (s.reader stream group).position
  else s.committed group stream

/-- `consume(stream, group)` keeps to its stream, and keeps none of it back. -/
def ReadsOnly (decode : φ → Except Error π) (stream group : String) (s : KafkaBroker φ n) : Prop :=
  Reads (step decode) (returns decode) (BrokerCall.consumes stream group) BrokerCall.publishes
    (Published decode stream) (fun s m => s.nextOffset stream group m.2.1 ≤ m.2.2) s

theorem BrokerCall.consumes_eq {c : BrokerCall φ n} (h : c.consumes stream group = true) :
    ∃ count partitions, c = .consume stream group count partitions := by
  cases c with
  | consume stream' group' count partitions =>
    obtain ⟨rfl, rfl⟩ : stream' = stream ∧ group' = group := by
      simpa [BrokerCall.consumes] using h
    exact ⟨count, partitions, rfl⟩
  | publish => simp [BrokerCall.consumes] at h
  | ack => simp [BrokerCall.consumes] at h

/-- Publishing touches the logs only. -/
structure SameObject (s s' : KafkaBroker φ n) : Prop where
  committed : s'.committed = s.committed
  consumers : s'.consumers = s.consumers
  known : s'.knownGroups = s.knownGroups

theorem SameObject.trans {s₁ s₂ s₃ : KafkaBroker φ n} (h : SameObject s₁ s₂)
    (h' : SameObject s₂ s₃) : SameObject s₁ s₃ :=
  ⟨h'.committed.trans h.committed, h'.consumers.trans h.consumers, h'.known.trans h.known⟩

theorem SameObject.reader (h : SameObject s s') (stream group : String) :
    s'.reader stream group = s.reader stream group := by
  have hfor : (s'.consumerFor group).2 = (s.consumerFor group).2 := by
    simp only [consumerFor, h.consumers]
    cases s.consumers.get? group <;> rfl
  by_cases hknown : (stream, group) ∈ s.knownGroups
  · have hknown' : (stream, group) ∈ s'.knownGroups := h.known ▸ hknown
    rw [KafkaBroker.reader, KafkaBroker.reader, ensureGroup, if_pos hknown', ensureGroup,
      if_pos hknown, hfor]
  · have hknown' : (stream, group) ∉ s'.knownGroups := h.known ▸ hknown
    rw [reader_of_unknown hknown, reader_of_unknown hknown', h.committed]

theorem publishes_same {c : BrokerCall φ n}
    (h : only BrokerCall.publishes (step decode) s c = some s') : SameObject s s' := by
  obtain ⟨hp, hstep⟩ := only_eq_some.mp h
  cases stepped hstep with
  | publish stream p value => exact ⟨rfl, rfl, rfl⟩
  | consume => simp [BrokerCall.publishes] at hp
  | idle => simp [BrokerCall.publishes] at hp
  | ack => simp [BrokerCall.publishes] at hp

theorem publishes_run (h : Run (only BrokerCall.publishes (step decode)) s calls s') :
    SameObject s s' :=
  h.related (R := SameObject) (fun _ => ⟨rfl, rfl, rfl⟩) (fun _ _ _ => SameObject.trans)
    (fun _ _ _ => publishes_same)

/-- A call whose consumer object is subscribed to its stream does. -/
theorem ReadsOnly.of_subscription (hsub : (s.reader stream group).subscription = some stream) :
    ReadsOnly decode stream group s := by
  refine ⟨fun c hc m hm => ?_, fun calls s' hrun m hm hunread => ?_⟩
  · obtain ⟨count, partitions, rfl⟩ := BrokerCall.consumes_eq hc
    obtain ⟨topic, htopic, hpublished⟩ := mem_returns hm
    obtain rfl := Option.some.inj (hsub.symm.trans htopic)
    exact hpublished
  · obtain ⟨topic, p, o⟩ := m
    obtain ⟨rfl, value, payload, hlog, hd⟩ := hm
    have hreader := (publishes_run hrun).reader topic group
    rw [nextOffset, if_pos hsub, ← hreader] at hunread
    exact returnable_of_subscription (hreader ▸ hsub) hlog hd hunread

/-- A stream whose group has gone on to another one is not read any more. -/
structure LeftBehind (stream group topic : String) (s : KafkaBroker φ n) : Prop where
  known : (stream, group) ∈ s.knownGroups
  subscription : (s.reader stream group).subscription = some topic

theorem LeftBehind.step {topic : String} {c : BrokerCall φ n} (h : LeftBehind stream group topic s)
    (hstep : only (BrokerCall.consumes stream group) (step decode) s c = some s') :
    LeftBehind stream group topic s' := by
  obtain ⟨hc, hstep⟩ := only_eq_some.mp hstep
  obtain ⟨count, partitions, rfl⟩ := BrokerCall.consumes_eq hc
  cases stepped hstep with
  | consume stream group count partitions topic' position records hsub hpoll =>
    have hknown : (stream, group) ∈ (s.ready stream group).knownGroups :=
      mem_ready_known.mpr (.inr rfl)
    have hreader := reader_of_known (s := { s.ready stream group with
      consumers := (s.ready stream group).consumers.set group ⟨some topic', position⟩ })
      hknown (Dict.get?_set_self _ _ _)
    refine ⟨hknown, ?_⟩
    rw [hreader, ← hsub]
    exact h.subscription
  | idle stream group count hidle =>
    rw [h.subscription] at hidle
    cases hidle

theorem LeftBehind.not_returnable {topic : String} (h : LeftBehind stream group topic s)
    (hne : topic ≠ stream) (r : Fin n × Nat) :
    ¬ Returnable (only (BrokerCall.consumes stream group) (KafkaBroker.step decode))
      (returns decode) s (stream, r) := by
  refine Machine.not_returnable (P := fun s => LeftBehind stream group topic s)
    (fun _ _ _ ht hstep => ht.step hstep) (fun t c t' ht hstep hmem => ?_) h
  obtain ⟨count, partitions, rfl⟩ := BrokerCall.consumes_eq (only_eq_some.mp hstep).1
  obtain ⟨topic', htopic, hpublished⟩ := mem_returns hmem
  have hstream : stream = topic' := hpublished.1
  rw [ht.subscription, ← hstream] at htopic
  exact hne (Option.some.inj htopic)

/-- A call breaks its promise where its consumer object has another subscription. -/
theorem not_readsOnly {topic : String} {value : φ} {payload : π} (partition : Fin n)
    (hd : decode value = .ok payload) (hb : Bounded s)
    (hsub : (s.reader stream group).subscription = some topic) (hne : topic ≠ stream) :
    ¬ ReadsOnly decode stream group s := by
  intro h
  have hknown : (stream, group) ∈ s.knownGroups := by
    by_contra hnew
    rw [reader_of_unknown hnew] at hsub
    exact hne (Option.some.inj hsub).symm
  let s' : KafkaBroker φ n := { s with
    log := Function.update s.log stream
      (Function.update (s.log stream) partition (s.log stream partition ++ [value])) }
  have hsame : SameObject s s' := ⟨rfl, rfl, rfl⟩
  have hreader := hsame.reader stream group
  have hnext : s.nextOffset stream group partition ≤ (s.log stream partition).length := by
    rw [nextOffset, hsub, if_neg (fun he => hne (Option.some.inj he))]
    exact hb.committed group stream partition
  have hlog : (s'.log stream partition)[(s.log stream partition).length]? = some value := by
    simp [s']
  have hreturn := h.complete [.publish stream partition value] s'
    (run_singleton.mpr (only_eq_some.mpr ⟨rfl, rfl⟩))
    (stream, partition, (s.log stream partition).length) ⟨rfl, value, payload, hlog, hd⟩ hnext
  have hleft : LeftBehind stream group topic s' := ⟨hknown, by rw [hreader, hsub]⟩
  exact hleft.not_returnable hne _ hreturn

theorem subscribed_of_run {log : String → Fin n → List φ}
    {committed : String → String → Fin n → Nat}
    (h : Run (step decode) (new log committed) calls s) : Subscribed calls s := by
  induction calls using List.reverseRecOn generalizing s with
  | nil =>
    obtain rfl := run_nil.mp h
    exact new_subscribed log committed
  | append_singleton calls c ih =>
    obtain ⟨m, hm, hlast⟩ := run_append.mp h
    exact (ih hm).step (run_singleton.mp hlast)

/-- Every call of `consume` in a run keeps to its stream. -/
def KeepsToStreams (decode : φ → Except Error π) (start : KafkaBroker φ n)
    (calls : List (BrokerCall φ n)) : Prop :=
  ∀ before stream group count partitions after m,
    calls = before ++ .consume stream group count partitions :: after →
    Run (step decode) start before m → ReadsOnly decode stream group m

/-- Every call of `consume` asks for the stream that its group, this call counted,
was last to use for the first time. -/
def FollowsLatest (calls : List (BrokerCall φ n)) : Prop :=
  ∀ before stream group count partitions after,
    calls = before ++ .consume stream group count partitions :: after →
    (firstUses group (before ++ [.consume stream group count partitions])).getLast? = some stream

/-- One consumer object serves all streams of a group and subscribes to each of
them once: `consume` keeps to its stream exactly in the runs that never go back to
an earlier one. -/
theorem keepsToStreams_iff {log : String → Fin n → List φ}
    {committed : String → String → Fin n → Nat}
    (hcommitted : ∀ group topic p, committed group topic p ≤ (log topic p).length)
    (partition : Fin n) {value : φ} {payload : π} (hd : decode value = .ok payload)
    (hrun : Run (step decode) (new log committed) calls s) :
    KeepsToStreams decode (new log committed) calls ↔ FollowsLatest calls := by
  constructor
  · intro hall before stream group count partitions after hcalls
    subst hcalls
    obtain ⟨m, hm, _⟩ := run_append.mp hrun
    have hreads := hall before stream group count partitions after m rfl hm
    have hreader := (subscribed_of_run hm).reader stream group count partitions
    obtain ⟨topic, hlast⟩ := getLast?_firstUses before stream group count partitions
    rw [hlast] at hreader ⊢
    by_contra hne
    have hbounded : Bounded m := hm.invariant (fun _ _ _ hb hstep => hb.step hstep)
      ⟨hcommitted, fun _ _ _ _ hc => by simp [new] at hc⟩
    exact not_readsOnly partition hd hbounded hreader (fun he => hne (he ▸ rfl)) hreads
  · intro hall before stream group count partitions after m hcalls hm
    have hreader := (subscribed_of_run hm).reader stream group count partitions
    rw [hall before stream group count partitions after hcalls] at hreader
    exact .of_subscription hreader

theorem followsLatest_nil : FollowsLatest ([] : List (BrokerCall φ n)) := by
  intro before stream group count partitions after hcalls
  simp at hcalls

theorem FollowsLatest.concat {c : BrokerCall φ n} (h : FollowsLatest calls)
    (hc : ∀ stream group count partitions, c = .consume stream group count partitions →
      (firstUses group (calls ++ [c])).getLast? = some stream) : FollowsLatest (calls ++ [c]) := by
  intro before stream group count partitions after hcalls
  rcases List.eq_nil_or_concat' after with rfl | ⟨rest, last, rfl⟩
  · obtain ⟨rfl, hlast⟩ := List.append_inj' hcalls rfl
    obtain rfl := List.singleton_inj.mp hlast
    exact hc stream group count partitions rfl
  · rw [← List.cons_append, ← List.append_assoc] at hcalls
    exact h before stream group count partitions rest (List.append_inj' hcalls rfl).1

section Runs

/-- A new object, with one message in every stream. -/
def oneEach : KafkaBroker String 1 := new (fun _ _ => ["frame"]) (fun _ _ _ => 0)

/-- A group that goes back to its first stream is returned the message of its
second, and never one of the first. -/
theorem going_back_reads_other_stream :
    ∃ s, Run (step .ok) oneEach [.consume "a" "g" 10 [], .consume "b" "g" 10 []] s ∧
      s.returns .ok (.consume "a" "g" 10 [0]) = [("b", 0, 0)] ∧
      Published .ok "a" s ("a", 0, 0) ∧
      ¬ Returnable (only (BrokerCall.consumes "a" "g") (step .ok)) (returns .ok) s ("a", 0, 0) ∧
      ¬ KeepsToStreams .ok oneEach
        [.consume "a" "g" 10 [], .consume "b" "g" 10 [], .consume "a" "g" 10 [0]] := by
  obtain ⟨s, hrun, hreturns, hknown, hsub, hlog⟩ : ∃ s, Run (step .ok) oneEach
        [.consume "a" "g" 10 [], .consume "b" "g" 10 []] s ∧
      s.returns .ok (.consume "a" "g" 10 [0]) = [("b", 0, 0)] ∧
      ("a", "g") ∈ s.knownGroups ∧ (s.reader "a" "g").subscription = some "b" ∧
      s.log = fun _ _ => ["frame"] :=
    ⟨_, rfl, rfl, by decide, rfl, rfl⟩
  have hleft : LeftBehind "a" "g" "b" s := ⟨hknown, hsub⟩
  refine ⟨s, hrun, hreturns, ⟨rfl, "frame", "frame", by rw [hlog]; rfl, rfl⟩,
    hleft.not_returnable (by decide) _, fun hall => ?_⟩
  have hreads := hall [.consume "a" "g" 10 [], .consume "b" "g" 10 []] "a" "g" 10 [0] [] s rfl hrun
  have hsource := hreads.sound (.consume "a" "g" 10 [0]) (by decide) ("b", 0, 0) (by
    rw [hreturns]
    exact List.mem_singleton_self _)
  exact absurd hsource.1 (by decide)

/-- One group moves on to a second stream and stays there, another stays with the first. -/
def movesOn (p : Fin 1) : List (BrokerCall String 1) :=
  [.consume "a" "g" 10 [p], .ack "a" "g" ("a", p, 0), .consume "a" "h" 10 [p],
    .consume "b" "g" 10 [], .consume "b" "g" 10 [p], .consume "a" "h" 10 []]

theorem moving_on_keeps :
    ∃ s, Run (step .ok) oneEach (movesOn 0) s ∧ KeepsToStreams .ok oneEach (movesOn 0) := by
  have hlatest : FollowsLatest (movesOn 0) := by
    refine .concat (.concat (.concat (.concat (.concat (.concat followsLatest_nil ?_) ?_) ?_) ?_)
      ?_) ?_ <;> rintro _ _ _ _ ⟨⟩ <;> decide
  obtain ⟨s, hrun⟩ : ∃ s, Run (step .ok) oneEach (movesOn 0) s := ⟨_, rfl⟩
  have hd : (Except.ok "frame" : Except Error String) = .ok "frame" := rfl
  exact ⟨s, hrun, (keepsToStreams_iff (fun _ _ _ => Nat.zero_le _) 0 hd hrun).mpr hlatest⟩

end Runs

end KafkaBroker
end CamTrack
