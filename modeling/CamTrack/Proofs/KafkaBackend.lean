import CamTrack.KafkaBackend
import CamTrack.Lib.Delivery

namespace CamTrack
open Python Machine

namespace KafkaBackend
variable {φ π : Type} {n : Nat} {decode : φ → Except Error π} {s s' : KafkaBackend φ n}
  {r : Fin n × Nat}

/-- The records of one call lie between the positions before and after it. -/
theorem poll_spec {log : Fin n → List φ} {ps : List (Fin n)} {position last : Fin n → Nat}
    {records : List ((Fin n × Nat) × φ)} (h : poll log ps position = some (last, records)) :
    (∀ p, position p ≤ last p) ∧ ∀ e ∈ records, position e.1.1 ≤ e.1.2 ∧ e.1.2 < last e.1.1 ∧
      (log e.1.1)[e.1.2]? = some e.2 := by
  induction ps generalizing position records with
  | nil =>
    cases h
    exact ⟨fun _ => Nat.le_refl _, by simp⟩
  | cons p ps ih =>
    obtain ⟨value, hv, h⟩ := Option.bind_eq_some_iff.mp h
    obtain ⟨⟨last', rest⟩, hrest, h⟩ := Option.bind_eq_some_iff.mp h
    cases h
    obtain ⟨hle, hmem⟩ := ih hrest
    have hmono : ∀ q, position q ≤ Function.update position p (position p + 1) q := by
      intro q
      by_cases hq : q = p
      · subst hq
        rw [Function.update_self]
        exact Nat.le_succ _
      · rw [Function.update_of_ne hq]
    refine ⟨fun q => (hmono q).trans (hle q), fun e he => ?_⟩
    rcases List.mem_cons.mp he with rfl | he
    · have := hle p
      rw [Function.update_self] at this
      exact ⟨Nat.le_refl _, this, hv⟩
    · obtain ⟨h1, h2, h3⟩ := hmem e he
      exact ⟨(hmono _).trans h1, h2, h3⟩

/-- Nothing is read past the end of a partition. -/
theorem poll_le {log : Fin n → List φ} {ps : List (Fin n)} {position last : Fin n → Nat}
    {records : List ((Fin n × Nat) × φ)} (h : poll log ps position = some (last, records))
    (hle : ∀ p, position p ≤ (log p).length) (p : Fin n) : last p ≤ (log p).length := by
  induction ps generalizing position records with
  | nil =>
    cases h
    exact hle p
  | cons q ps ih =>
    obtain ⟨value, hv, h⟩ := Option.bind_eq_some_iff.mp h
    obtain ⟨⟨last', rest⟩, hrest, h⟩ := Option.bind_eq_some_iff.mp h
    cases h
    refine ih hrest (fun r => ?_)
    by_cases hr : r = q
    · subst hr
      rw [Function.update_self]
      exact (List.getElem?_eq_some_iff.mp hv).1
    · rw [Function.update_of_ne hr]
      exact hle r

/-- A returned message lies at or past the position, and decodes. -/
theorem mem_returns {last : Fin n → Nat} {records : List ((Fin n × Nat) × φ)}
    (hp : poll s.log partitions s.position = some (last, records))
    (h : r ∈ s.returns decode (.consume count partitions)) :
    s.position r.1 ≤ r.2 ∧
      ∃ value payload, (s.log r.1)[r.2]? = some value ∧ decode value = .ok payload := by
  have hc : s.consume decode partitions =
      some ({ s with position := last }, decodeAll decode records) := by
    simp [consume, hp]
  simp only [returns, hc] at h
  split at h
  · rename_i messages hm
    obtain ⟨_, hdec⟩ := Prod.mk.inj (Option.some.inj hm)
    obtain ⟨message, hmem, rfl⟩ := List.mem_map.mp h
    obtain ⟨value, he, hd⟩ := mem_decodeAll hdec hmem
    obtain ⟨hle, _, hlog⟩ := (poll_spec hp).2 _ he
    exact ⟨hle, value, message.payload, hlog, hd⟩
  · simp at h

/-- An action, with what it does. -/
inductive Stepped (decode : φ → Except Error π) (s : KafkaBackend φ n) :
    KafkaAction φ n → KafkaBackend φ n → Prop
  | produce (p : Fin n) (value : φ) : Stepped decode s (.produce p value)
      { s with log := Function.update s.log p (s.log p ++ [value]) }
  | consume (count : Nat) (partitions : List (Fin n)) (last : Fin n → Nat)
      (records : List ((Fin n × Nat) × φ)) :
      poll s.log partitions s.position = some (last, records) →
      Stepped decode s (.consume count partitions)
        { s with
          position := last
          held := s.held ++ s.returns decode (.consume count partitions)
          returned := s.returned ++ s.returns decode (.consume count partitions) }
  | ack (m : Fin n × Nat) : m ∈ s.held →
      Stepped decode s (.ack m) { s.commit with acked := s.acked ++ [m] }
  | restart : Stepped decode s .restart s.resume

theorem stepped {a : KafkaAction φ n} (h : step decode s a = some s') : Stepped decode s a s' := by
  cases a with
  | produce p value =>
    cases h
    exact .produce p value
  | consume count partitions =>
    simp only [step] at h
    split at h
    · obtain ⟨⟨t, result⟩, ht, h⟩ := Option.bind_eq_some_iff.mp h
      obtain ⟨⟨last, records⟩, hp, ht⟩ := Option.bind_eq_some_iff.mp ht
      cases ht
      cases h
      exact .consume count partitions last records hp
    · cases h
  | ack m =>
    simp only [step] at h
    split at h
    · rename_i hm
      cases h
      exact .ack m hm
    · cases h
  | restart =>
    cases h
    exact .restart

/-- The group has committed past the record, and its member reads past it. -/
def Past (s : KafkaBackend φ n) (r : Fin n × Nat) : Prop :=
  r.2 < s.committed r.1 ∧ r.2 < s.position r.1

theorem Past.step {a : KafkaAction φ n} (h : s.Past r) (hstep : step decode s a = some s') :
    s'.Past r := by
  obtain ⟨hc, hp⟩ := h
  cases stepped hstep with
  | produce p value => exact ⟨hc, hp⟩
  | consume count partitions last records hpoll =>
    exact ⟨hc, hp.trans_le ((poll_spec hpoll).1 r.1)⟩
  | ack m _ => exact ⟨hp, hp⟩
  | restart => exact ⟨hc, hc⟩

/-- What the group has committed past is not returned again. -/
theorem Past.not_returnable (h : s.Past r) :
    ¬ Returnable (KafkaBackend.step decode) (returns decode) s r := by
  apply Machine.not_returnable (P := fun s => s.Past r) (fun _ _ _ ht hstep => ht.step hstep) _ h
  intro s a s' hpast hstep hmem
  cases stepped hstep with
  | consume count partitions last records hpoll =>
    exact absurd hpast.2 (Nat.not_lt.mpr (mem_returns hpoll hmem).1)
  | produce p value => simp [returns] at hmem
  | ack m _ => simp [returns] at hmem
  | restart => simp [returns] at hmem

theorem poll_one {log : Fin n → List φ} {position : Fin n → Nat} {p : Fin n} {value : φ}
    (h : (log p)[position p]? = some value) : poll log [p] position =
      some (Function.update position p (position p + 1), [((p, position p), value)]) := by
  simp [poll, h]

/-- One record can be read when there is one. -/
theorem consume_one (decode : φ → Except Error π) {p : Fin n} {value : φ}
    (h : (s.log p)[s.position p]? = some value) :
    ∃ s', KafkaBackend.step decode s (.consume 1 [p]) = some s' ∧ s'.log = s.log ∧
      s'.position = Function.update s.position p (s.position p + 1) :=
  ⟨{ s with
      position := Function.update s.position p (s.position p + 1)
      held := s.held ++ s.returns decode (.consume 1 [p])
      returned := s.returned ++ s.returns decode (.consume 1 [p]) },
    by simp [KafkaBackend.step, consume, poll_one h], rfl, rfl⟩

theorem returns_one {p : Fin n} {value : φ} {payload : π}
    (h : (s.log p)[s.position p]? = some value) (hd : decode value = .ok payload) :
    s.returns decode (.consume 1 [p]) = [(p, s.position p)] := by
  simp [returns, consume, poll_one h, decodeAll_singleton _ hd]

/-- A record at or past the position is returned once the ones before it are read. -/
theorem returnable_of_position {value : φ} {payload : π} (hlog : (s.log r.1)[r.2]? = some value)
    (hd : decode value = .ok payload) (hpos : s.position r.1 ≤ r.2) :
    Returnable (KafkaBackend.step decode) (returns decode) s r := by
  obtain ⟨p, o⟩ := r
  obtain ⟨k, hk⟩ : ∃ k, o = s.position p + k := ⟨o - s.position p, by simp at hpos; omega⟩
  have hlen := (List.getElem?_eq_some_iff.mp hlog).1
  induction k generalizing s with
  | zero =>
    subst hk
    obtain ⟨s', hs', _, _⟩ := consume_one decode hlog
    exact .of_step hs' (by rw [returns_one hlog hd]; exact List.mem_singleton_self _)
  | succ k ih =>
    have hnext : s.position p < (s.log p).length := by
      simp only at hlen
      omega
    obtain ⟨s', hs', hlog', hpos'⟩ := consume_one decode (List.getElem?_eq_getElem hnext)
    have hone : s'.position p = s.position p + 1 := by
      rw [hpos', Function.update_self]
    have hrest : Returnable (KafkaBackend.step decode) (returns decode) s' (p, o) :=
      ih (hlog' ▸ hlog) (by simp only; omega) (by omega) (hlog' ▸ hlen)
    exact hrest.of_run (run_singleton.mpr hs')

/-- What holds all along: commits lag behind reading, and what has been returned is
a record that decodes. -/
structure Sane (decode : φ → Except Error π) (s : KafkaBackend φ n) : Prop where
  committed : ∀ p, s.committed p ≤ s.position p
  returned : ∀ r ∈ s.returned, ∃ value payload, (s.log r.1)[r.2]? = some value ∧
    decode value = .ok payload

theorem Sane.step {a : KafkaAction φ n} (h : Sane decode s) (hstep : step decode s a = some s') :
    Sane decode s' := by
  cases stepped hstep with
  | produce p value =>
    refine ⟨h.committed, fun r hr => ?_⟩
    obtain ⟨value', payload, hlog, hd⟩ := h.returned r hr
    refine ⟨value', payload, ?_, hd⟩
    by_cases hp : r.1 = p
    · subst hp
      simp only [Function.update_self]
      rw [List.getElem?_append_left (List.getElem?_eq_some_iff.mp hlog).1]
      exact hlog
    · simp only [Function.update_of_ne hp]
      exact hlog
  | consume count partitions last records hpoll =>
    refine ⟨fun p => (h.committed p).trans ((poll_spec hpoll).1 p), fun r hr => ?_⟩
    rcases List.mem_append.mp hr with hr | hr
    · exact h.returned r hr
    · exact (mem_returns hpoll hr).2
  | ack m _ => exact ⟨fun p => Nat.le_refl _, h.returned⟩
  | restart => exact ⟨fun p => Nat.le_refl _, h.returned⟩

theorem sane {actions : List (KafkaAction φ n)} (h : Run (KafkaBackend.step decode) new actions s) :
    Sane decode s :=
  h.invariant (fun _ _ _ hs hstep => hs.step hstep) ⟨fun _ => Nat.le_refl 0, by simp [new]⟩

theorem returned_step {a : KafkaAction φ n} (hstep : step decode s a = some s') :
    s.returned ⊆ s'.returned := by
  cases stepped hstep with
  | produce p value => exact fun _ h => h
  | consume count partitions last records _ => exact List.subset_append_left _ _
  | ack m _ => exact fun _ h => h
  | restart => exact fun _ h => h

/-- A returned message that is committed past was so by an `ack` that came after it. -/
theorem committed_past {actions : List (KafkaAction φ n)}
    (h : Run (KafkaBackend.step decode) new actions s) (hr : r ∈ s.returned)
    (hc : r.2 < s.committed r.1) :
    ∃ before m rest t, actions = before ++ .ack m :: rest ∧
      Run (KafkaBackend.step decode) new before t ∧ r ∈ t.returned ∧ r.2 < t.position r.1 := by
  induction actions using List.reverseRecOn generalizing s with
  | nil =>
    obtain rfl := run_nil.mp h
    simp [new] at hr
  | append_singleton actions a ih =>
    obtain ⟨t, ht, hlast⟩ := run_append.mp h
    have hearlier : r ∈ t.returned → r.2 < t.committed r.1 →
        ∃ before m rest t', actions ++ [a] = before ++ .ack m :: rest ∧
          Run (KafkaBackend.step decode) new before t' ∧ r ∈ t'.returned ∧
          r.2 < t'.position r.1 := by
      intro hr hc
      obtain ⟨before, m, rest, t', rfl, h'⟩ := ih ht hr hc
      exact ⟨before, m, rest ++ [a], t', by simp, h'⟩
    cases stepped (run_singleton.mp hlast) with
    | produce p value => exact hearlier hr hc
    | consume count partitions last records hpoll =>
      rcases List.mem_append.mp hr with hr | hr
      · exact hearlier hr hc
      · have := (sane ht).committed r.1
        have := (mem_returns hpoll hr).1
        exact absurd hc (by simp only; omega)
    | ack m _ => exact ⟨actions, m, [], t, rfl, ht, hr, hc⟩
    | restart => exact hearlier hr hc

/-- A message returned before an `ack`, and read past by then, is returned after a
crash only if it has been acked itself. -/
theorem acked_of_redelivered {before rest : List (KafkaAction φ n)} {m : Fin n × Nat}
    {t : KafkaBackend φ n} (h : Run (KafkaBackend.step decode) new (before ++ .ack m :: rest) s)
    (ht : Run (KafkaBackend.step decode) new before t) (hr : r ∈ t.returned)
    (hp : r.2 < t.position r.1)
    (hredelivered : ∀ r ∈ s.returned, r ∉ s.acked →
      Returnable (KafkaBackend.step decode) (returns decode) s.resume r) : r ∈ s.acked := by
  obtain ⟨t', ht', hrest⟩ := run_append.mp h
  obtain rfl := ht.functional ht'
  obtain ⟨t₁, ht₁, hrest⟩ := run_cons.mp hrest
  have hpast : t₁.Past r := by
    cases stepped ht₁ with
    | ack _ _ => exact ⟨hp, hp⟩
  have hend := hrest.invariant (P := fun s => s.Past r) (fun _ _ _ hp hs => hp.step hs) hpast
  have hret : r ∈ s.returned :=
    hrest.invariant (P := fun s => r ∈ s.returned) (fun _ _ _ hr hs => returned_step hs hr)
      (returned_step ht₁ hr)
  by_contra hn
  have hresume : s.resume.Past r := ⟨hend.1, hend.1⟩
  exact hresume.not_returnable (hredelivered r hret hn)

/-- When the worker crashes, every message that `consume` returned and nobody acked
is returned again after the restart, exactly when every `ack` so far found all the
messages returned and read past by then acked, or acked later on. -/
theorem resumes_unacked_iff {actions : List (KafkaAction φ n)}
    (h : Run (KafkaBackend.step decode) new actions s) :
    (∀ r ∈ s.returned, r ∉ s.acked →
        Returnable (KafkaBackend.step decode) (returns decode) s.resume r) ↔
      ∀ before m rest t, actions = before ++ .ack m :: rest →
        Run (KafkaBackend.step decode) new before t →
        ∀ r ∈ t.returned, r.2 < t.position r.1 → r ∈ s.acked := by
  constructor
  · rintro hre before m rest t rfl ht r hr hp
    exact acked_of_redelivered h ht hr hp hre
  · intro hcond r hr hn
    obtain ⟨value, payload, hlog, hd⟩ := (sane h).returned r hr
    by_cases hc : r.2 < s.committed r.1
    · obtain ⟨before, m, rest, t, he, ht, hrt, hp⟩ := committed_past h hr hc
      exact absurd (hcond before m rest t he ht r hrt hp) hn
    · exact returnable_of_position hlog hd (Nat.not_lt.mp hc)

section Runs

/-- Values that all decode. -/
def plain (value : String) : Except Error String := .ok value

/-- Two frames are consumed, and the first is acked: the second is committed too. -/
theorem ack_commits_neighbour :
    ¬ ∀ (actions : List (KafkaAction String 1)) (s : KafkaBackend String 1),
      Run (KafkaBackend.step plain) new actions s → ∀ r ∈ s.returned, r ∉ s.acked →
        Returnable (KafkaBackend.step plain) (returns plain) s.resume r := by
  intro h
  obtain ⟨t, ht, hr, hp⟩ : ∃ t, Run (KafkaBackend.step plain) new
      ([.produce 0 "frame-1", .produce 0 "frame-2", .consume 10 [0, 0]] :
        List (KafkaAction String 1)) t ∧
      ((0 : Fin 1), 1) ∈ t.returned ∧ 1 < t.position 0 := ⟨_, rfl, by decide, by decide⟩
  obtain ⟨s, hs, hn⟩ : ∃ s, Run (KafkaBackend.step plain) new
      ([.produce 0 "frame-1", .produce 0 "frame-2", .consume 10 [0, 0], .ack (0, 0)] :
        List (KafkaAction String 1)) s ∧
      ((0 : Fin 1), 1) ∉ s.acked := ⟨_, rfl, by decide⟩
  exact hn (acked_of_redelivered hs ht hr hp (h _ s hs))

/-- Frames that are consumed and acked one by one are returned again. -/
theorem resumes_unacked_one_by_one :
    ∃ s, Run (KafkaBackend.step plain) new
        ([.produce 0 "frame-1", .consume 10 [0], .ack (0, 0), .produce 0 "frame-2",
          .consume 10 [0]] : List (KafkaAction String 1)) s ∧
      (0, 1) ∈ s.returned ∧ (0, 1) ∉ s.acked ∧
      ∀ r ∈ s.returned, r ∉ s.acked →
        Returnable (KafkaBackend.step plain) (returns plain) s.resume r := by
  obtain ⟨s, hs, hr, hn, hack⟩ : ∃ s, Run (KafkaBackend.step plain) new
      ([.produce 0 "frame-1", .consume 10 [0], .ack (0, 0), .produce 0 "frame-2",
        .consume 10 [0]] : List (KafkaAction String 1)) s ∧
      ((0 : Fin 1), 1) ∈ s.returned ∧ ((0 : Fin 1), 1) ∉ s.acked ∧ (0, 0) ∈ s.acked :=
    ⟨_, rfl, by decide, by decide, by decide⟩
  refine ⟨s, hs, hr, hn, (resumes_unacked_iff hs).mpr ?_⟩
  intro before m rest t he ht r hmem _
  have hbefore : before = [.produce 0 "frame-1", .consume 10 [0]] := by
    rcases before with _ | ⟨a, _ | ⟨b, _ | ⟨c, _ | ⟨d, _ | ⟨e, before⟩⟩⟩⟩⟩ <;> simp_all
  subst hbefore
  obtain ⟨t', ht', hret⟩ : ∃ t', Run (KafkaBackend.step plain) new
      ([.produce 0 "frame-1", .consume 10 [0]] : List (KafkaAction String 1)) t' ∧
      t'.returned = [(0, 0)] := ⟨_, rfl, rfl⟩
  obtain rfl := ht.functional ht'
  rw [hret, List.mem_singleton] at hmem
  exact hmem ▸ hack

end Runs

end KafkaBackend
end CamTrack
