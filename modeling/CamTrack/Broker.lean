import CamTrack.Lib.Dict

namespace CamTrack
open Python

/-- A message as `consume` returns it: its id is what `ack` takes. -/
structure Message (μ π : Type) where
  messageId : μ
  payload : π
  deriving DecidableEq

/-- How many messages `consume` returns at most where its caller does not say. -/
def defaultCount : Nat := 10

/-- The loop of both backends over what the client library has delivered. The first
entry that does not decode ends it, and the call. -/
def decodeAll {μ φ π : Type} (decode : φ → Except Error π) (entries : List (μ × φ)) :
    Except Error (List (Message μ π)) :=
  entries.mapM (fun (messageId, fields) => do
    let payload ← decode fields
    return ⟨messageId, payload⟩)

variable {μ φ π : Type} {decode : φ → Except Error π} {entries : List (μ × φ)}
  {messages : List (Message μ π)}

/-- A call that returns, returns every entry, decoded. -/
theorem decodeAll_eq_ok (h : decodeAll decode entries = .ok messages) :
    List.Forall₂ (fun entry message => message.messageId = entry.1 ∧
      decode entry.2 = .ok message.payload) entries messages := by
  refine (mapM_eq_ok h).imp (fun entry message hm => ?_)
  obtain ⟨payload, hd, hp⟩ := bind_eq_ok.mp hm
  cases hp
  exact ⟨rfl, hd⟩

theorem decodeAll_ids (h : decodeAll decode entries = .ok messages) :
    messages.map Message.messageId = entries.map Prod.fst := by
  replace h := decodeAll_eq_ok h
  induction h with
  | nil => rfl
  | cons hm _ ih => simp [hm.1, ih]

theorem mem_decodeAll (h : decodeAll decode entries = .ok messages) {message : Message μ π}
    (hm : message ∈ messages) : ∃ fields, (message.messageId, fields) ∈ entries ∧
      decode fields = .ok message.payload := by
  obtain ⟨entry, he, hid, hd⟩ := forall₂_mem (decodeAll_eq_ok h).flip hm
  exact ⟨entry.2, hid ▸ he, hd⟩

theorem decodeAll_singleton {fields : φ} {payload : π} (messageId : μ)
    (h : decode fields = .ok payload) :
    decodeAll decode [(messageId, fields)] = .ok [⟨messageId, payload⟩] := by
  simp [decodeAll, h]

theorem decodeAll_cons (decode : φ → Except Error π) (entry : μ × φ) (entries : List (μ × φ)) :
    decodeAll decode (entry :: entries) = do
      let payload ← decode entry.2
      let rest ← decodeAll decode entries
      return ⟨entry.1, payload⟩ :: rest := by
  obtain ⟨messageId, fields⟩ := entry
  rw [decodeAll, List.mapM_cons]
  cases h : decode fields with
  | error e => simp [h]
  | ok payload => simp [h, decodeAll]

/-- Messages under other ids decode as they did. -/
theorem decodeAll_relabel {ν : Type} (decode : φ → Except Error π) (f : μ → ν)
    (entries : List (μ × φ)) : decodeAll decode (entries.map (fun e => (f e.1, e.2))) =
      (decodeAll decode entries).map
        (List.map (fun message => ⟨f message.messageId, message.payload⟩)) := by
  induction entries with
  | nil => rfl
  | cons entry entries ih =>
    rw [List.map_cons, decodeAll_cons, decodeAll_cons, ih]
    cases decode entry.2 with
    | error e => rfl
    | ok payload => cases decodeAll decode entries <;> rfl

end CamTrack
