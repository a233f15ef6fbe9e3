import CamTrack.Broker

namespace CamTrack
open Python

/-- How the values of a schema travel: what `json.dumps` makes of a `model_dump`, what
`json.loads` makes of that, and `model_validate`. What is dumped comes back. -/
structure Wire (α φ π : Type) where
  dump : α → φ
  loads : φ → Except Error π
  validate : π → Except Error α
  roundTrip : ∀ a, ∃ payload, loads (dump a) = .ok payload ∧ validate payload = .ok a

namespace Wire
variable {α φ π : Type} (wire : Wire α φ π)

theorem dump_injective : Function.Injective wire.dump := by
  intro a b h
  obtain ⟨payload, hloads, hvalidate⟩ := wire.roundTrip a
  obtain ⟨payload', hloads', hvalidate'⟩ := wire.roundTrip b
  rw [h, hloads'] at hloads
  cases hloads
  exact Except.ok.inj (hvalidate.symm.trans hvalidate')

/-- A dumped value that loads, validates to itself. -/
theorem validate_of_loads {a : α} {payload : π} (h : wire.loads (wire.dump a) = .ok payload) :
    wire.validate payload = .ok a := by
  obtain ⟨payload', hloads, hvalidate⟩ := wire.roundTrip a
  rw [h] at hloads
  cases hloads
  exact hvalidate

end Wire
end CamTrack
