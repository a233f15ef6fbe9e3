import CamTrack.Lib.Machine

/-! What a machine can still hand out: `returns s a` are the messages that the
action `a` hands out in the state `s`. -/

namespace Machine
variable {σ α μ : Type*} {step : σ → α → Option σ} {returns : σ → α → List μ} {s s' : σ} {x : μ}

/-- Some run from here on ends with an action that hands out `x`. -/
def Returnable (step : σ → α → Option σ) (returns : σ → α → List μ) (s : σ) (x : μ) : Prop :=
  ∃ as m a m', Run step s as m ∧ step m a = some m' ∧ x ∈ returns m a

theorem Returnable.of_step (h : step s a = some s') (hx : x ∈ returns s a) :
    Returnable step returns s x :=
  ⟨[], s, a, s', run_nil.mpr rfl, h, hx⟩

theorem Returnable.of_run (h : Run step s as s') (hx : Returnable step returns s' x) :
    Returnable step returns s x := by
  obtain ⟨bs, m, a, m', hr, hstep, hm⟩ := hx
  exact ⟨as ++ bs, m, a, m', run_append.mpr ⟨s', h, hr⟩, hstep, hm⟩

/-- What the actions `reads` promise of one source of messages: they only hand out
its messages, and what it holds unread, or receives from now on by the actions
`feeds`, they alone can still hand out. -/
structure Reads (step : σ → α → Option σ) (returns : σ → α → List μ) (reads feeds : α → Bool)
    (source : σ → μ → Prop) (unread : σ → μ → Prop) (s : σ) : Prop where
  sound : ∀ a, reads a = true → ∀ m ∈ returns s a, source s m
  complete : ∀ as s', Run (only feeds step) s as s' → ∀ m, source s' m → unread s m →
    Returnable (only reads step) returns s' m

/-- What no step undoes, and keeps `x` from being handed out, keeps it so for good. -/
theorem not_returnable {P : σ → Prop} (hstep : ∀ s a s', P s → step s a = some s' → P s')
    (hout : ∀ s a s', P s → step s a = some s' → x ∉ returns s a) (h : P s) :
    ¬ Returnable step returns s x := by
  intro hx
  obtain ⟨as, m, a, m', hr, hm, hx⟩ := hx
  exact hout m a m' (hr.invariant hstep h) hm hx

end Machine
