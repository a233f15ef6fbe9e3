import Mathlib

/-! Runs of a machine given by an executable step function, which refuses the
actions that are not possible in a state. -/

namespace Machine

section
variable {σ α : Type*} (step : σ → α → Option σ)

/-- The actions `as` lead from `s` to `s'`. -/
def Run (s : σ) (as : List α) (s' : σ) : Prop := as.foldlM step s = some s'

variable {step} {s s₁ s₂ : σ}

@[simp] theorem run_nil : Run step s [] s' ↔ s = s' := by
  simp [Run]

theorem run_cons : Run step s (a :: as) s' ↔ ∃ m, step s a = some m ∧ Run step m as s' := by
  simp only [Run, List.foldlM_cons]
  exact Option.bind_eq_some_iff

theorem run_append : Run step s (as ++ bs) s' ↔ ∃ m, Run step s as m ∧ Run step m bs s' := by
  simp only [Run, List.foldlM_append]
  exact Option.bind_eq_some_iff

theorem run_singleton : Run step s [a] s' ↔ step s a = some s' := by
  simp [run_cons]

theorem Run.functional (h₁ : Run step s as s₁) (h₂ : Run step s as s₂) : s₁ = s₂ :=
  Option.some.inj (h₁.symm.trans h₂)

/-- What holds at the start and survives every step holds at the end of a run. -/
theorem Run.invariant {P : σ → Prop} (hstep : ∀ s a s', P s → step s a = some s' → P s')
    (h : Run step s as s') (h0 : P s) : P s' := by
  induction as generalizing s with
  | nil =>
    obtain rfl := run_nil.mp h
    exact h0
  | cons a as ih =>
    obtain ⟨m, hm, hr⟩ := run_cons.mp h
    exact ih hr (hstep s a m h0 hm)

/-- The machine when only the actions that pass a test are possible. -/
def only (p : α → Bool) (step : σ → α → Option σ) (s : σ) (a : α) : Option σ :=
  if p a then step s a else none

theorem only_eq_some {p : α → Bool} :
    only p step s a = some s' ↔ p a = true ∧ step s a = some s' := by
  simp [only]

/-- A reflexive and transitive relation that every step respects. -/
theorem Run.related {R : σ → σ → Prop} (hrefl : ∀ s, R s s)
    (htrans : ∀ a b c, R a b → R b c → R a c) (hstep : ∀ s a s', step s a = some s' → R s s')
    (h : Run step s as s') : R s s' := by
  induction as generalizing s with
  | nil =>
    obtain rfl := run_nil.mp h
    exact hrefl s
  | cons a as ih =>
    obtain ⟨m, hm, hr⟩ := run_cons.mp h
    exact htrans _ _ _ (hstep s a m hm) (ih hr)

end

section
variable {σ α β : Type*} (step : σ → α → Option σ) (see : σ → α → Option β)

/-- What is seen of the actions of a run, each in the state it meets. -/
def observed (s : σ) : List α → List β
  | [] => []
  | a :: as => match step s a with
    | some m => (see s a).toList ++ observed m as
    | none => []

variable {step see} {s s' : σ}

theorem observed_append (h : Run step s as s') : observed step see s (as ++ bs) =
    observed step see s as ++ observed step see s' bs := by
  induction as generalizing s with
  | nil =>
    obtain rfl := run_nil.mp h
    rfl
  | cons a as ih =>
    obtain ⟨m, hm, hr⟩ := run_cons.mp h
    simp only [List.cons_append, observed, hm, ih hr, List.append_assoc]

theorem observed_singleton (h : step s a = some s') :
    observed step see s [a] = (see s a).toList := by
  simp [observed, h]

/-- What relates the end of a run to all that has been seen of it. -/
theorem Run.seen {P : List β → σ → Prop}
    (hstep : ∀ bs s a s', P bs s → step s a = some s' → P (bs ++ (see s a).toList) s')
    (h : Run step s as s') (h0 : P [] s) : P (observed step see s as) s' := by
  induction as using List.reverseRecOn generalizing s' with
  | nil =>
    obtain rfl := run_nil.mp h
    exact h0
  | append_singleton as a ih =>
    obtain ⟨m, hm, hlast⟩ := run_append.mp h
    have ha := run_singleton.mp hlast
    rw [observed_append hm, observed_singleton ha]
    exact hstep _ _ _ _ (ih hm) ha

end

section
variable {ι σ α : Type*} [DecidableEq ι]

/-- Machines side by side. An action names the one that moves. -/
def interleave (step : ι → σ → α → Option σ) (s : ι → σ) (a : ι × α) : Option (ι → σ) :=
  (step a.1 (s a.1) a.2).map (Function.update s a.1)

/-- The actions of one of the machines. -/
def actionsOf (i : ι) (as : List (ι × α)) : List α :=
  as.filterMap (fun a => if a.1 = i then some a.2 else none)

/-- Side by side, every machine makes a run of its own. -/
theorem Run.component {step : ι → σ → α → Option σ} {s s' : ι → σ}
    (h : Run (interleave step) s as s') (i : ι) : Run (step i) (s i) (actionsOf i as) (s' i) := by
  induction as generalizing s with
  | nil =>
    obtain rfl := run_nil.mp h
    exact run_nil.mpr rfl
  | cons a as ih =>
    obtain ⟨m, hm, hr⟩ := run_cons.mp h
    obtain ⟨t, ht, rfl⟩ := Option.map_eq_some_iff.mp hm
    have hrest := ih hr
    by_cases hi : a.1 = i
    · subst hi
      rw [Function.update_self] at hrest
      have hact : actionsOf a.1 (a :: as) = a.2 :: actionsOf a.1 as := by simp [actionsOf]
      rw [hact]
      exact run_cons.mpr ⟨t, ht, hrest⟩
    · rw [Function.update_of_ne (Ne.symm hi)] at hrest
      have hact : actionsOf i (a :: as) = actionsOf i as := by simp [actionsOf, hi]
      rw [hact]
      exact hrest

/-- A run of one machine is a run of all in which the others wait. -/
theorem Run.lift {step : ι → σ → α → Option σ} {s : ι → σ} {i : ι} {t : σ}
    (h : Run (step i) (s i) as t) :
    Run (interleave step) s (as.map (i, ·)) (Function.update s i t) := by
  induction as generalizing s with
  | nil =>
    obtain rfl := run_nil.mp h
    rw [Function.update_eq_self]
    exact run_nil.mpr rfl
  | cons a as ih =>
    obtain ⟨m, hm, hr⟩ := run_cons.mp h
    have hrest := ih (s := Function.update s i m) (by rwa [Function.update_self])
    rw [Function.update_idem] at hrest
    exact run_cons.mpr ⟨_, Option.map_eq_some_iff.mpr ⟨m, hm, rfl⟩, hrest⟩

end

end Machine
