import CamTrack.Lib.Streak

/-! Values in the order of time, gathered into sessions: a value joins the session of those with
its key that came at most `gap` before it, and starts a new one where there are none. -/

namespace Session
variable {σ κ ι τ : Type*} [AddCommGroup τ] [LinearOrder τ]

/-- How the next value is given its session. -/
structure Joins (key : σ → κ) (session : σ → ι) (time : σ → τ) (gap : τ) (history : List σ)
    (s : σ) : Prop where
  later : ∀ a ∈ history, time a ≤ time s
  joins : ∀ a ∈ history, key a = key s → time s - time a ≤ gap → session a = session s
  starts : (∀ a ∈ history, key a = key s → ¬ time s - time a ≤ gap) →
    ∀ a ∈ history, session a ≠ session s
  apart : ∀ a ∈ history, session a = session s → key a = key s

/-- A history in which each value has been given its session in this way. -/
inductive Sessions (key : σ → κ) (session : σ → ι) (time : σ → τ) (gap : τ) : List σ → Prop
  | nil : Sessions key session time gap []
  | concat {history : List σ} {s : σ} (h : Sessions key session time gap history)
      (hs : Joins key session time gap history s) : Sessions key session time gap (history ++ [s])

theorem exists_last {p : σ → Prop} {l : List σ} (h : ∃ a ∈ l, p a) :
    ∃ before a after, l = before ++ a :: after ∧ p a ∧ ∀ b ∈ after, ¬ p b := by
  induction l using List.reverseRecOn with
  | nil => simp at h
  | append_singleton l b ih =>
    by_cases hb : p b
    · exact ⟨l, b, [], rfl, hb, by simp⟩
    · obtain ⟨a, ha, hp⟩ := h
      have hmem : a ∈ l := by
        rcases List.mem_append.mp ha with ha | ha
        · exact ha
        · exact absurd (List.mem_singleton.mp ha ▸ hp) hb
      obtain ⟨before, a, after, rfl, hp, hafter⟩ := ih ⟨a, hmem, hp⟩
      refine ⟨before, a, after ++ [b], by simp, hp, fun x hx => ?_⟩
      rcases List.mem_append.mp hx with hx | hx
      · exact hafter x hx
      · exact List.mem_singleton.mp hx ▸ hb

variable {key : σ → κ} {session : σ → ι} {time : σ → τ} {gap : τ} {history : List σ} {s s' : σ}

/-- A session has one key. -/
theorem Sessions.key_eq (h : Sessions key session time gap history) :
    ∀ a ∈ history, ∀ b ∈ history, session a = session b → key a = key b := by
  induction h with
  | nil => simp
  | concat _ hs ih =>
    intro a ha b hb he
    rcases List.mem_append.mp ha with ha | ha <;> rcases List.mem_append.mp hb with hb | hb
    · exact ih a ha b hb he
    · rw [List.mem_singleton.mp hb] at he ⊢
      exact hs.apart a ha he
    · rw [List.mem_singleton.mp ha] at he ⊢
      exact (hs.apart b hb he.symm).symm
    · rw [List.mem_singleton.mp ha, List.mem_singleton.mp hb]

theorem Sessions.sorted (h : Sessions key session time gap history) :
    history.Pairwise (fun a b => time a ≤ time b) := by
  induction h with
  | nil => exact .nil
  | concat _ hs ih =>
    refine List.pairwise_append.mpr ⟨ih, List.pairwise_singleton _ _, fun a ha b hb => ?_⟩
    rw [List.mem_singleton.mp hb]
    exact hs.later a ha

variable [IsOrderedAddMonoid τ]

/-- The values of one key that are not long past have one session. -/
theorem Sessions.recent_eq (h : Sessions key session time gap history) {now : τ}
    (hnow : ∀ a ∈ history, time a ≤ now) :
    ∀ a ∈ history, ∀ b ∈ history, key a = key b → now - time a ≤ gap → now - time b ≤ gap →
      session a = session b := by
  induction h with
  | nil => simp
  | concat _ hs ih =>
    have hlast := hnow _ (List.mem_append_right _ (List.mem_singleton_self _))
    intro a ha b hb hkey hgap hgap'
    rcases List.mem_append.mp ha with ha | ha <;> rcases List.mem_append.mp hb with hb | hb
    · exact ih (fun a ha => hnow a (List.mem_append_left _ ha)) a ha b hb hkey hgap hgap'
    · rw [List.mem_singleton.mp hb] at hkey ⊢
      exact hs.joins a ha hkey ((sub_le_sub_right hlast _).trans hgap)
    · rw [List.mem_singleton.mp ha] at hkey ⊢
      exact (hs.joins b hb hkey.symm ((sub_le_sub_right hlast _).trans hgap')).symm
    · rw [List.mem_singleton.mp ha, List.mem_singleton.mp hb]

variable [DecidableEq κ]

/-- The values of its key from `s` to `s'`, none of them long after the one before. -/
def Unbroken (key : σ → κ) (time : σ → τ) (gap : τ) (s : σ) (between : List σ) (s' : σ) : Prop :=
  ((s :: between ++ [s']).filter (fun a => key a = key s)).IsChain
    (fun a b => time b - time a ≤ gap)

omit [IsOrderedAddMonoid τ] in
/-- Nothing of the key comes after `p` until `s'`. -/
theorem unbroken_split {p : σ} {before after : List σ} (hkey : key s' = key s)
    (hp : key p = key s) (hafter : ∀ b ∈ after, key b ≠ key s) :
    ((before ++ p :: after ++ [s']).filter (fun a => key a = key s)).IsChain
        (fun a b => time b - time a ≤ gap) ↔
      ((before ++ [p]).filter (fun a => key a = key s)).IsChain
        (fun a b => time b - time a ≤ gap) ∧ time s' - time p ≤ gap := by
  have hnone : after.filter (fun a => key a = key s) = [] :=
    List.filter_eq_nil_iff.mpr (fun b hb hb' => hafter b hb (of_decide_eq_true hb'))
  simp only [List.filter_append, List.filter_cons, hkey, hp, hnone, decide_true, if_true,
    List.filter_nil, List.append_assoc, List.cons_append, List.nil_append]
  rw [List.isChain_append_cons_cons]
  simp

/-- Two values are in one session when their key is one, and it was never long unseen between
them. -/
theorem Sessions.session_eq_iff (h : Sessions key session time gap history) :
    ∀ {before between after : List σ} {s s' : σ},
      history = before ++ s :: between ++ s' :: after →
        (session s = session s' ↔ key s = key s' ∧ Unbroken key time gap s between s') := by
  induction h with
  | nil => simp
  | @concat history last h hs ih =>
    intro before between after s s' hsplit
    rcases Streak.concat_eq_append_cons hsplit with ⟨hhistory, rfl, _⟩ | ⟨after', _, hhistory⟩
    · have hmem : s ∈ history := by simp [hhistory]
      by_cases hkey : key s = key last
      · obtain ⟨l, p, l', hl, hp, hl'⟩ :=
          exists_last (p := fun a => key a = key s) ⟨s, List.mem_cons_self (l := between), rfl⟩
        have hpmem : p ∈ history := by
          rw [hhistory, hl]
          simp
        rw [Unbroken, hl, unbroken_split hkey.symm hp hl']
        by_cases hgap : time last - time p ≤ gap
        · have hjoins := hs.joins p hpmem (hp.trans hkey) hgap
          cases l with
          | nil =>
            obtain ⟨rfl, _⟩ := List.cons.inj hl
            simpa [hkey, hgap] using hjoins
          | cons s₀ l =>
            obtain ⟨rfl, rfl⟩ : s = s₀ ∧ between = l ++ p :: l' := List.cons.inj hl
            have hearlier := ih (show history = before ++ s :: l ++ p :: l' by
              rw [hhistory, List.append_assoc, List.cons_append])
            rw [← hjoins, hearlier, Unbroken, hp]
            simp [hkey, hgap]
        · have hlong : ∀ a ∈ history, key a = key last → ¬ time last - time a ≤ gap := by
            intro a ha hka hle
            have hsorted := h.sorted
            rw [hhistory, hl, ← List.append_assoc] at ha hsorted
            obtain ⟨_, _, hbefore⟩ := List.pairwise_append.mp hsorted
            rcases List.mem_append.mp ha with ha | ha
            · have hap := hbefore a ha p List.mem_cons_self
              exact hgap ((sub_le_sub_left hap _).trans hle)
            · rcases List.mem_cons.mp ha with rfl | ha
              · exact hgap hle
              · exact hl' a ha (hka.trans hkey.symm)
          simp [hgap, hs.starts hlong s hmem]
      · exact ⟨fun he => absurd (hs.apart s hmem he) hkey, fun he => absurd he.1 hkey⟩
    · exact ih hhistory

end Session
