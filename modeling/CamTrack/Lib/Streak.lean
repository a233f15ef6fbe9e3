import Mathlib

/-! Histories that grow at their end, and runs of misses in a history of hits and misses. -/

namespace Streak

section Growing
variable {α : Type*} {xs ys zs before after : List α} {x y : α}

/-- The end of a longer history. -/
theorem suffix_concat (h : xs ++ [x] = ys ++ zs) :
    zs = [] ∨ ∃ ws, zs = ws ++ [x] ∧ xs = ys ++ ws := by
  rcases List.eq_nil_or_concat zs with rfl | ⟨ws, w, rfl⟩
  · exact .inl rfl
  · rw [List.concat_eq_append, ← List.append_assoc] at h
    obtain ⟨hxs, hx⟩ := List.append_inj' h rfl
    obtain rfl := List.singleton_inj.mp hx
    exact .inr ⟨ws, List.concat_eq_append, hxs⟩

/-- An element of a longer history is its last one, or was there before. -/
theorem concat_eq_append_cons (h : xs ++ [x] = before ++ y :: after) :
    (xs = before ∧ x = y ∧ after = []) ∨
      ∃ after', after = after' ++ [x] ∧ xs = before ++ y :: after' := by
  rcases suffix_concat h with hnil | ⟨ws, hws, hxs⟩
  · cases hnil
  · cases ws with
    | nil =>
      obtain ⟨rfl, rfl⟩ := List.cons.inj hws
      exact .inl ⟨hxs.trans (List.append_nil _), rfl, rfl⟩
    | cons w ws =>
      obtain ⟨rfl, hafter⟩ := List.cons.inj hws
      exact .inr ⟨ws, hafter, hxs⟩

end Growing

/-- Length of the run of misses a history ends with. -/
def trailing (bs : List Bool) : Nat := (bs.reverse.takeWhile (fun b => !b)).length

@[simp] theorem trailing_nil : trailing [] = 0 := rfl

@[simp] theorem trailing_hit (bs : List Bool) : trailing (bs ++ [true]) = 0 := by
  simp [trailing]

@[simp] theorem trailing_miss (bs : List Bool) : trailing (bs ++ [false]) = trailing bs + 1 := by
  simp [trailing]

theorem replicate_suffix (n : Nat) (bs : List Bool) :
    List.replicate n false <:+ bs ↔ n ≤ trailing bs := by
  induction bs using List.reverseRecOn generalizing n with
  | nil => simp
  | append_singleton bs b ih =>
    cases n with
    | zero => simp
    | succ n =>
      rw [List.replicate_succ', List.suffix_concat_iff]
      cases b with
      | true => simp
      | false => simp [ih]

/-- A run of misses is new to a longer history only at its end. -/
theorem replicate_infix_concat (n : Nat) (bs : List Bool) (b : Bool) :
    List.replicate n false <:+: bs ++ [b] ↔
      List.replicate n false <:+: bs ∨ n ≤ trailing (bs ++ [b]) := by
  rw [List.infix_concat_iff, replicate_suffix, or_comm]

end Streak
