import Mathlib

/-! Floating-point numbers: how a result is rounded to one, and how far that takes it. -/

/-- How the machine rounds a number to one of its floating-point numbers. -/
class Rounding (K : Type*) where
  round : K → K

namespace Rounding

section Operations
variable {K : Type*} [Field K] [Rounding K]

/-- A whole number, as a floating-point number. -/
def ofNat (n : Nat) : K := round (n : K)

def sub (a b : K) : K := round (a - b)

def div (a b : K) : K := round (a / b)

end Operations

section Nearest
variable {K : Type*} [Field K] [LinearOrder K] [FloorRing K]

/-- The whole number that is nearest, the even one where two are. -/
def nearest (x : K) : Int :=
  if x - ⌊x⌋ < ⌊x⌋ + 1 - x ∨ x - ⌊x⌋ = ⌊x⌋ + 1 - x ∧ Even ⌊x⌋ then ⌊x⌋ else ⌊x⌋ + 1

theorem floor_le_nearest (x : K) : ⌊x⌋ ≤ nearest x := by
  rw [nearest]
  split <;> omega

theorem nearest_le_floor (x : K) : nearest x ≤ ⌊x⌋ + 1 := by
  rw [nearest]
  split <;> omega

variable [IsStrictOrderedRing K] {x y : K}

theorem nearest_eq (x : K) : nearest x =
    if x - ⌊x⌋ < 1 / 2 ∨ x - ⌊x⌋ = 1 / 2 ∧ Even ⌊x⌋ then ⌊x⌋ else ⌊x⌋ + 1 := by
  have hlt : x - ⌊x⌋ < ⌊x⌋ + 1 - x ↔ x - ⌊x⌋ < 1 / 2 := by
    constructor <;> intro h <;> linarith
  have heq : x - ⌊x⌋ = ⌊x⌋ + 1 - x ↔ x - ⌊x⌋ = 1 / 2 := by
    constructor <;> intro h <;> linarith
  simp only [nearest, hlt, heq]

theorem nearest_intCast (n : Int) : nearest (n : K) = n := by
  simp [nearest_eq]

theorem nearest_mono (h : x ≤ y) : nearest x ≤ nearest y := by
  rcases (Int.floor_le_floor h).lt_or_eq with hlt | heq
  · exact (nearest_le_floor x).trans (hlt.trans_le (floor_le_nearest y))
  · rw [nearest_eq, nearest_eq, heq]
    split
    · split <;> omega
    · rename_i hx
      rw [if_neg]
      rintro (hy | ⟨hy, heven⟩)
      · exact hx (.inl ((sub_le_sub_right h _).trans_lt hy))
      · rcases ((sub_le_sub_right h _).trans_eq hy).lt_or_eq with hlt | hhalf
        · exact hx (.inl hlt)
        · exact hx (.inr ⟨hhalf, heven⟩)

theorem abs_nearest_sub_le (x : K) : |nearest x - x| ≤ 1 / 2 := by
  have hle := Int.floor_le x
  have hlt := Int.lt_floor_add_one x
  rw [abs_le, nearest_eq]
  split
  · rename_i h
    have hhalf : x - ⌊x⌋ ≤ 1 / 2 := h.elim le_of_lt (fun h => h.1.le)
    constructor <;> linarith
  · rename_i h
    have hhalf : 1 / 2 ≤ x - ⌊x⌋ := not_lt.mp (fun hlt => h (.inl hlt))
    push_cast
    constructor <;> linarith

theorem even_nearest (h : |nearest x - x| = 1 / 2) : Even (nearest x) := by
  have hle := Int.floor_le x
  rw [nearest_eq] at h ⊢
  split at h <;> rename_i hx
  · rw [if_pos hx]
    rw [abs_sub_comm, abs_of_nonneg (sub_nonneg.mpr hle)] at h
    exact (hx.resolve_left h.not_lt).2
  · rw [if_neg hx]
    have htie : x - ⌊x⌋ = 1 / 2 := by
      have hlt := Int.lt_floor_add_one x
      push_cast at h
      rw [abs_of_pos (by linarith)] at h
      linarith
    rw [Int.even_add_one]
    exact fun heven => hx (.inr ⟨htie, heven⟩)

/-- There is one such number: of two neighbours one is odd. -/
theorem eq_nearest {n : Int} (hn : |n - x| ≤ 1 / 2) (heven : |n - x| = 1 / 2 → Even n) :
    n = nearest x := by
  by_contra hne
  have hm := abs_nearest_sub_le x
  have hapart : (1 : K) ≤ |(n : K) - nearest x| := by
    exact_mod_cast Int.one_le_abs (sub_ne_zero.mpr hne)
  have htriangle : |(n : K) - nearest x| ≤ |n - x| + |nearest x - x| := by
    rw [abs_sub_comm (nearest x : K) x]
    exact abs_sub_le _ _ _
  have hodd : |(n : K) - nearest x| = 1 := by linarith
  have hone : |n - nearest x| = 1 := by exact_mod_cast hodd
  have hdiff := (heven (by linarith)).sub (even_nearest (x := x) (by linarith))
  rcases abs_eq_abs.mp (hone.trans abs_one.symm) with h | h <;>
    rw [h] at hdiff <;> revert hdiff <;> decide

theorem nearest_neg (x : K) : nearest (-x) = -nearest x := by
  have hneg : |((-nearest x : Int) : K) - -x| = |nearest x - x| := by
    rw [Int.cast_neg, ← neg_sub', abs_neg]
  refine (eq_nearest (hneg.trans_le (abs_nearest_sub_le x)) (fun h => ?_)).symm
  exact (even_nearest (hneg.symm.trans h)).neg

end Nearest

section Digits
variable {K : Type*} [Field K] [LinearOrder K] [FloorRing K]

/-- The distance between the numbers around `x` that have `p` binary digits after the first. -/
def ulp (p : Nat) (x : K) : K := ((2 : Nat) : K) ^ (Int.log 2 |x| - p)

/-- `x` rounded to `p` binary digits after the first, whatever its exponent. -/
def roundTo (p : Nat) (x : K) : K := nearest (x / ulp p x) * ulp p x

/-- Binary64, short of overflow and underflow. -/
instance binary64 : Rounding K := ⟨roundTo 52⟩

theorem ulp_neg (p : Nat) (x : K) : ulp p (-x) = ulp p x := by
  rw [ulp, ulp, abs_neg]

variable [IsStrictOrderedRing K] {p : Nat} {x y : K}

theorem ulp_pos (p : Nat) (x : K) : 0 < ulp p x := zpow_pos (Nat.cast_pos.mpr Nat.two_pos) _

theorem ulp_le (p : Nat) (hx : x ≠ 0) : ulp p x ≤ |x| / 2 ^ p := by
  have hlog := Int.zpow_log_le_self (b := 2) Nat.one_lt_two (abs_pos.mpr hx)
  rw [ulp, Nat.cast_two, zpow_sub₀ two_ne_zero, zpow_natCast]
  rw [Nat.cast_two] at hlog
  exact div_le_div_of_nonneg_right hlog (by positivity)

theorem roundTo_zero : roundTo p (0 : K) = 0 := by
  have hzero := nearest_intCast (K := K) 0
  rw [Int.cast_zero] at hzero
  rw [roundTo, zero_div, hzero, Int.cast_zero, zero_mul]

theorem roundTo_neg (p : Nat) (x : K) : roundTo p (-x) = -roundTo p x := by
  rw [roundTo, roundTo, ulp_neg, neg_div, nearest_neg, Int.cast_neg, neg_mul]

/-- Rounding moves a number by at most half a unit of its last digit. -/
theorem abs_roundTo_sub_le (p : Nat) (x : K) : |roundTo p x - x| ≤ |x| / 2 ^ (p + 1) := by
  rcases eq_or_ne x 0 with rfl | hx
  · simp [roundTo_zero]
  · have hulp := ulp_pos p x
    have hscaled : roundTo p x - x = (nearest (x / ulp p x) - x / ulp p x) * ulp p x := by
      rw [roundTo, sub_mul, div_mul_cancel₀ _ hulp.ne']
    calc |roundTo p x - x| = |nearest (x / ulp p x) - x / ulp p x| * ulp p x := by
          rw [hscaled, abs_mul, abs_of_pos hulp]
      _ ≤ 1 / 2 * (|x| / 2 ^ p) :=
          mul_le_mul (abs_nearest_sub_le _) (ulp_le p hx) hulp.le (by norm_num)
      _ = |x| / 2 ^ (p + 1) := by
          rw [pow_succ]
          field_simp

theorem abs_lt_mul_ulp (p : Nat) (x : K) : |x| < 2 ^ (p + 1) * ulp p x := by
  have hlog := Int.lt_zpow_succ_log_self (b := 2) Nat.one_lt_two |x|
  refine hlog.trans_eq ?_
  rw [ulp, Nat.cast_two, ← zpow_natCast, ← zpow_add₀ two_ne_zero]
  congr 1
  push_cast
  ring

theorem mul_ulp_le (p : Nat) (hx : x ≠ 0) : 2 ^ p * ulp p x ≤ |x| := by
  rw [mul_comm]
  exact (le_div_iff₀ (by positivity)).mp (ulp_le p hx)

/-- Numbers of one binade are rounded in order, and none leaves it but to its end. -/
theorem roundTo_mono_pos (hx : 0 < x) (h : x ≤ y) : roundTo p x ≤ roundTo p y := by
  have hy := hx.trans_le h
  rcases (Int.log_mono_right (b := 2) hx h).lt_or_eq with hlt | heq
  · have hend : roundTo p x ≤ 2 ^ (p + 1) * ulp p x := by
      have hscaled : x / ulp p x ≤ ((2 ^ (p + 1) : Int) : K) := by
        push_cast
        exact (div_le_iff₀ (ulp_pos p x)).mpr ((le_abs_self x).trans (abs_lt_mul_ulp p x).le)
      have hnearest := (nearest_mono hscaled).trans_eq (nearest_intCast _)
      refine mul_le_mul_of_nonneg_right ?_ (ulp_pos p x).le
      exact_mod_cast hnearest
    have hstart : 2 ^ p * ulp p y ≤ roundTo p y := by
      have hscaled : ((2 ^ p : Int) : K) ≤ y / ulp p y := by
        push_cast
        exact (le_div_iff₀ (ulp_pos p y)).mpr ((mul_ulp_le p hy.ne').trans_eq (abs_of_pos hy))
      have hnearest := (nearest_intCast _).symm.trans_le (nearest_mono hscaled)
      refine mul_le_mul_of_nonneg_right ?_ (ulp_pos p y).le
      exact_mod_cast hnearest
    have hbinades : 2 ^ (p + 1) * ulp p x ≤ 2 ^ p * ulp p y := by
      rw [ulp, ulp, Nat.cast_two, abs_of_pos hx, abs_of_pos hy, ← zpow_natCast, ← zpow_natCast,
        ← zpow_add₀ two_ne_zero, ← zpow_add₀ two_ne_zero]
      refine zpow_le_zpow_right₀ one_le_two ?_
      push_cast
      omega
    exact hend.trans (hbinades.trans hstart)
  · have hulp : ulp p x = ulp p y := by
      rw [ulp, ulp, abs_of_pos hx, abs_of_pos hy, heq]
    rw [roundTo, roundTo, hulp]
    refine mul_le_mul_of_nonneg_right ?_ (ulp_pos p y).le
    exact_mod_cast nearest_mono (div_le_div_of_nonneg_right h (ulp_pos p y).le)

theorem roundTo_pos (hx : 0 < x) : 0 < roundTo p x := by
  have herror := (abs_le.mp (abs_roundTo_sub_le p x)).1
  have hhalf : |x| / 2 ^ (p + 1) < x := by
    rw [abs_of_pos hx]
    exact div_lt_self hx (one_lt_pow₀ one_lt_two p.succ_ne_zero)
  linarith

theorem roundTo_nonpos_iff : roundTo p x ≤ 0 ↔ x ≤ 0 := by
  constructor
  · exact fun h => not_lt.mp (fun hx => absurd h (not_le.mpr (roundTo_pos hx)))
  · intro h
    rcases h.lt_or_eq with hx | rfl
    · have hneg := roundTo_pos (p := p) (neg_pos.mpr hx)
      rw [roundTo_neg] at hneg
      exact (neg_pos.mp hneg).le
    · exact roundTo_zero.le

theorem roundTo_mono : Monotone (roundTo p : K → K) := by
  intro x y h
  rcases lt_or_ge 0 x with hx | hx
  · exact roundTo_mono_pos hx h
  · rcases lt_or_ge 0 y with hy | hy
    · exact (roundTo_nonpos_iff.mpr hx).trans (roundTo_pos hy).le
    · rcases hy.lt_or_eq with hy | rfl
      · have hneg := roundTo_mono_pos (p := p) (neg_pos.mpr hy) (neg_le_neg h)
        rw [roundTo_neg, roundTo_neg] at hneg
        exact neg_le_neg_iff.mp hneg
      · rw [roundTo_zero]
        exact roundTo_nonpos_iff.mpr hx

/-- Whole numbers of as many digits are kept. -/
theorem roundTo_natCast {n : Nat} (h : n < 2 ^ (p + 1)) : roundTo p (n : K) = n := by
  rcases Nat.eq_zero_or_pos n with rfl | hn
  · rw [Nat.cast_zero, roundTo_zero]
  · have hlog : Nat.log 2 n ≤ p := Nat.lt_succ_iff.mp (Nat.log_lt_of_lt_pow hn.ne' h)
    have hulp : ulp p (n : K) * ((2 ^ (p - Nat.log 2 n) : Nat) : K) = 1 := by
      rw [ulp, Nat.abs_cast, Int.log_natCast, Nat.cast_pow, Nat.cast_two, ← zpow_natCast,
        ← zpow_add₀ two_ne_zero, Nat.cast_sub hlog, sub_add_sub_cancel, sub_self, zpow_zero]
    have hscaled : (n : K) / ulp p (n : K) = ((n * 2 ^ (p - Nat.log 2 n) : Nat) : Int) := by
      rw [div_eq_iff (ulp_pos p _).ne', Int.cast_natCast, Nat.cast_mul, mul_assoc,
        mul_comm _ (ulp p _), hulp, mul_one]
    rw [roundTo, hscaled, nearest_intCast, ← hscaled, div_mul_cancel₀ _ (ulp_pos p _).ne']

end Digits

section Binary64
variable {K : Type*} [Field K] [LinearOrder K] [FloorRing K]

/-- How far, relatively, one rounding takes a number at most. -/
def unitRoundoff : K := 1 / (2 ^ 53 : Nat)

omit [LinearOrder K] [FloorRing K] in
theorem unitRoundoff_eq : (unitRoundoff : K) = 1 / 2 ^ 53 := by
  rw [unitRoundoff, Nat.cast_pow, Nat.cast_two]

variable [IsStrictOrderedRing K] {x y : K}

theorem round_mono : Monotone (round : K → K) := roundTo_mono

theorem round_pos (hx : 0 < x) : 0 < round x := roundTo_pos hx

theorem round_nonpos_iff : round x ≤ 0 ↔ x ≤ 0 := roundTo_nonpos_iff

theorem round_nonneg_iff : 0 ≤ round x ↔ 0 ≤ x := by
  rw [← neg_nonpos (a := x), ← round_nonpos_iff]
  change _ ↔ roundTo 52 (-x) ≤ 0
  rw [roundTo_neg, neg_nonpos]
  rfl

theorem sub_nonpos_iff : sub x y ≤ 0 ↔ x ≤ y := by
  rw [sub, round_nonpos_iff, sub_nonpos]

theorem ofNat_eq {n : Nat} (h : n < 2 ^ 53) : (ofNat n : K) = n := roundTo_natCast h

theorem round_le (hx : 0 ≤ x) : round x ≤ (1 + unitRoundoff) * x := by
  have herror := (abs_le.mp (abs_roundTo_sub_le 52 x)).2
  rw [abs_of_nonneg hx] at herror
  calc round x = roundTo 52 x - x + x := (sub_add_cancel _ _).symm
    _ ≤ x / 2 ^ (52 + 1) + x := by gcongr
    _ = (1 + unitRoundoff) * x := by
        rw [unitRoundoff_eq]
        ring

theorem le_round (hx : 0 ≤ x) : (1 - unitRoundoff) * x ≤ round x := by
  have herror := (abs_le.mp (abs_roundTo_sub_le 52 x)).1
  rw [abs_of_nonneg hx] at herror
  calc (1 - unitRoundoff) * x = -(x / 2 ^ (52 + 1)) + x := by
        rw [unitRoundoff_eq]
        ring
    _ ≤ roundTo 52 x - x + x := by gcongr
    _ = round x := sub_add_cancel _ _

end Binary64
end Rounding
