import Mathlib
import QueryHooks.Decimal.Binary64

/-!
# The nearest floating point number

A quotient is scaled by a power of two and rounded to a whole number, the significand.  The scale is
found from the logarithms of the two parts, so it has to be shown that it is the one of the format.

Main results:

- Theorem `magnitude_spec`: a quotient lies between two powers of two that follow each other.
- Theorem `isNormal_ofDecimal`: whatever is read is a number of the format.
- Theorem `ofQuotient_of_surrounds`: a quotient between the midpoints to the neighbours of a number
  is rounded to that number.
-/

namespace QueryHooks.Decimal

/-! ## Powers -/

theorem twoTo_eq (n : Nat) : twoTo n = 2 ^ n :=
  rfl

theorem tenTo_eq (n : Nat) : tenTo n = 10 ^ n :=
  rfl

/-- A power with an integer as its exponent is a quotient of two powers, one of which is one. -/
theorem zpow_eq_div (base : ℚ) (exponent : Int) :
    base ^ exponent = base ^ exponent.toNat / base ^ (-exponent).toNat := by
  rcases le_total 0 exponent with hpos | hneg
  · obtain ⟨n, rfl⟩ := Int.eq_ofNat_of_zero_le hpos
    simp
  · obtain ⟨n, hn⟩ := Int.eq_ofNat_of_zero_le (Int.neg_nonneg.2 hneg)
    obtain rfl : exponent = -n := by omega
    simp

/-! ## Rounding to a whole number -/

/--
A whole number is the nearest to a quotient: no further than one half, and even if it is that far.
-/
structure IsNearest (num den n : Nat) : Prop where
  lower : 2 * n * den ≤ 2 * num + den
  upper : 2 * num ≤ (2 * n + 1) * den
  lower_even : 2 * n * den = 2 * num + den → n % 2 = 0
  upper_even : 2 * num = (2 * n + 1) * den → n % 2 = 0

namespace Binary64

/-- A quotient is rounded to the number that is nearest to it. -/
theorem roundDiv_eq {num den n : Nat} (hden : 0 < den) (h : IsNearest num den n) :
    roundDiv num den = n := by
  obtain ⟨hlower, hupper, hlowerEven, hupperEven⟩ := h
  have hnum := Nat.div_add_mod num den
  have hmod := Nat.mod_lt num hden
  rw [roundDiv]
  generalize num / den = q at *
  generalize num % den = r at *
  subst hnum
  have hle : n ≤ q + 1 := by
    by_contra hnot
    have hmul : (q + 2) * den ≤ n * den := Nat.mul_le_mul_right _ (by omega)
    nlinarith
  have hge : q ≤ n := by
    by_contra hnot
    have hmul : (n + 1) * den ≤ q * den := Nat.mul_le_mul_right _ (by omega)
    nlinarith
  obtain rfl | rfl : n = q ∨ n = q + 1 := by omega
  · have hr : 2 * r ≤ den := by nlinarith
    have heven : 2 * r = den → n % 2 = 0 := fun hhalf => hupperEven (by rw [← hhalf]; ring)
    split_ifs <;> omega
  · have hr : den ≤ 2 * r := by nlinarith
    have heven : 2 * r = den → (q + 1) % 2 = 0 := fun hhalf => hlowerEven (by rw [← hhalf]; ring)
    split_ifs <;> omega

/-- Rounding does not go below a whole number that the quotient reaches. -/
theorem le_roundDiv {num den n : Nat} (hden : 0 < den) (h : n * den ≤ num) :
    n ≤ roundDiv num den := by
  have hq : n ≤ num / den := (Nat.le_div_iff_mul_le hden).2 h
  rw [roundDiv]
  split_ifs <;> omega

/-- Rounding does not go beyond a whole number that the quotient does not reach. -/
theorem roundDiv_le {num den n : Nat} (hden : 0 < den) (h : num < n * den) :
    roundDiv num den ≤ n := by
  have hq : num / den < n := (Nat.div_lt_iff_lt_mul hden).2 h
  rw [roundDiv]
  split_ifs <;> omega

/-! ## The power of two below a quotient -/

/-- The exponent of the greatest power of two that is not above a quotient. -/
def magnitude (num den : Nat) : Int :=
  let estimate : Int := (Nat.log2 num : Int) - Nat.log2 den
  let atLeast : Bool := den * twoTo estimate.toNat ≤ num * twoTo (-estimate).toNat
  if atLeast then estimate else estimate - 1

/--
The quotient of two natural numbers as a number with a given exponent, if that does not overflow.
-/
def withExponent (negative : Bool) (num den : Nat) (exponent : Int) : Binary64 :=
  let significand := roundDiv (num * twoTo (-exponent).toNat) (den * twoTo exponent.toNat)
  if maxExponent < exponent ∨ (exponent = maxExponent ∧ twoTo 53 ≤ significand) then
    infinite negative
  else if significand = twoTo 53 then finite negative (twoTo 52) (exponent + 1)
  else finite negative significand exponent

/-- The exponent of a quotient follows from its magnitude, but is not too small. -/
theorem ofQuotient_eq (negative : Bool) (num den : Nat) :
    ofQuotient negative num den =
      withExponent negative num den (max (magnitude num den - 52) minExponent) :=
  rfl

/-- Scaling by a power of two, in natural numbers. -/
theorem scaled_eq (num den : Nat) (exponent : Int) :
    ((num * twoTo (-exponent).toNat : Nat) : ℚ) / ((den * twoTo exponent.toNat : Nat) : ℚ) =
      num / den / 2 ^ exponent := by
  rw [zpow_eq_div]
  simp only [twoTo_eq, Nat.cast_mul, Nat.cast_pow, Nat.cast_ofNat]
  field_simp

/-- The magnitude of a quotient is its logarithm to the base two, rounded down. -/
theorem magnitude_spec {num den : Nat} (hnum : 0 < num) (hden : 0 < den) :
    (2 : ℚ) ^ magnitude num den ≤ num / den ∧ (num / den : ℚ) < 2 ^ (magnitude num den + 1) := by
  have hx : 0 < (num : ℚ) / den := by positivity
  -- The two logarithms determine the magnitude up to one.
  have hestimate : (2 : ℚ) ^ ((Nat.log2 num : Int) - Nat.log2 den - 1) ≤ num / den ∧
      (num / den : ℚ) < 2 ^ ((Nat.log2 num : Int) - Nat.log2 den + 1) := by
    have hnumLow : (2 : ℚ) ^ (Nat.log2 num) ≤ num := by exact_mod_cast Nat.log2_self_le hnum.ne'
    have hnumHigh : (num : ℚ) < 2 ^ (Nat.log2 num + 1) := by exact_mod_cast Nat.lt_log2_self
    have hdenLow : (2 : ℚ) ^ (Nat.log2 den) ≤ den := by exact_mod_cast Nat.log2_self_le hden.ne'
    have hdenHigh : (den : ℚ) < 2 ^ (Nat.log2 den + 1) := by exact_mod_cast Nat.lt_log2_self
    have hdenPos : (0 : ℚ) < den := by exact_mod_cast hden
    constructor
    · rw [le_div_iff₀ hdenPos]
      calc (2 : ℚ) ^ ((Nat.log2 num : Int) - Nat.log2 den - 1) * den
          ≤ 2 ^ ((Nat.log2 num : Int) - Nat.log2 den - 1) * 2 ^ (Nat.log2 den + 1) := by gcongr
        _ = 2 ^ (Nat.log2 num) := by
            rw [← zpow_natCast, ← zpow_natCast, ← zpow_add₀ two_ne_zero]
            congr 1
            push_cast
            ring
        _ ≤ num := hnumLow
    · rw [div_lt_iff₀ hdenPos]
      calc (num : ℚ) < 2 ^ (Nat.log2 num + 1) := hnumHigh
        _ = 2 ^ ((Nat.log2 num : Int) - Nat.log2 den + 1) * 2 ^ (Nat.log2 den) := by
            rw [← zpow_natCast, ← zpow_natCast, ← zpow_add₀ two_ne_zero]
            congr 1
            push_cast
            ring
        _ ≤ 2 ^ ((Nat.log2 num : Int) - Nat.log2 den + 1) * den := by gcongr
  have hat : den * twoTo ((Nat.log2 num : Int) - Nat.log2 den).toNat ≤
      num * twoTo (-((Nat.log2 num : Int) - Nat.log2 den)).toNat ↔
      (2 : ℚ) ^ ((Nat.log2 num : Int) - Nat.log2 den) ≤ num / den := by
    have hscaled := scaled_eq num den ((Nat.log2 num : Int) - Nat.log2 den)
    rw [← one_le_div₀ (zpow_pos two_pos _), ← hscaled, one_le_div₀]
    · exact Nat.cast_le.symm
    · exact_mod_cast Nat.mul_pos hden (twoTo_pos _)
  obtain ⟨hlow, hhigh⟩ := hestimate
  rw [magnitude]
  split_ifs with h
  · simp only [decide_eq_true_eq] at h
    exact ⟨hat.1 h, hhigh⟩
  · simp only [decide_eq_true_eq] at h
    rw [hat, not_le] at h
    exact ⟨hlow, by simpa using h⟩

/-- The magnitude is the only exponent whose power is near enough below the quotient. -/
theorem magnitude_eq {num den : Nat} (hnum : 0 < num) (hden : 0 < den) {exponent : Int}
    (hlow : (2 : ℚ) ^ exponent ≤ num / den) (hhigh : (num / den : ℚ) < 2 ^ (exponent + 1)) :
    magnitude num den = exponent := by
  obtain ⟨hmlow, hmhigh⟩ := magnitude_spec hnum hden
  have hone : (1 : ℚ) < 2 := by norm_num
  have h1 := (zpow_lt_zpow_iff_right₀ hone).1 (hmlow.trans_lt hhigh)
  have h2 := (zpow_lt_zpow_iff_right₀ hone).1 (hlow.trans_lt hmhigh)
  omega

/-! ## Numbers of the format -/

/--
A number of the format as it is kept: a significand of at most 53 bits, and of no less unless the
exponent is the smallest.
-/
def IsNormal : Binary64 → Prop
  | finite _ significand exponent =>
    significand < twoTo 53 ∧ minExponent ≤ exponent ∧ exponent ≤ maxExponent ∧
      (minExponent < exponent → twoTo 52 ≤ significand)
  | infinite _ => True

section Bits

variable {num den bits : Nat} {exponent : Int} (hden : 0 < den)

include hden

/--
A quotient below a power of two is rounded to no more than the bits of that power, once it is
scaled.
-/
theorem roundDiv_scaled_le (h : (num / den : ℚ) < 2 ^ (bits + exponent)) :
    roundDiv (num * twoTo (-exponent).toNat) (den * twoTo exponent.toNat) ≤ twoTo bits := by
  have hunit : 0 < den * twoTo exponent.toNat := Nat.mul_pos hden (twoTo_pos _)
  refine roundDiv_le hunit ?_
  rw [zpow_add₀ two_ne_zero, ← div_lt_iff₀ (zpow_pos two_pos _), ← scaled_eq,
    div_lt_iff₀ (by exact_mod_cast hunit), zpow_natCast] at h
  exact_mod_cast h

/-- A quotient not below a power of two is rounded to no less than the bits of that power. -/
theorem le_roundDiv_scaled (h : 2 ^ (bits + exponent) ≤ (num / den : ℚ)) :
    twoTo bits ≤ roundDiv (num * twoTo (-exponent).toNat) (den * twoTo exponent.toNat) := by
  have hunit : 0 < den * twoTo exponent.toNat := Nat.mul_pos hden (twoTo_pos _)
  refine le_roundDiv hunit ?_
  rw [zpow_add₀ two_ne_zero, ← le_div_iff₀ (zpow_pos two_pos _), ← scaled_eq,
    le_div_iff₀ (by exact_mod_cast hunit), zpow_natCast] at h
  exact_mod_cast h

end Bits

/-- What a quotient is rounded to is a number of the format. -/
theorem isNormal_ofQuotient {num den : Nat} (negative : Bool) (hnum : 0 < num) (hden : 0 < den) :
    (ofQuotient negative num den).IsNormal := by
  obtain ⟨hlow, hhigh⟩ := magnitude_spec hnum hden
  rw [ofQuotient_eq, withExponent]
  generalize hexponent : max (magnitude num den - 52) minExponent = exponent
  -- The scaled quotient has at most 53 bits, and no less unless the exponent is the smallest.
  have hupper : roundDiv (num * twoTo (-exponent).toNat) (den * twoTo exponent.toNat) ≤ twoTo 53 :=
    roundDiv_scaled_le hden (hhigh.trans_le (zpow_le_zpow_right₀ one_le_two (by omega)))
  have hlower (hmin : minExponent < exponent) :
      twoTo 52 ≤ roundDiv (num * twoTo (-exponent).toNat) (den * twoTo exponent.toNat) :=
    le_roundDiv_scaled hden ((zpow_le_zpow_right₀ one_le_two (by omega)).trans hlow)
  have hmin : minExponent ≤ exponent := by omega
  split_ifs with hoverflow hcarry
  · trivial
  · rw [not_or, not_and, not_le, not_lt] at hoverflow
    have hne : exponent ≠ maxExponent := by
      intro hmax
      have hlt := hoverflow.2 hmax
      omega
    exact ⟨by decide, by omega, by omega, fun _ => le_refl _⟩
  · rw [not_or, not_and, not_le, not_lt] at hoverflow
    exact ⟨by omega, hmin, hoverflow.1, hlower⟩

/-- A decimal becomes a number in normal form. -/
theorem isNormal_ofDecimal (negative : Bool) (digits : Nat) (exponent : Int) :
    (ofDecimal negative digits exponent).IsNormal := by
  rw [ofDecimal]
  split_ifs with hzero
  · exact ⟨by decide, le_refl _, by decide, fun h => absurd h (lt_irrefl _)⟩
  · trivial
  · rw [not_or] at hzero
    exact isNormal_ofQuotient negative (Nat.mul_pos (Nat.pos_of_ne_zero hzero.1) (tenTo_pos _))
      (tenTo_pos _)

/-! ## Quotients that are rounded to a number -/

/-- How far below a number those are that are rounded to it, in fourths of the unit. -/
def gapBelow (significand : Nat) (exponent : Int) : Nat :=
  if significand = twoTo 52 ∧ minExponent < exponent then 1 else 2

/--
A number, in units of the last place, lies between the midpoints to the neighbours of a significand.
-/
structure Surrounds (significand : Nat) (exponent : Int) (units : ℚ) : Prop where
  lower : significand - (gapBelow significand exponent : ℚ) / 4 ≤ units
  upper : units ≤ significand + 1 / 2
  lower_even : units = significand - (gapBelow significand exponent : ℚ) / 4 → significand % 2 = 0
  upper_even : units = significand + 1 / 2 → significand % 2 = 0

/-- Bounds among the rational numbers show which whole number is the nearest. -/
theorem isNearest_of_rat {num den n : Nat} (hden : 0 < den)
    (hlower : (n : ℚ) - 1 / 2 ≤ num / den) (hupper : (num / den : ℚ) ≤ n + 1 / 2)
    (hlowerEven : (num / den : ℚ) = n - 1 / 2 → n % 2 = 0)
    (hupperEven : (num / den : ℚ) = n + 1 / 2 → n % 2 = 0) : IsNearest num den n := by
  have hden' : (0 : ℚ) < den := by exact_mod_cast hden
  rw [le_div_iff₀ hden'] at hlower
  rw [div_le_iff₀ hden'] at hupper
  rw [div_eq_iff hden'.ne'] at hlowerEven hupperEven
  constructor
  · have hrat : (2 * n * den : ℚ) ≤ 2 * num + den := by linarith
    exact_mod_cast hrat
  · have hrat : (2 * num : ℚ) ≤ (2 * n + 1) * den := by linarith
    exact_mod_cast hrat
  · intro h
    have hrat : (2 * n * den : ℚ) = 2 * num + den := by exact_mod_cast h
    exact hlowerEven (by linarith)
  · intro h
    have hrat : (2 * num : ℚ) = (2 * n + 1) * den := by exact_mod_cast h
    exact hupperEven (by linarith)

/-- The gap to the neighbour below is never wider than the one above. -/
theorem gapBelow_le (significand : Nat) (exponent : Int) :
    (gapBelow significand exponent : ℚ) ≤ 2 := by
  rw [gapBelow]
  split_ifs <;> norm_num

/-- The exponent that is found for a quotient is that of the number of the format around it. -/
theorem max_magnitude_eq {num den : Nat} {exponent : Int} (hnum : 0 < num) (hden : 0 < den)
    (hmin : minExponent ≤ exponent)
    (hlow : minExponent < exponent → (2 : ℚ) ^ 52 ≤ num / den / 2 ^ exponent)
    (hhigh : (num / den / 2 ^ exponent : ℚ) < 2 ^ 53) :
    max (magnitude num den - 52) minExponent = exponent := by
  have hpow : (0 : ℚ) < 2 ^ exponent := zpow_pos two_pos _
  have hbelow : (num / den : ℚ) < 2 ^ (52 + exponent + 1) := by
    rw [add_right_comm, zpow_add₀ two_ne_zero, ← div_lt_iff₀ hpow]
    exact_mod_cast hhigh
  rcases hmin.lt_or_eq with hminLt | rfl
  · have habove : (2 : ℚ) ^ (52 + exponent) ≤ num / den := by
      rw [zpow_add₀ two_ne_zero, ← le_div_iff₀ hpow]
      exact_mod_cast hlow hminLt
    rw [magnitude_eq hnum hden habove hbelow]
    omega
  · obtain ⟨hmlow, -⟩ := magnitude_spec hnum hden
    have hlt := (zpow_lt_zpow_iff_right₀ (one_lt_two : (1 : ℚ) < 2)).1 (hmlow.trans_lt hbelow)
    omega

section

variable {num den significand : Nat} {exponent : Int} (negative : Bool)

/--
Just below the smallest significand of 53 bits the numbers lie closer together; what is nearest to
it on that grid is nearest to it.
-/
theorem ofQuotient_below_power (hnum : 0 < num) (hden : 0 < den) (hmin : minExponent < exponent)
    (hmax : exponent ≤ maxExponent) (hlower : (2 : ℚ) ^ 52 - 1 / 4 ≤ num / den / 2 ^ exponent)
    (hupper : (num / den / 2 ^ exponent : ℚ) < 2 ^ 52) :
    ofQuotient negative num den = finite negative (twoTo 52) exponent := by
  have htwice : (num / den / 2 ^ (exponent - 1) : ℚ) = 2 * (num / den / 2 ^ exponent) := by
    rw [zpow_sub_one₀ two_ne_zero]
    field_simp
  have hexponent : max (magnitude num den - 52) minExponent = exponent - 1 := by
    refine max_magnitude_eq hnum hden (by omega) (fun _ => ?_) ?_
    all_goals
      rw [htwice]
      norm_num at hlower hupper ⊢
      linarith
  have hrounded : roundDiv (num * twoTo (-(exponent - 1)).toNat)
    (den * twoTo (exponent - 1).toNat) =
      twoTo 53 := by
    refine roundDiv_eq (Nat.mul_pos hden (twoTo_pos _)) ?_
    refine isNearest_of_rat (Nat.mul_pos hden (twoTo_pos _)) ?_ ?_ (fun _ => rfl) (fun _ => rfl)
    all_goals
      rw [scaled_eq, htwice, twoTo_eq]
      norm_num at hlower hupper ⊢
      linarith
  have hfits :
      ¬(maxExponent < exponent - 1 ∨ (exponent - 1 = maxExponent ∧ twoTo 53 ≤ twoTo 53)) := by
    omega
  rw [ofQuotient_eq, hexponent, withExponent, hrounded]
  rw [if_neg hfits, if_pos rfl, sub_add_cancel]

/-- A quotient between the midpoints to the neighbours of a number is rounded to that number. -/
theorem ofQuotient_of_surrounds (hnum : 0 < num) (hden : 0 < den)
    (hnormal : (finite negative significand exponent).IsNormal)
    (h : Surrounds significand exponent (num / den / 2 ^ exponent)) :
    ofQuotient negative num den = finite negative significand exponent := by
  obtain ⟨hbits, hmin, hmax, hfull⟩ := hnormal
  obtain ⟨hlower, hupper, hlowerEven, hupperEven⟩ := h
  have hgap := gapBelow_le significand exponent
  by_cases hbelow : minExponent < exponent ∧ (num / den / 2 ^ exponent : ℚ) < 2 ^ 52
  · obtain ⟨hminLt, hunits⟩ := hbelow
    -- Only the smallest significand of 53 bits reaches down to there.
    obtain rfl : significand = twoTo 52 := by
      refine le_antisymm ?_ (hfull hminLt)
      have hlt : (significand : ℚ) < 2 ^ 52 + 1 := by linarith
      exact Nat.lt_succ_iff.1 (by exact_mod_cast hlt)
    have hone : gapBelow (twoTo 52) exponent = 1 := by rw [gapBelow, if_pos ⟨rfl, hminLt⟩]
    rw [hone, twoTo_eq] at hlower
    exact ofQuotient_below_power negative hnum hden hminLt hmax (by exact_mod_cast hlower) hunits
  · have hhigh : (num / den / 2 ^ exponent : ℚ) < 2 ^ 53 := by
      have hbits' : (significand + 1 : ℚ) ≤ 2 ^ 53 := by exact_mod_cast hbits
      linarith
    have hlow (hminLt : minExponent < exponent) : (2 : ℚ) ^ 52 ≤ num / den / 2 ^ exponent :=
      not_lt.1 fun hunits => hbelow ⟨hminLt, hunits⟩
    have hexponent := max_magnitude_eq hnum hden hmin hlow hhigh
    have hrounded : roundDiv (num * twoTo (-exponent).toNat) (den * twoTo exponent.toNat) =
        significand := by
      refine roundDiv_eq (Nat.mul_pos hden (twoTo_pos _)) ?_
      refine isNearest_of_rat (Nat.mul_pos hden (twoTo_pos _)) ?_ ?_ ?_ ?_
      all_goals rw [scaled_eq]
      · linarith
      · exact hupper
      · intro heq
        exact hlowerEven (le_antisymm (by linarith) hlower)
      · exact hupperEven
    have hfits : ¬(maxExponent < exponent ∨ (exponent = maxExponent ∧ twoTo 53 ≤ significand)) := by
      omega
    rw [ofQuotient_eq, hexponent, withExponent, hrounded]
    rw [if_neg hfits, if_neg hbits.ne]

end

end Binary64

end QueryHooks.Decimal
