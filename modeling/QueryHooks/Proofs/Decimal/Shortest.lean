import QueryHooks.Decimal.Shortest
import QueryHooks.Proofs.Decimal.Nearest

/-!
# Reading the shortest decimal

A decimal that reads back as a number lies between the midpoints to the neighbours of that number,
so it is rounded to it.

Main results:

- Theorem `surrounds_of_readsBack`: what reads back lies between the midpoints.
- Theorem `ofDecimal_of_surrounds`: a decimal between the midpoints is rounded to the number.
- Theorem `ofDecimal_shortest`: a number is read from its shortest decimal.
-/

namespace QueryHooks.Decimal

namespace Binary64

/-! ## Decimals that read back -/

/-- A decimal as a quotient of natural numbers. -/
theorem decimal_eq (digits : Nat) (scale : Int) :
    ((digits * tenTo scale.toNat : Nat) : ℚ) /
    (tenTo (-scale).toNat : Nat) = digits * 10 ^ scale := by
  rw [zpow_eq_div, tenTo_eq, tenTo_eq]
  push_cast
  ring

/-- What reads back as a number lies between the midpoints to its neighbours. -/
theorem surrounds_of_readsBack {significand digits : Nat} {exponent scale : Int}
    (hpos : 0 < significand)
    (h : readsBack significand exponent digits scale = true) :
    Surrounds significand exponent (digits * 10 ^ scale / 2 ^ exponent) := by
  rw [← decimal_eq, ← scaled_eq]
  have hunit : 0 < tenTo (-scale).toNat * twoTo exponent.toNat :=
    Nat.mul_pos (tenTo_pos _) (twoTo_pos _)
  have hgap : gapBelow significand exponent ≤ 4 * significand := by
    rw [gapBelow]
    split_ifs <;> omega
  -- The two bounds as they are compared, and the same as they stand in the statement.
  simp only [readsBack, ← gapBelow.eq_1, mul_comm (twoTo exponent.toNat)] at h
  rw [show 4 * digits * tenTo scale.toNat * twoTo (-exponent).toNat =
    4 * (digits * tenTo scale.toNat * twoTo (-exponent).toNat) by ring] at h
  generalize digits * tenTo scale.toNat * twoTo (-exponent).toNat = value at h ⊢
  generalize tenTo (-scale).toNat * twoTo exponent.toNat = unit at h hunit ⊢
  have hunit' : (0 : ℚ) < unit := by exact_mod_cast hunit
  have hcast : ((4 * significand - gapBelow significand exponent : Nat) : ℚ) =
      4 * (significand - (gapBelow significand exponent : ℚ) / 4) := by
    rw [Nat.cast_sub hgap]
    push_cast
    ring
  have hbounds : 4 * ((significand - (gapBelow significand exponent : ℚ) / 4) * unit) ≤ 4 * value ∧
      4 * (value : ℚ) ≤ 4 * ((significand + 1 / 2) * unit) ∧ (significand % 2 = 0 ∨
        4 * ((significand - (gapBelow significand exponent : ℚ) / 4) * unit) < 4 * value ∧
        4 * (value : ℚ) < 4 * ((significand + 1 / 2) * unit)) := by
    rw [← mul_assoc, ← hcast, show (4 : ℚ) * ((significand + 1 / 2) * unit) =
      (4 * significand + 2) * unit by ring]
    split_ifs at h with heven
    · simp only [Bool.and_eq_true, decide_eq_true_eq] at h
      exact ⟨by exact_mod_cast h.1, by exact_mod_cast h.2, .inl heven⟩
    · simp only [Bool.and_eq_true, decide_eq_true_eq] at h
      have hlow : ((4 * significand - gapBelow significand exponent : Nat) : ℚ) * unit <
          4 * value := by
        exact_mod_cast h.1
      have hhigh : (4 * value : ℚ) < (4 * significand + 2) * unit := by exact_mod_cast h.2
      exact ⟨hlow.le, hhigh.le, .inr ⟨hlow, hhigh⟩⟩
  obtain ⟨hlow, hhigh, heven⟩ := hbounds
  constructor
  · rw [le_div_iff₀ hunit']
    linarith
  · rw [div_le_iff₀ hunit']
    linarith
  · intro heq
    rw [div_eq_iff hunit'.ne'] at heq
    exact heven.resolve_right fun hstrict => by linarith [hstrict.1]
  · intro heq
    rw [div_eq_iff hunit'.ne'] at heq
    exact heven.resolve_right fun hstrict => by linarith [hstrict.2]

/--
A decimal is as large as the power of ten of its leading digit, and smaller than the next one.
-/
theorem decimal_bounds {digits : Nat} (hdigits : 0 < digits) (scale : Int) :
    let length : Int := (Nat.toDigits 10 digits).length
    (10 : ℚ) ^ (length - 1 + scale) ≤ digits * 10 ^ scale ∧
      digits * 10 ^ scale < (10 : ℚ) ^ (length + scale) := by
  intro length
  have hscale : (0 : ℚ) < 10 ^ scale := by positivity
  have hten : (10 : ℚ) ≠ 0 := by norm_num
  have hlength := Nat.length_toDigits_pos (b := 10) (n := digits)
  rw [zpow_add₀ hten, zpow_add₀ hten]
  constructor
  · gcongr
    have hle : 10 ^ ((Nat.toDigits 10 digits).length - 1) ≤ digits := by
      rcases Nat.eq_or_lt_of_le hlength with hone | hmore
      · rw [← hone]
        exact hdigits
      · rw [← not_lt, ← Nat.length_toDigits_le_iff (by decide) (by omega)]
        omega
    rw [show length - 1 = (((Nat.toDigits 10 digits).length - 1 : Nat) : Int) by omega,
      zpow_natCast]
    exact_mod_cast hle
  · gcongr
    have hlt := (Nat.length_toDigits_le_iff (n := digits) (by decide) hlength).1 le_rfl
    rw [zpow_natCast]
    exact_mod_cast hlt

/-- A power of ten beyond every finite number. -/
theorem twoPow_le_tenPow : (2 : ℚ) ^ (1200 : Int) ≤ 10 ^ (400 : Int) := by
  calc (2 : ℚ) ^ (1200 : Int) = (2 ^ (3 : Int)) ^ (400 : Int) := (zpow_mul 2 3 400)
    _ ≤ 10 ^ (400 : Int) := zpow_le_zpow_left₀ (by norm_num) (by norm_num) (by norm_num)

/-- A power of ten that counts as zero is less than half of the least positive number. -/
theorem tenPow_le_of_lt {exponent : Int} (h : exponent < -400) :
    (10 : ℚ) ^ exponent ≤ 2 ^ (-1075 : Int) := by
  calc (10 : ℚ) ^ exponent ≤ 10 ^ (-400 : Int) := zpow_le_zpow_right₀ (by norm_num) h.le
    _ = (10 ^ (400 : Int))⁻¹ := zpow_neg 10 400
    _ ≤ (2 ^ (1200 : Int))⁻¹ := inv_anti₀ (zpow_pos two_pos _) twoPow_le_tenPow
    _ = 2 ^ (-1200 : Int) := (zpow_neg 2 1200).symm
    _ ≤ 2 ^ (-1075 : Int) := zpow_le_zpow_right₀ one_le_two (by norm_num)

/-- A power of ten that counts as infinite is greater than every number. -/
theorem le_tenPow_of_le {exponent : Int} (h : 400 ≤ exponent) :
    (2 : ℚ) ^ (1024 : Int) ≤ 10 ^ exponent := by
  calc (2 : ℚ) ^ (1024 : Int) ≤ 2 ^ (1200 : Int) := zpow_le_zpow_right₀ one_le_two (by norm_num)
    _ ≤ 10 ^ (400 : Int) := twoPow_le_tenPow
    _ ≤ 10 ^ exponent := zpow_le_zpow_right₀ (by norm_num) h

section Range

variable {significand : Nat} {exponent : Int} {value : ℚ}

/-- What is rounded to a positive number is not below one half of the least one. -/
theorem le_of_surrounds (hpos : 0 < significand) (hmin : minExponent ≤ exponent)
    (h : Surrounds significand exponent (value / 2 ^ exponent)) : 2 ^ (-1075 : Int) ≤ value := by
  have hone : (1 : ℚ) ≤ significand := by exact_mod_cast hpos
  have hgap := gapBelow_le significand exponent
  calc (2 : ℚ) ^ (-1075 : Int) = 2 ^ (-1 : Int) * 2 ^ minExponent :=
    zpow_add₀ two_ne_zero (-1) (-1074)
    _ ≤ 2 ^ (-1 : Int) * 2 ^ exponent := by
      gcongr
      exact one_le_two
    _ ≤ value := by
      rw [← le_div_iff₀ (zpow_pos two_pos _)]
      norm_num
      linarith [h.lower]

/--
What is rounded to a number of the format is below the power of two that is the first to be too
large.
-/
theorem lt_of_surrounds (hbits : significand < twoTo 53) (hmax : exponent ≤ maxExponent)
    (h : Surrounds significand exponent (value / 2 ^ exponent)) : value < 2 ^ (1024 : Int) := by
  have hbits' : (significand + 1 : ℚ) ≤ 2 ^ 53 := by exact_mod_cast hbits
  calc value < 2 ^ 53 * 2 ^ exponent := by
        rw [← div_lt_iff₀ (zpow_pos two_pos _)]
        linarith [h.upper]
    _ ≤ 2 ^ (53 : Int) * 2 ^ maxExponent := by
      gcongr
      · exact le_of_eq (zpow_natCast 2 53).symm
      · exact one_le_two
    _ = 2 ^ (1024 : Int) := (zpow_add₀ two_ne_zero 53 971).symm

end Range

/-- A decimal between the midpoints to the neighbours of a number is rounded to that number. -/
theorem ofDecimal_of_surrounds {significand digits : Nat} {exponent scale : Int} (negative : Bool)
    (hnormal : (finite negative significand exponent).IsNormal) (hpos : 0 < significand)
    (hdigits : 0 < digits)
    (h : Surrounds significand exponent (digits * 10 ^ scale / 2 ^ exponent)) :
    ofDecimal negative digits scale = finite negative significand exponent := by
  have hrounded := ofQuotient_of_surrounds negative (Nat.mul_pos hdigits (tenTo_pos scale.toNat))
    (tenTo_pos (-scale).toNat) hnormal (by rw [decimal_eq]; exact h)
  obtain ⟨hbits, hmin, hmax, _⟩ := hnormal
  obtain ⟨hleading, hnext⟩ := decimal_bounds hdigits scale
  -- The number is far from the bounds beyond which the exponent alone decides.
  have hlow : ¬((Nat.toDigits 10 digits).length + scale < -400) := fun hlt =>
    absurd ((le_of_surrounds hpos hmin h).trans_lt hnext) (not_lt.2 (tenPow_le_of_lt hlt))
  have hhigh : ¬(400 < (Nat.toDigits 10 digits).length + scale) := fun hlt =>
    absurd ((lt_of_surrounds hbits hmax h).trans_le (le_tenPow_of_le (by omega)))
      (not_lt.2 hleading)
  rw [ofDecimal]
  simp only [hdigits.ne', hlow, hhigh, or_self, if_false]
  exact hrounded

/-! ## The shortest decimal -/

/-- A carry changes the digits and the scale, but not the number. -/
theorem carried_eq {count digits carriedDigits : Nat} {scale carriedScale : Int}
    (h : carried count digits scale = (carriedDigits, carriedScale)) :
    (carriedDigits * 10 ^ carriedScale : ℚ) = digits * 10 ^ scale := by
  rw [carried] at h
  split_ifs at h with hcarry
  · obtain ⟨rfl, rfl⟩ := Prod.mk.inj h
    rw [hcarry, tenTo_eq, zpow_add₀ (by norm_num), zpow_natCast]
    push_cast
    ring
  · obtain ⟨rfl, rfl⟩ := Prod.mk.inj h
    rfl

/--
A decimal of some length that is chosen for a number lies between the midpoints to its neighbours.
-/
theorem surrounds_of_decimalOfLength {significand count digits : Nat} {exponent scale : Int}
    (hpos : 0 < significand)
    (h : decimalOfLength? significand exponent count = some (digits, scale)) :
    Surrounds significand exponent (digits * 10 ^ scale / 2 ^ exponent) := by
  simp only [decimalOfLength?] at h
  split_ifs at h with hbest hsame hup hdown
  · rw [carried_eq (Option.some.inj h)]
    exact surrounds_of_readsBack hpos hbest
  · rw [carried_eq (Option.some.inj h)]
    exact surrounds_of_readsBack hpos hup
  · rw [carried_eq (Option.some.inj h)]
    exact surrounds_of_readsBack hpos hdown

/--
The shortest decimal is zero, or it lies between the midpoints to the neighbours of the number.
-/
theorem surrounds_of_shortest {significand digits : Nat} {exponent scale : Int}
    (h : shortest significand exponent = (digits, scale)) (hdigits : digits ≠ 0) :
    0 < significand ∧ Surrounds significand exponent (digits * 10 ^ scale / 2 ^ exponent) := by
  rw [shortest] at h
  split_ifs at h with hzero
  · exact absurd (congrArg Prod.fst h).symm hdigits
  · have hpos := Nat.pos_of_ne_zero hzero
    refine ⟨hpos, ?_⟩
    cases hfound : (List.range maxDigits).findSome? fun n =>
        decimalOfLength? significand exponent (n + 1) with
    | none =>
      rw [hfound] at h
      exact absurd (congrArg Prod.fst h).symm hdigits
    | some found =>
      rw [hfound] at h
      obtain rfl : found = (digits, scale) := h
      obtain ⟨n, _, hn⟩ := List.exists_of_findSome?_eq_some hfound
      exact surrounds_of_decimalOfLength hpos hn

/-- A number is read from its shortest decimal, unless that is zero. -/
theorem ofDecimal_shortest {significand digits : Nat} {exponent scale : Int} (negative : Bool)
    (hnormal : (finite negative significand exponent).IsNormal)
    (h : shortest significand exponent = (digits, scale)) (hdigits : digits ≠ 0) :
    ofDecimal negative digits scale = finite negative significand exponent := by
  obtain ⟨hpos, hsurrounds⟩ := surrounds_of_shortest h hdigits
  exact ofDecimal_of_surrounds negative hnormal hpos (Nat.pos_of_ne_zero hdigits) hsurrounds

end Binary64

end QueryHooks.Decimal
