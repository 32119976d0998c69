import FlowPlan.Number.Decimal
import Mathlib

namespace FlowPlan

namespace Format

variable {f : Format}

theorem signWeight_pos : 0 < f.signWeight := Nat.two_pow_pos _

theorem two_pow_width : 2 ^ f.width = 2 * f.signWeight := by
  have h : f.width = f.exponent + f.fraction + 1 := by
    rw [width]
    omega
  rw [h, Nat.pow_succ, Nat.mul_comm]
  rfl

theorem infinity_lt_signWeight : f.infinity < f.signWeight := by
  have h : f.signWeight = Nat.pow 2 f.exponent * Nat.pow 2 f.fraction := Nat.pow_add 2 _ _
  rw [h, infinity]
  exact Nat.mul_lt_mul_of_pos_right (Nat.sub_one_lt (Nat.ne_of_gt (Nat.two_pow_pos _))) (Nat.two_pow_pos _)

/-- Rounding never goes past infinity. -/
theorem nearest_le_infinity (num den : Nat) : f.nearest num den ≤ f.infinity := by
  unfold nearest
  split
  · exact Nat.zero_le _
  · exact Nat.min_le_left _ _

end Format

namespace Binary

open Format

variable {f : Format} {x y : Binary f} {negative : Bool} {body : Nat}

theorem pattern_lt (x : Binary f) : x.pattern < 2 * f.signWeight := by
  rw [← two_pow_width]
  exact x.bits.isLt

theorem ext_pattern (h : x.pattern = y.pattern) : x = y := by
  cases x
  cases y
  exact congrArg mk (BitVec.eq_of_toNat_eq h)

theorem pattern_ofPattern {n : Nat} (h : n < 2 ^ f.width) :
    (ofPattern n : Binary f).pattern = n := by
  rw [ofPattern, pattern, BitVec.toNat_ofNat, Nat.mod_eq_of_lt h]

theorem ofPattern_pattern (x : Binary f) : ofPattern x.pattern = x :=
  ext_pattern (pattern_ofPattern x.bits.isLt)

theorem body_lt (x : Binary f) : x.pattern % f.signWeight < f.signWeight :=
  Nat.mod_lt _ signWeight_pos

theorem pattern_signed (h : body < f.signWeight) :
    (signed negative body : Binary f).pattern = if negative then f.signWeight + body else body := by
  have hfit : (if negative then f.signWeight + body else body) < 2 ^ f.width := by
    rw [two_pow_width]
    split <;> omega
  rw [signed, ofPattern, pattern, BitVec.toNat_ofNat, Nat.mod_eq_of_lt hfit]

@[simp] theorem body_signed (h : body < f.signWeight) :
    (signed negative body : Binary f).pattern % f.signWeight = body := by
  rw [pattern_signed h]
  cases negative with
  | true => simp [Nat.mod_eq_of_lt h]
  | false => simp [Nat.mod_eq_of_lt h]

@[simp] theorem signBit_signed (h : body < f.signWeight) :
    (signed negative body : Binary f).signBit = negative := by
  rw [signBit, pattern_signed h]
  cases negative with
  | true => simp
  | false => simpa using h

/-- A number is its sign over its body. -/
theorem signed_eta (x : Binary f) : signed x.signBit (x.pattern % f.signWeight) = x := by
  apply ext_pattern
  rw [pattern_signed x.body_lt]
  have hx := x.pattern_lt
  by_cases hs : f.signWeight ≤ x.pattern
  · have hmod : x.pattern % f.signWeight = x.pattern - f.signWeight := by
      rw [Nat.mod_eq_sub_mod hs, Nat.mod_eq_of_lt (by omega)]
    simp only [signBit, hs, decide_true, ↓reduceIte, hmod]
    omega
  · simp only [signBit, hs, decide_false, Bool.false_eq_true, ↓reduceIte]
    exact Nat.mod_eq_of_lt (by omega)

@[simp] theorem signBit_neg (x : Binary f) : x.neg.signBit = !x.signBit := by
  rw [neg, signBit_signed x.body_lt]

@[simp] theorem body_neg (x : Binary f) :
    x.neg.pattern % f.signWeight = x.pattern % f.signWeight := by
  rw [neg, body_signed x.body_lt]

@[simp] theorem neg_neg (x : Binary f) : x.neg.neg = x := by
  rw [neg, signBit_neg, body_neg, Bool.not_not, signed_eta]

theorem reading_eq (x : Binary f) : x.reading =
    (let body := x.pattern % f.signWeight
    let fraction := body % Nat.pow 2 f.fraction
    if f.infinity < body then .nan
    else if body = f.infinity then .infinite x.signBit
    else if body / Nat.pow 2 f.fraction = 0 then .finite x.signBit fraction f.leastExponent
    else .finite x.signBit (Nat.pow 2 f.fraction + fraction)
      (f.leastExponent + ((body / Nat.pow 2 f.fraction : Nat) - 1))) := rfl

/-- Only what lies past infinity is no number. -/
theorem isNaN_iff (x : Binary f) : x.isNaN = true ↔ f.infinity < x.pattern % f.signWeight := by
  by_cases hn : f.infinity < x.pattern % f.signWeight
  · simp [isNaN, reading_eq, hn]
  · by_cases hi : x.pattern % f.signWeight = f.infinity
    · simp [isNaN, reading_eq, hi]
    · by_cases hs : x.pattern % f.signWeight / Nat.pow 2 f.fraction = 0
      · simp only [isNaN, reading_eq, hn, hi, hs, ↓reduceIte, Bool.false_eq_true]
      · simp only [isNaN, reading_eq, hn, hi, hs, ↓reduceIte, Bool.false_eq_true]

@[simp] theorem isNaN_neg (x : Binary f) : x.neg.isNaN = x.isNaN := by
  apply Bool.eq_iff_iff.mpr
  rw [isNaN_iff, isNaN_iff, body_neg]

theorem isNaN_signed (h : body ≤ f.infinity) : (signed negative body : Binary f).isNaN = false := by
  have hlt : body < f.signWeight := Nat.lt_of_le_of_lt h infinity_lt_signWeight
  apply Bool.eq_false_iff.mpr
  rw [ne_eq, isNaN_iff, body_signed hlt]
  omega

/-- A numeral never stands for what is no number. -/
theorem isNaN_ofNumeral (n : Decimal.Numeral) : (ofNumeral negative n : Binary f).isNaN = false := by
  have hzero : (zero negative : Binary f).isNaN = false := isNaN_signed (Nat.zero_le _)
  have hinfinity : (infinity negative : Binary f).isNaN = false := isNaN_signed (Nat.le_refl _)
  have hquotient : ∀ num den, (ofQuotient negative num den : Binary f).isNaN = false := by
    intro num den
    exact isNaN_signed (nearest_le_infinity num den)
  simp only [ofNumeral]
  split
  · exact hzero
  · split
    · exact hinfinity
    · split
      · exact hzero
      · split
        · exact hquotient _ _
        · exact hquotient _ _

end Binary

end FlowPlan
