import FlowPlan.Number.Quantity
import FlowPlan.Proofs.Rounding

namespace FlowPlan

namespace Format

variable {f : Format} {body num den : Nat}

theorem leastExponent_le_scale (f : Format) (body : Nat) : f.leastExponent ≤ f.scale body := by
  rw [scale]
  split
  next => exact le_rfl
  next h => have := Nat.pos_of_ne_zero h; omega

/-- An amount that a pattern stands for fills its own units. -/
theorem fills_amount (f : Format) (body : Nat) : f.Fills (f.amount body) (f.scale body) := by
  have hunits : f.amount body / 2 ^ f.scale body = f.units body := by
    rw [amount, mul_div_cancel_right₀ _ (zpow_pos two_pos _).ne']
  refine ⟨f.leastExponent_le_scale body, ?_, ?_⟩
  · rw [hunits]
    exact_mod_cast f.units_lt body
  · rw [hunits, scale, units]
    split
    next => exact .inl rfl
    next => exact .inr (by exact_mod_cast Nat.le_add_right _ _)

theorem amount_zero (f : Format) : f.amount 0 = 0 := by
  rw [amount, units_zero, Nat.cast_zero, zero_mul]

theorem nearest_of_eq_zero (hden : 0 < den) (h : (num : ℚ) / den = 0) : f.nearest num den = 0 := by
  have hd : (den : ℚ) ≠ 0 := by exact_mod_cast hden.ne'
  have hnum : (num : ℚ) = 0 := (div_eq_zero_iff.mp h).resolve_right hd
  rw [nearest, if_pos (by exact_mod_cast hnum)]

/-- An amount that a finite pattern stands for is not rounded. -/
theorem nearest_amount (hden : 0 < den) (hbody : body < f.infinity)
    (h : (num : ℚ) / den = f.amount body) : f.nearest num den = body := by
  rcases num.eq_zero_or_pos with rfl | hnum
  · have hzero : f.amount body = f.amount 0 := by simp [← h, amount_zero]
    rw [nearest, if_pos rfl, f.amount_strictMono.injective hzero]
  · obtain ⟨e, k, he, hk, heq⟩ := f.nearest_eq hnum hden
    have hamount := f.fills_amount body
    rw [h] at he hk
    obtain rfl : e = f.scale body :=
      le_antisymm (he.mono hamount le_rfl) (hamount.mono he le_rfl)
    have hunits : f.amount body / 2 ^ f.scale body = f.units body := by
      rw [amount, mul_div_cancel_right₀ _ (zpow_pos two_pos _).ne']
    rw [hunits] at hk
    obtain rfl : k = f.units body := hk.unique (.natCast _)
    have habove := hamount.above
    rw [hunits] at habove
    have hcount := amount_count hamount.least (f.units_lt body)
      (habove.imp_right fun h => by exact_mod_cast h)
    have hsame : (f.scale body - f.leastExponent).toNat * 2 ^ f.fraction + f.units body = body :=
      f.amount_strictMono.injective hcount
    rw [heq, hsame, Nat.min_eq_right hbody.le]

/-- What is at most an amount that a finite pattern stands for is not rounded past it. -/
theorem nearest_le (hden : 0 < den) (hbody : body < f.infinity)
    (h : (num : ℚ) / den ≤ f.amount body) : f.nearest num den ≤ body := by
  have hamount : 0 ≤ f.amount body := mul_nonneg (Nat.cast_nonneg _) (zpow_pos two_pos _).le
  obtain ⟨n, hn⟩ := Int.eq_ofNat_of_zero_le (Rat.num_nonneg.mpr hamount)
  have hexact : (n : ℚ) / (f.amount body).den = f.amount body := by
    rw [← Int.cast_natCast, ← hn, Rat.num_div_den]
  rw [← hexact] at h
  exact (nearest_mono hden (Rat.den_pos _) h).trans_eq (nearest_amount (Rat.den_pos _) hbody hexact)

end Format

namespace Binary

open Format

section Places

variable {f : Format} {x y : Binary f}

/-- The amount that a finite number stands for, whatever its sign. -/
def amount (x : Binary f) : ℚ := f.amount (x.pattern % f.signWeight)

/-- A number that is not negative has the place of its body. -/
theorem rank_eq_body (h : 0 ≤ x.rank) : x.rank = (x.pattern % f.signWeight : Nat) := by
  cases hs : x.signBit with
  | true =>
    simp only [rank, hs, ↓reduceIte] at h ⊢
    omega
  | false =>
    have hlt : x.pattern < f.signWeight := by simpa [signBit] using hs
    simp only [rank, hs, Bool.false_eq_true, ↓reduceIte, Nat.mod_eq_of_lt hlt]

/-- Among the numbers that are not negative only a zero has a sign. -/
theorem amount_of_signBit (h : 0 ≤ x.rank) (hs : x.signBit = true) : x.amount = 0 := by
  simp only [rank, hs, ↓reduceIte] at h
  have hbody : x.pattern % f.signWeight = 0 := by omega
  rw [amount, hbody, amount_zero]

theorem signBit_of_rank_pos (h : 0 < x.rank) : x.signBit = false := by
  cases hs : x.signBit with
  | false => rfl
  | true =>
    simp only [rank, hs, ↓reduceIte] at h
    omega

/-- A number that is not negative is not past infinity. -/
theorem rank_le_infinity (h : 0 ≤ x.rank) (hx : x.isNaN = false) : x.rank ≤ f.infinity := by
  have hbody : ¬f.infinity < x.pattern % f.signWeight := by
    rw [← isNaN_iff, hx]
    exact Bool.false_ne_true
  rw [rank_eq_body h]
  omega

theorem amount_mono (hx : 0 ≤ x.rank) (h : x.rank ≤ y.rank) : x.amount ≤ y.amount := by
  have hy := hx.trans h
  rw [rank_eq_body hx, rank_eq_body hy] at h
  exact f.amount_strictMono.monotone (by exact_mod_cast h)

theorem amount_nonneg (x : Binary f) : 0 ≤ x.amount :=
  mul_nonneg (Nat.cast_nonneg _) (zpow_pos two_pos _).le

theorem ofScaled_eq (negative : Bool) (magnitude : Nat) (exponent : Int) : ∃ num den : Nat,
    0 < den ∧ (num : ℚ) / den = magnitude * 2 ^ exponent ∧
    (ofScaled negative magnitude exponent : Binary f) = signed negative (f.nearest num den) := by
  rw [ofScaled]
  split
  next h =>
    obtain ⟨k, rfl⟩ := Int.eq_ofNat_of_zero_le h
    exact ⟨magnitude * Nat.pow 2 k, 1, Nat.one_pos, by simp, rfl⟩
  next h =>
    obtain ⟨k, rfl⟩ : ∃ k : Nat, exponent = -k := ⟨(-exponent).toNat, by omega⟩
    refine ⟨magnitude, Nat.pow 2 k, Nat.two_pow_pos k, ?_, by rw [Int.neg_neg]; rfl⟩
    simp [zpow_neg, div_eq_mul_inv]

end Places

variable {x y s t : Double}

/-- What a number that is not negative gives, multiplied with a finite one. -/
inductive Product (x s : Double) : Prop where
  | undefined (infinite : x.rank = double.infinity) (nothing : s.rank = 0)
      (isNaN : (x.mul s).isNaN = true)
  | infinite (infinite : x.rank = double.infinity) (something : 0 < s.rank)
      (isNumber : (x.mul s).isNaN = false) (rank : (x.mul s).rank = double.infinity)
  | finite (num den : Nat) (finite : x.rank < double.infinity) (den_pos : 0 < den)
      (exact : (num : ℚ) / den = x.amount * s.amount) (isNumber : (x.mul s).isNaN = false)
      (rank : (x.mul s).rank = double.nearest num den)

theorem product_finite (hx : 0 ≤ x.rank) (hs : 0 ≤ s.rank) (hxf : x.rank < double.infinity)
    (hsf : s.rank < double.infinity) : Product x s := by
  have hxb : x.pattern % double.signWeight < double.infinity := by
    rw [rank_eq_body hx] at hxf
    exact_mod_cast hxf
  have hsb : s.pattern % double.signWeight < double.infinity := by
    rw [rank_eq_body hs] at hsf
    exact_mod_cast hsf
  obtain ⟨num, den, hden, hexact, hscaled⟩ := ofScaled_eq (f := .double) (x.signBit != s.signBit)
    (double.units (x.pattern % double.signWeight) * double.units (s.pattern % double.signWeight))
    (double.scale (x.pattern % double.signWeight) + double.scale (s.pattern % double.signWeight))
  have hmul : x.mul s = signed (x.signBit != s.signBit) (double.nearest num den) := by
    rw [mul, reading_of_lt hxb, reading_of_lt hsb]
    exact hscaled
  have hproduct : (num : ℚ) / den = x.amount * s.amount := by
    rw [hexact, zpow_add₀ two_ne_zero, amount, amount, Format.amount, Format.amount]
    push_cast
    ring
  have hfit : double.nearest num den < double.signWeight :=
    Nat.lt_of_le_of_lt (nearest_le_infinity num den) infinity_lt_signWeight
  refine .finite num den hxf hden hproduct ?_ ?_
  · rw [hmul]
    exact isNaN_signed (nearest_le_infinity num den)
  · rw [hmul, rank_signed hfit]
    split
    next hsign =>
      have hzero : x.amount * s.amount = 0 := by
        cases hxs : x.signBit with
        | true => rw [amount_of_signBit hx hxs, zero_mul]
        | false =>
          rw [hxs, Bool.false_bne] at hsign
          rw [amount_of_signBit hs hsign, mul_zero]
      rw [nearest_of_eq_zero hden (hproduct.trans hzero)]
      rfl
    next => rfl

theorem reading_of_rank_eq_infinity (h : x.rank = double.infinity) :
    x.reading = .infinite false := by
  have hpos : (0 : Int) < double.infinity := by decide
  have hbody := rank_eq_body (h ▸ hpos.le)
  have heq : x.pattern % double.signWeight = double.infinity := by
    rw [h] at hbody
    exact_mod_cast hbody.symm
  simp [reading_eq, heq, signBit_of_rank_pos (h ▸ hpos)]

theorem product_infinite (hx : x.rank = double.infinity) (hs : 0 ≤ s.rank)
    (hsf : s.rank < double.infinity) : Product x s := by
  have hsb : s.pattern % double.signWeight < double.infinity := by
    rw [rank_eq_body hs] at hsf
    exact_mod_cast hsf
  have hmul : x.mul s = if double.units (s.pattern % double.signWeight) = 0 then nan
      else infinity (false != s.signBit) := by
    rw [mul, reading_of_rank_eq_infinity hx, reading_of_lt hsb]
  by_cases hzero : s.rank = 0
  · refine .undefined hx hzero ?_
    have hbody : s.pattern % double.signWeight = 0 := by
      rw [rank_eq_body hs] at hzero
      exact_mod_cast hzero
    rw [hmul, hbody, units_zero, if_pos rfl]
    rfl
  · have hbody : 0 < s.pattern % double.signWeight := by
      rw [rank_eq_body hs] at hzero
      omega
    rw [if_neg (units_pos hbody).ne', signBit_of_rank_pos (by omega)] at hmul
    refine .infinite hx (by omega) ?_ ?_
    · rw [hmul]
      rfl
    · rw [hmul]
      rfl

/-- Every number that is not negative has a product with every finite one. -/
theorem product (hx : 0 ≤ x.rank) (hn : x.isNaN = false) (hs : 0 ≤ s.rank)
    (hsf : s.rank < double.infinity) : Product x s := by
  rcases (rank_le_infinity hx hn).lt_or_eq with hlt | heq
  · exact product_finite hx hs hlt hsf
  · exact product_infinite heq hs hsf

theorem Product.rank_nonneg (h : Product x s) (hm : (x.mul s).isNaN = false) :
    0 ≤ (x.mul s).rank := by
  cases h with
  | undefined _ _ hnan => cases hm.symm.trans hnan
  | infinite _ _ _ hrank => exact hrank ▸ Int.natCast_nonneg _
  | finite num den _ _ _ _ hrank => exact hrank ▸ Int.natCast_nonneg _

/-- A fraction of a number is at most the number. -/
theorem Product.rank_le (h : Product x s) (hx : 0 ≤ x.rank) (hs : s.amount ≤ 1)
    (hm : (x.mul s).isNaN = false) : (x.mul s).rank ≤ x.rank := by
  cases h with
  | undefined _ _ hnan => cases hm.symm.trans hnan
  | infinite hinf _ _ hrank => exact (hrank.trans hinf.symm).le
  | finite num den hfin hden hexact _ hrank =>
    rw [rank_eq_body hx] at hfin ⊢
    rw [hrank]
    refine Int.ofNat_le.mpr (nearest_le hden (by exact_mod_cast hfin) ?_)
    rw [hexact]
    exact mul_le_of_le_one_right x.amount_nonneg hs

/-- Larger factors do not have a smaller product. -/
theorem Product.rank_mono (h : Product x s) (k : Product y t) (hx : 0 ≤ x.rank) (hs : 0 ≤ s.rank)
    (hxy : x.rank ≤ y.rank) (hst : s.rank ≤ t.rank) (hm : (x.mul s).isNaN = false)
    (km : (y.mul t).isNaN = false) : (x.mul s).rank ≤ (y.mul t).rank := by
  cases k with
  | undefined _ _ hnan => cases km.symm.trans hnan
  | infinite _ _ _ krank => exact krank ▸ rank_le_infinity (h.rank_nonneg hm) hm
  | finite num' den' kfin kden kexact _ krank =>
    cases h with
    | undefined _ _ hnan => cases hm.symm.trans hnan
    | infinite hinf _ _ _ => omega
    | finite num den _ hden hexact _ hrank =>
      rw [hrank, krank]
      refine Int.ofNat_le.mpr (nearest_mono hden kden ?_)
      rw [hexact, kexact]
      exact mul_le_mul (amount_mono hx hxy) (amount_mono hs hst) s.amount_nonneg y.amount_nonneg

/-- Nothing of a number is nothing, where it is a number at all. -/
theorem Product.rank_eq_zero (h : Product x s) (hs : s.rank = 0)
    (hm : (x.mul s).isNaN = false) : (x.mul s).rank = 0 := by
  cases h with
  | undefined _ _ hnan => cases hm.symm.trans hnan
  | infinite _ hsome _ _ => omega
  | finite num den _ hden hexact _ hrank =>
    have hbody : s.pattern % double.signWeight = 0 := by
      have := rank_eq_body hs.ge
      omega
    have hzero : s.amount = 0 := by rw [amount, hbody, amount_zero]
    rw [hrank, nearest_of_eq_zero hden (by rw [hexact, hzero, mul_zero])]
    rfl

end Binary

end FlowPlan
