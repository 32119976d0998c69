import FlowPlan.Proofs.Spacing

namespace FlowPlan

/-- A whole number nearest to an amount, the even one of two that are equally near. -/
def Rounds (x : ℚ) (k : Nat) : Prop := |k - x| ≤ 1 / 2 ∧ (|k - x| = 1 / 2 → k % 2 = 0)

namespace Rounds

variable {x y : ℚ} {k l : Nat}

theorem natCast (k : Nat) : Rounds k k := by
  simp [Rounds]

/-- A larger amount does not go to a smaller whole number: the two could only be neighbours of one
amount halfway between them, and one of the neighbours is odd. -/
theorem mono (hk : Rounds x k) (hl : Rounds y l) (h : x ≤ y) : k ≤ l := by
  by_contra hlt
  have hstep : (l : ℚ) + 1 ≤ k := by exact_mod_cast Nat.lt_of_not_le hlt
  obtain ⟨hkl, hku⟩ := abs_le.mp hk.1
  obtain ⟨hll, hlu⟩ := abs_le.mp hl.1
  have hkx : (k : ℚ) - x = 1 / 2 := by linarith
  have hly : (l : ℚ) - y = -(1 / 2) := by linarith
  have hnext : (k : ℚ) = l + 1 := by linarith
  have hkeven : k % 2 = 0 := hk.2 (by rw [hkx]; norm_num)
  have hleven : l % 2 = 0 := hl.2 (by rw [hly]; norm_num)
  have : k = l + 1 := by exact_mod_cast hnext
  omega

theorem unique (hk : Rounds x k) (hl : Rounds x l) : k = l :=
  Nat.le_antisymm (hk.mono hl le_rfl) (hl.mono hk le_rfl)

end Rounds

namespace Format

variable {f : Format} {num den num' den' : Nat} {e e' : Int} {q q' : ℚ}

/-- The quotient and the remainder of a division, as one amount. -/
theorem div_add_fraction (hden : 0 < den) :
    (num : ℚ) / den = (num / den : Nat) + (num % den : Nat) / (den : ℚ) := by
  have hd : (den : ℚ) ≠ 0 := by exact_mod_cast hden.ne'
  rw [div_eq_iff hd, add_mul, div_mul_cancel₀ _ hd]
  exact_mod_cast (Nat.div_add_mod' num den).symm

theorem rounds_roundQuotient (hden : 0 < den) : Rounds (num / den) (roundQuotient num den) := by
  have hd : (0 : ℚ) < den := by exact_mod_cast hden
  have hmod : ((num % den : Nat) : ℚ) < den := by exact_mod_cast Nat.mod_lt num hden
  have hnonneg : (0 : ℚ) ≤ (num % den : Nat) / (den : ℚ) := by positivity
  have hone : ((num % den : Nat) : ℚ) / den < 1 := (div_lt_one hd).mpr hmod
  rw [Rounds, div_add_fraction hden, roundQuotient]
  split
  next hlow =>
    have hhalf : ((num % den : Nat) : ℚ) / den < 1 / 2 := by
      rw [div_lt_div_iff₀ hd two_pos, one_mul, mul_comm]
      exact_mod_cast hlow
    rw [sub_add_cancel_left, abs_neg, abs_of_nonneg hnonneg]
    exact ⟨hhalf.le, fun h => absurd h hhalf.ne⟩
  next hlow =>
    split
    next hhigh =>
      have hhalf : 1 / 2 < ((num % den : Nat) : ℚ) / den := by
        rw [div_lt_div_iff₀ two_pos hd, one_mul, mul_comm]
        exact_mod_cast hhigh
      rw [Nat.cast_add_one, add_sub_add_left_eq_sub, abs_of_nonneg (by linarith)]
      exact ⟨by linarith, fun h => absurd h (by linarith)⟩
    next hhigh =>
      have htie : 2 * (num % den) = den := by omega
      have hhalf : ((num % den : Nat) : ℚ) / den = 1 / 2 := by
        rw [div_eq_div_iff hd.ne' two_ne_zero, one_mul, mul_comm]
        exact_mod_cast htie
      refine ⟨?_, fun _ => by omega⟩
      rw [hhalf, Nat.cast_add, add_sub_add_left_eq_sub, abs_le]
      have hodd : ((num / den % 2 : Nat) : ℚ) ≤ 1 := by
        exact_mod_cast Nat.le_of_lt_succ (Nat.mod_lt _ two_pos)
      exact ⟨by linarith [Nat.cast_nonneg (α := ℚ) (num / den % 2)], by linarith⟩

theorem inUnits_den_pos (hden : 0 < den) : 0 < (inUnits num den e).2 := by
  rw [inUnits]
  split
  · exact Nat.mul_pos hden (Nat.two_pow_pos _)
  · exact hden

theorem inUnits_eq : ((inUnits num den e).1 : ℚ) / (inUnits num den e).2 = num / den / 2 ^ e := by
  rw [inUnits]
  split
  next h =>
    obtain ⟨k, rfl⟩ := Int.eq_ofNat_of_zero_le h
    simp only [Int.toNat_natCast, Nat.pow_eq, zpow_natCast]
    push_cast
    rw [div_div]
  next h =>
    obtain ⟨k, rfl⟩ : ∃ k : Nat, e = -k := ⟨(-e).toNat, by omega⟩
    simp only [neg_neg, Int.toNat_natCast, Nat.pow_eq, zpow_neg, zpow_natCast, div_inv_eq_mul]
    push_cast
    rw [mul_div_right_comm]

/-- The unit `2 ^ e` in which an amount has just enough bits for the fraction, or the least unit. -/
structure Fills (f : Format) (q : ℚ) (e : Int) : Prop where
  least : f.leastExponent ≤ e
  below : q / 2 ^ e < 2 ^ (f.fraction + 1)
  above : e = f.leastExponent ∨ 2 ^ f.fraction ≤ q / 2 ^ e

/-- Larger amounts are not counted in smaller units. -/
theorem Fills.mono (he : f.Fills q e) (he' : f.Fills q' e') (h : q ≤ q') : e ≤ e' := by
  by_contra hlt
  have hleast := he'.least
  have habove : (2 : ℚ) ^ f.fraction ≤ q / 2 ^ e := he.above.resolve_left (by omega)
  rw [le_div_iff₀ (zpow_pos two_pos e)] at habove
  have hbelow := he'.below
  rw [div_lt_iff₀ (zpow_pos two_pos e')] at hbelow
  have hunit : 2 * (2 : ℚ) ^ e' ≤ 2 ^ e := by
    rw [← two_zpow_succ]
    exact zpow_le_zpow_right₀ one_le_two (by omega)
  have hfraction : (0 : ℚ) < 2 ^ f.fraction := by positivity
  have hscaled := mul_le_mul_of_nonneg_left hunit hfraction.le
  rw [pow_succ] at hbelow
  linarith

theorem zpow_log2_le (h : 0 < num) : (2 : ℚ) ^ (Nat.log2 num : Int) ≤ num := by
  rw [zpow_natCast]
  exact_mod_cast Nat.log2_self_le h.ne'

theorem lt_zpow_log2 (num : Nat) : (num : ℚ) < 2 ^ ((Nat.log2 num : Int) + 1) := by
  rw [← Nat.cast_one (R := Int), ← Nat.cast_add, zpow_natCast]
  exact_mod_cast Nat.lt_log2_self

/-- The lengths of numerator and denominator tell the length of a quotient but for one bit. -/
theorem quotient_bounds (hnum : 0 < num) (hden : 0 < den)
    (he : e = (Nat.log2 num : Int) - Nat.log2 den - 1 - f.fraction) :
    (2 : ℚ) ^ f.fraction ≤ num / den / 2 ^ e ∧ (num : ℚ) / den / 2 ^ e < 2 ^ (f.fraction + 2) := by
  have hd : (0 : ℚ) < den := by exact_mod_cast hden
  rw [le_div_iff₀ (zpow_pos two_pos e), le_div_iff₀ hd, div_lt_iff₀ (zpow_pos two_pos e),
    div_lt_iff₀ hd, ← zpow_natCast, ← zpow_natCast, ← zpow_add₀ two_ne_zero, ← zpow_add₀ two_ne_zero]
  constructor
  · calc (2 : ℚ) ^ ((f.fraction : Int) + e) * den
        ≤ 2 ^ ((f.fraction : Int) + e) * 2 ^ ((Nat.log2 den : Int) + 1) :=
          mul_le_mul_of_nonneg_left (lt_zpow_log2 den).le (zpow_pos two_pos _).le
      _ = 2 ^ (Nat.log2 num : Int) := by
          rw [← zpow_add₀ two_ne_zero, he]
          congr 1
          omega
      _ ≤ num := zpow_log2_le hnum
  · calc (num : ℚ) < 2 ^ ((Nat.log2 num : Int) + 1) := lt_zpow_log2 num
      _ = 2 ^ (((f.fraction + 2 : Nat) : Int) + e) * 2 ^ (Nat.log2 den : Int) := by
          rw [← zpow_add₀ two_ne_zero, he]
          congr 1
          push_cast
          omega
      _ ≤ 2 ^ (((f.fraction + 2 : Nat) : Int) + e) * den :=
          mul_le_mul_of_nonneg_left (zpow_log2_le hden) (zpow_pos two_pos _).le

theorem div_zpow_succ (q : ℚ) (e : Int) : q / 2 ^ (e + 1) = q / 2 ^ e / 2 := by
  rw [two_zpow_succ, mul_comm, div_div]

/-- The exponent before it is kept from falling below the least one. -/
theorem exists_exponent (f : Format) (hnum : 0 < num) (hden : 0 < den) : ∃ exponent,
    f.unitExponent num den = max f.leastExponent exponent ∧
    (2 : ℚ) ^ f.fraction ≤ num / den / 2 ^ exponent ∧
    (num : ℚ) / den / 2 ^ exponent < 2 ^ (f.fraction + 1) := by
  obtain ⟨guess, hguess⟩ :
      ∃ guess : Int, guess = (Nat.log2 num : Int) - Nat.log2 den - 1 - f.fraction := ⟨_, rfl⟩
  obtain ⟨hlow, hhigh⟩ := quotient_bounds hnum hden hguess
  have hd : 0 < (inUnits num den guess).2 := inUnits_den_pos hden
  have hcount : Nat.pow 2 (f.fraction + 1) ≤
      (inUnits num den guess).1 / (inUnits num den guess).2 ↔
        (2 : ℚ) ^ (f.fraction + 1) ≤ num / den / 2 ^ guess := by
    rw [Nat.le_div_iff_mul_le hd, ← inUnits_eq, le_div_iff₀ (by exact_mod_cast hd)]
    norm_cast
  have hchosen : f.unitExponent num den = max f.leastExponent
      (if Nat.pow 2 (f.fraction + 1) ≤ (inUnits num den guess).1 / (inUnits num den guess).2
        then guess + 1 else guess) := by
    rw [hguess]
    rfl
  by_cases h : (2 : ℚ) ^ (f.fraction + 1) ≤ num / den / 2 ^ guess
  · refine ⟨guess + 1, by rw [hchosen, if_pos (hcount.mpr h)], ?_⟩
    rw [pow_succ] at h
    rw [pow_add] at hhigh
    rw [div_zpow_succ, pow_succ]
    constructor <;> linarith
  · exact ⟨guess, by rw [hchosen, if_neg (mt hcount.mp h)], hlow, not_le.mp h⟩

/-- The unit is chosen so that the bits fill the fraction. -/
theorem fills_unitExponent (f : Format) (hnum : 0 < num) (hden : 0 < den) :
    f.Fills (num / den) (f.unitExponent num den) := by
  obtain ⟨exponent, hchosen, habove, hbelow⟩ := f.exists_exponent hnum hden
  rw [hchosen]
  rcases le_total f.leastExponent exponent with h | h
  · rw [max_eq_right h]
    exact ⟨h, hbelow, .inr habove⟩
  · rw [max_eq_left h]
    refine ⟨le_rfl, lt_of_le_of_lt ?_ hbelow, .inl rfl⟩
    exact div_le_div_of_nonneg_left (by positivity) (zpow_pos two_pos _)
      (zpow_le_zpow_right₀ one_le_two h)

/-- A rounded amount is a whole number of the units that it fills. -/
theorem nearest_eq (f : Format) (hnum : 0 < num) (hden : 0 < den) : ∃ e k,
    f.Fills (num / den) e ∧ Rounds (num / den / 2 ^ e) k ∧
      f.nearest num den = min f.infinity ((e - f.leastExponent).toNat * 2 ^ f.fraction + k) := by
  refine ⟨_, _, f.fills_unitExponent hnum hden, ?_, if_neg hnum.ne'⟩
  rw [← inUnits_eq]
  exact rounds_roundQuotient (inUnits_den_pos hden)

/-- What a unit that is filled counts fits below the next unit. -/
theorem Fills.body_mono {k k' : Nat} (he : f.Fills q e) (he' : f.Fills q' e')
    (hk : Rounds (q / 2 ^ e) k) (hk' : Rounds (q' / 2 ^ e') k') (h : q ≤ q') :
    (e - f.leastExponent).toNat * 2 ^ f.fraction + k ≤
      (e' - f.leastExponent).toNat * 2 ^ f.fraction + k' := by
  rcases (he.mono he' h).eq_or_lt with rfl | hlt
  · exact Nat.add_le_add_left (hk.mono hk' (div_le_div_of_nonneg_right h (zpow_pos two_pos _).le)) _
  · have hleast := he.least
    have hfull : k ≤ 2 ^ (f.fraction + 1) :=
      hk.mono (.natCast _) (by exact_mod_cast he.below.le)
    have hhalf : 2 ^ f.fraction ≤ k' :=
      Rounds.mono (.natCast _) hk' (by exact_mod_cast he'.above.resolve_left (by omega))
    have hstep : (e - f.leastExponent).toNat + 1 ≤ (e' - f.leastExponent).toNat := by omega
    have hunits := Nat.mul_le_mul_right (2 ^ f.fraction) hstep
    rw [Nat.succ_mul] at hunits
    rw [Nat.pow_succ] at hfull
    omega

/-- Rounding keeps the order of amounts. -/
theorem nearest_mono (hden : 0 < den) (hden' : 0 < den') (h : (num : ℚ) / den ≤ num' / den') :
    f.nearest num den ≤ f.nearest num' den' := by
  rcases num.eq_zero_or_pos with rfl | hnum
  · simp [nearest]
  have hnum' : 0 < num' := by
    have hq : (0 : ℚ) < num / den := by positivity
    have hpos : (0 : ℚ) < num' := by
      by_contra hzero
      rw [not_lt] at hzero
      have hle : (num' : ℚ) / den' ≤ 0 := div_nonpos_of_nonpos_of_nonneg hzero (by positivity)
      linarith
    exact_mod_cast hpos
  obtain ⟨e, k, he, hk, hbody⟩ := f.nearest_eq hnum hden
  obtain ⟨e', k', he', hk', hbody'⟩ := f.nearest_eq hnum' hden'
  rw [hbody, hbody']
  exact min_le_min_left _ (he.body_mono he' hk hk' h)

/-- The amount that a pattern made of a unit and a count of it stands for. -/
theorem amount_count {k : Nat} (hleast : f.leastExponent ≤ e) (hfit : k < 2 ^ (f.fraction + 1))
    (hfull : e = f.leastExponent ∨ 2 ^ f.fraction ≤ k) :
    f.amount ((e - f.leastExponent).toNat * 2 ^ f.fraction + k) = k * (2 : ℚ) ^ e := by
  rw [Nat.pow_succ] at hfit
  by_cases hk : 2 ^ f.fraction ≤ k
  · have hbody : (e - f.leastExponent).toNat * 2 ^ f.fraction + k =
        2 ^ f.fraction * ((e - f.leastExponent).toNat + 1) + (k - 2 ^ f.fraction) := by
      rw [Nat.mul_succ, Nat.mul_comm]
      omega
    have hscale : f.leastExponent + (((e - f.leastExponent).toNat + 1 : Nat) - 1 : Int) = e := by
      omega
    rw [hbody, amount, units_fields (by omega), scale_fields (by omega), if_neg (Nat.succ_ne_zero _),
      if_neg (Nat.succ_ne_zero _), hscale, Nat.add_sub_cancel' hk]
  · obtain rfl := hfull.resolve_right hk
    have hbody : (f.leastExponent - f.leastExponent).toNat * 2 ^ f.fraction + k =
        2 ^ f.fraction * 0 + k := by
      simp
    rw [hbody, amount, units_fields (by omega), scale_fields (by omega), if_pos rfl, if_pos rfl]

/-- An integer that the fraction has bits for is a whole number of its units. -/
theorem exists_count {n : Nat} (hf : f.leastExponent ≤ 0) (hn : n ≤ 2 ^ (f.fraction + 1))
    (he : f.Fills n e) : e ≤ 1 ∧ ∃ k : Nat, (n : ℚ) / 2 ^ e = k := by
  rcases le_or_gt e 0 with hneg | hpos
  · obtain ⟨j, rfl⟩ : ∃ j : Nat, e = -j := ⟨(-e).toNat, by omega⟩
    refine ⟨by omega, n * 2 ^ j, ?_⟩
    rw [zpow_neg, zpow_natCast, div_inv_eq_mul]
    push_cast
    rfl
  · have habove := he.above.resolve_left (by omega)
    rw [le_div_iff₀ (zpow_pos two_pos e)] at habove
    have hcast : (n : ℚ) ≤ 2 ^ f.fraction * 2 := by exact_mod_cast hn
    have hfraction : (0 : ℚ) < 2 ^ f.fraction := by positivity
    have hunit : (2 : ℚ) ^ e ≤ 2 ^ (1 : Int) := by
      rw [zpow_one]
      exact le_of_mul_le_mul_left (habove.trans hcast) hfraction
    have hone : e = 1 := by
      have := (zpow_le_zpow_iff_right₀ one_lt_two).mp hunit
      omega
    subst hone
    rw [zpow_one] at habove ⊢
    refine ⟨le_rfl, 2 ^ f.fraction, ?_⟩
    rw [div_eq_iff two_ne_zero]
    push_cast
    exact le_antisymm hcast habove

/-- Doubles hold the integers of up to 53 bits exactly. -/
theorem amount_nearest {n : Nat} (h : n ≤ 2 ^ 53) :
    double.amount (double.nearest n 1) = n := by
  rcases n.eq_zero_or_pos with rfl | hpos
  · simp [nearest, amount, units_zero]
  obtain ⟨e, k, he, hk, hbody⟩ := double.nearest_eq hpos Nat.one_pos
  rw [Nat.cast_one, div_one] at he hk
  obtain ⟨hone, count, hcount⟩ := exists_count (by decide) h he
  rw [hcount] at hk
  obtain rfl : k = count := hk.unique (.natCast _)
  have hbelow := he.below
  have habove := he.above
  rw [hcount] at hbelow habove
  have hfit : k < 2 ^ 53 := by exact_mod_cast hbelow
  have hroom : (e - double.leastExponent).toNat * 2 ^ double.fraction + k ≤ double.infinity := by
    have hleast : double.leastExponent = -1074 := rfl
    have hinfinity : double.infinity = 2047 * 2 ^ 52 := rfl
    have hfraction : double.fraction = 52 := rfl
    rw [hleast, hinfinity, hfraction]
    omega
  rw [hbody, Nat.min_eq_right hroom,
    amount_count he.least hfit (habove.imp_right fun h => by exact_mod_cast h), ← hcount,
    div_mul_cancel₀ _ (zpow_pos two_pos e).ne']

end Format

namespace Binary

open Format

variable {f : Format} {m n : Int}

theorem rank_signed {negative : Bool} {body : Nat} (h : body < f.signWeight) :
    (signed negative body : Binary f).rank = if negative then -(body : Int) else body := by
  rw [rank, signBit_signed h, body_signed h, pattern_signed h]
  cases negative with
  | true => rfl
  | false => rfl

theorem rank_ofInt (n : Int) : (ofInt n : Binary f).rank =
    if n < 0 then -(f.nearest n.natAbs 1 : Int) else f.nearest n.natAbs 1 := by
  rw [ofInt, ofQuotient, rank_signed (Nat.lt_of_le_of_lt (nearest_le_infinity _ _)
    infinity_lt_signWeight)]
  simp only [decide_eq_true_eq]

/-- An integer has a nearest number. -/
theorem isNaN_ofInt (n : Int) : (ofInt n : Binary f).isNaN = false :=
  isNaN_signed (nearest_le_infinity _ _)

/-- Rounding integers keeps their order. -/
theorem rank_ofInt_mono (h : m ≤ n) : (ofInt m : Binary f).rank ≤ (ofInt n : Binary f).rank := by
  have hnearest : ∀ {i j : Int}, i.natAbs ≤ j.natAbs →
      f.nearest i.natAbs 1 ≤ f.nearest j.natAbs 1 := by
    intro i j hij
    refine nearest_mono Nat.one_pos Nat.one_pos (div_le_div_of_nonneg_right ?_ (by norm_num))
    exact_mod_cast hij
  rw [rank_ofInt, rank_ofInt]
  split
  next hm =>
    split
    next hn =>
      have := hnearest (show n.natAbs ≤ m.natAbs by omega)
      omega
    next hn => omega
  next hm =>
    have := hnearest (show m.natAbs ≤ n.natAbs by omega)
    rw [if_neg (by omega)]
    omega

/-- Integers of up to 53 bits stay apart as doubles. -/
theorem rank_ofInt_inj (hm : m.natAbs ≤ 2 ^ 53) (hn : n.natAbs ≤ 2 ^ 53)
    (h : (ofInt m : Double).rank = (ofInt n : Double).rank) : m = n := by
  rw [rank_ofInt, rank_ofInt] at h
  have hamount : ∀ {i j : Int}, i.natAbs ≤ 2 ^ 53 → j.natAbs ≤ 2 ^ 53 →
      double.nearest i.natAbs 1 = double.nearest j.natAbs 1 → i.natAbs = j.natAbs := by
    intro i j hi hj heq
    have hcast : (i.natAbs : ℚ) = j.natAbs := by
      rw [← amount_nearest hi, ← amount_nearest hj, heq]
    exact_mod_cast hcast
  have hsame : double.nearest m.natAbs 1 = double.nearest n.natAbs 1 := by
    split at h <;> split at h <;> omega
  have habs := hamount hm hn hsame
  -- Of two numbers of opposite signs at one rank, both would be zero.
  by_cases hsign : m < 0 ↔ n < 0
  · omega
  · have hzero : double.nearest m.natAbs 1 = double.nearest (0 : Int).natAbs 1 := by
      change double.nearest m.natAbs 1 = 0
      split at h <;> split at h <;> omega
    have := hamount hm (by decide) hzero
    omega

end Binary

end FlowPlan
