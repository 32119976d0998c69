import FlowPlan.Number.Shortest
import FlowPlan.Proofs.Spacing

namespace FlowPlan

namespace Neighbourhood

variable {b : Neighbourhood} {n : Nat} {e : Int}

/-- The unit that the ends of a neighbourhood are counted in. -/
def unit (b : Neighbourhood) : ℚ := b.num / b.den

/-- Whether an exact amount belongs to the neighbourhood. -/
def Contains (b : Neighbourhood) (q : ℚ) : Prop :=
  if b.closed then b.low * b.unit ≤ q ∧ q ≤ b.high * b.unit
  else b.low * b.unit < q ∧ q < b.high * b.unit

theorem unit_mul_den (hden : 0 < b.den) : b.unit * b.den = b.num :=
  div_mul_cancel₀ _ (by exact_mod_cast hden.ne')

theorem contains_of_lt {q : ℚ} (hlow : b.low * b.unit < q) (hhigh : q < b.high * b.unit) :
    b.Contains q := by
  rw [Contains]
  split
  · exact ⟨hlow.le, hhigh.le⟩
  · exact ⟨hlow, hhigh⟩

theorem low_le_of_contains {q : ℚ} (h : b.Contains q) : b.low * b.unit ≤ q := by
  rw [Contains] at h
  split at h
  · exact h.1
  · exact h.1.le

theorem le_high_of_contains {q : ℚ} (h : b.Contains q) : q ≤ b.high * b.unit := by
  rw [Contains] at h
  split at h
  · exact h.2
  · exact h.2.le

theorem ten_zpow_of_nonneg (h : 0 ≤ e) : (10 : ℚ) ^ e = 10 ^ e.toNat := by
  obtain ⟨k, rfl⟩ := Int.eq_ofNat_of_zero_le h
  simp

theorem ten_zpow_of_neg (h : ¬0 ≤ e) : (10 : ℚ) ^ e * 10 ^ (-e).toNat = 1 := by
  obtain ⟨k, rfl⟩ : ∃ k : Nat, e = -k := ⟨(-e).toNat, by omega⟩
  simp

/-- The whole numbers that `holds` compares are amounts, all made larger by one factor. -/
theorem holds_iff (hden : 0 < b.den) : b.holds n e = true ↔ b.Contains (n * (10 : ℚ) ^ e) := by
  obtain ⟨left, scale, factor, hfactor, hleft, hscale, hholds⟩ :
      ∃ left scale : Nat, ∃ factor : ℚ, 0 < factor ∧ (left : ℚ) = n * (10 : ℚ) ^ e * factor ∧
        (scale : ℚ) = b.unit * factor ∧ b.holds n e =
          if b.closed then decide (b.low * scale ≤ left) && decide (left ≤ b.high * scale)
          else decide (b.low * scale < left) && decide (left < b.high * scale) := by
    have hd : (0 : ℚ) < b.den := by exact_mod_cast hden
    by_cases h : 0 ≤ e
    · refine ⟨n * 10 ^ e.toNat * b.den, b.num, b.den, hd, ?_, ?_, ?_⟩
      · rw [ten_zpow_of_nonneg h]
        push_cast
        ring
      · rw [unit_mul_den hden]
      · simp only [holds, h, ↓reduceIte, Nat.pow_eq]
    · refine ⟨n * b.den, b.num * 10 ^ (-e).toNat, b.den * 10 ^ (-e).toNat, by positivity, ?_, ?_, ?_⟩
      · calc ((n * b.den : Nat) : ℚ) = n * b.den * 1 := by push_cast; ring
          _ = n * b.den * ((10 : ℚ) ^ e * 10 ^ (-e).toNat) := by rw [ten_zpow_of_neg h]
          _ = n * (10 : ℚ) ^ e * (b.den * 10 ^ (-e).toNat) := by ring
      · rw [← mul_assoc, unit_mul_den hden]
        push_cast
        ring
      · simp only [holds, h, ↓reduceIte, Nat.pow_eq]
  have hle : ∀ k : Nat, k * scale ≤ left ↔ k * b.unit ≤ n * (10 : ℚ) ^ e := by
    intro k
    rw [← Nat.cast_le (α := ℚ), Nat.cast_mul, hleft, hscale, ← mul_assoc,
      mul_le_mul_iff_left₀ hfactor]
  have hge : ∀ k : Nat, left ≤ k * scale ↔ n * (10 : ℚ) ^ e ≤ k * b.unit := by
    intro k
    rw [← Nat.cast_le (α := ℚ), Nat.cast_mul, hleft, hscale, ← mul_assoc,
      mul_le_mul_iff_left₀ hfactor]
  rw [hholds, Contains]
  split
  · rw [Bool.and_eq_true, decide_eq_true_iff, decide_eq_true_iff, hle, hge]
  · rw [Bool.and_eq_true, decide_eq_true_iff, decide_eq_true_iff, ← not_le, hge, ← not_le, hle,
      not_le, not_le]

/-- The amount lies between the whole count that `place` gives and the next one. -/
theorem place_bounds (hden : 0 < b.den) : (b.place e).1 * (10 : ℚ) ^ e ≤ b.exact * b.unit ∧
    b.exact * b.unit < ((b.place e).1 + 1 : Nat) * (10 : ℚ) ^ e := by
  obtain ⟨top, unit, factor, hfactor, htop, hunit, hplace⟩ :
      ∃ top unit : Nat, ∃ factor : ℚ, 0 < factor ∧ (top : ℚ) = b.exact * b.unit * factor ∧
        (unit : ℚ) = (10 : ℚ) ^ e * factor ∧ (b.place e).1 = top / unit := by
    have hd : (0 : ℚ) < b.den := by exact_mod_cast hden
    by_cases h : 0 ≤ e
    · refine ⟨b.exact * b.num, b.den * 10 ^ e.toNat, b.den, hd, ?_, ?_, ?_⟩
      · rw [mul_assoc (b.exact : ℚ), unit_mul_den hden]
        push_cast
        ring
      · rw [ten_zpow_of_nonneg h]
        push_cast
        ring
      · simp only [place, h, ↓reduceIte, Nat.pow_eq]
    · refine ⟨b.exact * b.num * 10 ^ (-e).toNat, b.den, b.den * 10 ^ (-e).toNat, by positivity, ?_, ?_,
        ?_⟩
      · rw [mul_assoc (b.exact : ℚ), ← mul_assoc b.unit, unit_mul_den hden]
        push_cast
        ring
      · calc (b.den : ℚ) = b.den * ((10 : ℚ) ^ e * 10 ^ (-e).toNat) := by
              rw [ten_zpow_of_neg h, mul_one]
          _ = (10 : ℚ) ^ e * (b.den * 10 ^ (-e).toNat) := by ring
      · simp only [place, h, ↓reduceIte, Nat.pow_eq]
  have hten : (0 : ℚ) < (10 : ℚ) ^ e := zpow_pos (by norm_num) e
  have hpos : 0 < unit := by
    have hcast : (0 : ℚ) < unit := by
      rw [hunit]
      exact mul_pos hten hfactor
    exact_mod_cast hcast
  rw [hplace]
  constructor
  · have hle : ((top / unit : Nat) : ℚ) * unit ≤ top := by exact_mod_cast Nat.div_mul_le_self top unit
    rw [htop, hunit, ← mul_assoc] at hle
    exact le_of_mul_le_mul_right hle hfactor
  · have hlt : (top : ℚ) < ((top / unit + 1 : Nat) : ℚ) * unit := by
      exact_mod_cast (Nat.div_lt_iff_lt_mul hpos).mp (Nat.lt_succ_self (top / unit))
    rw [htop, hunit, ← mul_assoc] at hlt
    exact lt_of_mul_lt_mul_right hlt hfactor.le

/-- What is taken from a grid reads back. -/
theorem holds_of_onGrid {tie : Tie} (h : b.onGrid? tie e = some n) : b.holds n e = true := by
  simp only [onGrid?] at h
  split at h
  · next hboth =>
    rw [Bool.and_eq_true] at hboth
    have heither : ∀ upper : Bool,
        b.holds (if upper then (b.place e).1 + 1 else (b.place e).1) e = true := by
      intro upper
      cases upper with
      | true => exact hboth.2
      | false => exact hboth.1
    obtain rfl := Option.some.inj h
    exact heither _
  · split at h
    · next hlower =>
      obtain rfl := Option.some.inj h
      exact hlower
    · split at h
      · next hupper =>
        obtain rfl := Option.some.inj h
        exact hupper
      · contradiction

/-- A grid is passed over only when the count above the amount does not read back. -/
theorem onGrid_ne_none {tie : Tie} (h : b.holds ((b.place e).1 + 1) e = true) :
    b.onGrid? tie e ≠ none := by
  simp only [onGrid?, h]
  split <;> simp
  split <;> simp

/-- A search that passes a grid with a count on it finds digits that read back. -/
theorem search_holds {tie : Tie} {leading : Int} (last : Nat)
    (hlast : b.onGrid? tie (leading - last) ≠ none) (fuel count : Nat) (hcount : count ≤ last)
    (hfuel : last < count + fuel) :
    b.holds (b.search tie leading count fuel).digits (b.search tie leading count fuel).exponent =
      true := by
  induction fuel generalizing count with
  | zero => omega
  | succ fuel ih =>
    rw [search]
    cases hgrid : b.onGrid? tie (leading - count) with
    | some n => exact holds_of_onGrid hgrid
    | none =>
      have hne : count ≠ last := by
        rintro rfl
        exact hlast hgrid
      exact ih (count + 1) (by omega) (by omega)

theorem ten_pow_le_of_pos (h : 0 < n) : 10 ^ ((Nat.toDigits 10 n).length - 1) ≤ n := by
  by_cases hone : (Nat.toDigits 10 n).length - 1 = 0
  · rw [hone]
    exact h
  · by_contra hlt
    have hle := (Nat.length_toDigits_le_iff (by decide) (Nat.pos_of_ne_zero hone)).mpr
      (Nat.lt_of_not_le hlt)
    omega

theorem lt_ten_pow (n : Nat) : n < 10 ^ (Nat.toDigits 10 n).length :=
  (Nat.length_toDigits_le_iff (by decide) Nat.length_toDigits_pos).mp (Nat.le_refl _)

/-- The leading digit stands for no more than the amount. -/
theorem leading_le (hden : 0 < b.den) (hnum : 0 < b.num) (hexact : 0 < b.exact) :
    (10 : ℚ) ^ b.leading ≤ b.exact * b.unit := by
  have hd : (0 : ℚ) < b.den := by exact_mod_cast hden
  have hamount : b.exact * b.unit = ((b.exact * b.num : Nat) : ℚ) / b.den := by
    rw [Neighbourhood.unit, ← mul_div_assoc, Nat.cast_mul]
  have hsmall : ∀ k : Nat, b.den ≤ b.exact * b.num * 10 ^ k →
      (10 : ℚ) ^ (-(k : Int)) ≤ ((b.exact * b.num : Nat) : ℚ) / b.den := by
    intro k h
    have hcast : (b.den : ℚ) ≤ ((b.exact * b.num : Nat) : ℚ) * 10 ^ k := by exact_mod_cast h
    rw [zpow_neg, zpow_natCast, le_div_iff₀ hd, inv_mul_le_iff₀ (by positivity), mul_comm]
    exact hcast
  rw [leading, hamount]
  dsimp only
  split
  · next hle =>
    have hq : 10 ^ ((Nat.toDigits 10 (b.exact * b.num / b.den)).length - 1) * b.den ≤
        b.exact * b.num := by
      refine Nat.le_trans (Nat.mul_le_mul_right _ (ten_pow_le_of_pos ?_)) (Nat.div_mul_le_self _ _)
      exact Nat.div_pos hle hden
    have hlength := Nat.length_toDigits_pos (b := 10) (n := b.exact * b.num / b.den)
    rw [← Nat.cast_one, ← Nat.cast_sub hlength, zpow_natCast, le_div_iff₀ hd]
    exact_mod_cast hq
  · split
    · next hle => exact hsmall _ hle
    · refine hsmall _ ?_
      have hlt := lt_ten_pow (b.den / (b.exact * b.num))
      rw [Nat.div_lt_iff_lt_mul (Nat.mul_pos hexact hnum), Nat.mul_comm] at hlt
      exact hlt.le

section Of

variable (f : Format) (magnitude : Nat) (exponent : Int)

theorem den_of : 0 < (of f magnitude exponent).den := by
  simp only [of]
  split
  · exact Nat.one_pos
  · exact Nat.two_pow_pos _

theorem num_of : 0 < (of f magnitude exponent).num := by
  simp only [of]
  split
  · exact Nat.two_pow_pos _
  · exact Nat.one_pos

/-- The ends are counted in quarters of a unit. -/
theorem unit_of : (of f magnitude exponent).unit = (2 : ℚ) ^ exponent / 4 := by
  have hquarter : (2 : ℚ) ^ exponent / 4 = (2 : ℚ) ^ (exponent - 2) := by
    rw [zpow_sub₀ two_ne_zero]
    norm_num
  rw [hquarter, unit, of]
  dsimp only
  split
  · next h =>
    obtain ⟨k, hk⟩ := Int.eq_ofNat_of_zero_le (show 0 ≤ exponent - 2 by omega)
    simp [hk, Nat.pow_eq]
  · next h =>
    obtain ⟨k, hk⟩ := Int.eq_ofNat_of_zero_le (show 0 ≤ 2 - exponent by omega)
    have hneg : exponent - 2 = -(k : Int) := by omega
    simp [hk, hneg, Nat.pow_eq]

theorem exact_of : (of f magnitude exponent).exact * (of f magnitude exponent).unit =
    magnitude * (2 : ℚ) ^ exponent := by
  rw [unit_of]
  simp only [of]
  push_cast
  ring

theorem high_of : (of f magnitude exponent).high * (of f magnitude exponent).unit =
    magnitude * (2 : ℚ) ^ exponent + (2 : ℚ) ^ exponent / 2 := by
  rw [unit_of]
  simp only [of]
  push_cast
  ring

theorem low_of (h : 0 < magnitude) : (of f magnitude exponent).low * (of f magnitude exponent).unit =
    magnitude * (2 : ℚ) ^ exponent -
      (if magnitude = 2 ^ f.fraction then 1 else 2) / 4 * (2 : ℚ) ^ exponent := by
  rw [unit_of]
  simp only [of, Nat.pow_eq]
  split
  · rw [Nat.cast_sub (by omega)]
    push_cast
    ring
  · rw [Nat.cast_sub (by omega)]
    push_cast
    ring

end Of

end Neighbourhood

namespace Format

open Neighbourhood

variable {f : Format} {body other : Nat} {q : ℚ}

/-- The neighbourhood of an unsigned finite pattern. -/
def neighbourhood (f : Format) (body : Nat) : Neighbourhood := .of f (f.units body) (f.scale body)

theorem exact_neighbourhood (f : Format) (body : Nat) :
    (f.neighbourhood body).exact * (f.neighbourhood body).unit = f.amount body := exact_of ..

theorem high_neighbourhood (f : Format) (body : Nat) :
    (f.neighbourhood body).high * (f.neighbourhood body).unit = f.midpoint body := high_of ..

theorem closed_neighbourhood (hf : 0 < f.fraction) :
    (f.neighbourhood body).closed = decide (body % 2 = 0) := by
  rw [← units_mod_two hf]
  rfl

theorem midpoint_le_low (f : Format) (body : Nat) : f.midpoint body ≤
    (f.neighbourhood (body + 1)).low * (f.neighbourhood (body + 1)).unit := by
  rw [neighbourhood, low_of _ _ _ (units_pos body.succ_pos)]
  exact f.midpoint_le body

theorem pos_of_contains (h : 0 < body) (hq : (f.neighbourhood body).Contains q) : 0 < q := by
  obtain ⟨next, rfl⟩ := Nat.exists_eq_add_one_of_ne_zero h.ne'
  exact (f.midpoint_pos next).trans_le ((f.midpoint_le_low next).trans (low_le_of_contains hq))

theorem low_lt_amount (h : 0 < body) :
    (f.neighbourhood body).low * (f.neighbourhood body).unit < f.amount body := by
  have hp : (0 : ℚ) < 2 ^ f.scale body := zpow_pos two_pos _
  rw [neighbourhood, low_of _ _ _ (units_pos h), amount]
  split <;> linarith

/-- No amount lies near to two numbers. Where two neighbourhoods touch, one of the patterns is odd
and gives the end to the other. -/
theorem not_contains_of_lt (hf : 0 < f.fraction) (hlt : body < other)
    (hq : (f.neighbourhood body).Contains q) : ¬(f.neighbourhood other).Contains q := by
  intro hother
  obtain ⟨next, rfl⟩ := Nat.exists_eq_add_one_of_ne_zero (Nat.ne_of_gt (Nat.zero_lt_of_lt hlt))
  have hhigh : q ≤ f.midpoint body := by
    rw [← high_neighbourhood]
    exact le_high_of_contains hq
  have hlow : f.midpoint next ≤ q := (f.midpoint_le_low next).trans (low_le_of_contains hother)
  have hnext : next ≤ body := f.midpoint_strictMono.le_iff_le.mp (hlow.trans hhigh)
  obtain rfl : next = body := by omega
  rw [Contains, closed_neighbourhood hf, high_neighbourhood] at hq
  rw [Contains, closed_neighbourhood hf] at hother
  have hedge := f.midpoint_le_low next
  by_cases heven : next % 2 = 0
  · have hodd : ¬(next + 1) % 2 = 0 := by omega
    simp only [hodd, decide_false, Bool.false_eq_true, ↓reduceIte] at hother
    linarith [hother.1]
  · simp only [heven, decide_false, Bool.false_eq_true, ↓reduceIte] at hq
    linarith [hq.2]

theorem contains_unique (hf : 0 < f.fraction) (hbody : (f.neighbourhood body).Contains q)
    (hother : (f.neighbourhood other).Contains q) : body = other := by
  rcases Nat.lt_trichotomy body other with h | h | h
  · exact absurd hother (not_contains_of_lt hf h hbody)
  · exact h
  · exact absurd hbody (not_contains_of_lt hf h hother)

/-- Seventeen digits are enough: counts of the last of them lie closer than the number and the
end of its neighbourhood. -/
theorem holds_seventeen (hf : f.fraction ≤ 54) (h : 0 < body) {e : Int}
    (he : e = (f.neighbourhood body).leading - 17) :
    (f.neighbourhood body).holds (((f.neighbourhood body).place e).1 + 1) e = true := by
  have hden : 0 < (f.neighbourhood body).den := den_of ..
  have hplace := place_bounds (e := e) hden
  have hleading := leading_le hden (num_of ..) (Nat.mul_pos (by decide) (units_pos h))
  rw [exact_neighbourhood] at hplace hleading
  have hunits : (f.units body : ℚ) < 2 ^ 55 := by
    have hlt := Nat.lt_of_lt_of_le (f.units_lt body)
      (Nat.pow_le_pow_right two_pos (show f.fraction + 1 ≤ 55 by omega))
    exact_mod_cast hlt
  have hgrid : (10 : ℚ) ^ e < (2 : ℚ) ^ f.scale body / 2 := by
    have hten : (10 : ℚ) ^ e * 10 ^ 17 = (10 : ℚ) ^ (f.neighbourhood body).leading := by
      rw [he, ← zpow_natCast, ← zpow_add₀ (by norm_num)]
      norm_num
    have hamount : f.amount body < 2 ^ 55 * (2 : ℚ) ^ f.scale body :=
      mul_lt_mul_of_pos_right hunits (zpow_pos two_pos _)
    have hscale : (0 : ℚ) < 2 ^ f.scale body := zpow_pos two_pos _
    rw [← hten] at hleading
    norm_num at hleading hamount
    linarith
  rw [holds_iff hden]
  apply contains_of_lt
  · exact (low_lt_amount h).trans hplace.2
  · rw [high_neighbourhood, midpoint]
    push_cast
    linarith [hplace.1]

/-- The digits found for a positive finite number read back as that number. -/
theorem contains_shortest (hf : f.fraction ≤ 54) (h : 0 < body) (tie : Tie) :
    (f.neighbourhood body).Contains ((f.shortest tie (f.units body) (f.scale body)).digits *
      (10 : ℚ) ^ (f.shortest tie (f.units body) (f.scale body)).exponent) := by
  have hden : 0 < (f.neighbourhood body).den := den_of ..
  rw [← holds_iff hden]
  refine search_holds 17 ?_ 20 0 (by decide) (by decide)
  exact onGrid_ne_none (holds_seventeen hf h rfl)

end Format

end FlowPlan
