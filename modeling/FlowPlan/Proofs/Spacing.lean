import FlowPlan.Proofs.Pattern

namespace FlowPlan

namespace Format

variable {f : Format} {body other : Nat}

/-- How many units an unsigned finite pattern stands for. -/
def units (f : Format) (body : Nat) : Nat :=
  if body / 2 ^ f.fraction = 0 then body % 2 ^ f.fraction
  else 2 ^ f.fraction + body % 2 ^ f.fraction

/-- The exponent of two of those units. -/
def scale (f : Format) (body : Nat) : Int :=
  if body / 2 ^ f.fraction = 0 then f.leastExponent
  else f.leastExponent + ((body / 2 ^ f.fraction : Nat) - 1)

/-- The exact amount that an unsigned finite pattern stands for. -/
def amount (f : Format) (body : Nat) : ℚ := f.units body * (2 : ℚ) ^ f.scale body

/-- The amount halfway to the next pattern. -/
def midpoint (f : Format) (body : Nat) : ℚ := f.amount body + (2 : ℚ) ^ f.scale body / 2

theorem two_zpow_succ (e : Int) : (2 : ℚ) ^ (e + 1) = 2 * (2 : ℚ) ^ e := by
  rw [zpow_add_one₀ two_ne_zero, mul_comm]

/-- The fields of a pattern. -/
theorem exists_fields (f : Format) (body : Nat) :
    ∃ stored fraction, fraction < 2 ^ f.fraction ∧ body = 2 ^ f.fraction * stored + fraction :=
  ⟨_, _, Nat.mod_lt _ (Nat.two_pow_pos _), (Nat.div_add_mod _ _).symm⟩

section Fields

variable {stored fraction : Nat} (h : fraction < 2 ^ f.fraction)
include h

theorem stored_fields : (2 ^ f.fraction * stored + fraction) / 2 ^ f.fraction = stored := by
  rw [Nat.mul_add_div (Nat.two_pow_pos _), Nat.div_eq_of_lt h, Nat.add_zero]

theorem units_fields : f.units (2 ^ f.fraction * stored + fraction) =
    if stored = 0 then fraction else 2 ^ f.fraction + fraction := by
  rw [units, stored_fields h, Nat.mul_add_mod, Nat.mod_eq_of_lt h]

theorem scale_fields : f.scale (2 ^ f.fraction * stored + fraction) =
    if stored = 0 then f.leastExponent else f.leastExponent + ((stored : Int) - 1) := by
  rw [scale, stored_fields h]

end Fields

/-- The pattern after a full fraction has an empty one and the next stored exponent. -/
theorem carry {stored fraction : Nat} (h : fraction + 1 = 2 ^ f.fraction) :
    2 ^ f.fraction * stored + fraction + 1 = 2 ^ f.fraction * (stored + 1) + 0 := by
  rw [Nat.mul_succ]
  omega

/-- One step in the patterns is one unit in the amounts. -/
theorem amount_succ (f : Format) (body : Nat) :
    f.amount (body + 1) = f.amount body + (2 : ℚ) ^ f.scale body := by
  obtain ⟨stored, fraction, h, rfl⟩ := f.exists_fields body
  by_cases hfull : fraction + 1 = 2 ^ f.fraction
  · have hcast : (2 : ℚ) ^ f.fraction = fraction + 1 := by exact_mod_cast hfull.symm
    rw [carry hfull, amount, amount, units_fields (Nat.two_pow_pos _), units_fields h,
      scale_fields (Nat.two_pow_pos _), scale_fields h]
    cases stored with
    | zero =>
      simp only [Nat.zero_add, one_ne_zero, ↓reduceIte, Nat.cast_pow, Nat.cast_ofNat, Nat.cast_one,
        sub_self, add_zero, hcast]
      ring
    | succ n =>
      have hscale : f.leastExponent + ((n + 1 + 1 : Nat) - 1 : Int) =
          f.leastExponent + ((n + 1 : Nat) - 1 : Int) + 1 := by omega
      simp only [Nat.add_eq_zero_iff, one_ne_zero, and_false, ↓reduceIte]
      rw [hscale, two_zpow_succ]
      push_cast
      rw [hcast]
      ring
  · have hnext : fraction + 1 < 2 ^ f.fraction := by omega
    rw [amount, amount, Nat.add_assoc, units_fields hnext, units_fields h, scale_fields hnext,
      scale_fields h]
    split <;> push_cast <;> ring

/-- Where the exponent field grows, the units at most double. -/
theorem scale_succ_le (f : Format) (body : Nat) : f.scale (body + 1) ≤ f.scale body + 1 := by
  obtain ⟨stored, fraction, h, rfl⟩ := f.exists_fields body
  by_cases hfull : fraction + 1 = 2 ^ f.fraction
  · rw [carry hfull, scale_fields (Nat.two_pow_pos _), scale_fields h]
    split <;> split <;> omega
  · rw [Nat.add_assoc, scale_fields (by omega), scale_fields h]
    omega

/-- The units double only where a fraction starts again. -/
theorem scale_succ_of_units (h : f.units (body + 1) ≠ 2 ^ f.fraction) :
    f.scale (body + 1) = f.scale body := by
  obtain ⟨stored, fraction, hlt, rfl⟩ := f.exists_fields body
  by_cases hfull : fraction + 1 = 2 ^ f.fraction
  · rw [carry hfull, units_fields (Nat.two_pow_pos _)] at h
    simp at h
  · rw [Nat.add_assoc, scale_fields (by omega), scale_fields hlt]

theorem amount_strictMono (f : Format) : StrictMono f.amount := by
  refine strictMono_nat_of_lt_succ fun body => ?_
  rw [amount_succ]
  exact lt_add_of_pos_right _ (zpow_pos two_pos _)

/-- A midpoint is as far from the pattern below as from the one above. -/
theorem midpoint_eq (f : Format) (body : Nat) :
    f.midpoint body = (f.amount body + f.amount (body + 1)) / 2 := by
  rw [midpoint, amount_succ]
  ring

theorem midpoint_strictMono (f : Format) : StrictMono f.midpoint := by
  intro a b h
  have hlow := f.amount_strictMono h
  have hhigh := f.amount_strictMono (Nat.succ_lt_succ h)
  rw [midpoint_eq, midpoint_eq]
  linarith

theorem units_mod_two (hf : 0 < f.fraction) : f.units body % 2 = body % 2 := by
  obtain ⟨stored, fraction, h, rfl⟩ := f.exists_fields body
  have heven : 2 ^ f.fraction = 2 * 2 ^ (f.fraction - 1) := by
    rw [← Nat.pow_succ', Nat.succ_eq_add_one, Nat.sub_add_cancel hf]
  rw [units_fields h, heven, Nat.mul_assoc, Nat.mul_add_mod]
  split <;> omega

theorem units_pos (h : 0 < body) : 0 < f.units body := by
  obtain ⟨stored, fraction, hlt, rfl⟩ := f.exists_fields body
  have hp := Nat.two_pow_pos f.fraction
  rw [units_fields hlt]
  split
  · next hs =>
    rw [hs, Nat.mul_zero, Nat.zero_add] at h
    exact h
  · omega

theorem units_lt (f : Format) (body : Nat) : f.units body < 2 ^ (f.fraction + 1) := by
  obtain ⟨stored, fraction, hlt, rfl⟩ := f.exists_fields body
  rw [units_fields hlt, Nat.pow_succ]
  split <;> omega

theorem units_zero (f : Format) : f.units 0 = 0 := by
  simp [units]

theorem midpoint_pos (f : Format) (body : Nat) : 0 < f.midpoint body := by
  have hunits : (0 : ℚ) ≤ f.units body := Nat.cast_nonneg _
  have hscale : (0 : ℚ) < 2 ^ f.scale body := zpow_pos two_pos _
  rw [midpoint, amount]
  positivity

/-- Just above a power of two the midpoint below lies a quarter of a unit away, elsewhere half a
unit. At the least power of two it is half a unit as well, so a quarter is on the safe side. -/
theorem midpoint_le (f : Format) (body : Nat) : f.midpoint body ≤ f.amount (body + 1) -
    (if f.units (body + 1) = 2 ^ f.fraction then 1 else 2) / 4 * (2 : ℚ) ^ f.scale (body + 1) := by
  have hmid := f.midpoint_eq body
  have hstep := f.amount_succ body
  split
  · have hle : (2 : ℚ) ^ f.scale (body + 1) ≤ 2 * (2 : ℚ) ^ f.scale body := by
      rw [← two_zpow_succ]
      exact zpow_le_zpow_right₀ one_le_two (f.scale_succ_le body)
    linarith
  · next h =>
    rw [scale_succ_of_units h]
    linarith

end Format

namespace Binary

open Format

variable {f : Format} {x y : Binary f}

/-- Finite numbers are those below infinity, and they stand for a signed amount. -/
theorem reading_of_lt (h : x.pattern % f.signWeight < f.infinity) :
    x.reading = .finite x.signBit (f.units (x.pattern % f.signWeight))
      (f.scale (x.pattern % f.signWeight)) := by
  have hle : ¬f.infinity < x.pattern % f.signWeight := by omega
  have hne : ¬x.pattern % f.signWeight = f.infinity := by omega
  simp only [reading_eq, hle, hne, ↓reduceIte, units, scale, Nat.pow_eq]
  split <;> rfl

theorem isFinite_iff (x : Binary f) :
    x.isFinite = true ↔ x.pattern % f.signWeight < f.infinity := by
  constructor
  · intro h
    by_contra hlt
    rw [isFinite, reading_eq] at h
    by_cases hi : x.pattern % f.signWeight = f.infinity
    · simp [hi] at h
    · simp [show f.infinity < x.pattern % f.signWeight by omega] at h
  · intro h
    rw [isFinite, reading_of_lt h]

end Binary

end FlowPlan
