import FlowPlan.Json.Write
import FlowPlan.Proofs.Lexeme
import FlowPlan.Proofs.Shortest

namespace FlowPlan

open Decimal Json

namespace Layout

variable {digits : List Char}

/-- Only zeros are trimmed. -/
theorem exists_trim (digits : List Char) : ∃ k, trim digits ++ List.replicate k '0' = digits := by
  have hzeros : ∀ c ∈ digits.reverse.takeWhile (· == '0'), c = '0' := by
    intro c hc
    exact beq_iff_eq.mp (List.mem_takeWhile_imp (p := (· == '0')) hc)
  have hsplit := congrArg List.reverse
    (List.takeWhile_append_dropWhile (p := (· == '0')) (l := digits.reverse))
  rw [List.reverse_append, List.reverse_reverse, List.eq_replicate_of_mem hzeros,
    List.reverse_replicate] at hsplit
  exact ⟨_, hsplit⟩

theorem isDigits_trim (hall : ∀ c ∈ digits, c.isDigit = true) (hne : digits ≠ [])
    (hzero : digits.head? ≠ some '0') :
    IsDigits (trim digits) ∧ (trim digits).head? ≠ some '0' := by
  obtain ⟨k, hk⟩ := exists_trim digits
  have htrim : trim digits ≠ [] := by
    intro hnil
    rw [hnil, List.nil_append] at hk
    rw [← hk] at hne hzero
    cases k with
    | zero => exact hne rfl
    | succ k => exact hzero rfl
  refine ⟨⟨htrim, fun c hc => hall c (hk ▸ List.mem_append_left _ hc)⟩, ?_⟩
  rw [← hk, List.head?_append, List.head?_eq_some_head htrim, Option.some_or,
    ← List.head?_eq_some_head htrim] at hzero
  exact hzero

/-- The text of a positive number writes the shortest digits found for it. -/
theorem writes_positiveText {l : Layout} {f : Format} {magnitude : Nat} {exponent : Int}
    (h : 0 < (f.shortest l.tie magnitude exponent).digits) :
    Writes false (l.positiveText f magnitude exponent).toList
      ((f.shortest l.tie magnitude exponent).digits *
        (10 : ℚ) ^ (f.shortest l.tie magnitude exponent).exponent) := by
  rw [positiveText]
  generalize f.shortest l.tie magnitude exponent = found at h
  obtain ⟨k, hk⟩ := exists_trim (Nat.toDigits 10 found.digits)
  obtain ⟨hd, hzero⟩ :=
    isDigits_trim (isDigit_toDigits found.digits) Nat.toDigits_ne_nil (head?_toDigits h)
  have hlength : ((Nat.toDigits 10 found.digits).length : Int) =
      (trim (Nat.toDigits 10 found.digits)).length + k := by
    have := congrArg List.length hk
    rw [List.length_append, List.length_replicate] at this
    omega
  have hvalue : (found.digits : ℚ) * (10 : ℚ) ^ found.exponent =
      natural (trim (Nat.toDigits 10 found.digits)) * (10 : ℚ) ^ (k + found.exponent) := by
    have hnatural := natural_append (trim (Nat.toDigits 10 found.digits)) (List.replicate k '0')
    rw [hk, natural_toDigits, natural_zeros, List.length_replicate, Nat.add_zero] at hnatural
    rw [zpow_add₀ (by norm_num), zpow_natCast, ← mul_assoc]
    congr 1
    exact_mod_cast hnatural
  rw [hvalue]
  split
  · have htext := Writes.positionalText l.marksWhole hd hzero
      ((Nat.toDigits 10 found.digits).length + found.exponent)
    rw [hlength] at htext ⊢
    convert htext using 3
    omega
  · have htext := Writes.exponentText hd
      ((Nat.toDigits 10 found.digits).length + found.exponent - 1)
    rw [hlength] at htext ⊢
    convert htext using 3
    omega

end Layout

namespace Binary

open Format

variable {f : Format} {x y : Binary f}

/-- A number that was written and an amount that is nearer to it than to any other. -/
def Near (x : Binary f) (q : ℚ) : Prop :=
  if x.pattern % f.signWeight = 0 then q = 0
  else (f.neighbourhood (x.pattern % f.signWeight)).Contains q

theorem near_unique {q : ℚ} (hf : 0 < f.fraction) (hx : x.Near q) (hy : y.Near q)
    (hs : x.signBit = y.signBit) : x = y := by
  have hbody : x.pattern % f.signWeight = y.pattern % f.signWeight := by
    rw [Near] at hx hy
    split at hx
    · split at hy
      · omega
      · next h => exact absurd hx (pos_of_contains (Nat.pos_of_ne_zero h) hy).ne'
    · next h =>
      split at hy
      · exact absurd hy (pos_of_contains (Nat.pos_of_ne_zero h) hx).ne'
      · exact contains_unique hf hx hy
  rw [← signed_eta x, ← signed_eta y, hs, hbody]

theorem writes_zero (marksWhole : Bool) :
    Writes false (if marksWhole then "0.0" else "0").toList 0 := by
  have hzeros (k : Nat) (power : Int) :
      (natural (['0'] ++ List.replicate k '0') : ℚ) * (10 : ℚ) ^ power = 0 := by
    rw [List.singleton_append, ← List.replicate_succ, natural_zeros, Nat.cast_zero, zero_mul]
  cases marksWhole with
  | true =>
    refine ⟨⟨false, ['0'], some ['0'], none⟩, ⟨⟨by simp, by simp⟩, fun _ => rfl, ?_, by simp⟩, rfl,
      rfl, hzeros 1 _⟩
    rintro _ ⟨⟩
    exact ⟨by simp, by simp⟩
  | false =>
    exact ⟨⟨false, ['0'], none, none⟩, ⟨⟨by simp, by simp⟩, fun _ => rfl, by simp, by simp⟩, rfl, rfl,
      hzeros 0 _⟩

/-- The text of a finite number is a JSON number of its sign, near to it. -/
theorem exists_writes (hf : f.fraction ≤ 54) (l : Layout) (h : x.isFinite = true) :
    ∃ q, x.Near q ∧ Writes x.signBit (l.text x).toList q := by
  rw [isFinite_iff] at h
  rw [Layout.text, reading_of_lt h]
  dsimp only
  rw [String.toList_append, apply_ite String.toList]
  by_cases hzero : x.pattern % f.signWeight = 0
  · refine ⟨0, by rw [Near, if_pos hzero], ?_⟩
    rw [hzero, units_zero, if_pos rfl]
    exact (writes_zero l.marksWhole).signed x.signBit
  · have hpos := Nat.pos_of_ne_zero hzero
    have hnear := contains_shortest hf hpos l.tie
    refine ⟨_, by rw [Near, if_neg hzero]; exact hnear, ?_⟩
    rw [if_neg (units_pos hpos).ne']
    refine (Layout.writes_positiveText ?_).signed x.signBit
    apply Nat.pos_of_ne_zero
    intro hdigits
    have := pos_of_contains hpos hnear
    rw [hdigits, Nat.cast_zero, zero_mul] at this
    exact this.false

/-- Finite numbers are told apart by their texts. -/
theorem text_injective (hpos : 0 < f.fraction) (hf : f.fraction ≤ 54) (hx : x.isFinite = true)
    (hy : y.isFinite = true) {l : Layout} (h : l.text x = l.text y) : x = y := by
  obtain ⟨q, hq, hwrite⟩ := exists_writes hf l hx
  obtain ⟨r, hr, hother⟩ := exists_writes hf l hy
  rw [h] at hwrite
  obtain ⟨hs, rfl⟩ := hwrite.unique hother
  exact near_unique hpos hq hr hs

end Binary

namespace Json

def Lexeme.ofInt (n : Int) : Lexeme := ⟨n < 0, Nat.toDigits 10 n.natAbs, none, none⟩

theorem Lexeme.wellFormed_ofInt (n : Int) : (Lexeme.ofInt n).WellFormed := by
  refine ⟨⟨Nat.toDigits_ne_nil, isDigit_toDigits _⟩, fun h => ?_, by simp [ofInt], by simp [ofInt]⟩
  by_cases hzero : n.natAbs = 0
  · simp [ofInt, hzero]
  · exact absurd h (head?_toDigits (Nat.pos_of_ne_zero hzero))

theorem Lexeme.toChars_ofInt (n : Int) : (Lexeme.ofInt n).toChars = (toString n).toList := by
  rw [Int.toString_eq_repr, Int.repr_eq_if]
  by_cases h : 0 ≤ n
  · have hnat : n.toNat = n.natAbs := by omega
    have hsign : ¬ n < 0 := by omega
    rw [if_pos h, Nat.toList_repr, hnat]
    simp [ofInt, toChars, fractionChars, exponentChars, hsign]
  · have hnat : (-n).toNat = n.natAbs := by omega
    have hsign : n < 0 := by omega
    rw [if_neg h, String.toList_append, Nat.toList_repr, hnat]
    simp [ofInt, toChars, fractionChars, exponentChars, hsign]

/-- The text of an integer is a number of its sign and size. -/
theorem writes_int (n : Int) : Writes (n < 0) (toString n).toList n.natAbs := by
  refine ⟨.ofInt n, Lexeme.wellFormed_ofInt n, Lexeme.toChars_ofInt n, rfl, ?_⟩
  simp [Lexeme.ofInt, Lexeme.amount, Lexeme.power_none, natural_toDigits]

def IsNumber (text : String) : Prop := ∃ negative q, Writes negative text.toList q

end Json

end FlowPlan
