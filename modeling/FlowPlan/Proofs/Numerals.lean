import FlowPlan.Proofs.RoundTrip

namespace FlowPlan

open Outcome

namespace Decimal

/-- The digits of a number, with zeros before them. -/
def paddedDigits (zeros n : Nat) : String :=
  String.ofList (List.replicate zeros '0' ++ Nat.toDigits 10 n)

/-- The text of an integer, with zeros between its sign and its digits. -/
def integerText (zeros : Nat) (n : Int) : String :=
  Token.signed (n < 0) (paddedDigits zeros n.natAbs)

variable {zeros n : Nat}

theorem isDigit_paddedDigits : ∀ c ∈ (paddedDigits zeros n).toList, c.isDigit = true := by
  intro c hc
  rw [paddedDigits, String.toList_ofList] at hc
  rcases List.mem_append.mp hc with hc | hc
  · rw [List.eq_of_mem_replicate hc]
    rfl
  · exact isDigit_toDigits n c hc

theorem paddedDigits_ne_nil : (paddedDigits zeros n).toList ≠ [] := by
  simp [paddedDigits, Nat.toDigits_ne_nil]

theorem natural_paddedDigits : natural (paddedDigits zeros n).toList = n := by
  rw [paddedDigits, String.toList_ofList, natural_append, natural_zeros, natural_toDigits]
  omega

theorem spellable_paddedDigits : (Token.number (paddedDigits zeros n)).Spellable :=
  Token.digits_spellable paddedDigits_ne_nil isDigit_paddedDigits

end Decimal

namespace Expr

/-- A text is read as an integer: as the literal of the narrowest type that holds the integer, and as
no number when there is no such type. -/
structure ReadsInteger (s : Schema) (text : String) (n : Int) : Prop where
  int32 : Int32.minValue.toInt ≤ n → n ≤ Int32.maxValue.toInt →
    ∃ v : Int32, v.toInt = n ∧ parse s text = .ok (.literal (.int32 v))
  int64 : ¬(Int32.minValue.toInt ≤ n ∧ n ≤ Int32.maxValue.toInt) →
    Int64.minValue.toInt ≤ n → n ≤ Int64.maxValue.toInt →
    ∃ v : Int64, v.toInt = n ∧ parse s text = .ok (.literal (.int64 v))
  refused : ¬(Int64.minValue.toInt ≤ n ∧ n ≤ Int64.maxValue.toInt) →
    ∃ digits, parse s text = .error ⟨text, .invalidNumber digits⟩

/-- The magnitude alone decides on the type of a literal. -/
theorem signed_ofNat (minus : Bool) (k : Nat) : signed minus (.literal (Scalar.ofNat k)) =
    .literal (if k < 2 ^ 31 then .int32 (.ofInt (if minus then -k else k))
      else .int64 (.ofInt (if minus then -k else k))) := by
  by_cases hk : k < 2 ^ 31
  · rw [Scalar.ofNat, if_pos (fitsInt32_iff.mpr hk), if_pos hk]
    cases minus <;> simp [signed, negated, Int32.ofInt_neg]
  · rw [Scalar.ofNat, if_neg (mt fitsInt32_iff.mp hk), if_neg hk]
    cases minus <;> simp [signed, negated, Int64.ofInt_neg]

theorem parse_integerText (s : Schema) (zeros : Nat) (n : Int) :
    parse s (Decimal.integerText zeros n) =
      if n.natAbs < 2 ^ 31 then .ok (.literal (.int32 (.ofInt n)))
      else if n.natAbs < 2 ^ 63 then .ok (.literal (.int64 (.ofInt n)))
      else .error ⟨Decimal.integerText zeros n,
        .invalidNumber (Decimal.paddedDigits zeros n.natAbs)⟩ := by
  have hn : (if decide (n < 0) = true then -(n.natAbs : Int) else n.natAbs) = n := by
    simp only [decide_eq_true_eq]
    split <;> omega
  rw [Decimal.integerText, parse_signed _ Decimal.spellable_paddedDigits,
    Scalar.ofNumber?_digits Decimal.paddedDigits_ne_nil Decimal.isDigit_paddedDigits,
    Decimal.natural_paddedDigits]
  by_cases h64 : n.natAbs < 2 ^ 63
  · rw [if_pos h64, Except.map_ok, signed_ofNat, hn, mapError_ok, if_pos h64]
    split <;> rfl
  · rw [if_neg h64, if_neg (by omega), if_neg h64]
    rfl

/-- The text of an integer is read as the integer, whatever zeros it starts with, exactly for the
integers that are not the least of a type. What is read has the type of the magnitude. -/
theorem integer_text_reads_iff (s : Schema) (zeros : Nat) (n : Int) :
    (ReadsInteger s (Decimal.integerText zeros n) n ↔ n ≠ -2 ^ 31 ∧ n ≠ -2 ^ 63) ∧
    parse s (Decimal.integerText zeros n) =
      if n.natAbs < 2 ^ 31 then .ok (.literal (.int32 (.ofInt n)))
      else if n.natAbs < 2 ^ 63 then .ok (.literal (.int64 (.ofInt n)))
      else .error ⟨Decimal.integerText zeros n,
        .invalidNumber (Decimal.paddedDigits zeros n.natAbs)⟩ := by
  have hparse := parse_integerText s zeros n
  refine ⟨⟨fun h => ?_, fun ⟨h32, h64⟩ => ?_⟩, hparse⟩
  · constructor
    · rintro rfl
      obtain ⟨v, -, hv⟩ := h.int32 (by decide) (by decide)
      rw [hparse] at hv
      cases hv
    · rintro rfl
      obtain ⟨v, -, hv⟩ := h.int64 (by decide) (by decide) (by decide)
      rw [hparse] at hv
      cases hv
  · constructor
    · intro hle hge
      have hle : -2 ^ 31 ≤ n := hle
      have hge : n ≤ 2 ^ 31 - 1 := hge
      refine ⟨.ofInt n, Int32.toInt_ofInt_of_le hle (by omega), ?_⟩
      rw [hparse, if_pos (by omega)]
    · intro hwide hle hge
      have hwide : ¬(-2 ^ 31 ≤ n ∧ n ≤ 2 ^ 31 - 1) := hwide
      have hle : -2 ^ 63 ≤ n := hle
      have hge : n ≤ 2 ^ 63 - 1 := hge
      refine ⟨.ofInt n, Int64.toInt_ofInt_of_le hle (by omega), ?_⟩
      rw [hparse, if_neg (by omega), if_pos (by omega)]
    · intro hwide
      have hwide : ¬(-2 ^ 63 ≤ n ∧ n ≤ 2 ^ 63 - 1) := hwide
      refine ⟨Decimal.paddedDigits zeros n.natAbs, ?_⟩
      rw [hparse, if_neg (by omega), if_neg (by omega)]

/-- The integers next to the least ones are read, with a zero in front as well. -/
theorem integer_text_reads_iff_next :
    ReadsInteger ⟨[]⟩ "-2147483647" (-2147483647) ∧
      ReadsInteger ⟨[]⟩ "-09223372036854775807" (-9223372036854775807) := by
  have hnarrow : Decimal.integerText 0 (-2147483647) = "-2147483647" := by decide +kernel
  have hwide : Decimal.integerText 1 (-9223372036854775807) = "-09223372036854775807" := by
    decide +kernel
  rw [← hnarrow, ← hwide]
  exact ⟨(integer_text_reads_iff ⟨[]⟩ 0 (-2147483647)).1.mpr (by decide),
    (integer_text_reads_iff ⟨[]⟩ 1 (-9223372036854775807)).1.mpr (by decide)⟩

/-- The least integer of the narrow type is read as a wide literal, and that of the wide type is
refused although it fits. -/
theorem least_integers_misread :
    (parse ⟨[]⟩ "-2147483648" = .ok (.literal (.int64 (.ofInt (-2147483648)))) ∧
      ¬ReadsInteger ⟨[]⟩ "-2147483648" (-2147483648)) ∧
    (parse ⟨[]⟩ "-9223372036854775808" =
        .error ⟨"-9223372036854775808", .invalidNumber "9223372036854775808"⟩ ∧
      ¬ReadsInteger ⟨[]⟩ "-9223372036854775808" (-9223372036854775808)) := by
  have hnarrow : Decimal.integerText 0 (-2147483648) = "-2147483648" := by decide +kernel
  have hwide : Decimal.integerText 0 (-9223372036854775808) = "-9223372036854775808" := by
    decide +kernel
  have hdigits : Decimal.paddedDigits 0 (-9223372036854775808 : Int).natAbs =
      "9223372036854775808" := by decide +kernel
  have hwidened := parse_integerText ⟨[]⟩ 0 (-2147483648)
  have hrefused := parse_integerText ⟨[]⟩ 0 (-9223372036854775808)
  rw [hnarrow, if_neg (by decide), if_pos (by decide)] at hwidened
  rw [hwide, if_neg (by decide), if_neg (by decide), hdigits] at hrefused
  refine ⟨⟨hwidened, fun h => ?_⟩, hrefused, fun h => ?_⟩
  · obtain ⟨v, -, hv⟩ := h.int32 (by decide) (by decide)
    rw [hwidened] at hv
    cases hv
  · obtain ⟨v, -, hv⟩ := h.int64 (by decide) (by decide) (by decide)
    rw [hrefused] at hv
    cases hv

end Expr

end FlowPlan
