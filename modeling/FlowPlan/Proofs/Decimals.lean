import FlowPlan.Number.Decimal
import Mathlib

namespace FlowPlan

/-- A run is taken whole where what follows it is of another kind. -/
theorem Text.takeWhile_run {p : Char → Bool} {run : List Char} (rest : List Char)
    (h : ∀ c ∈ run, p c = true) (hr : ∀ c ∈ rest.head?, p c = false) :
    (run ++ rest).takeWhile p = run ∧ (run ++ rest).dropWhile p = rest := by
  have hrest : rest.takeWhile p = [] ∧ rest.dropWhile p = rest := by
    cases rest with
    | nil => exact ⟨rfl, rfl⟩
    | cons c rest =>
      have hc := hr c rfl
      simp [hc]
  rw [List.takeWhile_append_of_pos h, List.dropWhile_append_of_pos h, hrest.1, hrest.2,
    List.append_nil]
  exact ⟨rfl, rfl⟩

namespace Decimal

variable {n : Nat} {digits rest : List Char}

theorem isDigit_toDigits (n : Nat) : ∀ c ∈ Nat.toDigits 10 n, c.isDigit = true :=
  fun _ hc => Nat.isDigit_of_mem_toDigits (by decide) (by decide) hc

theorem natural_toDigits (n : Nat) : natural (Nat.toDigits 10 n) = n :=
  Nat.ofDigitChars_ten_toDigits

theorem natural?_digits (h : digits ≠ []) (hall : ∀ c ∈ digits, c.isDigit = true) :
    natural? digits = some (natural digits) := by
  simp [natural?, h, List.all_eq_true.mpr hall]

/-- Digits have neither a point nor the mark of an exponent. -/
theorem digits_unmarked (hall : ∀ c ∈ digits, c.isDigit = true) :
    (digits.any fun c => c == '.' || c == 'e' || c == 'E') = false := by
  apply List.any_eq_false.mpr
  intro c hc hm
  have hdigit : c.isDigit = true := hall c hc
  simp only [Bool.or_eq_true, beq_iff_eq] at hm
  rcases hm with (rfl | rfl) | rfl <;> cases hdigit

/-- Only zero is written with a leading zero. -/
theorem head?_toDigits (h : 0 < n) : (Nat.toDigits 10 n).head? ≠ some '0' := by
  induction n using Nat.strongRecOn with
  | ind n ih =>
    by_cases hten : n < 10
    · have hdigit : ∀ k < 10, 0 < k → Nat.digitChar k ≠ '0' := by decide
      rw [Nat.toDigits_of_lt_base hten, List.head?_cons]
      exact fun hc => hdigit n hten h (Option.some.inj hc)
    · rw [Nat.toDigits_of_base_le (by decide) (Nat.le_of_not_lt hten), List.head?_append,
        List.head?_eq_some_head Nat.toDigits_ne_nil, Option.some_or,
        ← List.head?_eq_some_head Nat.toDigits_ne_nil]
      exact ih (n / 10) (by omega) (by omega)

theorem natural_append (digits rest : List Char) :
    natural (digits ++ rest) = natural digits * 10 ^ rest.length + natural rest := by
  have happend : natural (digits ++ rest) = Nat.ofDigitChars 10 rest (natural digits) :=
    Nat.ofDigitChars_append 0
  rw [happend, Nat.ofDigitChars_eq_ofDigitChars_zero, Nat.mul_comm]
  rfl

theorem natural_zeros (k : Nat) : natural (List.replicate k '0') = 0 :=
  Nat.ofDigitChars_replicate_zero.trans (Nat.mul_zero _)

end Decimal

end FlowPlan
