import FlowPlan.Json.Number
import FlowPlan.Number.Shortest
import FlowPlan.Proofs.Decimals

namespace FlowPlan.Json

/-- A run of at least one digit. -/
def IsDigits (text : List Char) : Prop := text ≠ [] ∧ ∀ c ∈ text, c.isDigit = true

namespace Lexeme

variable {l : Lexeme}

/-- A number as it may stand in a text: no needless leading zero, and digits wherever a point or
an exponent announces them. -/
structure WellFormed (l : Lexeme) : Prop where
  whole : IsDigits l.whole
  leading : l.whole.head? = some '0' → l.whole.length = 1
  fraction : ∀ digits ∈ l.fraction, IsDigits digits
  exponent : ∀ e ∈ l.exponent, IsDigits e.2

/-- The point and the digits after it. -/
def fractionChars : Option (List Char) → List Char
  | none => []
  | some digits => '.' :: digits

/-- The exponent with its mark and its sign. -/
def exponentChars : Option (Bool × List Char) → List Char
  | none => []
  | some (down, digits) => 'e' :: (if down then '-' else '+') :: digits

def toChars (l : Lexeme) : List Char :=
  (if l.negative then ['-'] else []) ++
    (l.whole ++ (fractionChars l.fraction ++ exponentChars l.exponent))

theorem lexeme?_toChars (h : l.WellFormed) : lexeme? l.toChars = some l := by
  obtain ⟨negative, whole, fraction, exponent⟩ := l
  obtain ⟨⟨hne, hwhole⟩, hleading, hfraction, hexponent⟩ := h
  simp only at hne hwhole hleading hfraction hexponent
  have htail : ∀ c ∈ (fractionChars fraction ++ exponentChars exponent).head?, c.isDigit = false := by
    cases fraction with
    | some digits => simp [fractionChars]
    | none =>
      cases exponent with
      | some e => simp [fractionChars, exponentChars]
      | none => simp [fractionChars, exponentChars]
  obtain ⟨htake, hdrop⟩ := Text.takeWhile_run _ hwhole htail
  have hlead : ¬whole.length = 1 → ¬whole.head? = some '0' := mt hleading
  unfold lexeme?
  -- The sign, the fraction and the exponent are taken off one after the other.
  split
  next n body hsign =>
  obtain ⟨rfl, rfl⟩ : negative = n ∧ whole ++ (fractionChars fraction ++ exponentChars exponent) =
      body := by
    cases negative with
    | true => simpa [toChars] using hsign
    | false =>
      obtain ⟨c, more, rfl⟩ := List.exists_cons_of_ne_nil hne
      have hc : c ≠ '-' := by
        rintro rfl
        cases hwhole _ List.mem_cons_self
      simpa [toChars, hc] using hsign
  have hafter : ∀ e ∈ exponent, Decimal.splitSign ((if e.1 then '-' else '+') :: e.2) = e := by
    rintro ⟨down, digits⟩ -
    cases down <;> rfl
  rw [htake, hdrop]
  cases fraction with
  | none =>
    cases exponent with
    | none => simpa [fractionChars, exponentChars, hne] using hlead
    | some e =>
      obtain ⟨hsome, hdigits⟩ := hexponent e rfl
      simpa [fractionChars, exponentChars, hafter, hne, hsome] using ⟨hdigits, hlead⟩
  | some digits =>
    obtain ⟨hsome, hdigits⟩ := hfraction digits rfl
    cases exponent with
    | none =>
      obtain ⟨htake, hdrop⟩ := Text.takeWhile_run [] hdigits (by simp)
      rw [List.append_nil] at htake hdrop
      simpa [fractionChars, exponentChars, htake, hdrop, hne, hsome] using hlead
    | some e =>
      obtain ⟨hpower, hall⟩ := hexponent e rfl
      obtain ⟨htake, hdrop⟩ :=
        Text.takeWhile_run ('e' :: (if e.1 then '-' else '+') :: e.2) hdigits (by simp)
      simpa [fractionChars, exponentChars, htake, hdrop, hafter, hne, hsome, hpower] using
        ⟨hall, hlead⟩

/-- The exponent that the text names. -/
def power (l : Lexeme) : Int :=
  match l.exponent with
  | none => 0
  | some (down, digits) => if down then -(Decimal.natural digits : Int) else Decimal.natural digits

theorem power_none {negative : Bool} {whole : List Char} {fraction : Option (List Char)} :
    (mk negative whole fraction none).power = 0 := rfl

theorem power_toDigits {negative : Bool} {whole : List Char} {fraction : Option (List Char)}
    (e : Int) : (mk negative whole fraction (some (e < 0, Nat.toDigits 10 e.natAbs))).power = e := by
  simp only [power, Decimal.natural_toDigits, decide_eq_true_eq]
  split <;> omega

/-- The exact amount, whatever the sign. -/
def amount (l : Lexeme) : ℚ :=
  Decimal.natural (l.whole ++ l.fraction.getD []) *
    (10 : ℚ) ^ (l.power - (l.fraction.getD []).length)

end Lexeme

/-- A text that is a number of this sign and amount. -/
def Writes (negative : Bool) (text : List Char) (q : ℚ) : Prop :=
  ∃ l : Lexeme, l.WellFormed ∧ l.toChars = text ∧ l.negative = negative ∧ l.amount = q

namespace Writes

open Decimal Lexeme

variable {negative : Bool} {text digits : List Char} {q : ℚ}

theorem unique {other : Bool} {r : ℚ} (hl : Writes negative text q) (hm : Writes other text r) :
    negative = other ∧ q = r := by
  obtain ⟨l, hl, rfl, rfl, rfl⟩ := hl
  obtain ⟨m, hm, htext, rfl, rfl⟩ := hm
  have hread := lexeme?_toChars hl
  rw [← htext, lexeme?_toChars hm] at hread
  obtain rfl := Option.some.inj hread
  exact ⟨rfl, rfl⟩

theorem signed (h : Writes false text q) (negative : Bool) :
    Writes negative ((if negative then ['-'] else []) ++ text) q := by
  obtain ⟨l, hl, rfl, hs, rfl⟩ := h
  refine ⟨{ l with negative }, ⟨hl.whole, hl.leading, hl.fraction, hl.exponent⟩, ?_, rfl, rfl⟩
  simp [toChars, hs]

/-- Digits set around the point. -/
theorem positionalText (marksWhole : Bool) (hd : IsDigits digits) (hzero : digits.head? ≠ some '0')
    (point : Int) : Writes false (Layout.positionalText marksWhole digits point).toList
      (natural digits * (10 : ℚ) ^ (point - digits.length)) := by
  obtain ⟨hne, hall⟩ := hd
  have hzeros : ∀ k, ∀ c ∈ List.replicate k '0', c.isDigit = true := by
    intro k c hc
    rw [List.eq_of_mem_replicate hc]
    rfl
  rw [Layout.positionalText]
  split
  · next hpoint =>
    refine ⟨⟨false, ['0'], some (List.replicate (-point).toNat '0' ++ digits), none⟩,
      ⟨⟨by simp, by simp⟩, fun _ => rfl, ?_, by simp⟩, ?_, rfl, ?_⟩
    · rintro _ ⟨⟩
      refine ⟨by simp [hne], ?_⟩
      intro c hc
      exact (List.mem_append.mp hc).elim (hzeros _ c) (hall c)
    · simp [toChars, fractionChars, exponentChars]
    · have hnatural : natural (['0'] ++ (List.replicate (-point).toNat '0' ++ digits)) =
          natural digits := by
        rw [← List.append_assoc, natural_append, ← List.replicate_one, List.replicate_append_replicate,
          natural_zeros, Nat.zero_mul, Nat.zero_add]
      have hpower : (0 : Int) - (List.replicate (-point).toNat '0' ++ digits).length =
          point - digits.length := by
        rw [List.length_append, List.length_replicate]
        omega
      rw [amount, power_none, Option.getD_some, hnatural, hpower]
  · next hpoint =>
    obtain ⟨n, rfl⟩ := Int.eq_ofNat_of_zero_le (show 0 ≤ point by omega)
    have hn : 0 < n := by omega
    dsimp only
    rw [Int.toNat_natCast]
    split
    · next hdrop =>
      have hle : digits.length ≤ n := List.drop_eq_nil_iff.mp hdrop
      rw [List.take_of_length_le hle]
      have hwhole : IsDigits (digits ++ List.replicate (n - digits.length) '0') :=
        ⟨by simp [hne], fun c hc => (List.mem_append.mp hc).elim (hall c) (hzeros _ c)⟩
      have hleading : (digits ++ List.replicate (n - digits.length) '0').head? = some '0' →
          (digits ++ List.replicate (n - digits.length) '0').length = 1 := by
        intro h
        rw [List.head?_append, List.head?_eq_some_head hne, Option.some_or,
          ← List.head?_eq_some_head hne] at h
        exact absurd h hzero
      have hnatural (k : Nat) : (natural (digits ++ List.replicate (n - digits.length) '0' ++
          List.replicate k '0') : ℚ) * (10 : ℚ) ^ (-k : Int) =
            natural digits * (10 : ℚ) ^ ((n : Int) - digits.length) := by
        rw [List.append_assoc, List.replicate_append_replicate, natural_append, natural_zeros,
          List.length_replicate, Nat.add_zero, Nat.cast_mul, Nat.cast_pow, mul_assoc, Nat.cast_ofNat,
          ← zpow_natCast, ← zpow_add₀ (by norm_num)]
        congr 2
        omega
      cases marksWhole with
      | true =>
        refine ⟨⟨false, digits ++ List.replicate (n - digits.length) '0', some ['0'], none⟩,
          ⟨hwhole, hleading, ?_, by simp⟩, ?_, rfl, ?_⟩
        · rintro _ ⟨⟩
          exact ⟨by simp, by simp⟩
        · simp [toChars, fractionChars, exponentChars]
        · rw [amount, power_none, Option.getD_some, zero_sub]
          exact hnatural 1
      | false =>
        refine ⟨⟨false, digits ++ List.replicate (n - digits.length) '0', none, none⟩,
          ⟨hwhole, hleading, by simp, by simp⟩, ?_, rfl, ?_⟩
        · simp [toChars, fractionChars, exponentChars]
        · rw [amount, power_none, Option.getD_none, zero_sub]
          exact hnatural 0
    · next fraction hdrop =>
      have hlt : n < digits.length := by
        by_contra h
        exact hdrop (List.drop_eq_nil_iff.mpr (by omega))
      refine ⟨⟨false, digits.take n, some (digits.drop n), none⟩, ⟨⟨?_, ?_⟩, ?_, ?_, by simp⟩, ?_, rfl,
        ?_⟩
      · simp [hne, hn.ne']
      · intro c hc
        exact hall c (List.mem_of_mem_take hc)
      · intro h
        rw [List.head?_take] at h
        simp [hn.ne', hzero] at h
      · rintro _ ⟨⟩
        exact ⟨hdrop, fun c hc => hall c (List.mem_of_mem_drop hc)⟩
      · simp [toChars, fractionChars, exponentChars, Nat.sub_eq_zero_of_le hlt.le]
      · rw [amount, power_none, Option.getD_some, List.take_append_drop, List.length_drop]
        congr 2
        omega

/-- Digits set with one of them before the point, and an exponent. -/
theorem exponentText (hd : IsDigits digits) (exponent : Int) :
    Writes false (Layout.exponentText digits exponent).toList
      (natural digits * (10 : ℚ) ^ (exponent + 1 - digits.length)) := by
  obtain ⟨hne, hall⟩ := hd
  have hpower : IsDigits (Nat.toDigits 10 exponent.natAbs) :=
    ⟨Nat.toDigits_ne_nil, isDigit_toDigits _⟩
  obtain ⟨d, rest, rfl⟩ := List.exists_cons_of_ne_nil hne
  have hone : IsDigits [d] := by
    refine ⟨by simp, ?_⟩
    intro c hc
    rw [List.mem_singleton.mp hc]
    exact hall d List.mem_cons_self
  cases rest with
  | nil =>
    refine ⟨⟨false, [d], none, some (exponent < 0, Nat.toDigits 10 exponent.natAbs)⟩,
      ⟨hone, fun _ => rfl, by simp, ?_⟩, ?_, rfl, ?_⟩
    · rintro _ ⟨⟩
      exact hpower
    · by_cases h : exponent < 0 <;>
        simp [Layout.exponentText, toChars, fractionChars, exponentChars, h]
    · simp [amount, power_toDigits]
  | cons c rest =>
    refine ⟨⟨false, [d], some (c :: rest), some (exponent < 0, Nat.toDigits 10 exponent.natAbs)⟩,
      ⟨hone, fun _ => rfl, ?_, ?_⟩, ?_, rfl, ?_⟩
    · rintro _ ⟨⟩
      exact ⟨List.cons_ne_nil c rest, fun x hx => hall x (List.mem_cons_of_mem d hx)⟩
    · rintro _ ⟨⟩
      exact hpower
    · by_cases h : exponent < 0 <;>
        simp [Layout.exponentText, toChars, fractionChars, exponentChars, h]
    · simp [amount, power_toDigits]

end Writes

end FlowPlan.Json
