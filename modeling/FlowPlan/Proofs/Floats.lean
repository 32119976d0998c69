import FlowPlan.Proofs.Numerals

namespace FlowPlan

open Outcome

namespace Decimal

/-- The exponent of a number: its mark, its digits, and the sign between them, if there is one. -/
structure ExponentText where
  mark : Char
  sign : Option Char
  digits : List Char
  mark_eq : mark = 'e' ∨ mark = 'E'
  sign_eq : ∀ c ∈ sign, c = '+' ∨ c = '-'
  digits_ne_nil : digits ≠ []
  isDigit : ∀ c ∈ digits, c.isDigit = true

/-- The parts of a number without a sign of its own that has a point or an exponent. -/
structure FloatText where
  whole : List Char
  fraction : Option (List Char)
  exponent : Option ExponentText
  isDigit_whole : ∀ c ∈ whole, c.isDigit = true
  isDigit_fraction : ∀ digits ∈ fraction, ∀ c ∈ digits, c.isDigit = true
  digits_ne_nil : whole ++ fraction.getD [] ≠ []
  marked : fraction.isSome = true ∨ exponent.isSome = true

namespace ExponentText

variable (e : ExponentText)

def chars : List Char := e.mark :: (e.sign.toList ++ e.digits)

def power : Int := if e.sign = some '-' then -(natural e.digits : Int) else natural e.digits

theorem exponent?_chars : exponent? e.chars = some e.power := by
  have hmark : (e.mark != 'e' && e.mark != 'E') = false := by
    rcases e.mark_eq with h | h <;> rw [h] <;> rfl
  have hsign : splitSign (e.sign.toList ++ e.digits) = (decide (e.sign = some '-'), e.digits) := by
    cases hs : e.sign with
    | none =>
      obtain ⟨c, rest, hc⟩ := List.exists_cons_of_ne_nil e.digits_ne_nil
      have hdigit : c.isDigit = true := e.isDigit c (by rw [hc]; exact List.mem_cons_self)
      rw [hc]
      exact splitSign_unsigned (Token.startsNumber_of_isDigit hdigit)
    | some c =>
      rcases e.sign_eq c hs with rfl | rfl <;> rfl
  rw [chars, exponent?, hmark, if_neg Bool.false_ne_true, hsign]
  simp only [natural?_digits e.digits_ne_nil e.isDigit, Option.bind_eq_bind, Option.bind_some,
    decide_eq_true_eq]
  rfl

/-- A character that may stand in a number but neither belongs to its digits nor is the point. -/
structure IsMark (c : Char) : Prop where
  isDigit : c.isDigit = false
  ne_point : c ≠ '.'
  isNumberPart : Token.isNumberPart c = true
  marks : (c == '.' || c == 'e' || c == 'E') = true

theorem isMark : IsMark e.mark := by
  rcases e.mark_eq with h | h <;> rw [h] <;> exact ⟨by decide, by decide, by decide, by decide⟩

/-- A mark without digits names no power. -/
theorem exponent?_mark : exponent? [e.mark] = none := by
  rcases e.mark_eq with h | h <;> rw [h] <;> rfl

end ExponentText

namespace FloatText

variable (t : FloatText)

def fractionChars : List Char :=
  match t.fraction with
  | none => []
  | some digits => '.' :: digits

def exponentChars : List Char :=
  match t.exponent with
  | none => []
  | some e => e.chars

def text : String := String.ofList (t.whole ++ (t.fractionChars ++ t.exponentChars))

/-- What of the text comes before the sign of the exponent. -/
def unsignedPart : String :=
  String.ofList (t.whole ++ (t.fractionChars ++ (t.exponent.map ExponentText.mark).toList))

def power : Int :=
  match t.exponent with
  | none => 0
  | some e => e.power

/-- The exact number: all digits, moved by the exponent and the length of the fraction. -/
def numeral : Numeral :=
  ⟨natural (t.whole ++ t.fraction.getD []), t.power - (t.fraction.getD []).length⟩

def value : Double := .ofNumeral false t.numeral

def isUnsigned : Bool := t.exponent.all fun e => e.sign.isNone

/-- The digits and the point are split from a tail that starts with neither. -/
theorem numeral?_append (tail : List Char)
    (htail : ∀ c ∈ tail.head?, c.isDigit = false ∧ c ≠ '.') :
    numeral? (t.whole ++ (t.fractionChars ++ tail)) =
      (exponent? tail).map fun e =>
        ⟨natural (t.whole ++ t.fraction.getD []), e - (t.fraction.getD []).length⟩ := by
  have hne := t.digits_ne_nil
  have hfraction := t.isDigit_fraction
  unfold fractionChars
  cases hf : t.fraction with
  | none =>
    obtain ⟨htake, hdrop⟩ := Text.takeWhile_run tail t.isDigit_whole fun c hc => (htail c hc).1
    have hwhole : t.whole ≠ [] := by simpa [hf] using hne
    rw [List.nil_append, numeral?, htake, hdrop]
    split
    next fraction rest hsplit =>
    obtain ⟨rfl, rfl⟩ : [] = fraction ∧ tail = rest := by
      split at hsplit
      · exact absurd rfl (htail _ rfl).2
      · exact Prod.mk.inj hsplit
    rw [Option.map_eq_bind, if_neg (by simpa using hwhole)]
    rfl
  | some digits =>
    obtain ⟨htake, hdrop⟩ := Text.takeWhile_run ('.' :: (digits ++ tail)) t.isDigit_whole (by simp)
    obtain ⟨htake', hdrop'⟩ := Text.takeWhile_run tail (hfraction digits hf) fun c hc =>
      (htail c hc).1
    have hdigits : t.whole = [] → digits ≠ [] := by
      simpa [hf] using hne
    rw [List.cons_append, numeral?, htake, hdrop]
    simp only [htake', hdrop']
    rw [Option.map_eq_bind, if_neg (by simpa using hdigits)]
    rfl

theorem exponentChars_head : ∀ c ∈ t.exponentChars.head?, c.isDigit = false ∧ c ≠ '.' := by
  unfold exponentChars
  cases t.exponent with
  | none => simp
  | some e =>
    intro c hc
    obtain rfl : e.mark = c := by simpa [ExponentText.chars] using hc
    exact ⟨e.isMark.isDigit, e.isMark.ne_point⟩

theorem numeral?_text : numeral? t.text.toList = some t.numeral := by
  have hpower : exponent? t.exponentChars = some t.power := by
    unfold exponentChars power
    cases t.exponent with
    | none => rfl
    | some e => exact e.exponent?_chars
  rw [text, String.toList_ofList, t.numeral?_append _ t.exponentChars_head, hpower]
  rfl

/-- The first character is a digit or the point. -/
theorem starts (tail : List Char) : ∃ c rest, t.whole ++ (t.fractionChars ++ tail) = c :: rest ∧
    Token.startsNumber c = true := by
  cases hw : t.whole with
  | cons c rest =>
    have hdigit : c.isDigit = true := t.isDigit_whole c (by rw [hw]; exact List.mem_cons_self)
    exact ⟨c, _, List.cons_append, Token.startsNumber_of_isDigit hdigit⟩
  | nil =>
    have hne := t.digits_ne_nil
    unfold fractionChars
    cases hf : t.fraction with
    | none => simp [hw, hf] at hne
    | some digits => exact ⟨'.', _, rfl, rfl⟩

/-- The reader of doubles takes the whole text. -/
theorem parse?_text : (Binary.parse? t.text.toList : Option Double) = some t.value := by
  obtain ⟨c, rest, hc, hstart⟩ := t.starts t.exponentChars
  have hnumeral := t.numeral?_text
  rw [text, String.toList_ofList, hc] at hnumeral
  rw [text, String.toList_ofList, hc, Binary.parse?_unsigned hstart, hnumeral]
  rfl

theorem spellable {tail : List Char} (htail : ∀ c ∈ tail, Token.isNumberPart c = true) :
    (Token.number (String.ofList (t.whole ++ (t.fractionChars ++ tail)))).Spellable := by
  have hfraction : ∀ c ∈ t.fractionChars, Token.isNumberPart c = true := by
    have hdigits := t.isDigit_fraction
    unfold fractionChars
    cases hf : t.fraction with
    | none => simp
    | some digits =>
      exact List.forall_mem_cons.mpr ⟨rfl, fun c hc =>
        Token.isNumberPart_of_isDigit (hdigits digits hf c hc)⟩
  have hall : ∀ c ∈ t.whole ++ (t.fractionChars ++ tail), Token.isNumberPart c = true := by
    simp only [List.forall_mem_append]
    exact ⟨fun c hc => Token.isNumberPart_of_isDigit (t.isDigit_whole c hc), hfraction, htail⟩
  obtain ⟨c, rest, hc, hstart⟩ := t.starts tail
  rw [hc] at hall
  exact ⟨c, rest, by rw [String.toList_ofList, hc], hstart,
    fun d hd => hall d (List.mem_cons_of_mem c hd)⟩

theorem any_mark {tail : List Char} (h : t.fraction.isSome = true ∨
    (tail.any fun c => c == '.' || c == 'e' || c == 'E') = true) :
    ((t.whole ++ (t.fractionChars ++ tail)).any fun c => c == '.' || c == 'e' || c == 'E') = true := by
  rw [List.any_append, List.any_append]
  rcases h with h | h
  · obtain ⟨digits, hf⟩ := Option.isSome_iff_exists.mp h
    have hpoint : t.fractionChars = '.' :: digits := by rw [fractionChars, hf]
    simp [hpoint]
  · simp [h]

/-- Without a sign in the exponent the number is one token. -/
theorem text_token (h : t.isUnsigned = true) : (Token.number t.text).Spellable ∧
    Scalar.ofNumber? t.text = .ok (.float64 t.value) := by
  have hparse := t.parse?_text
  have hmarked : (t.text.toList.any fun c => c == '.' || c == 'e' || c == 'E') = true := by
    rw [text, String.toList_ofList]
    refine t.any_mark (t.marked.imp_right fun he => ?_)
    obtain ⟨e, he⟩ := Option.isSome_iff_exists.mp he
    rw [exponentChars, he, List.any_eq_true]
    exact ⟨e.mark, List.mem_cons_self, e.isMark.marks⟩
  refine ⟨t.spellable ?_, by simp only [Scalar.ofNumber?, hmarked, hparse, ↓reduceIte]⟩
  unfold exponentChars
  cases he : t.exponent with
  | none => simp
  | some e =>
    have hsign : e.sign = none := by simpa [isUnsigned, he] using h
    intro c hc
    have hc : c ∈ e.chars := hc
    rw [ExponentText.chars, hsign] at hc
    rcases List.mem_cons.mp hc with rfl | hc
    · exact e.isMark.isNumberPart
    · exact Token.isNumberPart_of_isDigit (e.isDigit c hc)

/-- With one the number ends before it, at a mark without digits. -/
theorem unsignedPart_token {e : ExponentText} (he : t.exponent = some e) :
    (Token.number t.unsignedPart).Spellable ∧
    Scalar.ofNumber? t.unsignedPart = .error (.invalidNumber t.unsignedPart) := by
  have htail : (t.exponent.map ExponentText.mark).toList = [e.mark] := by rw [he]; rfl
  obtain ⟨hdigit, hpoint, hpart, hmark⟩ := e.isMark
  have hmarked : (t.unsignedPart.toList.any fun c => c == '.' || c == 'e' || c == 'E') = true := by
    rw [unsignedPart, htail, String.toList_ofList]
    exact t.any_mark (.inr (by rw [List.any_cons, hmark, Bool.true_or]))
  have hread : (Binary.parse? t.unsignedPart.toList : Option Double) = none := by
    obtain ⟨c, rest, hc, hstart⟩ := t.starts [e.mark]
    have hnumeral := t.numeral?_append [e.mark] (by simpa using ⟨hdigit, hpoint⟩)
    rw [e.exponent?_mark, hc] at hnumeral
    rw [unsignedPart, htail, String.toList_ofList, hc, Binary.parse?_unsigned hstart, hnumeral]
    rfl
  refine ⟨?_, by simp only [Scalar.ofNumber?, hmarked, hread, ↓reduceIte]⟩
  rw [unsignedPart, htail]
  exact t.spellable (by simpa using hpart)

/-- What is left of the text: the sign and the digits of the exponent. -/
theorem text_split {e : ExponentText} {c : Char} (he : t.exponent = some e)
    (hs : e.sign = some c) : t.text.toList = t.unsignedPart.toList ++ c :: e.digits := by
  simp [text, unsignedPart, exponentChars, ExponentText.chars, he, hs]

end FloatText

end Decimal

namespace Expr

/-- A text is read as a floating point number: as the double that the reader of doubles makes of the
whole text, and as its opposite after a minus sign. -/
def ReadsFloat (s : Schema) (text : String) : Prop :=
  ∃ v : Double, Binary.parse? text.toList = some v ∧
    parse s text = .ok (.literal (.float64 v)) ∧ parse s ("-" ++ text) = .ok (.literal (.float64 v.neg))

theorem signed_float64 (minus : Bool) (v : Double) : signed minus (.literal (.float64 v)) =
    .literal (.float64 (if minus then v.neg else v)) := by
  cases minus <;> rfl

/-- The sign of an exponent is a token, and so are the digits after it. -/
theorem ofChars_exponent (e : Decimal.ExponentText) {c : Char} (hs : e.sign = some c) :
    ∃ rest, Token.ofChars (c :: e.digits) = .ok rest := by
  have hspell : (Token.number (String.ofList e.digits)).Spellable :=
    Token.digits_spellable (by simpa using e.digits_ne_nil) (by simpa using e.isDigit)
  have hdigits : Token.ofChars e.digits = .ok [.number (String.ofList e.digits)] := by
    have h := ofChars_signed_alone false hspell
    rwa [Token.signed_false, String.toList_ofList] at h
  rcases e.sign_eq c hs with rfl | rfl
  · exact ⟨_, by rw [Token.ofChars_first (t := .plus) (by decide) rfl, hdigits, Except.map_ok]⟩
  · exact ⟨_, by rw [Token.ofChars_first (t := .minus) (by decide) rfl, hdigits, Except.map_ok]⟩

theorem parse_floatText (s : Schema) (t : Decimal.FloatText) (minus : Bool) :
    parse s (Token.signed minus t.text) =
      if t.isUnsigned then .ok (.literal (.float64 (if minus then t.value.neg else t.value)))
      else .error ⟨Token.signed minus t.text, .invalidNumber t.unsignedPart⟩ := by
  cases hu : t.isUnsigned with
  | true =>
    obtain ⟨hspell, hread⟩ := t.text_token hu
    rw [parse_signed minus hspell, hread, if_pos rfl, Except.map_ok, signed_float64, mapError_ok]
  | false =>
    obtain ⟨e, c, he, hs⟩ : ∃ e c, t.exponent = some e ∧ e.sign = some c := by
      cases he : t.exponent with
      | none => simp [Decimal.FloatText.isUnsigned, he] at hu
      | some e =>
        cases hs : e.sign with
        | none => simp [Decimal.FloatText.isUnsigned, he, hs] at hu
        | some c => exact ⟨e, c, rfl, hs⟩
    obtain ⟨hspell, hread⟩ := t.unsignedPart_token he
    obtain ⟨rest, hrest⟩ := ofChars_exponent e hs
    have hcut : ∀ d ∈ (c :: e.digits).head?, Token.isNumberPart d = false := by
      rcases e.sign_eq c hs with rfl | rfl <;> simp <;> decide
    have htext : (Token.signed minus t.text).toList =
        (Token.signed minus t.unsignedPart).toList ++ c :: e.digits := by
      cases minus with
      | false => exact t.text_split he hs
      | true =>
        rw [Token.signed_true, Token.signed_true, String.toList_append, String.toList_append,
          t.text_split he hs, List.append_assoc]
    rw [if_neg Bool.false_ne_true]
    exact parse_refused minus hspell htext hcut hrest hread

/-- A floating point number is read as the reader of doubles reads its whole text, after a minus sign
as the opposite, exactly when its exponent has no sign. Otherwise it is refused, for the number ends
before that sign. -/
theorem float_text_reads_iff (s : Schema) (t : Decimal.FloatText) :
    (ReadsFloat s t.text ↔ t.isUnsigned = true) ∧
    (Binary.parse? t.text.toList : Option Double) = some t.value ∧
    ∀ minus : Bool, parse s (Token.signed minus t.text) =
      if t.isUnsigned then .ok (.literal (.float64 (if minus then t.value.neg else t.value)))
      else .error ⟨Token.signed minus t.text, .invalidNumber t.unsignedPart⟩ := by
  have hparse := parse_floatText s t
  refine ⟨⟨fun h => ?_, fun hu => ?_⟩, t.parse?_text, hparse⟩
  · obtain ⟨v, -, hv, -⟩ := h
    by_contra hu
    have hrefused := hparse false
    rw [if_neg hu, Token.signed_false, hv] at hrefused
    cases hrefused
  · have hplain := hparse false
    have hminus := hparse true
    rw [if_pos hu, Token.signed_false, if_neg Bool.false_ne_true] at hplain
    rw [if_pos hu, Token.signed_true, if_pos rfl] at hminus
    exact ⟨t.value, t.parse?_text, hplain, hminus⟩

/-- Two and a half thousands. -/
def thousands : Decimal.FloatText where
  whole := ['2']
  fraction := some ['5']
  exponent := some
    { mark := 'E', sign := none, digits := ['3'], mark_eq := .inr rfl, sign_eq := by simp
      digits_ne_nil := by simp, isDigit := by simp }
  isDigit_whole := by simp
  isDigit_fraction := by simp
  digits_ne_nil := by simp
  marked := .inl rfl

theorem float_text_reads_iff_thousands : ReadsFloat ⟨[]⟩ "2.5E3" ∧
    parse ⟨[]⟩ "-2.5E3" = .ok (.literal (.float64 (.ofPattern 0xc0a3880000000000))) := by
  obtain ⟨hreads, -, hparse⟩ := float_text_reads_iff ⟨[]⟩ thousands
  have hvalue : thousands.value.neg = .ofPattern 0xc0a3880000000000 := by decide +kernel
  refine ⟨hreads.mpr rfl, ?_⟩
  have hminus := hparse true
  rw [if_pos (show thousands.isUnsigned = true from rfl), if_pos rfl, hvalue] at hminus
  exact hminus

/-- A hundred thousandth. -/
def hundredThousandth : Decimal.FloatText where
  whole := ['1']
  fraction := none
  exponent := some
    { mark := 'e', sign := some '-', digits := ['5'], mark_eq := .inl rfl, sign_eq := by simp
      digits_ne_nil := by simp, isDigit := by simp }
  isDigit_whole := by simp
  isDigit_fraction := by simp
  digits_ne_nil := by simp
  marked := .inr rfl

/-- A number with a negative exponent is refused although the reader of doubles takes it. -/
theorem negative_exponent_refused :
    (Binary.parse? "1e-5".toList : Option Double) = some (.ofPattern 0x3ee4f8b588e368f1) ∧
      parse ⟨[]⟩ "1e-5" = .error ⟨"1e-5", .invalidNumber "1e"⟩ ∧ ¬ReadsFloat ⟨[]⟩ "1e-5" := by
  have hvalue : hundredThousandth.value = .ofPattern 0x3ee4f8b588e368f1 := by decide +kernel
  have hread := hundredThousandth.parse?_text
  rw [hvalue] at hread
  have hrefused : parse ⟨[]⟩ "1e-5" = .error ⟨"1e-5", .invalidNumber "1e"⟩ :=
    parse_floatText ⟨[]⟩ hundredThousandth false
  refine ⟨hread, hrefused, ?_⟩
  rintro ⟨v, -, hv, -⟩
  rw [hrefused] at hv
  cases hv

end Expr

end FlowPlan
