import FlowPlan.Expr.Text
import FlowPlan.Proofs.Encoding

namespace FlowPlan

open Json

namespace Text

/-- A character of words. Blanks, parentheses, quotes and the sign of columns are none. -/
def isWordPart (c : Char) : Bool := c.isAlphanum || c == '-' || c == '+' || c == '.'

/-- A word that is not the one of a negation. -/
structure Word (w : List Char) : Prop where
  nonempty : w ≠ []
  parts : ∀ c ∈ w, isWordPart c = true
  unlikeNot : w ≠ ['N', 'O', 'T']

theorem Word.of_all {w : List Char} (hne : w ≠ []) (h : w.all isWordPart = true)
    (hnot : w ≠ ['N', 'O', 'T']) : Word w :=
  ⟨hne, List.all_eq_true.mp h, hnot⟩

theorem hexDigit_inj : ∀ m < 16, ∀ n < 16, hexDigit m = hexDigit n → m = n := by
  decide

theorem isWordPart_hexDigit : ∀ n < 16, isWordPart (hexDigit n) = true := by
  decide

theorem hexByte_inj {a b : UInt8} (h : hexByte a = hexByte b) : a = b := by
  have ha := a.toNat_lt
  have hb := b.toNat_lt
  obtain ⟨hhigh, hlow⟩ := List.cons_eq_cons.mp h
  have hquotient := hexDigit_inj _ (by omega) _ (by omega) hhigh
  have hrest := hexDigit_inj _ (by omega) _ (by omega) (List.cons_eq_cons.mp hlow).1
  apply UInt8.toNat_inj.mp
  omega

theorem hexBytes_inj {a b : List UInt8} (h : a.flatMap hexByte = b.flatMap hexByte) : a = b := by
  induction a generalizing b with
  | nil =>
    cases b with
    | nil => rfl
    | cons y b => simp [hexByte] at h
  | cons x a ih =>
    cases b with
    | nil => simp [hexByte] at h
    | cons y b =>
      rw [List.flatMap_cons, List.flatMap_cons] at h
      obtain ⟨hfirst, hrest⟩ := List.append_inj h rfl
      rw [hexByte_inj hfirst, ih hrest]

theorem isWordPart_hexBytes (bytes : List UInt8) :
    ∀ c ∈ bytes.flatMap hexByte, isWordPart c = true := by
  intro c hc
  obtain ⟨b, -, hc⟩ := List.mem_flatMap.mp hc
  have hb := b.toNat_lt
  have hhigh := isWordPart_hexDigit (b.toNat / 16) (by omega)
  have hlow := isWordPart_hexDigit (b.toNat % 16) (by omega)
  simp only [hexByte, List.mem_cons, List.not_mem_nil, or_false] at hc
  rcases hc with rfl | rfl
  · exact hhigh
  · exact hlow

/-- What a word is, going by its first characters: nothing for a number. -/
def typeOfWord : List Char → Option DataType
  | '\'' :: _ => some .utf8
  | '0' :: 'x' :: _ => some .binary
  | 'N' :: _ => some .null
  | 't' :: _ => some .boolean
  | 'f' :: _ => some .boolean
  | _ => none

end Text

open Text

section Numbers

variable {negative : Bool} {w : List Char} {q : ℚ}

theorem isWordPart_of_isNumberPart {c : Char} (h : isNumberPart c = true) : isWordPart c = true := by
  simp only [isNumberPart, Bool.or_eq_true, beq_iff_eq] at h
  rcases h with ((((h | rfl) | rfl) | rfl) | rfl) | rfl
  · simp [isWordPart, Char.isAlphanum, h]
  all_goals rfl

/-- The text of a number is a word, and its first characters show it. -/
theorem Json.Writes.word (h : Writes negative w q) : Word w ∧ typeOfWord w = none := by
  obtain ⟨l, hl, rfl, -, -⟩ := h
  obtain ⟨c, rest, hchars, hc⟩ := exists_toChars hl
  have hpart := isNumberPart_toChars hl
  rw [hchars] at hpart ⊢
  have hne (d : Char) (hd : isNumberPart d = false) : c ≠ d := by
    intro h
    rw [← h, hpart c List.mem_cons_self] at hd
    cases hd
  refine ⟨⟨List.cons_ne_nil c rest, fun d hd => isWordPart_of_isNumberPart (hpart d hd), ?_⟩, ?_⟩
  · intro h
    exact hne 'N' rfl (List.cons.inj h).1
  · unfold typeOfWord
    split
    · next h => exact absurd (List.cons.inj h).1 (hne '\'' rfl)
    · next h =>
      have hx := hpart 'x' (by rw [h]; simp)
      cases hx
    · next h => exact absurd (List.cons.inj h).1 (hne 'N' rfl)
    · next h => exact absurd (List.cons.inj h).1 (hne 't' rfl)
    · next h => exact absurd (List.cons.inj h).1 (hne 'f' rfl)
    · rfl

namespace Binary

open Format

variable {f : Format} {x y : Binary f}

theorem plainText_of_isNaN (h : x.isNaN = true) : x.plainText = "NaN" := by
  rw [isNaN_iff] at h
  rw [plainText, Layout.text, reading_eq]
  simp only [h, ↓reduceIte]
  rfl

theorem plainText_of_infinite (h : x.pattern % f.signWeight = f.infinity) :
    x.plainText = if x.signBit then "-inf" else "inf" := by
  rw [plainText, Layout.text, reading_eq]
  simp only [h, lt_irrefl, ↓reduceIte]
  cases x.signBit <;> rfl

/-- A number that is not NaN is finite or an infinity. -/
theorem finite_or_infinite (h : x.isNaN = false) :
    x.isFinite = true ∨ x.pattern % f.signWeight = f.infinity := by
  rw [Bool.eq_false_iff, ne_eq, isNaN_iff] at h
  rw [isFinite_iff]
  omega

theorem word_plainText (hf : f.fraction ≤ 54) (x : Binary f) : Word x.plainText.toList := by
  by_cases hn : x.isNaN = true
  · rw [plainText_of_isNaN hn]
    exact .of_all (by decide) rfl (by decide)
  · rw [Bool.not_eq_true] at hn
    rcases finite_or_infinite hn with h | h
    · obtain ⟨q, -, hwrites⟩ := exists_writes hf .plain h
      exact hwrites.word.1
    · rw [plainText_of_infinite h]
      cases x.signBit <;> exact .of_all (by decide) rfl (by decide)

theorem typeOfWord_plainText (hf : f.fraction ≤ 54) (h : x.isNaN = false) :
    typeOfWord x.plainText.toList = none := by
  rcases finite_or_infinite h with h | h
  · obtain ⟨q, -, hwrites⟩ := exists_writes hf .plain h
    exact hwrites.word.2
  · rw [plainText_of_infinite h]
    cases x.signBit <;> decide +kernel

/-- Numbers that are not NaN are told apart by their plain texts. -/
theorem plainText_injective (hpos : 0 < f.fraction) (hf : f.fraction ≤ 54) (hx : x.isNaN = false)
    (hy : y.isNaN = false) (h : x.plainText = y.plainText) : x = y := by
  have hunlike {z w : Binary f} (hz : z.isFinite = true) (hw : w.pattern % f.signWeight = f.infinity) :
      z.plainText ≠ w.plainText := by
    obtain ⟨q, -, l, hl, htext, -, -⟩ := exists_writes hf .plain hz
    have hpart := isNumberPart_toChars hl
    rw [htext] at hpart
    intro heq
    rw [← plainText, heq, plainText_of_infinite hw] at hpart
    have hletter := hpart 'i' (by cases w.signBit <;> decide +kernel)
    cases hletter
  rcases finite_or_infinite hx with hx | hx
  · rcases finite_or_infinite hy with hy | hy
    · exact text_injective hpos hf hx hy h
    · exact absurd h (hunlike hx hy)
  · rcases finite_or_infinite hy with hy | hy
    · exact absurd h.symm (hunlike hy hx)
    · rw [plainText_of_infinite hx, plainText_of_infinite hy] at h
      have hs : x.signBit = y.signBit := by
        cases hxs : x.signBit <;> cases hys : y.signBit <;> simp [hxs, hys] at h ⊢
      rw [← signed_eta x, ← signed_eta y, hs, hx, hy]

end Binary

end Numbers

namespace Scalar

variable {v w : Scalar} {number : DataType}

def literalText (v : Scalar) : String := (Expr.literal v).toText

/-- A string without quotes, or any other value. -/
def Unquoted : Scalar → Prop
  | .text s => '\'' ∉ s.toList
  | _ => True

/-- A value that its text shows, where numbers are all of one type. -/
def Shown (number : DataType) : Scalar → Prop
  | .text s => '\'' ∉ s.toList
  | .int32 _ => number = .int32
  | .int64 _ => number = .int64
  | .float32 v => number = .float32 ∧ v.isNaN = false
  | .float64 v => number = .float64 ∧ v.isNaN = false
  | _ => True

theorem Shown.unquoted (h : v.Shown number) : v.Unquoted := by
  cases v with
  | text s => exact h
  | _ => exact trivial

theorem literalText_text (s : String) : (text s).literalText.toList = '\'' :: (s.toList ++ ['\'']) := by
  simp [literalText, Expr.toText]

theorem literalText_binary (bytes : List UInt8) :
    (binary bytes).literalText.toList = '0' :: 'x' :: bytes.flatMap hexByte := by
  simp [literalText, Expr.toText, toText, hexOfBytes]

theorem word_literalText (h : ∀ s, v ≠ .text s) : Word v.literalText.toList := by
  cases v with
  | null => exact .of_all (by decide) rfl (by decide)
  | bool b => cases b <;> exact .of_all (by decide) rfl (by decide)
  | int32 n => exact (writes_int n.toInt).word.1
  | int64 n => exact (writes_int n.toInt).word.1
  | float32 x => exact Binary.word_plainText (by decide) x
  | float64 x => exact Binary.word_plainText (by decide) x
  | text s => exact absurd rfl (h s)
  | binary bytes =>
    rw [literalText_binary]
    refine ⟨List.cons_ne_nil _ _, ?_, by simp⟩
    simp only [List.forall_mem_cons]
    exact ⟨rfl, rfl, isWordPart_hexBytes bytes⟩

/-- The type of a value that is no number. -/
def otherType (v : Scalar) : Option DataType := if v.type.isNumeric then none else some v.type

theorem typeOfWord_literalText (h : v.Shown number) : typeOfWord v.literalText.toList = v.otherType := by
  cases v with
  | null => decide +kernel
  | bool b => cases b <;> decide +kernel
  | int32 n => exact (writes_int n.toInt).word.2
  | int64 n => exact (writes_int n.toInt).word.2
  | float32 x => exact Binary.typeOfWord_plainText (by decide) h.2
  | float64 x => exact Binary.typeOfWord_plainText (by decide) h.2
  | text s =>
    rw [literalText_text]
    rfl
  | binary bytes =>
    rw [literalText_binary]
    rfl

theorem Shown.type_of_isNumeric (h : v.Shown number) (hn : v.type.isNumeric = true) :
    v.type = number := by
  cases v with
  | int32 n => exact h.symm
  | int64 n => exact h.symm
  | float32 x => exact h.1.symm
  | float64 x => exact h.1.symm
  | _ => cases hn

theorem Shown.type_eq (hv : v.Shown number) (hw : w.Shown number) (h : v.literalText = w.literalText) :
    v.type = w.type := by
  have hother : v.otherType = w.otherType := by
    rw [← typeOfWord_literalText hv, ← typeOfWord_literalText hw, h]
  rw [otherType, otherType] at hother
  split at hother
  · next hnv =>
    split at hother
    · next hnw => rw [hv.type_of_isNumeric hnv, hw.type_of_isNumeric hnw]
    · cases hother
  · split at hother
    · cases hother
    · exact Option.some.inj hother

/-- Values that their texts show are told apart by them. -/
theorem Shown.literalText_injective (hv : v.Shown number) (hw : w.Shown number) (h : v.literalText = w.literalText) :
    v = w := by
  have htype := hv.type_eq hw h
  cases v <;> cases w <;> try cases htype
  case null.null => rfl
  case bool.bool a b =>
    have htexts : (bool true).literalText ≠ (bool false).literalText := by decide +kernel
    cases a <;> cases b
    · rfl
    · exact absurd h.symm htexts
    · exact absurd h htexts
    · rfl
  case int32.int32 a b => rw [Int32.toInt_inj.mp (Json.ofInt_inj.mp (congrArg Json.number h))]
  case int64.int64 a b => rw [Int64.toInt_inj.mp (Json.ofInt_inj.mp (congrArg Json.number h))]
  case float32.float32 a b =>
    rw [Binary.plainText_injective (by decide) (by decide) hv.2 hw.2 h]
  case float64.float64 a b =>
    rw [Binary.plainText_injective (by decide) (by decide) hv.2 hw.2 h]
  case text.text a b =>
    have htext := congrArg String.toList h
    rw [literalText_text, literalText_text] at htext
    rw [String.toList_inj.mp (List.append_cancel_right (List.cons.inj htext).2)]
  case binary.binary a b =>
    have hbytes := congrArg String.toList h
    rw [literalText_binary, literalText_binary] at hbytes
    rw [hexBytes_inj (List.cons.inj (List.cons.inj hbytes).2).2]

end Scalar

end FlowPlan
