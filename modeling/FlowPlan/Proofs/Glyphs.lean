import FlowPlan.Proofs.LiteralText
import FlowPlan.Proofs.Printer

namespace FlowPlan

open Text

/-- A word, or a string between quotes that holds none. -/
def Text.Legible (text : List Char) : Prop :=
  Word text ∨ ∃ s, '\'' ∉ s ∧ text = '\'' :: (s ++ ['\''])

theorem Scalar.Unquoted.legible {v : Scalar} (h : v.Unquoted) : Legible v.literalText.toList := by
  cases v with
  | text s => exact .inr ⟨s.toList, h, Scalar.literalText_text s⟩
  | _ => exact .inl (Scalar.word_literalText (by simp))

namespace Expr

/-- What stands in the text of an expression besides columns and literals, with its blanks. -/
inductive Mark where
  | opens
  | closes
  | negates
  | compares (op : Comparison)
  | computes (op : Arithmetic)
  | and
  | or
  | isNull
  | isNotNull
  deriving DecidableEq

/-- A column, a literal with its text, or a mark. -/
inductive Glyph where
  | column (index : Nat)
  | literal (text : String)
  | mark (m : Mark)

namespace Mark

def text : Mark → String
  | .opens => "("
  | .closes => ")"
  | .negates => "NOT ("
  | .compares op => " " ++ op.symbol ++ " "
  | .computes op => " " ++ op.symbol ++ " "
  | .and => " AND "
  | .or => " OR "
  | .isNull => " IS NULL"
  | .isNotNull => " IS NOT NULL"

def all : List Mark :=
  [.opens, .closes, .negates, .and, .or, .isNull, .isNotNull] ++
    [Comparison.eq, .notEq, .lt, .ltEq, .gt, .gtEq].map compares ++
    [Arithmetic.add, .sub, .mul, .div].map computes

theorem mem_all (m : Mark) : m ∈ all := by
  cases m with
  | compares op => cases op <;> decide
  | computes op => cases op <;> decide
  | _ => decide

theorem prefix_free_all : ∀ m ∈ all, ∀ n ∈ all, m.text.toList <+: n.text.toList → m = n := by
  decide +kernel

/-- No mark is the beginning of another. -/
theorem prefix_free {m n : Mark} (h : m.text.toList <+: n.text.toList) : m = n :=
  prefix_free_all m m.mem_all n n.mem_all h

/-- A mark begins neither like a column nor like a string, and like a word only if it negates. -/
def startsApart (m : Mark) : Bool :=
  match m.text.toList with
  | [] => false
  | c :: _ => c != '$' && c != '\'' && (m == .negates || !isWordPart c)

theorem startsApart_all : ∀ m ∈ all, m.startsApart = true := by
  decide +kernel

theorem exists_head (m : Mark) : ∃ c rest, m.text.toList = c :: rest ∧ c ≠ '$' ∧ c ≠ '\'' ∧
    (m ≠ .negates → isWordPart c = false) := by
  have h := startsApart_all m m.mem_all
  unfold startsApart at h
  split at h
  · cases h
  · next c rest htext =>
    simp only [Bool.and_eq_true, bne_iff_ne, Bool.or_eq_true, beq_iff_eq, Bool.not_eq_true'] at h
    exact ⟨c, rest, htext, h.1.1, h.1.2, h.2.resolve_left⟩

end Mark

namespace Glyph

variable {a b : Glyph} {x y : List Char}

def chars : Glyph → List Char
  | .column i => '$' :: Nat.toDigits 10 i
  | .literal text => text.toList
  | .mark m => m.text.toList

/-- A glyph whose characters show it. -/
def Shows : Glyph → Prop
  | .literal text => Legible text.toList
  | _ => True

/-- Whether a glyph may stand right after another: columns and literals do not go on. -/
def Precedes : Glyph → Glyph → Prop
  | .mark _, _ => True
  | _, .mark m => m ≠ .negates
  | _, _ => False

/-- Characters that do not go on with a word. -/
def Ends (x : List Char) : Prop := ∀ c ∈ x.head?, isWordPart c = false

theorem isWordPart_toDigits (i : Nat) : ∀ c ∈ Nat.toDigits 10 i, isWordPart c = true := by
  intro c hc
  have hdigit := Decimal.isDigit_toDigits i c hc
  simp [isWordPart, Char.isAlphanum, hdigit]

/-- Words that something ends are told apart by the characters from their beginnings on. -/
theorem run_inj {v w : List Char} (hv : ∀ c ∈ v, isWordPart c = true)
    (hw : ∀ c ∈ w, isWordPart c = true) (hx : Ends x) (hy : Ends y) (h : v ++ x = w ++ y) : v = w := by
  rw [← (takeWhile_run x hv hx).1, h, (takeWhile_run y hw hy).1]

theorem quoted_inj {s t : List Char} (hs : '\'' ∉ s) (ht : '\'' ∉ t)
    (h : s ++ '\'' :: x = t ++ '\'' :: y) : s = t := by
  have hrun {s x : List Char} (hs : '\'' ∉ s) : (s ++ '\'' :: x).takeWhile (· != '\'') = s := by
    refine (takeWhile_run ('\'' :: x) ?_ (by simp)).1
    intro c hc
    exact bne_iff_ne.mpr fun hquote => hs (hquote ▸ hc)
  rw [← hrun hs, h, hrun ht]

theorem column_inj {i j : Nat} (hx : Ends x) (hy : Ends y)
    (h : (column i).chars ++ x = (column j).chars ++ y) : i = j := by
  have hdigits := run_inj (isWordPart_toDigits i) (isWordPart_toDigits j) hx hy (List.cons.inj h).2
  rw [← Decimal.natural_toDigits i, hdigits, Decimal.natural_toDigits]

theorem mark_inj {m n : Mark} (h : (mark m).chars ++ x = (mark n).chars ++ y) : m = n := by
  have hm : m.text.toList <+: n.text.toList ++ y := ⟨x, h⟩
  rcases List.prefix_or_prefix_of_prefix hm (List.prefix_append _ y) with hmn | hnm
  · exact m.prefix_free hmn
  · exact (n.prefix_free hnm).symm

theorem column_ne_mark {i : Nat} {m : Mark} : (column i).chars ++ x ≠ (mark m).chars ++ y := by
  intro h
  obtain ⟨c, rest, htext, hcolumn, -, -⟩ := m.exists_head
  rw [chars, chars, htext] at h
  exact hcolumn (List.cons.inj h).1.symm

theorem column_ne_literal {i : Nat} {text : String} (ht : Legible text.toList) :
    (column i).chars ++ x ≠ (literal text).chars ++ y := by
  intro h
  rw [chars, chars] at h
  rcases ht with hword | ⟨s, -, hquoted⟩
  · obtain ⟨c, rest, hc⟩ := List.exists_cons_of_ne_nil hword.nonempty
    rw [hc] at h
    have hpart := hword.parts '$' (by rw [hc, (List.cons.inj h).1]; exact List.mem_cons_self)
    cases hpart
  · rw [hquoted] at h
    cases (List.cons.inj h).1

theorem literal_ne_mark {text : String} {m : Mark} (ht : Legible text.toList) (hx : Ends x) :
    (literal text).chars ++ x ≠ (mark m).chars ++ y := by
  intro h
  obtain ⟨c, rest, hm, -, hquote, hstart⟩ := m.exists_head
  rw [chars, chars] at h
  rcases ht with hword | ⟨s, -, hquoted⟩
  · by_cases hnegates : m = .negates
    · have hsplit : m.text.toList ++ y = ['N', 'O', 'T'] ++ ' ' :: '(' :: y := by
        rw [hnegates]
        rfl
      rw [hsplit] at h
      have hnot : ∀ c ∈ ['N', 'O', 'T'], isWordPart c = true := List.all_eq_true.mp rfl
      have hend : Ends (' ' :: '(' :: y) := by
        intro c hc
        cases hc
        rfl
      exact hword.unlikeNot (run_inj hword.parts hnot hx hend h)
    · obtain ⟨d, more, hd⟩ := List.exists_cons_of_ne_nil hword.nonempty
      rw [hd, hm] at h
      have hpart := hword.parts c (by rw [hd, (List.cons.inj h).1]; exact List.mem_cons_self)
      rw [hstart hnegates] at hpart
      cases hpart
  · rw [hquoted, hm] at h
    exact hquote (List.cons.inj h).1.symm

theorem literal_inj {text other : String} (ht : Legible text.toList) (ho : Legible other.toList)
    (hx : Ends x) (hy : Ends y) (h : (literal text).chars ++ x = (literal other).chars ++ y) :
    text = other := by
  -- a word does not begin with a quote
  have hmixed {text other : String} {x y : List Char} (hword : Word text.toList) {s : List Char}
      (hquoted : other.toList = '\'' :: (s ++ ['\''])) :
      (literal text).chars ++ x ≠ (literal other).chars ++ y := by
    intro h
    obtain ⟨c, rest, hc⟩ := List.exists_cons_of_ne_nil hword.nonempty
    rw [chars, chars, hc, hquoted] at h
    have hpart := hword.parts '\'' (by rw [hc, (List.cons.inj h).1]; exact List.mem_cons_self)
    cases hpart
  apply String.toList_inj.mp
  rcases ht with hword | ⟨s, hs, hquoted⟩
  · rcases ho with hother | ⟨t, -, hother⟩
    · exact run_inj hword.parts hother.parts hx hy h
    · exact absurd h (hmixed hword hother)
  · rcases ho with hother | ⟨t, ht, hother⟩
    · exact absurd h.symm (hmixed hother hquoted)
    · rw [chars, chars, hquoted, hother, List.cons_append, List.cons_append, List.append_assoc,
        List.append_assoc] at h
      rw [hquoted, hother, quoted_inj hs ht (List.cons.inj h).2]

/-- The characters from a glyph on show it, if they do not go on where it ends. -/
theorem first_eq (ha : a.Shows) (hb : b.Shows) (hx : (∀ m, a ≠ .mark m) → Ends x)
    (hy : (∀ m, b ≠ .mark m) → Ends y) (h : a.chars ++ x = b.chars ++ y) : a = b := by
  cases a with
  | column i =>
    cases b with
    | column j => rw [column_inj (hx (by simp)) (hy (by simp)) h]
    | literal text => exact absurd h (column_ne_literal hb)
    | mark m => exact absurd h column_ne_mark
  | literal text =>
    cases b with
    | column j => exact absurd h.symm (column_ne_literal ha)
    | literal other => rw [literal_inj ha hb (hx (by simp)) (hy (by simp)) h]
    | mark m => exact absurd h (literal_ne_mark ha (hx (by simp)))
  | mark m =>
    cases b with
    | column j => exact absurd h.symm column_ne_mark
    | literal text => exact absurd h.symm (literal_ne_mark hb (hy (by simp)))
    | mark n => rw [mark_inj h]

end Glyph

/-- Glyphs none of which goes on where the one before it ends. -/
structure Spaced (row : List Glyph) : Prop where
  shows : ∀ g ∈ row, g.Shows
  chain : row.IsChain Glyph.Precedes

namespace Spaced

variable {row other : List Glyph} {m : Mark}

theorem tail {g : Glyph} (h : Spaced (g :: row)) : Spaced row :=
  ⟨fun k hk => h.shows k (List.mem_cons_of_mem g hk), h.chain.tail⟩

/-- After a column or a literal nothing goes on. -/
theorem ends {g : Glyph} (h : Spaced (g :: row)) (hg : ∀ m, g ≠ .mark m) :
    Glyph.Ends (row.flatMap Glyph.chars) := by
  intro c hc
  cases row with
  | nil => cases hc
  | cons next rest =>
    have hnext := (List.isChain_cons.mp h.chain).1 next rfl
    cases next with
    | mark m =>
      obtain ⟨d, more, htext, -, -, hstart⟩ := m.exists_head
      rw [List.flatMap_cons, Glyph.chars, htext] at hc
      cases hc
      cases g with
      | mark n => exact absurd rfl (hg n)
      | _ => exact hstart hnext
    | _ =>
      cases g with
      | mark n => exact absurd rfl (hg n)
      | _ => cases hnext

/-- Spaced glyphs are read off their characters. -/
theorem chars_injective (h : Spaced row) (ho : Spaced other)
    (heq : row.flatMap Glyph.chars = other.flatMap Glyph.chars) : row = other := by
  have hne (g : Glyph) (hg : g.Shows) : g.chars ≠ [] := by
    cases g with
    | column i => exact List.cons_ne_nil _ _
    | literal text =>
      rcases hg with hword | ⟨s, -, hquoted⟩
      · exact hword.nonempty
      · intro hnil
        rw [Glyph.chars, hquoted] at hnil
        cases hnil
    | mark m =>
      obtain ⟨c, rest, htext, -⟩ := m.exists_head
      rw [Glyph.chars, htext]
      exact List.cons_ne_nil c rest
  induction row generalizing other with
  | nil =>
    cases other with
    | nil => rfl
    | cons b rest =>
      rw [List.flatMap_cons] at heq
      exact absurd (List.append_eq_nil_iff.mp heq.symm).1 (hne b (ho.shows b List.mem_cons_self))
  | cons a row ih =>
    cases other with
    | nil =>
      rw [List.flatMap_cons] at heq
      exact absurd (List.append_eq_nil_iff.mp heq).1 (hne a (h.shows a List.mem_cons_self))
    | cons b rest =>
      rw [List.flatMap_cons, List.flatMap_cons] at heq
      obtain rfl := Glyph.first_eq (h.shows a List.mem_cons_self) (ho.shows b List.mem_cons_self)
        h.ends ho.ends heq
      rw [ih h.tail ho.tail (List.append_cancel_left heq)]

theorem single {g : Glyph} (h : g.Shows) : Spaced [g] :=
  ⟨by simpa using h, .singleton g⟩

/-- Anything may follow a mark. -/
theorem cons (m : Mark) (h : Spaced row) : Spaced (.mark m :: row) :=
  ⟨List.forall_mem_cons.mpr ⟨trivial, h.shows⟩, h.chain.cons fun _ _ => trivial⟩

/-- A mark that is not the one of a negation may follow anything. -/
theorem append (h : Spaced row) (hm : m ≠ .negates) (ho : Spaced other) :
    Spaced (row ++ .mark m :: other) := by
  have hmark := ho.cons m
  refine ⟨List.forall_mem_append.mpr ⟨h.shows, hmark.shows⟩, h.chain.append hmark.chain ?_⟩
  intro a _ b hb
  cases hb
  cases a with
  | mark n => trivial
  | _ => exact hm

theorem nil : Spaced [] := ⟨by simp, .nil⟩

theorem close (h : Spaced row) (hm : m ≠ .negates) : Spaced (row ++ [.mark m]) := h.append hm nil

end Spaced

section Rows

variable (spell : Scalar → String)

mutual

/-- The glyphs of an expression, for some spelling of its literals. -/
def glyphs : Expr → List Glyph
  | .column i => [.column i]
  | .literal v => [.literal (spell v)]
  | .compare op l r => glyphs l ++ .mark (.compares op) :: glyphs r
  | .arithmetic op l r =>
    .mark .opens :: (glyphs l ++ .mark (.computes op) :: (glyphs r ++ [.mark .closes]))
  | .and items => .mark .opens :: (glyphsOf .and items ++ [.mark .closes])
  | .or items => .mark .opens :: (glyphsOf .or items ++ [.mark .closes])
  | .not e => .mark .negates :: (glyphs e ++ [.mark .closes])
  | .isNull e => glyphs e ++ [.mark .isNull]
  | .isNotNull e => glyphs e ++ [.mark .isNotNull]

/-- The glyphs of several expressions with a mark between them. -/
def glyphsOf (separator : Mark) : List Expr → List Glyph
  | [] => []
  | [e] => glyphs e
  | e :: rest => glyphs e ++ .mark separator :: glyphsOf separator rest

end

theorem glyphsOf_several (separator : Mark) (e next : Expr) (rest : List Expr) :
    glyphsOf spell separator (e :: next :: rest) =
      glyphs spell e ++ .mark separator :: glyphsOf spell separator (next :: rest) := rfl

end Rows

/-- The glyphs of the text that an expression has. -/
def textGlyphs (e : Expr) : List Glyph := e.glyphs Scalar.literalText

mutual

theorem toText_glyphs : (e : Expr) → e.toText.toList = (e.glyphs Scalar.literalText).flatMap Glyph.chars
  | .column i => by
    simp [toText, glyphs, Glyph.chars]
    rfl
  | .literal v => by simp [glyphs, Glyph.chars, Scalar.literalText]
  | .compare op l r => by
    simp [toText, glyphs, Glyph.chars, Mark.text, toText_glyphs l, toText_glyphs r]
  | .arithmetic op l r => by
    simp [toText, glyphs, Glyph.chars, Mark.text, toText_glyphs l, toText_glyphs r]
  | .and items => by
    have hitems := texts_glyphs .and items
    rw [Mark.text] at hitems
    simp [toText, glyphs, Glyph.chars, Mark.text, hitems]
  | .or items => by
    have hitems := texts_glyphs .or items
    rw [Mark.text] at hitems
    simp [toText, glyphs, Glyph.chars, Mark.text, hitems]
  | .not e => by simp [toText, glyphs, Glyph.chars, Mark.text, toText_glyphs e]
  | .isNull e => by simp [toText, glyphs, Glyph.chars, Mark.text, toText_glyphs e]
  | .isNotNull e => by simp [toText, glyphs, Glyph.chars, Mark.text, toText_glyphs e]

theorem texts_glyphs (separator : Mark) : (items : List Expr) →
    (joined separator.text (texts items)).toList = (glyphsOf Scalar.literalText separator items).flatMap Glyph.chars
  | [] => by simp [texts, joined, glyphsOf]
  | [e] => by simp [texts, joined, glyphsOf, toText_glyphs e]
  | e :: next :: rest => by
    have hrest := texts_glyphs separator (next :: rest)
    rw [texts] at hrest
    simp [texts, joined, glyphsOf, toText_glyphs e, hrest, Glyph.chars]

end

mutual

theorem spaced_glyphs : (e : Expr) → (∀ v ∈ e.literals, v.Unquoted) → Spaced (e.glyphs Scalar.literalText)
  | .column i, _ => .single trivial
  | .literal v, h => .single (Scalar.Unquoted.legible (h v (by simp [literals])))
  | .compare op l r, h => by
    simp only [literals, List.forall_mem_append] at h
    exact (spaced_glyphs l h.1).append (by simp) (spaced_glyphs r h.2)
  | .arithmetic op l r, h => by
    simp only [literals, List.forall_mem_append] at h
    exact ((spaced_glyphs l h.1).append (by simp) ((spaced_glyphs r h.2).close (by simp))).cons _
  | .and items, h => ((spaced_glyphsOf (by simp) items h).close (by simp)).cons _
  | .or items, h => ((spaced_glyphsOf (by simp) items h).close (by simp)).cons _
  | .not e, h => ((spaced_glyphs e h).close (by simp)).cons _
  | .isNull e, h => (spaced_glyphs e h).close (by simp)
  | .isNotNull e, h => (spaced_glyphs e h).close (by simp)

theorem spaced_glyphsOf {separator : Mark} (hs : separator ≠ .negates) : (items : List Expr) →
    (∀ v ∈ literalsOf items, v.Unquoted) → Spaced (glyphsOf Scalar.literalText separator items)
  | [], _ => .nil
  | [e], h => spaced_glyphs e (by simpa [literalsOf] using h)
  | e :: next :: rest, h => by
    rw [literalsOf, List.forall_mem_append] at h
    exact (spaced_glyphs e h.1).append hs (spaced_glyphsOf hs (next :: rest) h.2)

end

/-- Without quotes in strings, expressions have the same text only if they have the same glyphs. -/
theorem toText_eq_iff {e other : Expr} (he : ∀ v ∈ e.literals, v.Unquoted)
    (ho : ∀ v ∈ other.literals, v.Unquoted) : e.toText = other.toText ↔ e.textGlyphs = other.textGlyphs := by
  rw [textGlyphs, textGlyphs, ← String.toList_inj, toText_glyphs, toText_glyphs]
  exact ⟨(spaced_glyphs e he).chars_injective (spaced_glyphs other ho), congrArg _⟩

end Expr

end FlowPlan
