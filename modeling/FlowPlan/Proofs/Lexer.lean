import FlowPlan.Expr.Token
import FlowPlan.Proofs.Decimals
import FlowPlan.Proofs.Outcome

namespace FlowPlan

open Outcome

/-- A character that starts a number. -/
def Token.startsNumber (c : Char) : Bool := c.isDigit || c == '.'

/-- A number starts with a digit or a point. -/
def Token.Lexed : Token → Prop
  | .number text => ∃ c rest, text.toList = c :: rest ∧ Token.startsNumber c = true
  | _ => True

/-- The words that are no names. -/
def Token.keywords : List String := ["TRUE", "FALSE", "NULL", "NOT", "AND", "OR", "IS"]

/-- A quoted run: the delimiter around a text in which it is doubled. -/
def Token.enclosed (d : Char) (text : List Char) : List Char :=
  d :: text.flatMap (fun c => if c = d then [d, d] else [c]) ++ [d]

namespace Token

def spell : Token → List Char
  | .word s => s.toList
  | .quoted s => enclosed '"' s.toList
  | .number s => s.toList
  | .string s => enclosed '\'' s.toList
  | .compare op => op.symbol.toList
  | .plus => ['+']
  | .minus => ['-']
  | .times => ['*']
  | .over => ['/']
  | .leftParen => ['(']
  | .rightParen => [')']

/-- Words are keywords, and numbers are runs of the characters of numbers. -/
def Spellable : Token → Prop
  | .word s => s ∈ keywords
  | .number s => ∃ c rest, s.toList = c :: rest ∧ startsNumber c = true ∧
      ∀ d ∈ rest, isNumberPart d = true
  | _ => True

theorem Spellable.word {s : String} (h : s ∈ keywords) : Spellable (.word s) := h

/-- A text that no token before it goes on in. -/
def Apart : List Char → Prop
  | [] => True
  | c :: _ => c = ' ' ∨ c = ')'

/-- Tokens that end wherever they stand. -/
def endsItself : Token → Bool
  | .leftParen => true
  | .minus => true
  | _ => false

variable {c d : Char} {text rest tail : List Char} {t : Token}

theorem comparison_lexed {bare extended : Comparison}
    (h : (.ok (comparison bare extended rest) : Except SyntaxError _) = .ok (t, tail)) :
    t.Lexed := by
  unfold comparison at h
  split at h <;> cases h
  · trivial
  · trivial

theorem first_lexed (h : first c rest = .ok (t, tail)) : t.Lexed := by
  unfold first at h
  split at h
  case h_7 => exact comparison_lexed h
  case h_8 => split at h <;> cases h; trivial
  case h_9 =>
    split at h
    · cases h
      trivial
    · exact comparison_lexed h
  case h_10 => exact comparison_lexed h
  case h_11 =>
    obtain ⟨found, -, h⟩ := map_eq_ok.mp h
    cases h
    trivial
  case h_12 =>
    obtain ⟨found, -, h⟩ := map_eq_ok.mp h
    cases h
    trivial
  case h_13 =>
    split at h
    · rename_i hd
      cases h
      exact ⟨c, _, String.toList_ofList, hd⟩
    · split at h <;> cases h
      trivial
  all_goals
    cases h
    trivial

theorem ofChars_blank (hc : Text.isBlank c = true) : ofChars (c :: rest) = ofChars rest := by
  rw [ofChars, if_pos hc]

theorem ofChars_first (hc : Text.isBlank c = false) (h : first c rest = .ok (t, tail)) :
    ofChars (c :: rest) = (t :: ·) <$> ofChars tail := by
  rw [ofChars]
  simp only [hc, Bool.false_eq_true, ↓reduceIte]
  split
  · rename_i e he
    simp [h] at he
  · rename_i t' tail' he
    obtain ⟨rfl, rfl⟩ : t = t' ∧ tail = tail' := by simpa [h] using he
    rfl

/-- Numbers come out of a text as numbers start. -/
theorem ofChars_lexed : (text : List Char) → {ts : List Token} → ofChars text = .ok ts →
    ∀ t ∈ ts, t.Lexed
  | [], ts, h => by
    rw [ofChars] at h
    cases h
    simp
  | c :: rest, ts, h => by
    cases hb : Text.isBlank c with
    | true =>
      rw [ofChars_blank hb] at h
      exact ofChars_lexed rest h
    | false =>
      cases hf : first c rest with
      | error e =>
        rw [ofChars] at h
        simp only [hb, Bool.false_eq_true, ↓reduceIte] at h
        split at h
        · cases h
        · rename_i he
          simp [hf] at he
      | ok found =>
        obtain ⟨t, tail⟩ := found
        have := length_of_first hf
        rw [ofChars_first hb hf] at h
        obtain ⟨more, hmore, rfl⟩ := map_eq_ok.mp h
        intro u hu
        rcases List.mem_cons.mp hu with rfl | hu
        · exact first_lexed hf
        · exact ofChars_lexed tail hmore u hu
termination_by text => text.length
decreasing_by all_goals (simp only [List.length_cons]; omega)

theorem delimited_other (read : List Char) (hc : c ≠ d) :
    delimited d read (c :: rest) = delimited d (read ++ [c]) rest := by
  cases rest with
  | nil => simp [delimited, hc]
  | cons e rest => simp [delimited, hc]

/-- What is enclosed is read up to the delimiter that is not doubled. -/
theorem delimited_enclosed (read : List Char) (hd : rest.head? ≠ some d) :
    delimited d read (text.flatMap (fun c => if c = d then [d, d] else [c]) ++ d :: rest) =
      .ok (read ++ text, rest) := by
  induction text generalizing read with
  | nil =>
    cases rest with
    | nil => simp [delimited]
    | cons e rest =>
      have he : e ≠ d := fun he => hd (by simp [he])
      simp [delimited, he]
  | cons c text ih =>
    by_cases hc : c = d
    · subst hc
      simp [delimited, ih]
    · simp only [List.flatMap_cons, hc, ↓reduceIte, List.cons_append, List.nil_append,
        delimited_other read hc, ih, List.append_assoc]

theorem startsNumber_of_isDigit (h : c.isDigit = true) : startsNumber c = true := by
  simp [startsNumber, h]

theorem isNumberPart_of_isDigit (h : c.isDigit = true) : isNumberPart c = true := by
  simp [isNumberPart, Char.isAlphanum, h]

/-- Blanks are told apart from the characters that start a number. -/
theorem isBlank_of_startsNumber (h : startsNumber c = true) : Text.isBlank c = false := by
  have hrange : 46 ≤ c.toNat ∧ c.toNat ≤ 57 := by
    rcases Bool.or_eq_true_iff.mp h with hd | hp
    · have := Char.isDigit_iff_toNat.mp hd
      exact ⟨Nat.le_trans (by decide) this.1, this.2⟩
    · obtain rfl := eq_of_beq hp
      decide
  simp only [Text.isBlank, Text.inRanges, Text.blankRanges, List.any_cons, List.any_nil,
    Bool.or_eq_false_iff, Bool.and_eq_false_iff, decide_eq_false_iff_not, and_true]
  omega

theorem first_number (h : startsNumber c = true) : first c rest =
    .ok (.number (String.ofList (c :: rest.takeWhile isNumberPart)),
      rest.dropWhile isNumberPart) := by
  have hne : ∀ e : Char, startsNumber e = false → c ≠ e := by
    rintro e he rfl
    simp [h] at he
  unfold first
  split
  case h_13 => exact if_pos h
  all_goals exact absurd rfl (hne _ (by decide))

theorem Apart.head {p : Char → Bool} (ha : Apart rest) (hb : p ' ' = false) (hp : p ')' = false) :
    ∀ c ∈ rest.head?, p c = false := by
  cases rest with
  | nil => simp
  | cons c rest =>
    intro d hd
    obtain rfl : c = d := by simpa using hd
    rcases ha with rfl | rfl
    · exact hb
    · exact hp

/-- A number ends where the text goes on with anything else than a letter, a digit or a point. -/
theorem ofChars_number {s : String} (hs : Spellable (.number s))
    (hr : ∀ c ∈ rest.head?, isNumberPart c = false) :
    ofChars (spell (.number s) ++ rest) = (.number s :: ·) <$> ofChars rest := by
  obtain ⟨c, digits, hc, hstart, hpart⟩ := hs
  obtain ⟨htake, hdrop⟩ := Text.takeWhile_run rest hpart hr
  have hfirst : first c (digits ++ rest) = .ok (.number s, rest) := by
    rw [first_number hstart, htake, hdrop, ← hc, String.ofList_toList]
  rw [spell, hc, List.cons_append, ofChars_first (isBlank_of_startsNumber hstart) hfirst]

theorem head?_of_apart (ha : Apart rest) (hb : d ≠ ' ') (hp : d ≠ ')') : rest.head? ≠ some d := by
  cases rest with
  | nil => simp
  | cons c rest =>
    rintro he
    obtain rfl : c = d := by simpa using he
    exact ha.elim hb hp

theorem ofChars_quoted {s : String} (ha : Apart rest) :
    ofChars (spell (.quoted s) ++ rest) = (.quoted s :: ·) <$> ofChars rest := by
  have hfirst : first '"' (s.toList.flatMap (fun c => if c = '"' then ['"', '"'] else [c]) ++
      '"' :: rest) = .ok (.quoted s, rest) := by
    rw [first, delimited_enclosed [] (head?_of_apart ha (by decide) (by decide)), Except.map_ok,
      List.nil_append]
    simp only [String.ofList_toList]
  rw [spell, enclosed, List.append_assoc, List.cons_append, List.singleton_append,
    ofChars_first (by decide) hfirst]

theorem ofChars_string {s : String} (ha : Apart rest) :
    ofChars (spell (.string s) ++ rest) = (.string s :: ·) <$> ofChars rest := by
  have hfirst : first '\'' (s.toList.flatMap (fun c => if c = '\'' then ['\'', '\''] else [c]) ++
      '\'' :: rest) = .ok (.string s, rest) := by
    rw [first, delimited_enclosed [] (head?_of_apart ha (by decide) (by decide)), Except.map_ok,
      List.nil_append]
    simp only [String.ofList_toList]
  rw [spell, enclosed, List.append_assoc, List.cons_append, List.singleton_append,
    ofChars_first (by decide) hfirst]

theorem first_word (hs : startsNumber c = false)
    (hc : Text.isLetter c = true) : first c rest =
    .ok (.word (String.ofList (c :: rest.takeWhile isWordPart)), rest.dropWhile isWordPart) := by
  have hne : ∀ e : Char, Text.isLetter e = false → c ≠ e := by
    rintro e he rfl
    simp [hc] at he
  unfold first
  split
  case h_13 =>
    rw [if_neg (by simpa [startsNumber] using hs), if_pos (by simp [hc])]
  all_goals exact absurd rfl (hne _ (by decide))

theorem ofChars_word {s : String} (hs : s ∈ keywords) (ha : Apart rest) :
    ofChars (spell (.word s) ++ rest) = (.word s :: ·) <$> ofChars rest := by
  have hword : ∃ c letters, s.toList = c :: letters ∧ Text.isLetter c = true ∧
      startsNumber c = false ∧ Text.isBlank c = false ∧ ∀ d ∈ letters, isWordPart d = true := by
    simp only [keywords, List.mem_cons, List.not_mem_nil, or_false] at hs
    rcases hs with rfl | rfl | rfl | rfl | rfl | rfl | rfl <;>
      exact ⟨_, _, rfl, rfl, rfl, rfl, List.all_eq_true.mp rfl⟩
  obtain ⟨c, letters, hc, hletter, hstart, hblank, hpart⟩ := hword
  obtain ⟨htake, hdrop⟩ := Text.takeWhile_run rest hpart (ha.head (by decide) (by decide))
  have hfirst : first c (letters ++ rest) = .ok (.word s, rest) := by
    rw [first_word hstart hletter, htake, hdrop, ← hc, String.ofList_toList]
  rw [spell, hc, List.cons_append, ofChars_first hblank hfirst]

theorem ofChars_compare {op : Comparison} (ha : Apart rest) :
    ofChars (spell (.compare op) ++ rest) = (.compare op :: ·) <$> ofChars rest := by
  have hcomparison : ∀ bare extended, comparison bare extended rest = (.compare bare, rest) := by
    intro bare extended
    unfold comparison
    split
    · exact absurd rfl (head?_of_apart ha (d := '=') (by decide) (by decide))
    · rfl
  cases op with
  | eq => exact ofChars_first (by decide) (congrArg Except.ok (hcomparison .eq .eq))
  | notEq => exact ofChars_first (c := '<') (by decide) rfl
  | ltEq => exact ofChars_first (c := '<') (by decide) rfl
  | gtEq => exact ofChars_first (c := '>') (by decide) rfl
  | gt => exact ofChars_first (by decide) (congrArg Except.ok (hcomparison .gt .gtEq))
  | lt =>
    have hfirst : first '<' rest = .ok (.compare .lt, rest) := by
      simp only [first]
      split
      · exact absurd rfl (head?_of_apart ha (d := '>') (by decide) (by decide))
      · exact congrArg Except.ok (hcomparison .lt .ltEq)
    exact ofChars_first (by decide) hfirst

/-- A token is read off its spelling where the text goes on apart from it. -/
theorem ofChars_spell (hs : t.Spellable) (ha : endsItself t = true ∨ Apart rest) :
    ofChars (spell t ++ rest) = (t :: ·) <$> ofChars rest := by
  have happart : endsItself t = false → Apart rest := fun hn => ha.resolve_left (by simp [hn])
  cases t with
  | word s => exact ofChars_word hs (happart rfl)
  | quoted s => exact ofChars_quoted (happart rfl)
  | number s => exact ofChars_number hs ((happart rfl).head (by decide) (by decide))
  | string s => exact ofChars_string (happart rfl)
  | compare op => exact ofChars_compare (happart rfl)
  | plus => exact ofChars_first (by decide) rfl
  | minus => exact ofChars_first (by decide) rfl
  | times => exact ofChars_first (by decide) rfl
  | «over» => exact ofChars_first (by decide) rfl
  | leftParen => exact ofChars_first (by decide) rfl
  | rightParen => exact ofChars_first (by decide) rfl

end Token

/-- A token of a text, and whether a blank stands before it. -/
structure Piece where
  gap : Bool
  token : Token

namespace Piece

def chars (p : Piece) : List Char :=
  if p.gap then ' ' :: p.token.spell else p.token.spell

/-- Two pieces that stand side by side without running together. -/
def Joins (p q : Piece) : Prop :=
  q.gap = true ∨ p.token.endsItself = true ∨ q.token = .rightParen

theorem ofChars_blank_chars (p : Piece) (rest : List Char) :
    Token.ofChars (p.chars ++ rest) = Token.ofChars (p.token.spell ++ rest) := by
  unfold chars
  split
  · rw [List.cons_append, Token.ofChars_blank (by decide)]
  · rfl

/-- A text of pieces is read back piece by piece. -/
theorem ofChars_pieces : (ps : List Piece) → (∀ p ∈ ps, p.token.Spellable) → ps.IsChain Joins →
    Token.ofChars (ps.flatMap chars) = .ok (ps.map token)
  | [], hs, hj => by rw [List.flatMap_nil, Token.ofChars]; rfl
  | [p], hs, hj => by
    have hend : Token.Apart [] := trivial
    rw [List.flatMap_cons, List.flatMap_nil, ofChars_blank_chars,
      Token.ofChars_spell (hs p List.mem_cons_self) (.inr hend), Token.ofChars]
    rfl
  | p :: q :: rest, hs, hj => by
    have hnext := ofChars_pieces (q :: rest) (fun r hr => hs r (List.mem_cons_of_mem p hr)) hj.tail
    have happart : p.token.endsItself = true ∨ Token.Apart ((q :: rest).flatMap chars) := by
      rcases (List.isChain_cons_cons.mp hj).1 with hgap | hends | hparen
      · exact .inr (by simp [chars, hgap, Token.Apart])
      · exact .inl hends
      · refine .inr ?_
        rw [List.flatMap_cons, chars, hparen]
        cases q.gap <;> simp [Token.spell, Token.Apart]
    rw [List.flatMap_cons, ofChars_blank_chars,
      Token.ofChars_spell (hs p List.mem_cons_self) happart, hnext]
    rfl

variable {ps qs : List Piece}

/-- Pieces that can be spelled one after the other. -/
structure WellSpaced (ps : List Piece) : Prop where
  spellable : ∀ p ∈ ps, p.token.Spellable
  joins : ps.IsChain Joins

theorem WellSpaced.single {p : Piece} (h : p.token.Spellable) : WellSpaced [p] :=
  ⟨by simpa using h, .singleton p⟩

theorem WellSpaced.append (hp : WellSpaced ps) (hq : WellSpaced qs)
    (hj : ∀ q ∈ qs.head?, q.gap = true ∨ q.token = .rightParen) : WellSpaced (ps ++ qs) := by
  refine ⟨?_, List.isChain_append.mpr ⟨hp.joins, hq.joins, ?_⟩⟩
  · intro p hm
    exact (List.mem_append.mp hm).elim (hp.spellable p) (hq.spellable p)
  · intro p _ q hm
    exact (hj q hm).imp_right .inr

theorem WellSpaced.cons {p : Piece} (h : p.token.Spellable) (hp : WellSpaced ps)
    (hj : ∀ q ∈ ps.head?, Joins p q) : WellSpaced (p :: ps) := by
  refine ⟨?_, List.isChain_cons.mpr ⟨hj, hp.joins⟩⟩
  intro q hm
  rcases List.mem_cons.mp hm with rfl | hm
  · exact h
  · exact hp.spellable q hm

theorem WellSpaced.ofChars (h : WellSpaced ps) :
    Token.ofChars (ps.flatMap chars) = .ok (ps.map token) :=
  ofChars_pieces ps h.spellable h.joins

end Piece

end FlowPlan
