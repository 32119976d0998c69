import FlowPlan.Json.Read
import FlowPlan.Proofs.NumberText

namespace FlowPlan.Json

theorem hexNatural?_control : ∀ n < 32,
    Text.hexNatural? ('0' :: '0' :: Text.hexByte n.toUInt8) = some n := by
  decide

/-- A control character is no half of a pair. -/
theorem joinUnits_control {n : Nat} (h : n < 32) (units : List StringUnit) :
    joinUnits (.code n :: units) = (Char.ofNat n :: ·) <$> joinUnits units := by
  have hhigh : isHighHalf n = false := by
    simp only [isHighHalf, Bool.and_eq_false_iff, decide_eq_false_iff_not]
    omega
  have hlow : isLowHalf n = false := by
    simp only [isLowHalf, Bool.and_eq_false_iff, decide_eq_false_iff_not]
    omega
  cases units with
  | nil => simp [joinUnits, hhigh, hlow]
  | cons unit rest => cases unit <;> simp [joinUnits, hhigh, hlow]

/-- An escaped character is one unit, which stands for the character. -/
theorem exists_unit (c : Char) : ∃ unit : StringUnit,
    (∀ text, stringUnits (escaped c ++ text) =
      (stringUnits text).map fun p => (unit :: p.1, p.2)) ∧
    ∀ units, joinUnits (unit :: units) = (c :: ·) <$> joinUnits units := by
  have hchar : ∀ d units, joinUnits (.char d :: units) = (d :: ·) <$> joinUnits units :=
    fun _ _ => by rw [joinUnits]
  have hshort : ∀ e d : Char, e ≠ 'u' → shortEscape? e = some d → ∀ text,
      stringUnits ('\\' :: e :: text) = (stringUnits text).map fun p => (.char d :: p.1, p.2) := by
    intro e d hu he text
    rw [stringUnits]
    · simp only [he, Option.bind_eq_bind, Option.bind_some]
      cases stringUnits text <;> rfl
    · intro a b c d rest h
      exact absurd h hu
  unfold escaped
  split
  · exact ⟨.char '"', hshort '"' _ (by decide) rfl, hchar _⟩
  · exact ⟨.char '\\', hshort '\\' _ (by decide) rfl, hchar _⟩
  · exact ⟨.char '\n', hshort 'n' _ (by decide) rfl, hchar _⟩
  · exact ⟨.char '\r', hshort 'r' _ (by decide) rfl, hchar _⟩
  · exact ⟨.char '\t', hshort 't' _ (by decide) rfl, hchar _⟩
  · next hquote hslash _ _ _ =>
    split
    · next h =>
      have hc : c = Char.ofNat 8 := by rw [← h, Char.ofNat_toNat]
      rw [hc]
      exact ⟨.char (Char.ofNat 8), hshort 'b' _ (by decide) rfl, hchar _⟩
    · split
      · next h =>
        have hc : c = Char.ofNat 12 := by rw [← h, Char.ofNat_toNat]
        rw [hc]
        exact ⟨.char (Char.ofNat 12), hshort 'f' _ (by decide) rfl, hchar _⟩
      · split
        · next h =>
          refine ⟨.code c.toNat, ?_, ?_⟩
          · intro text
            have hhex := hexNatural?_control c.toNat h
            simp only [Text.hexByte] at hhex ⊢
            simp only [List.cons_append, List.nil_append, stringUnits, hhex]
            cases stringUnits text <;> rfl
          · intro units
            rw [joinUnits_control h, Char.ofNat_toNat]
        · next h =>
          refine ⟨.char c, ?_, hchar c⟩
          intro text
          have hplain : ¬(decide (c.toNat < 32) || c == '\\') = true := by simp_all
          rw [List.singleton_append, stringUnits]
          · rw [if_neg hplain]
            cases stringUnits text <;> rfl
          · exact hquote
          · intro _ _ _ _ _ hc
            exact absurd hc hslash
          · intro _ _ hc
            exact absurd hc hslash

theorem exists_units : (chars : List Char) → ∃ units,
    (∀ rest, stringUnits (chars.flatMap escaped ++ '"' :: rest) = some (units, rest)) ∧
      joinUnits units = some chars
  | [] => ⟨[], fun rest => by simp [stringUnits], rfl⟩
  | c :: chars => by
    obtain ⟨units, hread, hjoin⟩ := exists_units chars
    obtain ⟨unit, hescaped, hunit⟩ := exists_unit c
    refine ⟨unit :: units, ?_, ?_⟩
    · intro rest
      rw [List.flatMap_cons, List.append_assoc, hescaped, hread]
      rfl
    · rw [hunit, hjoin]
      rfl

/-- A string in quotes is read back as one token. -/
theorem firstToken_quoted (s : String) (rest : List Char) :
    firstToken '"' (s.toList.flatMap escaped ++ '"' :: rest) = some (.string (some s), rest) := by
  obtain ⟨units, hread, hjoin⟩ := exists_units s.toList
  simp only [firstToken, hread, Option.bind_eq_bind, Option.bind_some, hjoin, Option.map_some,
    String.ofList_toList]
  rfl

/-- The tokens of a text, with as much fuel as its length or more. -/
def Lexes (text : List Char) (ts : List Token) : Prop :=
  ∀ fuel, text.length ≤ fuel → tokens fuel text = some ts

/-- What follows a number does not go on with it. -/
def EndsNumber (rest : List Char) : Prop := ∀ c ∈ rest.head?, isNumberPart c = false

theorem Lexes.nil : Lexes [] [] := fun fuel _ => by
  cases fuel <;> rfl

theorem Lexes.first {c : Char} {rest tail : List Char} {t : Token} {ts : List Token}
    (hc : isSpace c = false) (ht : firstToken c rest = some (t, tail))
    (hlength : tail.length ≤ rest.length) (h : Lexes tail ts) : Lexes (c :: rest) (t :: ts) := by
  intro fuel hfuel
  rw [List.length_cons] at hfuel
  obtain ⟨fuel, rfl⟩ := Nat.exists_eq_add_one_of_ne_zero (show fuel ≠ 0 by omega)
  have hrest := h fuel (by omega)
  simp only [tokens, hc, Bool.false_eq_true, ↓reduceIte, ht, Option.bind_eq_bind, Option.bind_some,
    hrest, Option.map_eq_map, Option.map_some]

theorem Lexes.quoted {s : String} {rest : List Char} {ts : List Token} (h : Lexes rest ts) :
    Lexes ((quoted s).toList ++ rest) (.string (some s) :: ts) := by
  have htext : (Json.quoted s).toList ++ rest =
      '"' :: (s.toList.flatMap escaped ++ '"' :: rest) := by
    simp [Json.quoted]
  rw [htext]
  refine .first rfl (firstToken_quoted s rest) ?_ h
  simp only [List.length_append, List.length_cons]
  omega

theorem isNumberPart_digit {c : Char} (h : c.isDigit = true) : isNumberPart c = true := by
  simp [isNumberPart, h]

/-- Every character of a number is one that may stand in it. -/
theorem isNumberPart_toChars {l : Lexeme} (h : l.WellFormed) :
    ∀ c ∈ l.toChars, isNumberPart c = true := by
  obtain ⟨negative, whole, fraction, exponent⟩ := l
  have hwhole : ∀ c ∈ whole, isNumberPart c = true :=
    fun c hc => isNumberPart_digit (h.whole.2 c hc)
  have hfraction : ∀ c ∈ Lexeme.fractionChars fraction, isNumberPart c = true := by
    intro c hc
    cases fraction with
    | none => cases hc
    | some digits =>
      cases hc with
      | head => rfl
      | tail _ hc => exact isNumberPart_digit ((h.fraction digits rfl).2 c hc)
  have hexponent : ∀ c ∈ Lexeme.exponentChars exponent, isNumberPart c = true := by
    intro c hc
    cases exponent with
    | none => cases hc
    | some e =>
      cases hc with
      | head => rfl
      | tail _ hc =>
        cases hc with
        | head => split <;> rfl
        | tail _ hc => exact isNumberPart_digit ((h.exponent e rfl).2 c hc)
  intro c hc
  rw [Lexeme.toChars] at hc
  simp only [List.mem_append] at hc
  rcases hc with hc | hc | hc | hc
  · cases negative with
    | true =>
      rw [List.mem_singleton.mp hc]
      rfl
    | false => cases hc
  · exact hwhole c hc
  · exact hfraction c hc
  · exact hexponent c hc

/-- A number starts with a digit or a minus sign, as no other token does. -/
theorem exists_toChars {l : Lexeme} (h : l.WellFormed) :
    ∃ c rest, l.toChars = c :: rest ∧ (c.isDigit = true ∨ c = '-') := by
  obtain ⟨negative, whole, fraction, exponent⟩ := l
  obtain ⟨c, more, rfl⟩ := List.exists_cons_of_ne_nil h.whole.1
  cases negative with
  | true => exact ⟨'-', _, rfl, .inr rfl⟩
  | false => exact ⟨c, _, rfl, .inl (h.whole.2 c List.mem_cons_self)⟩

theorem firstToken_number {c : Char} (h : c.isDigit = true ∨ c = '-') (rest : List Char) :
    firstToken c rest =
      if isNumber (c :: rest.takeWhile isNumberPart) then
        some (.number (String.ofList (c :: rest.takeWhile isNumberPart)),
          rest.dropWhile isNumberPart)
      else none := by
  have hne : ∀ d : Char, d.isDigit = false → d ≠ '-' → c ≠ d := by
    rintro d hd hm rfl
    rcases h with h | h
    · rw [h] at hd
      cases hd
    · exact hm h
  unfold firstToken
  split
  case h_11 => rfl
  all_goals exact absurd rfl (hne _ (by decide) (by decide))

theorem Lexes.number {lexeme : String} {rest : List Char} {ts : List Token}
    (hn : IsNumber lexeme) (hr : EndsNumber rest) (h : Lexes rest ts) :
    Lexes (lexeme.toList ++ rest) (.number lexeme :: ts) := by
  obtain ⟨_, _, l, hl, htext, -, -⟩ := hn
  obtain ⟨c, more, hchars, hc⟩ := exists_toChars hl
  have hpart := isNumberPart_toChars hl
  have hread := Lexeme.lexeme?_toChars hl
  rw [hchars] at hpart htext hread
  have hend : rest.takeWhile isNumberPart = [] ∧ rest.dropWhile isNumberPart = rest := by
    cases rest with
    | nil => exact ⟨rfl, rfl⟩
    | cons d rest => simp [hr d rfl]
  have hmore : ∀ d ∈ more, isNumberPart d = true := fun d hd => hpart d (List.mem_cons_of_mem c hd)
  have hspace : isSpace c = false := by
    rcases hc with hc | rfl
    · simp only [isSpace, Bool.or_eq_false_iff, beq_eq_false_iff_ne]
      refine ⟨⟨⟨?_, ?_⟩, ?_⟩, ?_⟩ <;> rintro rfl <;> cases hc
    · rfl
  have hfirst : firstToken c (more ++ rest) = some (.number lexeme, rest) := by
    rw [firstToken_number hc, List.takeWhile_append_of_pos hmore, List.dropWhile_append_of_pos hmore,
      hend.1, hend.2, List.append_nil, isNumber, hread, htext, String.ofList_toList]
    rfl
  rw [← htext, List.cons_append]
  exact .first hspace hfirst (by rw [List.length_append]; omega) h

mutual

/-- The tokens that a value is written with. -/
def toTokens : Json → List Token
  | .null => [.null]
  | .bool b => [.bool b]
  | .number lexeme => [.number lexeme]
  | .string s => [.string (some s)]
  | .array [] => [.openArray, .closeArray]
  | .array (j :: rest) => .openArray :: (toTokens j ++ moreItems rest)
  | .object [] => [.openObject, .closeObject]
  | .object ((key, j) :: rest) =>
    .openObject :: .string (some key) :: .colon :: (toTokens j ++ moreMembers rest)
  | .unreadable => [.null]

/-- The tokens of an array after one of its items. -/
def moreItems : List Json → List Token
  | [] => [.closeArray]
  | j :: rest => .comma :: (toTokens j ++ moreItems rest)

/-- The tokens of an object after one of its members. -/
def moreMembers : List (String × Json) → List Token
  | [] => [.closeObject]
  | (key, j) :: rest => .comma :: .string (some key) :: .colon :: (toTokens j ++ moreMembers rest)

end

mutual

/-- A value that can be written as it is: its numbers are numbers and its texts are there. -/
def Writable : Json → Prop
  | .null => True
  | .bool _ => True
  | .number lexeme => IsNumber lexeme
  | .string _ => True
  | .array items => WritableItems items
  | .object members => WritableMembers members
  | .unreadable => False

def WritableItems : List Json → Prop
  | [] => True
  | j :: rest => Writable j ∧ WritableItems rest

def WritableMembers : List (String × Json) → Prop
  | [] => True
  | (_, j) :: rest => Writable j ∧ WritableMembers rest

end

variable {rest : List Char} {ts : List Token}

theorem toList_joined (separator part : String) (parts : List String) :
    (Text.joined separator (part :: parts)).toList =
      part.toList ++ parts.flatMap fun p => separator.toList ++ p.toList := by
  induction parts generalizing part with
  | nil => simp [Text.joined]
  | cons next parts ih => simp [Text.joined, ih]

theorem Lexes.sign {c : Char} {t : Token} (h : Lexes rest ts) (hc : isSpace c = false)
    (ht : firstToken c rest = some (t, rest)) : Lexes (c :: rest) (t :: ts) :=
  .first hc ht (Nat.le_refl _) h

theorem endsNumber_cons {c : Char} (h : isNumberPart c = false) : EndsNumber (c :: rest) := by
  rintro _ ⟨⟩
  exact h

/-- After an item or a member comes a comma or the end, and neither goes on with a number. -/
theorem endsNumber_more {c : Char} (parts : List String) (h : isNumberPart c = false) :
    EndsNumber (parts.flatMap (fun p => ',' :: p.toList) ++ c :: rest) := by
  cases parts with
  | nil => exact endsNumber_cons h
  | cons part parts => exact endsNumber_cons rfl

/-- A key with its colon, before a value. -/
theorem Lexes.key {key : String} (h : Lexes rest ts) :
    Lexes ((Json.quoted key).toList ++ ':' :: rest) (.string (some key) :: .colon :: ts) :=
  Lexes.quoted (.sign h rfl rfl)

mutual

/-- The text of a value is lexed as its tokens. -/
theorem lexes_compact : (j : Json) → {rest : List Char} → {ts : List Token} → Writable j →
    EndsNumber rest → Lexes rest ts → Lexes (j.compact.toList ++ rest) (toTokens j ++ ts)
  | .null, rest, _, _, _, h => by
    have htext : (compact .null).toList ++ rest = 'n' :: 'u' :: 'l' :: 'l' :: rest := by
      simp [compact]
    rw [htext, toTokens]
    exact .first rfl rfl (by simp only [List.length_cons]; omega) h
  | .bool true, rest, _, _, _, h => by
    have htext : (compact (.bool true)).toList ++ rest = 't' :: 'r' :: 'u' :: 'e' :: rest := by
      simp [compact]
    rw [htext, toTokens]
    exact .first rfl rfl (by simp only [List.length_cons]; omega) h
  | .bool false, rest, _, _, _, h => by
    have htext : (compact (.bool false)).toList ++ rest =
        'f' :: 'a' :: 'l' :: 's' :: 'e' :: rest := by
      simp [compact]
    rw [htext, toTokens]
    exact .first rfl rfl (by simp only [List.length_cons]; omega) h
  | .number _, _, _, hw, hr, h => by
    rw [Writable] at hw
    rw [compact, toTokens]
    exact .number hw hr h
  | .string _, _, _, _, _, h => by
    rw [compact, toTokens]
    exact h.quoted
  | .array [], rest, _, _, _, h => by
    have htext : (compact (.array [])).toList ++ rest = '[' :: ']' :: rest := by
      simp [compact, compactItems, Text.joined]
    rw [htext, toTokens]
    exact .sign (.sign h rfl rfl) rfl rfl
  | .array (j :: items), rest, ts, hw, _, h => by
    rw [Writable, WritableItems] at hw
    have hmore := lexes_compact j hw.1 (endsNumber_more _ rfl) (lexes_items items hw.2 h)
    have htext : (compact (.array (j :: items))).toList ++ rest = '[' :: (j.compact.toList ++
        ((compactItems items).flatMap (fun p => ',' :: p.toList) ++ ']' :: rest)) := by
      simp [compact, compactItems, toList_joined]
    rw [htext, toTokens, List.cons_append, List.append_assoc]
    exact .sign hmore rfl rfl
  | .object [], rest, _, _, _, h => by
    have htext : (compact (.object [])).toList ++ rest = '\x7b' :: '\x7d' :: rest := by
      simp [compact, compactMembers, Text.joined]
    rw [htext, toTokens]
    exact .sign (.sign h rfl rfl) rfl rfl
  | .object ((key, j) :: members), rest, ts, hw, _, h => by
    rw [Writable, WritableMembers] at hw
    have hmore := lexes_compact j hw.1 (endsNumber_more _ rfl) (lexes_members members hw.2 h)
    have htext : (compact (.object ((key, j) :: members))).toList ++ rest =
        '\x7b' :: ((quoted key).toList ++ ':' :: (j.compact.toList ++
          ((compactMembers members).flatMap (fun p => ',' :: p.toList) ++ '\x7d' :: rest))) := by
      simp [compact, compactMembers, toList_joined]
    rw [htext, toTokens]
    simp only [List.cons_append, List.append_assoc]
    exact .sign hmore.key rfl rfl
  | .unreadable, _, _, hw, _, _ => by
    rw [Writable] at hw
    exact hw.elim

/-- What follows an item is lexed as the further items. -/
theorem lexes_items : (items : List Json) → {rest : List Char} → {ts : List Token} →
    WritableItems items → Lexes rest ts →
    Lexes ((compactItems items).flatMap (fun p => ',' :: p.toList) ++ ']' :: rest)
      (moreItems items ++ ts)
  | [], _, _, _, h => by
    rw [compactItems, moreItems]
    exact .sign h rfl rfl
  | j :: items, _, _, hw, h => by
    rw [WritableItems] at hw
    have hmore := lexes_compact j hw.1 (endsNumber_more _ rfl) (lexes_items items hw.2 h)
    simp only [compactItems, moreItems, List.flatMap_cons, List.cons_append, List.append_assoc]
    exact .sign hmore rfl rfl

/-- What follows a member is lexed as the further members. -/
theorem lexes_members : (members : List (String × Json)) → {rest : List Char} →
    {ts : List Token} → WritableMembers members → Lexes rest ts →
    Lexes ((compactMembers members).flatMap (fun p => ',' :: p.toList) ++ '\x7d' :: rest)
      (moreMembers members ++ ts)
  | [], _, _, _, h => by
    rw [compactMembers, moreMembers]
    exact .sign h rfl rfl
  | (key, j) :: members, _, _, hw, h => by
    rw [WritableMembers] at hw
    have hmore := lexes_compact j hw.1 (endsNumber_more _ rfl) (lexes_members members hw.2 h)
    have hcolon : (":" : String).toList = [':'] := rfl
    simp only [compactMembers, moreMembers, List.flatMap_cons, String.toList_append, hcolon,
      List.cons_append, List.append_assoc, List.nil_append]
    exact .sign hmore.key rfl rfl

end

section Read

variable {fuel : Nat} {j : Json} {found : List Json} {key : String} {more tail : List Token}

/-- No value starts with the end of a container. -/
theorem exists_toTokens (j : Json) : ∃ t more, toTokens j = t :: more ∧ t ≠ .closeArray := by
  cases j with
  | array items => cases items <;> exact ⟨_, _, by rw [toTokens], by simp⟩
  | object members => cases members <;> exact ⟨_, _, by rw [toTokens], by simp⟩
  | _ => exact ⟨_, _, by rw [toTokens], by simp⟩

theorem value_openArray (h : ∀ tail, more ≠ .closeArray :: tail)
    (hi : items fuel more = some (found, tail)) :
    value (fuel + 1) (.openArray :: more) = some (.array found, tail) := by
  rw [value]
  · rw [hi]
    rfl
  · exact h

theorem value_openObject {read : List (Option String × Json)}
    (h : ∀ tail, more ≠ .closeObject :: tail) (hm : members fuel more = some (read, tail)) :
    value (fuel + 1) (.openObject :: more) = some (ofMembers read, tail) := by
  rw [value]
  · rw [hm]
    rfl
  · exact h

theorem items_last (h : value fuel ts = some (j, .closeArray :: tail)) :
    items (fuel + 1) ts = some ([j], tail) := by
  rw [items, h]
  rfl

theorem items_more (h : value fuel ts = some (j, .comma :: more))
    (hi : items fuel more = some (found, tail)) :
    items (fuel + 1) ts = some (j :: found, tail) := by
  rw [items, h]
  simp only [Option.bind_eq_bind, Option.bind_some, hi]
  rfl

theorem members_last (h : value fuel ts = some (j, .closeObject :: tail)) :
    members (fuel + 1) (.string (some key) :: .colon :: ts) = some ([(some key, j)], tail) := by
  rw [members, h]
  rfl

theorem members_more {read : List (Option String × Json)}
    (h : value fuel ts = some (j, .comma :: more)) (hm : members fuel more = some (read, tail)) :
    members (fuel + 1) (.string (some key) :: .colon :: ts) =
      some ((some key, j) :: read, tail) := by
  rw [members, h]
  simp only [Option.bind_eq_bind, Option.bind_some, hm]
  rfl

end Read

/-- Members whose keys are all there are the members of a readable object. -/
theorem ofMembers_some (found : List (String × Json)) :
    ofMembers (found.map fun m => (some m.1, m.2)) = .object found := by
  have hall : ∀ found : List (String × Json),
      (found.map fun m => (some m.1, m.2)).mapM (fun (m : Option String × Json) =>
        m.1.map (·, m.2)) = some found := by
    intro found
    induction found with
    | nil => rfl
    | cons m found ih =>
      rw [List.map_cons, List.mapM_cons, ih]
      rfl
  have h := hall found
  rw [ofMembers]
  simp only [h]

mutual

/-- The tokens of a value are read as the value. Two units of fuel a token are enough. -/
theorem value_toTokens : (j : Json) → (ts : List Token) → (fuel : Nat) → Writable j →
    2 * (toTokens j).length ≤ fuel → value fuel (toTokens j ++ ts) = some (j, ts)
  | .null, _, fuel + 1, _, _ => by rw [toTokens]; rfl
  | .bool _, _, fuel + 1, _, _ => by rw [toTokens]; rfl
  | .number _, _, fuel + 1, _, _ => by rw [toTokens]; rfl
  | .string _, _, fuel + 1, _, _ => by rw [toTokens]; rfl
  | .array [], _, fuel + 1, _, _ => by rw [toTokens]; rfl
  | .array (j :: more), ts, fuel + 1, hw, hfuel => by
    rw [Writable, WritableItems] at hw
    rw [toTokens, List.length_cons, List.length_append] at hfuel
    obtain ⟨fuel, rfl⟩ := Nat.exists_eq_add_one_of_ne_zero (show fuel ≠ 0 by omega)
    have hfirst := value_toTokens j (moreItems more ++ ts) fuel hw.1 (by omega)
    obtain ⟨t, tokens, ht, hne⟩ := exists_toTokens j
    rw [toTokens, List.cons_append, List.append_assoc]
    refine value_openArray ?_ (items_moreItems more hw.2 hfirst (by omega))
    rw [ht]
    rintro tail h
    exact hne (List.cons.inj h).1
  | .object [], _, fuel + 1, _, _ => by rw [toTokens]; rfl
  | .object ((key, j) :: more), ts, fuel + 1, hw, hfuel => by
    rw [Writable, WritableMembers] at hw
    rw [toTokens, List.length_cons, List.length_cons, List.length_cons, List.length_append] at hfuel
    obtain ⟨fuel, rfl⟩ := Nat.exists_eq_add_one_of_ne_zero (show fuel ≠ 0 by omega)
    have hfirst := value_toTokens j (moreMembers more ++ ts) fuel hw.1 (by omega)
    have hread := value_openObject (by simp) (members_moreMembers more key hw.2 hfirst (by omega))
    rw [ofMembers_some] at hread
    rw [toTokens]
    simp only [List.cons_append, List.append_assoc]
    exact hread
  | .unreadable, _, _, hw, _ => by
    rw [Writable] at hw
    exact hw.elim
  | j, _, 0, _, hfuel => by
    obtain ⟨t, more, ht, -⟩ := exists_toTokens j
    rw [ht, List.length_cons] at hfuel
    omega

/-- After the first item the others are read. -/
theorem items_moreItems : (more : List Json) → {first : Json} → {ts tail : List Token} →
    {fuel : Nat} → WritableItems more → value fuel ts = some (first, moreItems more ++ tail) →
    2 * (moreItems more).length ≤ fuel → items (fuel + 1) ts = some (first :: more, tail)
  | [], _, _, _, _, _, h, _ => by
    rw [moreItems] at h
    exact items_last h
  | j :: more, _, _, tail, fuel, hw, h, hfuel => by
    rw [WritableItems] at hw
    rw [moreItems] at h
    rw [moreItems, List.length_cons, List.length_append] at hfuel
    obtain ⟨fuel, rfl⟩ := Nat.exists_eq_add_one_of_ne_zero (show fuel ≠ 0 by omega)
    have hfirst := value_toTokens j (moreItems more ++ tail) fuel hw.1 (by omega)
    rw [List.cons_append, List.append_assoc] at h
    exact items_more h (items_moreItems more hw.2 hfirst (by omega))

/-- After the first member the others are read. -/
theorem members_moreMembers : (more : List (String × Json)) → (key : String) → {first : Json} →
    {ts tail : List Token} → {fuel : Nat} → WritableMembers more →
    value fuel ts = some (first, moreMembers more ++ tail) →
    2 * (moreMembers more).length ≤ fuel →
    members (fuel + 1) (.string (some key) :: .colon :: ts) =
      some (((key, first) :: more).map fun m => (some m.1, m.2), tail)
  | [], _, _, _, _, _, _, h, _ => by
    rw [moreMembers] at h
    exact members_last h
  | (key, j) :: more, _, _, _, tail, fuel, hw, h, hfuel => by
    rw [WritableMembers] at hw
    rw [moreMembers] at h
    rw [moreMembers, List.length_cons, List.length_cons, List.length_cons, List.length_append] at hfuel
    obtain ⟨fuel, rfl⟩ := Nat.exists_eq_add_one_of_ne_zero (show fuel ≠ 0 by omega)
    have hfirst := value_toTokens j (moreMembers more ++ tail) fuel hw.1 (by omega)
    simp only [List.cons_append, List.append_assoc] at h
    exact members_more h (members_moreMembers more key hw.2 hfirst (by omega))

end

/-- Text that is lexed as the tokens of a value is read as the value. -/
theorem parse?_of_lexes {j : Json} {text : String} (hw : Writable j)
    (h : Lexes text.toList (toTokens j)) : parse? text = some j := by
  have hvalue := value_toTokens j [] (2 * (toTokens j).length) hw (Nat.le_refl _)
  rw [List.append_nil] at hvalue
  simp only [parse?, h _ (Nat.le_refl _), Option.bind_eq_bind, Option.bind_some, hvalue]

/-- A value that can be written is read back from its text. -/
theorem parse?_compact {j : Json} (h : Writable j) : parse? j.compact = some j := by
  have hlexes := lexes_compact j h (by simp [EndsNumber]) .nil
  rw [List.append_nil, List.append_nil] at hlexes
  exact parse?_of_lexes h hlexes

/-- No two values have the same text. -/
theorem compact_injective {j k : Json} (hj : Writable j) (hk : Writable k)
    (h : j.compact = k.compact) : j = k := by
  have hread := parse?_compact hj
  rw [h, parse?_compact hk] at hread
  exact (Option.some.inj hread).symm

end FlowPlan.Json
