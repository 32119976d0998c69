import FlowPlan.Proofs.JsonText

namespace FlowPlan.Json

variable {rest : List Char} {ts : List Token}

theorem Lexes.blank {c : Char} (hc : isSpace c = true) (h : Lexes rest ts) :
    Lexes (c :: rest) ts := by
  intro fuel hfuel
  rw [List.length_cons] at hfuel
  obtain ⟨fuel, rfl⟩ := Nat.exists_eq_add_one_of_ne_zero (show fuel ≠ 0 by omega)
  rw [tokens, if_pos hc]
  exact h fuel (by omega)

theorem Lexes.blanks {text : List Char} (htext : ∀ c ∈ text, isSpace c = true)
    (h : Lexes rest ts) : Lexes (text ++ rest) ts := by
  induction text with
  | nil => exact h
  | cons c text ih =>
    rw [List.forall_mem_cons] at htext
    exact .blank htext.1 (ih htext.2)

theorem toList_indent (depth : Nat) :
    (indent depth).toList = '\n' :: List.replicate (2 * depth) ' ' := by
  rw [indent, String.toList_ofList]

theorem Lexes.indent (depth : Nat) (h : Lexes rest ts) :
    Lexes ((indent depth).toList ++ rest) ts := by
  refine .blanks ?_ h
  rw [toList_indent, List.forall_mem_cons]
  exact ⟨rfl, fun c hc => by rw [List.eq_of_mem_replicate hc]; rfl⟩

theorem endsNumber_indent (depth : Nat) : EndsNumber ((indent depth).toList ++ rest) := by
  rw [toList_indent]
  exact endsNumber_cons rfl

/-- The lines of a block after its first, each on the next line after a comma. -/
def furtherLines (depth : Nat) (texts : List String) : List Char :=
  texts.flatMap fun p => ',' :: ((indent depth).toList ++ p.toList)

theorem furtherLines_cons (depth : Nat) (text : String) (texts : List String) :
    furtherLines depth (text :: texts) =
      ',' :: ((indent depth).toList ++ (text.toList ++ furtherLines depth texts)) := by
  simp [furtherLines]

theorem toList_block (depth : Nat) (opening closing text : String) (texts : List String) :
    (block depth opening closing (text :: texts)).toList =
      opening.toList ++ ((indent (depth + 1)).toList ++ (text.toList ++
        (furtherLines (depth + 1) texts ++ ((indent depth).toList ++ closing.toList)))) := by
  have hcomma : (",").toList = [','] := rfl
  simp [block, furtherLines, toList_joined, hcomma]

/-- After a line of a block comes a comma or a new line, and neither goes on with a number. -/
theorem endsNumber_further (depth outer : Nat) (texts : List String) :
    EndsNumber (furtherLines depth texts ++ ((indent outer).toList ++ rest)) := by
  cases texts with
  | nil => exact endsNumber_indent outer
  | cons text texts =>
    rw [furtherLines_cons]
    exact endsNumber_cons rfl

mutual

/-- The indented text of a value is lexed as its tokens. -/
theorem lexes_pretty : (j : Json) → (depth : Nat) → {rest : List Char} → {ts : List Token} →
    Writable j → EndsNumber rest → Lexes rest ts →
    Lexes ((pretty depth j).toList ++ rest) (toTokens j ++ ts)
  | .null, _, _, _, hw, hr, h => lexes_compact .null hw hr h
  | .bool b, _, _, _, hw, hr, h => lexes_compact (.bool b) hw hr h
  | .number lexeme, _, _, _, hw, hr, h => lexes_compact (.number lexeme) hw hr h
  | .string s, _, _, _, hw, hr, h => lexes_compact (.string s) hw hr h
  | .array [], depth, rest, _, _, _, h => by
    have htext : (pretty depth (.array [])).toList ++ rest = '[' :: ']' :: rest := by
      simp [pretty, prettyItems, block]
    rw [htext, toTokens]
    exact .sign (.sign h rfl rfl) rfl rfl
  | .array (j :: items), depth, _, _, hw, _, h => by
    rw [Writable, WritableItems] at hw
    have hmore := lexes_pretty j (depth + 1) hw.1 (endsNumber_further _ depth _)
      (lexes_prettyItems items (depth + 1) depth hw.2 h)
    have hopen : "[".toList = ['['] := rfl
    have hclose : "]".toList = [']'] := rfl
    rw [pretty, prettyItems, toList_block, toTokens, hopen, hclose]
    simp only [List.cons_append, List.append_assoc, List.nil_append]
    exact .sign (.indent _ hmore) rfl rfl
  | .object [], depth, rest, _, _, _, h => by
    have htext : (pretty depth (.object [])).toList ++ rest = '\x7b' :: '\x7d' :: rest := by
      simp [pretty, prettyMembers, block]
    rw [htext, toTokens]
    exact .sign (.sign h rfl rfl) rfl rfl
  | .object ((key, j) :: members), depth, _, _, hw, _, h => by
    rw [Writable, WritableMembers] at hw
    have hmore := lexes_pretty j (depth + 1) hw.1 (endsNumber_further _ depth _)
      (lexes_prettyMembers members (depth + 1) depth hw.2 h)
    have hopen : "\x7b".toList = ['\x7b'] := rfl
    have hclose : "\x7d".toList = ['\x7d'] := rfl
    have hcolon : ": ".toList = [':', ' '] := rfl
    rw [pretty, prettyMembers, toList_block, toTokens, hopen, hclose]
    simp only [String.toList_append, hcolon, List.cons_append, List.append_assoc, List.nil_append]
    exact .sign (.indent _ (.key (.blank rfl hmore))) rfl rfl
  | .unreadable, _, _, _, hw, _, _ => by
    rw [Writable] at hw
    exact hw.elim

/-- The lines after an item are lexed as the further items. -/
theorem lexes_prettyItems : (items : List Json) → (depth outer : Nat) → {rest : List Char} →
    {ts : List Token} → WritableItems items → Lexes rest ts →
    Lexes (furtherLines depth (prettyItems depth items) ++ ((indent outer).toList ++ ']' :: rest))
      (moreItems items ++ ts)
  | [], _, outer, _, _, _, h => by
    rw [prettyItems, moreItems]
    exact .indent outer (.sign h rfl rfl)
  | j :: items, depth, outer, _, _, hw, h => by
    rw [WritableItems] at hw
    have hmore := lexes_pretty j depth hw.1 (endsNumber_further _ outer _)
      (lexes_prettyItems items depth outer hw.2 h)
    rw [prettyItems, furtherLines_cons, moreItems]
    simp only [List.cons_append, List.append_assoc]
    exact .sign (.indent _ hmore) rfl rfl

/-- The lines after a member are lexed as the further members. -/
theorem lexes_prettyMembers : (members : List (String × Json)) → (depth outer : Nat) →
    {rest : List Char} → {ts : List Token} → WritableMembers members → Lexes rest ts →
    Lexes (furtherLines depth (prettyMembers depth members) ++
      ((indent outer).toList ++ '\x7d' :: rest)) (moreMembers members ++ ts)
  | [], _, outer, _, _, _, h => by
    rw [prettyMembers, moreMembers]
    exact .indent outer (.sign h rfl rfl)
  | (key, j) :: members, depth, outer, _, _, hw, h => by
    rw [WritableMembers] at hw
    have hmore := lexes_pretty j depth hw.1 (endsNumber_further _ outer _)
      (lexes_prettyMembers members depth outer hw.2 h)
    have hcolon : ": ".toList = [':', ' '] := rfl
    rw [prettyMembers, furtherLines_cons, moreMembers]
    simp only [String.toList_append, hcolon, List.cons_append, List.append_assoc, List.nil_append]
    exact .sign (.indent _ (.key (.blank rfl hmore))) rfl rfl

end

/-- A value that can be written is read back from its indented text. -/
theorem parse?_pretty {j : Json} (h : Writable j) : parse? (j.pretty 0) = some j := by
  have hlexes := lexes_pretty j 0 h (by simp [EndsNumber]) .nil
  rw [List.append_nil, List.append_nil] at hlexes
  exact parse?_of_lexes h hlexes

end FlowPlan.Json
