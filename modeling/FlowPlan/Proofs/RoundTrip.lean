import FlowPlan.Proofs.Decimals
import FlowPlan.Proofs.Printer

namespace FlowPlan

open Outcome

theorem Token.digits_spellable {text : String} (h : text.toList ≠ [])
    (hall : ∀ c ∈ text.toList, c.isDigit = true) : Spellable (.number text) := by
  obtain ⟨c, rest, hc⟩ := List.exists_cons_of_ne_nil h
  rw [hc] at hall
  refine ⟨c, rest, hc, startsNumber_of_isDigit (hall c List.mem_cons_self), ?_⟩
  intro d hd
  exact isNumberPart_of_isDigit (hall d (List.mem_cons_of_mem c hd))

theorem repr_digits (n : Nat) : n.repr.toList ≠ [] ∧ ∀ c ∈ n.repr.toList, c.isDigit = true := by
  rw [Nat.toList_repr]
  exact ⟨Nat.toDigits_ne_nil, Decimal.isDigit_toDigits n⟩

theorem Token.number_spellable (n : Nat) : Spellable (.number n.repr) :=
  digits_spellable (repr_digits n).1 (repr_digits n).2

namespace Scalar

/-- A run of digits is read as the narrowest literal, or not at all. -/
theorem ofNumber?_digits {text : String} (h : text.toList ≠ [])
    (hall : ∀ c ∈ text.toList, c.isDigit = true) : ofNumber? text =
      if Decimal.natural text.toList < 2 ^ 63 then .ok (ofNat (Decimal.natural text.toList))
      else .error (.invalidNumber text) := by
  have hsign : Decimal.splitSign text.toList = (false, text.toList) := by
    obtain ⟨c, rest, hc⟩ := List.exists_cons_of_ne_nil h
    rw [hc]
    exact Decimal.splitSign_unsigned (Token.startsNumber_of_isDigit (hall c (by simp [hc])))
  have hread : Decimal.signed? Int64.minValue.toInt Int64.maxValue.toInt text.toList =
      if Decimal.natural text.toList < 2 ^ 63 then some (Decimal.natural text.toList : Int)
      else none := by
    have hmin : Int64.minValue.toInt = -2 ^ 63 := rfl
    have hmax : Int64.maxValue.toInt = 2 ^ 63 - 1 := rfl
    simp only [Decimal.signed?, hsign, Decimal.natural?_digits h hall, hmin, hmax,
      Bool.false_eq_true, ↓reduceIte, Option.bind_eq_bind, Option.bind_some]
    congr 1
    apply propext
    omega
  simp only [ofNumber?, Decimal.digits_unmarked hall, Bool.false_eq_true, ↓reduceIte, hread]
  by_cases hfits : Decimal.natural text.toList < 2 ^ 63
  · simp only [if_pos hfits]
    rfl
  · simp only [if_neg hfits]

theorem ofNumber?_repr {n : Nat} (h : n < 2 ^ 63) : ofNumber? n.repr = .ok (ofNat n) := by
  obtain ⟨hne, hall⟩ := repr_digits n
  rw [ofNumber?_digits hne hall, Nat.toList_repr, Decimal.natural_toDigits, if_pos h]

theorem ofNat_int32 {v : Int32} (h : v.toInt.natAbs < 2 ^ 31) :
    ofNat v.toInt.natAbs = .int32 (if v.toInt < 0 then -v else v) := by
  rw [ofNat, if_pos (fitsInt32_iff.mpr h)]
  congr 1
  apply Int32.toInt_inj.mp
  rw [Int32.toInt_ofInt_of_le (by omega) (by omega)]
  split
  · rw [toInt_neg_int32 h]
    omega
  · omega

theorem ofNat_int64 {v : Int64} (h : 2 ^ 31 ≤ v.toInt.natAbs) (hm : v.toInt.natAbs < 2 ^ 63) :
    ofNat v.toInt.natAbs = .int64 (if v.toInt < 0 then -v else v) := by
  rw [ofNat, if_neg (fun hf => Nat.not_lt.mpr h (fitsInt32_iff.mp hf))]
  congr 1
  apply Int64.toInt_inj.mp
  rw [Int64.toInt_ofInt_of_le (by omega) (by omega)]
  split
  · rw [toInt_neg_int64 hm]
    omega
  · omega

end Scalar

def Scalar.unsigned : Scalar → Scalar
  | .int32 v => .int32 (if v.toInt < 0 then -v else v)
  | .int64 v => .int64 (if v.toInt < 0 then -v else v)
  | .float64 v => .float64 v.magnitude
  | v => v

theorem Scalar.unsigned_of_not_isMinus {v : Scalar} (h : v.isMinus = false) : v.unsigned = v := by
  cases v <;> simp_all [unsigned, isMinus, Binary.magnitude]

/-- A minus sign before the literal gives it back. -/
theorem Scalar.negated_unsigned {v : Scalar} (h : v.isMinus = true) :
    Expr.negated (.literal v.unsigned) = .literal v := by
  cases v <;> simp_all [unsigned, isMinus, Binary.magnitude, Expr.negated]

/-- The token of a literal is read as the literal without its sign. -/
theorem Scalar.atom_token {digits : Double → String} {s : Schema} {v : Scalar} {t : Token}
    (hv : v.Spelled) (hd : ∀ x, v = .float64 x → Spells digits x) (ht : v.token? digits = some t) :
    Expr.atom s t = .ok (.literal v.unsigned) ∧ Expr.isOperandStart t = true := by
  cases v with
  | null => cases ht; exact ⟨rfl, by decide⟩
  | bool b => cases b <;> cases ht <;> exact ⟨rfl, by decide⟩
  | text x => cases ht; exact ⟨rfl, rfl⟩
  | int32 n =>
    cases ht
    have hlt : n.toInt.natAbs < 2 ^ 31 := hv
    refine ⟨?_, rfl⟩
    rw [Expr.atom, ofNumber?_repr (by omega), ofNat_int32 hlt]
    rfl
  | int64 n =>
    cases ht
    refine ⟨?_, rfl⟩
    rw [Expr.atom, ofNumber?_repr hv.2, ofNat_int64 hv.1 hv.2]
    rfl
  | float64 x =>
    cases ht
    have hx := hd x rfl
    refine ⟨?_, rfl⟩
    simp only [Expr.atom, ofNumber?, hx.marked, hx.exact, ↓reduceIte]
    rfl
  | float32 x => cases ht
  | binary b => cases ht

namespace Expr

variable {digits : Double → String} {s : Schema} {level : Nat} {e l r : Expr} {rest : List Token}

/-- The numbers of an expression can be spelled. -/
def Writable (digits : Double → String) (e : Expr) : Prop :=
  ∀ v, Scalar.float64 v ∈ e.literals → Spells digits v

theorem literal_wellSpaced {v : Scalar} (h : Writable digits (.literal v)) :
    Piece.WellSpaced (v.pieces digits) := by
  have htoken : Piece.WellSpaced ((v.token? digits).map (Piece.mk false)).toList := by
    cases ht : v.token? digits with
    | none => exact ⟨by simp, .nil⟩
    | some t =>
      refine .single ?_
      change t.Spellable
      cases v with
      | null => cases ht; exact .word (by decide)
      | bool b => cases b <;> cases ht <;> exact .word (by decide)
      | int32 n => cases ht; exact Token.number_spellable _
      | int64 n => cases ht; exact Token.number_spellable _
      | float32 n => cases ht
      | float64 n => cases ht; exact (h n (by simp [literals])).unsigned
      | text t => cases ht; trivial
      | binary b => cases ht
  unfold Scalar.pieces
  split
  · exact htoken.cons trivial fun q _ => .inr (.inl rfl)
  · exact htoken

mutual

theorem pieces_wellSpaced : (e : Expr) → Writable digits e → Piece.WellSpaced (e.pieces digits s)
  | .column i, h => by
    rw [pieces]
    exact .single trivial
  | .literal v, h => by
    rw [pieces]
    exact literal_wellSpaced h
  | .compare op l r, h => by
    have hl := pieces_wellSpaced l fun v hv => h v (by simp [literals, hv])
    have hr := pieces_wellSpaced r fun v hv => h v (by simp [literals, hv])
    rw [pieces]
    exact (hl.operand _ _).append (.before trivial (hr.operand _ _)) (by simp)
  | .arithmetic op l r, h => by
    have hl := pieces_wellSpaced l fun v hv => h v (by simp [literals, hv])
    have hr := pieces_wellSpaced r fun v hv => h v (by simp [literals, hv])
    have hop : op.token.Spellable := by cases op <;> trivial
    rw [pieces]
    exact (hl.operand _ _).append (.before hop (hr.operand _ _)) (by simp)
  | .and [], h => by
    rw [pieces]
    exact ⟨by simp, .nil⟩
  | .and (e :: rest), h => by
    have he := pieces_wellSpaced e fun v hv => h v (by simp [literals, literalsOf, hv])
    have hrest := following_wellSpaced "AND" (by decide) andLevel rest fun v hv =>
      h v (by simp [literals, literalsOf, hv])
    rw [pieces]
    exact (he.operand _ _).append hrest.1 hrest.2
  | .or [], h => by
    rw [pieces]
    exact ⟨by simp, .nil⟩
  | .or (e :: rest), h => by
    have he := pieces_wellSpaced e fun v hv => h v (by simp [literals, literalsOf, hv])
    have hrest := following_wellSpaced "OR" (by decide) orLevel rest fun v hv =>
      h v (by simp [literals, literalsOf, hv])
    rw [pieces]
    exact (he.operand _ _).append hrest.1 hrest.2
  | .not e, h => by
    have he := pieces_wellSpaced e fun v hv => h v (by simp [literals, hv])
    rw [pieces]
    exact .before (.word (by decide)) (he.operand _ _)
  | .isNull e, h => by
    have he := pieces_wellSpaced e fun v hv => h v (by simp [literals, hv])
    have hnull : Piece.WellSpaced [⟨true, .word "NULL"⟩] := .single (.word (by decide))
    rw [pieces]
    exact (he.operand _ _).append (.before (.word (by decide)) hnull) (by simp)
  | .isNotNull e, h => by
    have he := pieces_wellSpaced e fun v hv => h v (by simp [literals, hv])
    have hnull : Piece.WellSpaced [⟨true, .word "NULL"⟩] := .single (.word (by decide))
    have hnot : Piece.WellSpaced [⟨true, .word "NOT"⟩, ⟨true, .word "NULL"⟩] :=
      .before (.word (by decide)) hnull
    rw [pieces]
    exact (he.operand _ _).append (.before (.word (by decide)) hnot) (by simp)

theorem following_wellSpaced (word : String) (hw : word ∈ Token.keywords) (level : Nat) :
    (items : List Expr) → (∀ v, Scalar.float64 v ∈ literalsOf items → Spells digits v) →
    Piece.WellSpaced (following digits s word level items) ∧
      ∀ q ∈ (following digits s word level items).head?, q.gap = true ∨ q.token = .rightParen
  | [], h => by
    rw [following]
    exact ⟨⟨by simp, .nil⟩, by simp⟩
  | e :: rest, h => by
    have he := pieces_wellSpaced e fun v hv => h v (by simp [literalsOf, hv])
    have hrest := following_wellSpaced word hw level rest fun v hv => h v (by simp [literalsOf, hv])
    rw [following]
    exact ⟨(Piece.WellSpaced.before (.word hw) (he.operand _ _)).append hrest.1 hrest.2, by simp⟩

end

theorem ofChars_source (h : Writable digits e) :
    Token.ofChars (e.source digits s).toList = .ok (e.tokens digits s) := by
  rw [source, String.toList_ofList]
  exact (pieces_wellSpaced e h).ofChars

/-- Tokens before which an expression ends that takes in what binds more tightly than `level`. -/
def Stops (level : Nat) (rest : List Token) : Prop :=
  ∀ t ∈ rest.head?, ∀ op, Infix.ofToken? t = some op → op.level ≤ level

theorem Stops.mono {k : Nat} (h : Stops level rest) (hk : level ≤ k) : Stops k rest :=
  fun t ht op ho => Nat.le_trans (h t ht op ho) hk

theorem Stops.further (h : Stops level rest) : further s level e rest = .ok (e, rest) := by
  cases rest with
  | nil => exact further_nil
  | cons t rest =>
    cases ho : Infix.ofToken? t with
    | none => exact further_none ho
    | some op => exact further_loose ho (h t rfl op ho)

theorem stops_nil : Stops level [] := by
  intro t ht
  cases ht

theorem stops_rightParen : Stops level (.rightParen :: rest) := by
  intro t ht op ho
  cases ht
  cases ho

theorem stops_cons {t : Token} {op : Infix} (ho : Infix.ofToken? t = some op) :
    Stops op.level (t :: rest) := by
  intro u hu op' ho'
  cases hu
  rw [ho] at ho'
  cases ho'
  exact Nat.le_refl _

/-- Where an expression may stand without parentheses when what is read has to bind more tightly
than `level`. NOT may always: it cannot be taken for the end of anything on its left. -/
def Opens (level : Nat) (e : Expr) : Prop := level < e.level ∨ ∃ inner, e = .not inner

/-- An expression is read off its tokens, and the reading goes on after it. -/
def Continues (digits : Double → String) (s : Schema) (e : Expr) : Prop :=
  ∀ (level : Nat) (rest : List Token), Opens level e → Stops e.level rest →
    whole s level (e.tokens digits s ++ rest) = further s level e rest

/-- The tokens of an operand, in parentheses where its level is below the least one. -/
def operandTokens (digits : Double → String) (s : Schema) (least : Nat) (e : Expr) : List Token :=
  (Piece.operand least e.level (e.pieces digits s)).map Piece.token

theorem level_pos (e : Expr) : 0 < e.level := by
  cases e with
  | literal v =>
    rw [Expr.level]
    split <;> decide
  | arithmetic op l r => cases op <;> exact Nat.succ_pos _
  | _ => exact Nat.succ_pos _

/-- So is an operand, in parentheses or not. -/
theorem Continues.operand {least : Nat} (h : Continues digits s e)
    (hfit : least ≤ e.level → Opens level e ∧ Stops e.level rest) :
    whole s level (operandTokens digits s least e ++ rest) = further s level e rest := by
  unfold operandTokens Piece.operand
  split
  · rename_i hl
    exact h level rest (hfit hl).1 (hfit hl).2
  · have hinner : whole s 0 (e.tokens digits s ++ .rightParen :: rest) =
        .ok (e, .rightParen :: rest) := by
      rw [h 0 _ (.inl e.level_pos) stops_rightParen, stops_rightParen.further]
    rw [Piece.map_token_enclosed, List.cons_append, List.append_assoc, List.singleton_append,
      whole_eq, primary_leftParen]
    rw [tokens] at hinner
    rw [hinner]
    rfl

/-- An operator between two operands, the right one of which binds more tightly. -/
theorem Continues.binary {k : Nat} {t : Token} {combine : Expr → Expr → Expr}
    (ho : Infix.ofToken? t = some (.binary k combine)) (hl : Continues digits s l)
    (hr : Continues digits s r) (hk : level < k) (hrest : Stops k rest) :
    whole s level (operandTokens digits s k l ++ t :: (operandTokens digits s (k + 1) r ++ rest)) =
      further s level (combine l r) rest := by
  have hright : whole s k (operandTokens digits s (k + 1) r ++ rest) = .ok (r, rest) := by
    rw [hr.operand fun h => ⟨.inl h, hrest.mono (Nat.le_of_succ_le h)⟩, hrest.further]
  rw [hl.operand fun h => ⟨.inl (Nat.lt_of_lt_of_le hk h), (stops_cons ho).mono h⟩,
    further_tight ho hk, Infix.follow, hright]
  rfl

theorem tokens_compare (op : Comparison) : (Expr.compare op l r).tokens digits s =
    operandTokens digits s comparisonLevel l ++
      .compare op :: operandTokens digits s (comparisonLevel + 1) r := by
  simp [tokens, pieces, operandTokens]

theorem tokens_arithmetic (op : Arithmetic) : (Expr.arithmetic op l r).tokens digits s =
    operandTokens digits s op.level l ++ op.token :: operandTokens digits s (op.level + 1) r := by
  simp [tokens, pieces, operandTokens]

theorem tokens_not : (Expr.not e).tokens digits s =
    .word "NOT" :: operandTokens digits s notLevel e := by
  simp [tokens, pieces, operandTokens]

theorem tokens_isNull : (Expr.isNull e).tokens digits s =
    operandTokens digits s isLevel e ++ [.word "IS", .word "NULL"] := by
  simp [tokens, pieces, operandTokens]

theorem tokens_isNotNull : (Expr.isNotNull e).tokens digits s =
    operandTokens digits s isLevel e ++ [.word "IS", .word "NOT", .word "NULL"] := by
  simp [tokens, pieces, operandTokens]

/-- The tokens of all items of an AND or OR but the first. -/
def followingTokens (digits : Double → String) (s : Schema) (word : String) (k : Nat)
    (items : List Expr) : List Token :=
  (following digits s word k items).map Piece.token

theorem followingTokens_cons (word : String) (k : Nat) (items : List Expr) :
    followingTokens digits s word k (e :: items) =
      .word word :: (operandTokens digits s (k + 1) e ++ followingTokens digits s word k items) := by
  simp [followingTokens, following, operandTokens]

theorem tokens_join (c : Connective) (items : List Expr) :
    (c.join (e :: items)).tokens digits s = operandTokens digits s (c.level + 1) e ++
      followingTokens digits s c.word c.level items := by
  cases c <;>
    simp [Connective.join, Connective.level, Connective.word, tokens, pieces, operandTokens,
      followingTokens]

section Items

variable {k : Nat} {word : String} {combine : Expr → Expr → Expr}
  (ho : Infix.ofToken? (.word word) = some (.binary k combine))

include ho

theorem stops_followingTokens (digits : Double → String) (s : Schema) (items : List Expr)
    (hrest : Stops k rest) : Stops k (followingTokens digits s word k items ++ rest) := by
  cases items with
  | nil => simpa [followingTokens, following] using hrest
  | cons e items =>
    rw [followingTokens_cons, List.cons_append]
    exact stops_cons ho

/-- By induction on the items: each is combined with all before it. -/
theorem further_followingTokens (items : List Expr) (acc : Expr)
    (hall : ∀ e ∈ items, Continues digits s e) (hk : level < k) (hrest : Stops k rest) :
    further s level acc (followingTokens digits s word k items ++ rest) =
      further s level (items.foldl combine acc) rest := by
  induction items generalizing acc with
  | nil => simp [followingTokens, following]
  | cons e items ih =>
    have hstop := stops_followingTokens ho digits s items hrest
    have hright : whole s k (operandTokens digits s (k + 1) e ++
        (followingTokens digits s word k items ++ rest)) =
        .ok (e, followingTokens digits s word k items ++ rest) := by
      rw [(hall e List.mem_cons_self).operand
        fun h => ⟨.inl h, hstop.mono (Nat.le_of_succ_le h)⟩, hstop.further]
    rw [followingTokens_cons, List.cons_append, List.append_assoc, further_tight ho hk,
      Infix.follow, hright]
    exact ih _ fun e' he => hall e' (List.mem_cons_of_mem e he)

/-- Items with a word between each two of them. -/
theorem Continues.items (items : List Expr) (he : Continues digits s e)
    (hall : ∀ e ∈ items, Continues digits s e) (hk : level < k) (hrest : Stops k rest) :
    whole s level (operandTokens digits s (k + 1) e ++ followingTokens digits s word k items ++ rest) =
      further s level (items.foldl combine e) rest := by
  have hstop := stops_followingTokens ho digits s items hrest
  rw [List.append_assoc, he.operand fun h => ⟨.inl (Nat.lt_trans hk h),
    hstop.mono (Nat.le_of_succ_le h)⟩, further_followingTokens ho items e hall hk hrest]

end Items

/-- Items that are not of its own kind go one by one to the end of the connective's list. -/
theorem foldl_join (c : Connective) (items xs : List Expr) (flat : ∀ inner, c.join inner ∉ items) :
    items.foldl c.combine (c.join xs) = c.join (xs ++ items) := by
  induction items generalizing xs with
  | nil => simp
  | cons e items ih =>
    have hne : ∀ inner, e ≠ c.join inner := by
      rintro inner rfl
      exact flat inner List.mem_cons_self
    rw [List.foldl_cons, c.combine_eq, c.items_join, c.items_of_ne hne,
      ih _ fun inner hm => flat inner (List.mem_cons_of_mem e hm), List.append_assoc]
    rfl

theorem foldl_flat (c : Connective) {first second : Expr} {more : List Expr}
    (flat : ∀ inner, c.join inner ∉ first :: second :: more) :
    (second :: more).foldl c.combine first = c.join (first :: second :: more) := by
  have hne : ∀ e ∈ [first, second], ∀ inner, e ≠ c.join inner := by
    rintro e he inner rfl
    exact flat inner (List.mem_append_left more he)
  rw [List.foldl_cons, c.combine_eq, c.items_of_ne (hne first (by simp)),
    c.items_of_ne (hne second (by simp)), foldl_join]
  · rfl
  · exact fun inner hm => flat inner (by simp [hm])

/-- Only NOT opens where its own level is not reached. -/
theorem Opens.lt (h : Opens level e) (hn : ∀ inner, e ≠ .not inner) : level < e.level :=
  h.resolve_right fun ⟨inner, he⟩ => hn inner he

theorem Continues.column {i : Nat} {f : Field} (found : s.field? i = some f)
    (first : s.indexOf? f.name = some i) : Continues digits s (.column i) := by
  intro level rest _ _
  have hname : s.columnName i = f.name := by rw [Schema.columnName, found]
  have hatom : atom s (.quoted f.name) = .ok (.column i) := by simp [atom, first]
  have htokens : (Expr.column i).tokens digits s = [.quoted f.name] := by
    simp [tokens, pieces, hname]
  rw [htokens, List.singleton_append, whole_eq, primary_atom rfl, hatom]
  rfl

theorem Continues.literal {v : Scalar} (hv : v.Spelled) (hw : Writable digits (.literal v)) :
    Continues digits s (.literal v) := by
  intro level rest _ hs
  have hd : ∀ x, v = .float64 x → Spells digits x := by
    rintro x rfl
    exact hw x (by simp [literals])
  obtain ⟨t, ht⟩ : ∃ t, v.token? digits = some t := by
    cases v with
    | bool b => cases b <;> exact ⟨_, rfl⟩
    | float32 x => exact hv.elim
    | binary b => exact hv.elim
    | _ => exact ⟨_, rfl⟩
  obtain ⟨hatom, hstart⟩ := Scalar.atom_token (s := s) hv hd ht
  cases hm : v.isMinus with
  | false =>
    have htokens : (Expr.literal v).tokens digits s = [t] := by
      simp [tokens, pieces, Scalar.pieces, hm, ht]
    rw [htokens, List.singleton_append, whole_eq, primary_atom hstart, hatom,
      Scalar.unsigned_of_not_isMinus hm]
    rfl
  | true =>
    have htokens : (Expr.literal v).tokens digits s = [.minus, t] := by
      simp [tokens, pieces, Scalar.pieces, hm, ht]
    have hlevel : Stops signLevel rest := by simpa [Expr.level, hm] using hs
    have hinner : whole s signLevel (t :: rest) = .ok (.literal v.unsigned, rest) := by
      rw [whole_eq, primary_atom hstart, hatom]
      exact hlevel.further
    rw [htokens, List.cons_append, List.singleton_append, whole_eq, primary_minus, hinner,
      ok_bind]
    simp only [Scalar.negated_unsigned hm]
    rfl

/-- No other operator has the level of NOT. -/
theorem eq_not_of_level (h : e.level = notLevel) : ∃ inner, e = .not inner := by
  have hne : ∀ k, k ≠ notLevel → e.level ≠ k := fun k hk he => hk (he.symm.trans h)
  cases e with
  | not inner => exact ⟨inner, rfl⟩
  | column i => exact absurd rfl (hne atomLevel (by decide))
  | compare op l r => exact absurd rfl (hne comparisonLevel (by decide))
  | and items => exact absurd rfl (hne andLevel (by decide))
  | or items => exact absurd rfl (hne orLevel (by decide))
  | isNull inner => exact absurd rfl (hne isLevel (by decide))
  | isNotNull inner => exact absurd rfl (hne isLevel (by decide))
  | arithmetic op l r => exact absurd rfl (hne op.level (by cases op <;> decide))
  | literal v =>
    rw [level] at h
    split at h <;> cases h

theorem Continues.not (h : Continues digits s e) : Continues digits s (.not e) := by
  intro level rest _ hs
  have hopens : notLevel ≤ e.level → Opens notLevel e := by
    intro hl
    rcases Nat.lt_or_eq_of_le hl with hlt | heq
    · exact .inl hlt
    · exact .inr (eq_not_of_level heq.symm)
  have hinner : whole s notLevel (operandTokens digits s notLevel e ++ rest) = .ok (e, rest) := by
    rw [h.operand fun hl => ⟨hopens hl, hs.mono hl⟩]
    exact Stops.further hs
  rw [tokens_not, List.cons_append, whole_eq, primary_not (by decide), hinner]
  rfl

/-- What stands before IS. -/
theorem Continues.isTest (h : Continues digits s e) {ts : List Token} {found : Expr × List Token}
    (hl : level < isLevel) (ht : Parsed.pair <$> nullTest e ts = .ok found) :
    whole s level (operandTokens digits s isLevel e ++ .word "IS" :: ts) =
      further s level found.1 found.2 := by
  have ho : Infix.ofToken? (.word "IS") = some .isNull := rfl
  rw [h.operand fun hle => ⟨.inl (Nat.lt_of_lt_of_le hl hle), (stops_cons ho).mono hle⟩,
    further_tight ho hl, Infix.follow, ht]
  rfl

theorem Continues.isNull (h : Continues digits s e) : Continues digits s (.isNull e) := by
  intro level rest ho _
  have hl : level < isLevel := ho.lt (by simp)
  have ht : Parsed.pair <$> nullTest e (.word "NULL" :: rest) = .ok (.isNull e, rest) := by
    cases rest <;> rfl
  rw [tokens_isNull, List.append_assoc]
  exact h.isTest hl ht

theorem Continues.isNotNull (h : Continues digits s e) : Continues digits s (.isNotNull e) := by
  intro level rest ho _
  have hl : level < isLevel := ho.lt (by simp)
  have ht : Parsed.pair <$> nullTest e (.word "NOT" :: .word "NULL" :: rest) =
      .ok (.isNotNull e, rest) := rfl
  rw [tokens_isNotNull, List.append_assoc]
  exact h.isTest hl ht

theorem exists_of_two_le {items : List Expr} (h : 2 ≤ items.length) :
    ∃ first second more, items = first :: second :: more := by
  match items with
  | first :: second :: more => exact ⟨first, second, more, rfl⟩
  | [] => simp at h
  | [first] => simp at h

theorem mem_literalsOf {items : List Expr} {v : Scalar} (he : e ∈ items) (hv : v ∈ e.literals) :
    v ∈ literalsOf items := by
  induction items with
  | nil => cases he
  | cons first items ih =>
    rw [literalsOf]
    rcases List.mem_cons.mp he with rfl | he
    · exact List.mem_append_left _ hv
    · exact List.mem_append_right _ (ih he)

/-- The items of a connective and the tokens after it are read back when each item is. -/
theorem Continues.join {c : Connective} {items : List Expr} (several : 2 ≤ items.length)
    (flat : ∀ inner, c.join inner ∉ items) (hall : ∀ e ∈ items, Continues digits s e) :
    Continues digits s (c.join items) := by
  obtain ⟨first, second, more, rfl⟩ := exists_of_two_le several
  intro level rest ho hs
  have hl : level < c.level := by
    cases c with
    | and => exact ho.lt (by simp [Connective.join])
    | or => exact ho.lt (by simp [Connective.join])
  have hs : Stops c.level rest := by
    cases c <;> exact hs
  rw [tokens_join, (hall first (by simp)).items c.ofToken?_word _
    (fun e he => hall e (List.mem_cons_of_mem first he)) hl hs, foldl_flat c flat]

/-- By induction on the form, one case for each kind of expression. -/
theorem Normal.continues (h : Normal s e) (hw : Writable digits e) : Continues digits s e := by
  induction h with
  | column found first => exact .column found first
  | literal spelled => exact .literal spelled hw
  | @compare op l r left right hl hr =>
    have hl := hl fun v hv => hw v (by simp [literals, hv])
    have hr := hr fun v hv => hw v (by simp [literals, hv])
    intro level rest ho hs
    rw [tokens_compare, List.append_assoc, List.cons_append]
    exact hl.binary rfl hr (ho.lt (by simp)) hs
  | @arithmetic op l r left right hl hr =>
    have hl := hl fun v hv => hw v (by simp [literals, hv])
    have hr := hr fun v hv => hw v (by simp [literals, hv])
    have hop : Infix.ofToken? op.token = some (.binary op.level (.arithmetic op)) := by
      cases op <;> rfl
    intro level rest ho hs
    rw [tokens_arithmetic, List.append_assoc, List.cons_append]
    exact hl.binary hop hr (ho.lt (by simp)) hs
  | @and items several flat all ih =>
    refine .join (c := .and) several flat fun e he => ih e he fun v hv => hw v ?_
    rw [literals]
    exact mem_literalsOf he hv
  | @or items several flat all ih =>
    refine .join (c := .or) several flat fun e he => ih e he fun v hv => hw v ?_
    rw [literals]
    exact mem_literalsOf he hv
  | not inner ih => exact (ih hw).not
  | isNull inner ih => exact (ih hw).isNull
  | isNotNull inner ih => exact (ih hw).isNotNull

theorem ofTokens_tokens (h : Normal s e) (hw : Writable digits e) :
    ofTokens s (e.tokens digits s) = .ok e := by
  have hwhole : whole s 0 (e.tokens digits s) = .ok (e, []) := by
    have := h.continues hw 0 [] (.inl e.level_pos) stops_nil
    rwa [List.append_nil, further_nil] at this
  rw [ofTokens_eq, hwhole]
  rfl

end Expr

/-- A number with a minus sign before it or none. -/
def Token.signed (minus : Bool) (digits : String) : String :=
  if minus then "-" ++ digits else digits

@[simp] theorem Token.signed_false (digits : String) : signed false digits = digits := rfl

@[simp] theorem Token.signed_true (digits : String) : signed true digits = "-" ++ digits := rfl

namespace Expr

variable {s : Schema} {level : Nat} {digits : String} {rest : List Token} {more : List Char}
  {cause : SyntaxError}

/-- An expression after a minus sign or none. -/
def signed (minus : Bool) (e : Expr) : Expr := if minus then e.negated else e

theorem ofChars_minus : Token.ofChars ('-' :: more) = (.minus :: ·) <$> Token.ofChars more :=
  Token.ofChars_spell (t := .minus) trivial (.inl rfl)

theorem whole_number : whole s level (.number digits :: rest) = (do
    let v ← Scalar.ofNumber? digits
    further s level (.literal v) rest) := by
  rw [whole_eq, primary_atom rfl, atom]
  cases Scalar.ofNumber? digits <;> rfl

/-- The tokens of a text that starts with a number, after a minus sign or none. -/
theorem ofChars_signed (minus : Bool) (hs : (Token.number digits).Spellable)
    (hr : ∀ c ∈ more.head?, Token.isNumberPart c = false) (h : Token.ofChars more = .ok rest) :
    Token.ofChars ((Token.signed minus digits).toList ++ more) =
      .ok ((if minus then [.minus] else []) ++ .number digits :: rest) := by
  have hnumber : Token.ofChars (digits.toList ++ more) = .ok (.number digits :: rest) := by
    have hspell := Token.ofChars_number hs hr
    rw [h] at hspell
    exact hspell
  cases minus with
  | false => exact hnumber
  | true =>
    have hminus : (Token.signed true digits).toList = '-' :: digits.toList := by
      rw [Token.signed_true, String.toList_append]
      rfl
    rw [hminus, List.cons_append, ofChars_minus, hnumber]
    rfl

theorem ofChars_signed_alone (minus : Bool) (hs : (Token.number digits).Spellable) :
    Token.ofChars (Token.signed minus digits).toList =
      .ok ((if minus then [.minus] else []) ++ [.number digits]) := by
  have hnil : Token.ofChars [] = .ok [] := by rw [Token.ofChars]
  have h := ofChars_signed minus hs (by simp) hnil
  rwa [List.append_nil] at h

/-- A number alone is read as its token is, and negated when a minus sign stands before it. -/
theorem parse_signed (minus : Bool) (hs : (Token.number digits).Spellable) :
    parse s (Token.signed minus digits) =
      ((fun v => signed minus (.literal v)) <$> Scalar.ofNumber? digits).mapError
        (ParseError.mk (Token.signed minus digits)) := by
  rw [parse, ofChars_signed_alone minus hs, ok_bind, ofTokens_eq]
  congr 1
  cases minus with
  | false =>
    rw [if_neg Bool.false_ne_true, List.nil_append, whole_number]
    cases Scalar.ofNumber? digits with
    | error e => rfl
    | ok v =>
      rw [ok_bind, further_nil]
      rfl
  | true =>
    rw [if_pos rfl, List.singleton_append, whole_eq, primary_minus, whole_number]
    cases Scalar.ofNumber? digits with
    | error e => rfl
    | ok v =>
      simp only [ok_bind, further_nil, pure_eq_ok]
      rfl

/-- A number that is refused is refused whatever follows it. -/
theorem parse_refused {text : String} (minus : Bool) (hs : (Token.number digits).Spellable)
    (htext : text.toList = (Token.signed minus digits).toList ++ more)
    (hr : ∀ c ∈ more.head?, Token.isNumberPart c = false) (h : Token.ofChars more = .ok rest)
    (hv : Scalar.ofNumber? digits = .error cause) : parse s text = .error ⟨text, cause⟩ := by
  rw [parse, htext, ofChars_signed minus hs hr h, ok_bind, ofTokens_eq]
  cases minus with
  | false =>
    rw [if_neg Bool.false_ne_true, List.nil_append, whole_number, hv]
    rfl
  | true =>
    rw [if_pos rfl, List.singleton_append, whole_eq, primary_minus, whole_number, hv]
    rfl

end Expr

/-- Text and expressions in normal form go together. An expression in normal form is read back from
its text, whatever spelling is used for its doubles as long as it spells them. In turn all that is
read, alone or as an output column, is in normal form. -/
theorem parse_source (s : Schema) :
    (∀ (digits : Double → String) (e : Expr), e.Normal s →
      (∀ v, Scalar.float64 v ∈ e.literals → Spells digits v) →
      Expr.parse s (e.source digits s) = .ok e) ∧
    (∀ (text : String) (e : Expr), Expr.parse s text = .ok e → e.Normal s) ∧
    ∀ (text : String) (e : Expr) (name : Option String),
      Expr.parseItem s text = .ok (e, name) → e.Normal s := by
  refine ⟨?_, fun text e h => Expr.parse_normal h, fun text e name h => Expr.parseItem_normal h⟩
  intro digits e h hw
  rw [Expr.parse, Expr.ofChars_source hw, ok_bind, Expr.ofTokens_tokens h hw, mapError_ok]

/-- A product with a negative number, tested for NULL. -/
theorem parse_source_product : Expr.parse ⟨[⟨"a", .float64, true⟩]⟩ "\"a\" * -1.5 IS NULL" =
    .ok (.isNull (.arithmetic .mul (.column 0)
      (.literal (.float64 (.ofPattern 0xbff8000000000000))))) := by
  have hread : (Decimal.numeral? ['1', '.', '5']).map (Binary.ofNumeral false) =
      some (Binary.magnitude (.ofPattern 0xbff8000000000000) : Double) := by decide +kernel
  have hspells : Spells (fun _ => "1.5") (.ofPattern 0xbff8000000000000) :=
    ⟨⟨'1', ['.', '5'], rfl, rfl, List.all_eq_true.mp rfl⟩, by decide,
      (Binary.parse?_unsigned (by decide)).trans hread⟩
  have hnormal : Expr.Normal ⟨[⟨"a", .float64, true⟩]⟩ (.isNull (.arithmetic .mul (.column 0)
      (.literal (.float64 (.ofPattern 0xbff8000000000000))))) :=
    .isNull (.arithmetic (.column (f := ⟨"a", .float64, true⟩) rfl rfl)
      (.literal (by rw [Scalar.Spelled]; decide +kernel)))
  have hparse := (parse_source _).1 (fun _ => "1.5") _ hnormal fun v hv => by
    obtain rfl : v = .ofPattern 0xbff8000000000000 := by simpa [Expr.literals] using hv
    exact hspells
  have hsource : Expr.source (fun _ => "1.5") ⟨[⟨"a", .float64, true⟩]⟩
      (.isNull (.arithmetic .mul (.column 0)
        (.literal (.float64 (.ofPattern 0xbff8000000000000))))) = "\"a\" * -1.5 IS NULL" := by
    decide +kernel
  rwa [hsource] at hparse

/-- A double that is written without a point or an exponent is read as an integer, and one whose
exponent has a sign is not read at all, although the reader of doubles takes both texts. -/
theorem bare_doubles_misread :
    (Expr.Normal ⟨[]⟩ (.literal (.float64 (.ofPattern 0x3ff0000000000000))) ∧
      Binary.parse? "1".toList =
        some (Binary.magnitude (.ofPattern 0x3ff0000000000000) : Double) ∧
      Expr.source (fun _ => "1") ⟨[]⟩ (.literal (.float64 (.ofPattern 0x3ff0000000000000))) = "1" ∧
      Expr.parse ⟨[]⟩ "1" = .ok (.literal (.int32 1))) ∧
    Expr.Normal ⟨[]⟩ (.literal (.float64 (.ofPattern 0x3ee4f8b588e368f1))) ∧
      Binary.parse? "1e-5".toList =
        some (Binary.magnitude (.ofPattern 0x3ee4f8b588e368f1) : Double) ∧
      Expr.source (fun _ => "1e-5") ⟨[]⟩ (.literal (.float64 (.ofPattern 0x3ee4f8b588e368f1))) =
        "1e-5" ∧
      Expr.parse ⟨[]⟩ "1e-5" = .error ⟨"1e-5", .invalidNumber "1e"⟩ := by
  have hone : Expr.parse ⟨[]⟩ "1" = .ok (.literal (.int32 1)) := by
    have hread : Scalar.ofNumber? "1" = .ok (.int32 1) := by decide +kernel
    have hparse := Expr.parse_signed (s := ⟨[]⟩) false (Token.number_spellable 1)
    rwa [show Nat.repr 1 = "1" from rfl, hread] at hparse
  have hspell : (Token.number "1e").Spellable := ⟨'1', ['e'], rfl, rfl, List.all_eq_true.mp rfl⟩
  have hexponent : Token.ofChars ['-', '5'] = .ok [.minus, .number "5"] :=
    Expr.ofChars_signed_alone true (Token.number_spellable 5)
  have hrefused : Scalar.ofNumber? "1e" = .error (.invalidNumber "1e") := by decide +kernel
  refine ⟨⟨.literal ?_, ?_, by decide +kernel, hone⟩, .literal ?_, ?_, by decide +kernel, ?_⟩
  · rw [Scalar.Spelled]
    decide +kernel
  · decide +kernel
  · rw [Scalar.Spelled]
    decide +kernel
  · decide +kernel
  · refine Expr.parse_refused false hspell rfl ?_ hexponent hrefused
    rintro c ⟨⟩
    rfl

end FlowPlan
