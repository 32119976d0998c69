import FlowPlan.Expr.Typing
import FlowPlan.Proofs.Prefixes

namespace FlowPlan

open Outcome

namespace Connective

/-- The truth value that decides: false for AND, true for OR. -/
def decider : Connective → Bool
  | .and => false
  | .or => true

variable (c : Connective) {row : Values} {decider sawNull : Bool} {s : Schema} {e l r : Expr}
  {seen : List Nat} {xs rest : List Expr}

theorem eval_join : (c.join xs).eval row = Expr.evalItems row c.decider false xs := by
  cases c <;> rw [join, Expr.eval] <;> rfl

theorem typeOver_join : (c.join xs).typeOver s = (do
    Expr.typesOver s xs
    pure .boolean) := by
  cases c <;> rw [join, Expr.typeOver]

theorem nullableOver_join : (c.join xs).nullableOver s = Expr.anyNullableOver s xs := by
  cases c <;> rw [join, Expr.nullableOver]

theorem addColumns_join : (c.join xs).addColumns seen = Expr.addColumnsOf seen xs := by
  cases c <;> rw [join, Expr.addColumns]

/-- An expression is of a connective's kind, or its only item. -/
theorem items_cases (e : Expr) : (∃ xs, e = c.join xs ∧ c.items e = xs) ∨ c.items e = [e] := by
  by_cases h : ∃ xs, e = c.join xs
  · obtain ⟨xs, rfl⟩ := h
    exact .inl ⟨xs, rfl, c.items_join xs⟩
  · exact .inr (c.items_of_ne fun xs he => h ⟨xs, he⟩)

/-- How the items after one are evaluated, from what that one gives. -/
def resume (row : Values) (decider sawNull : Bool) (rest : List Expr) :
    Except EvalError Scalar → Except EvalError Scalar
  | .error x => .error x
  | .ok (.bool b) =>
    if b = decider then .ok (.bool decider) else Expr.evalItems row decider sawNull rest
  | .ok .null => Expr.evalItems row decider true rest
  | .ok v => .error (.notBoolean v.type)

theorem resume_bool {b : Bool} : resume row decider sawNull rest (.ok (.bool b)) =
    if b = decider then .ok (.bool decider) else Expr.evalItems row decider sawNull rest := rfl

/-- Only what the rest gives matters, with a NULL before it or without. -/
theorem resume_congr {ys : List Expr} (h : ∀ sawNull, Expr.evalItems row decider sawNull xs =
    Expr.evalItems row decider sawNull ys) (v : Except EvalError Scalar) :
    resume row decider sawNull xs v = resume row decider sawNull ys v := by
  unfold resume
  rw [h sawNull, h true]

theorem evalItems_cons : Expr.evalItems row decider sawNull (e :: rest) =
    resume row decider sawNull rest (e.eval row) := by
  rw [Expr.evalItems]
  cases e.eval row with
  | error x => rfl
  | ok v => cases v <;> rfl

/-- By induction on the inner items: they leave the outer ones what one value would, a NULL among
them included. -/
theorem resume_evalItems (innerNull : Bool) :
    resume row decider sawNull rest (Expr.evalItems row decider innerNull xs) =
      Expr.evalItems row decider (sawNull || innerNull) (xs ++ rest) := by
  induction xs generalizing innerNull with
  | nil => cases innerNull <;> cases decider <;> simp [Expr.evalItems, resume]
  | cons x xs ih =>
    rw [List.cons_append, evalItems_cons, evalItems_cons]
    cases x.eval row with
    | error y => rfl
    | ok v =>
      cases v with
      | bool b =>
        rw [resume_bool, resume_bool]
        by_cases hb : b = decider
        · rw [if_pos hb, if_pos hb, resume_bool, if_pos rfl]
        · rw [if_neg hb, if_neg hb, ih innerNull]
      | null =>
        have h := ih true
        rwa [Bool.or_true] at h
      | _ => rfl

theorem evalItems_items : Expr.evalItems row c.decider sawNull (c.items e ++ rest) =
    Expr.evalItems row c.decider sawNull (e :: rest) := by
  rcases c.items_cases e with ⟨xs, rfl, h⟩ | h
  · rw [h, evalItems_cons, eval_join, resume_evalItems, Bool.or_false]
  · rw [h, List.singleton_append]

theorem typesOver_append : Expr.typesOver s (xs ++ rest) = (do
    Expr.typesOver s xs
    Expr.typesOver s rest) := by
  induction xs with
  | nil => rfl
  | cons x xs ih =>
    rw [List.cons_append, Expr.typesOver, Expr.typesOver, ih]
    cases x.typeOver s <;> rfl

theorem typesOver_items : Expr.typesOver s (c.items e ++ rest) = Expr.typesOver s (e :: rest) := by
  rcases c.items_cases e with ⟨xs, rfl, h⟩ | h
  · rw [h, typesOver_append, Expr.typesOver, typeOver_join]
    cases Expr.typesOver s xs <;> rfl
  · rw [h, List.singleton_append]

theorem anyNullableOver_append : Expr.anyNullableOver s (xs ++ rest) =
    (Expr.anyNullableOver s xs || Expr.anyNullableOver s rest) := by
  induction xs with
  | nil => rfl
  | cons x xs ih =>
    rw [List.cons_append, Expr.anyNullableOver, Expr.anyNullableOver, ih, Bool.or_assoc]

theorem anyNullableOver_items : Expr.anyNullableOver s (c.items e ++ rest) =
    Expr.anyNullableOver s (e :: rest) := by
  rcases c.items_cases e with ⟨xs, rfl, h⟩ | h
  · rw [h, anyNullableOver_append, Expr.anyNullableOver, nullableOver_join]
  · rw [h, List.singleton_append]

theorem addColumnsOf_append : Expr.addColumnsOf seen (xs ++ rest) =
    Expr.addColumnsOf (Expr.addColumnsOf seen xs) rest := by
  induction xs generalizing seen with
  | nil => rfl
  | cons x xs ih => rw [List.cons_append, Expr.addColumnsOf, Expr.addColumnsOf, ih]

theorem addColumnsOf_items : Expr.addColumnsOf seen (c.items e ++ rest) =
    Expr.addColumnsOf seen (e :: rest) := by
  rcases c.items_cases e with ⟨xs, rfl, h⟩ | h
  · rw [h, addColumnsOf_append, Expr.addColumnsOf, addColumns_join]
  · rw [h, List.singleton_append]

theorem eval_combine : (c.combine l r).eval row = (c.join [l, r]).eval row := by
  rw [c.combine_eq, eval_join, eval_join, evalItems_items, evalItems_cons, evalItems_cons]
  refine resume_congr (fun sawNull => ?_) (l.eval row)
  rw [← evalItems_items, List.append_nil]

theorem typeOver_combine : (c.combine l r).typeOver s = (c.join [l, r]).typeOver s := by
  have hright : Expr.typesOver s (c.items r) = Expr.typesOver s [r] := by
    rw [← typesOver_items, List.append_nil]
  rw [c.combine_eq, typeOver_join, typeOver_join, typesOver_items]
  simp only [Expr.typesOver, hright]

theorem nullableOver_combine : (c.combine l r).nullableOver s = (c.join [l, r]).nullableOver s := by
  have hright : Expr.anyNullableOver s (c.items r) = Expr.anyNullableOver s [r] := by
    rw [← anyNullableOver_items, List.append_nil]
  rw [c.combine_eq, nullableOver_join, nullableOver_join, anyNullableOver_items]
  simp only [Expr.anyNullableOver, hright]

theorem columns_combine : (c.combine l r).columns = (c.join [l, r]).columns := by
  have hright : ∀ seen, Expr.addColumnsOf seen (c.items r) = Expr.addColumnsOf seen [r] := by
    intro seen
    rw [← addColumnsOf_items, List.append_nil]
  rw [c.combine_eq, Expr.columns, Expr.columns, addColumns_join, addColumns_join, addColumnsOf_items]
  simp only [Expr.addColumnsOf, hright]

theorem combine_assoc (e l r : Expr) :
    c.combine (c.combine e l) r = c.combine e (c.combine l r) := by
  rw [c.combine_eq, c.combine_eq, c.combine_eq, c.combine_eq, c.items_join, c.items_join,
    List.append_assoc]

/-- The expression of a chain: an operand alone, or one list of the items of all. -/
def chain : List Expr → Expr
  | [e] => e
  | operands => c.join (operands.flatMap c.items)

theorem items_chain (h : xs ≠ []) : c.items (c.chain xs) = xs.flatMap c.items := by
  match xs with
  | [e] => simp [chain]
  | x :: y :: rest => exact c.items_join _

theorem chain_append {ys : List Expr} (hx : xs ≠ []) (hy : ys ≠ []) :
    c.chain (xs ++ ys) = c.combine (c.chain xs) (c.chain ys) := by
  rw [c.combine_eq, c.items_chain hx, c.items_chain hy, ← List.flatMap_append]
  obtain ⟨x, xs, rfl⟩ := List.exists_cons_of_ne_nil hx
  obtain ⟨y, ys, rfl⟩ := List.exists_cons_of_ne_nil hy
  cases xs <;> rfl

theorem level_pos : 0 < c.level := by
  cases c <;> exact Nat.succ_pos _

theorem level_le_not : c.level ≤ notLevel := by
  cases c <;> decide

/-- A word for the connective, in any case of letters, is its operator. -/
theorem ofToken?_keyword {t : Token} (h : t.isKeyword c.word = true) :
    Infix.ofToken? t = some (.binary c.level c.combine) := by
  cases t with
  | word w =>
    unfold Infix.ofToken?
    cases c with
    | and =>
      have hor : Token.isKeyword (.word w) "OR" = false := Token.isKeyword_congr h
      have hand : Token.isKeyword (.word w) "AND" = true := h
      simp only [hor, hand, Bool.false_eq_true, ↓reduceIte]
      rfl
    | or =>
      have hor : Token.isKeyword (.word w) "OR" = true := h
      simp only [hor, ↓reduceIte]
      rfl
  | _ => cases h

end Connective

/-- Tokens of operands with the connective between each two, grouped by parentheses in any way. An
operand is what is read above the level of the connective. -/
inductive Chained (s : Schema) (c : Connective) : List Expr → List Token → Prop where
  | operand {e : Expr} {ts : List Token} (reads : Expr.whole s c.level ts = .ok (e, [])) :
      Chained s c [e] ts
  | group {es : List Expr} {ts : List Token} (inner : Chained s c es ts) :
      Chained s c es (.leftParen :: (ts ++ [.rightParen]))
  | join {es fs : List Expr} {t : Token} {ts us : List Token} (left : Chained s c es ts)
      (word : t.isKeyword c.word = true) (right : Chained s c fs us) :
      Chained s c (es ++ fs) (ts ++ t :: us)

namespace Chained

open FlowPlan.Expr

variable {s : Schema} {c : Connective} {es : List Expr} {ts rest : List Token} {k : Nat}

theorem ne_nil (h : Chained s c es ts) : es ≠ [] := by
  induction h with
  | operand => exact List.cons_ne_nil _ _
  | group _ ih => exact ih
  | join _ _ _ ih => simp [ih]

/-- What is read above the level of the connective is an operand: below it, reading starts with the
operand, and goes on with it after the connective. -/
theorem reads_operand {e : Expr} (h : ∀ rest, Stops c.level rest →
    whole s c.level (ts ++ rest) = .ok (e, rest)) (hk : k < c.level) :
    (∀ rest, Stops c.level rest → whole s k (ts ++ rest) = further s k e rest) ∧
    ∀ acc t rest, t.isKeyword c.word = true → Stops c.level rest →
      further s k acc (t :: (ts ++ rest)) = further s k (c.combine acc e) rest := by
  refine ⟨fun rest hstop => ?_, fun acc t rest ht hstop => ?_⟩
  · rw [whole_lower (Nat.le_of_lt hk), h rest hstop]
    rfl
  · rw [further_tight (c.ofToken?_keyword ht) hk, Infix.follow, h rest hstop]
    rfl

/-- By induction on the grouping: a chain is read as if it were one operand, at its start or after
the connective. -/
theorem reads (h : Chained s c es ts) (hk : k < c.level) :
    (∀ rest, Stops c.level rest → whole s k (ts ++ rest) = further s k (c.chain es) rest) ∧
    ∀ acc t rest, t.isKeyword c.word = true → Stops c.level rest →
      further s k acc (t :: (ts ++ rest)) = further s k (c.combine acc (c.chain es)) rest := by
  induction h generalizing k with
  | @operand e ts hreads =>
    refine reads_operand (fun rest hstop => ?_) hk
    rw [whole_append hreads fun _ => by rwa [Nat.min_eq_left c.level_le_not]]
    rfl
  | @group es ts _ ih =>
    refine reads_operand (fun rest hstop => ?_) hk
    have hinner : whole s 0 (ts ++ .rightParen :: rest) = .ok (c.chain es, .rightParen :: rest) := by
      rw [(ih c.level_pos).1 _ stops_rightParen, stops_rightParen.further]
    rw [List.cons_append, List.append_assoc, List.singleton_append, whole_eq, primary_leftParen,
      hinner]
    exact hstop.further
  | @join es fs t ts us left word right ihl ihr =>
    have hnext : ∀ rest, Stops c.level (t :: (us ++ rest)) := fun rest =>
      stops_cons (c.ofToken?_keyword word)
    have hsplit : ∀ rest, ts ++ t :: us ++ rest = ts ++ (t :: (us ++ rest)) := by simp
    rw [c.chain_append left.ne_nil right.ne_nil]
    refine ⟨fun rest hstop => ?_, fun acc u rest hu hstop => ?_⟩
    · rw [hsplit, (ihl hk).1 _ (hnext rest), (ihr hk).2 _ t rest word hstop]
    · rw [hsplit, (ihl hk).2 acc u _ hu (hnext rest), (ihr hk).2 _ t rest word hstop,
        c.combine_assoc]

theorem ofTokens_eq_ok (h : Chained s c es ts) : ofTokens s ts = .ok (c.chain es) := by
  have hwhole := (h.reads c.level_pos).1 [] stops_nil
  rw [List.append_nil, further_nil] at hwhole
  rw [ofTokens_eq, hwhole]
  rfl

end Chained

/-- Taking the items of an operand into the list of its own kind changes nothing that is computed
from the expression, over any row or schema. A chain of operands is read as the list of the items of
all, however parentheses group them. -/
theorem flattening_keeps_meaning (c : Connective) :
    (∀ l r : Expr, (∀ row : Values, (c.combine l r).eval row = (c.join [l, r]).eval row) ∧
      (∀ s : Schema, (c.combine l r).typeOver s = (c.join [l, r]).typeOver s ∧
        (c.combine l r).nullableOver s = (c.join [l, r]).nullableOver s) ∧
      (c.combine l r).columns = (c.join [l, r]).columns) ∧
    ∀ (s : Schema) (es : List Expr) (ts : List Token) (text : String), Chained s c es ts →
      Token.ofChars text.toList = .ok ts → Expr.parse s text = .ok (c.chain es) := by
  refine ⟨fun l r => ⟨fun _ => c.eval_combine, fun _ => ⟨c.typeOver_combine, c.nullableOver_combine⟩,
    c.columns_combine⟩, ?_⟩
  intro s es ts text h htext
  rw [Expr.parse, htext, ok_bind, h.ofTokens_eq_ok, mapError_ok]

/-- Three columns of truth values. -/
def Schema.flags : Schema := ⟨[⟨"a", .boolean, true⟩, ⟨"b", .boolean, true⟩, ⟨"c", .boolean, true⟩]⟩

/-- Grouped from the right and from the left. -/
theorem flattening_keeps_meaning_flags :
    Expr.parse .flags "a AND (b and c)" = .ok (.and [.column 0, .column 1, .column 2]) ∧
    Expr.parse .flags "(a AND b) AND c" = .ok (.and [.column 0, .column 1, .column 2]) := by
  have ha : Chained .flags .and [.column 0] [.word "a"] := .operand (by cbv)
  have hb : Chained .flags .and [.column 1] [.word "b"] := .operand (by cbv)
  have hc : Chained .flags .and [.column 2] [.word "c"] := .operand (by cbv)
  have hparse := (flattening_keeps_meaning .and).2 .flags
  refine ⟨hparse _ _ _ (.join ha ?_ (.group (.join hb ?_ hc))) (by cbv),
    hparse _ _ _ (.join (.group (.join ha ?_ hb)) ?_ hc) (by cbv)⟩ <;> rfl

end FlowPlan
