import FlowPlan.Expr.Token
import FlowPlan.Number.Decimal
import FlowPlan.Expr.Eval

namespace FlowPlan

/-- How tightly an operator binds, from OR to the sign of a number. -/
def orLevel : Nat := 5

def andLevel : Nat := 10

def notLevel : Nat := 15

def comparisonLevel : Nat := 20

def isLevel : Nat := 25

def additiveLevel : Nat := 30

def multiplicativeLevel : Nat := 40

def signLevel : Nat := 50

namespace Expr

/-- The items of an operand of AND. -/
def conjuncts : Expr → List Expr
  | .and items => items
  | e => [e]

/-- The items of an operand of OR. -/
def disjuncts : Expr → List Expr
  | .or items => items
  | e => [e]

/-- AND of two operands, taking in the items of an operand that is an AND itself. -/
def conjoin (l r : Expr) : Expr := .and (l.conjuncts ++ r.conjuncts)

/-- OR of two operands, taking in the items of an operand that is an OR itself. -/
def disjoin (l r : Expr) : Expr := .or (l.disjuncts ++ r.disjuncts)

/-- A minus sign before an operand: a literal number is negated, anything else subtracted
from zero. -/
def negated : Expr → Expr
  | .literal (.int32 v) => .literal (.int32 (-v))
  | .literal (.int64 v) => .literal (.int64 (-v))
  | .literal (.float64 v) => .literal (.float64 v.neg)
  | e => .arithmetic .sub (.literal (.int32 0)) e

end Expr

/-- The value of a number token: a double when it has a point or an exponent, else the narrowest
integer type that holds it. -/
def Scalar.ofNumber? (text : String) : Except SyntaxError Scalar :=
  let chars := text.toList
  if chars.any fun c => c == '.' || c == 'e' || c == 'E' then
    match Binary.parse? chars with
    | some v => .ok (.float64 v)
    | none => .error (.invalidNumber text)
  else
    match Decimal.signed? Int64.minValue.toInt Int64.maxValue.toInt chars with
    | some v => .ok (if fitsInt32 v then .int32 (.ofInt v) else .int64 (.ofInt v))
    | none => .error (.invalidNumber text)

/-- What an operator token does with the operand on its left. -/
inductive Infix where
  | isNull
  | binary (level : Nat) (combine : Expr → Expr → Expr)

namespace Infix

/-- The operator that a token is, if it is one. -/
def ofToken? : Token → Option Infix
  | .compare op => some (.binary comparisonLevel (.compare op))
  | .plus => some (.binary additiveLevel (.arithmetic .add))
  | .minus => some (.binary additiveLevel (.arithmetic .sub))
  | .times => some (.binary multiplicativeLevel (.arithmetic .mul))
  | .over => some (.binary multiplicativeLevel (.arithmetic .div))
  | t =>
    if t.isKeyword "OR" then some (.binary orLevel Expr.disjoin)
    else if t.isKeyword "AND" then some (.binary andLevel Expr.conjoin)
    else if t.isKeyword "IS" then some .isNull
    else none

def level : Infix → Nat
  | .isNull => isLevel
  | .binary l _ => l

end Infix

/-- An expression read from the front of a list of tokens, with a rest below `bound` long. -/
structure Parsed (bound : Nat) where
  expr : Expr
  rest : List Token
  short : rest.length < bound

namespace Parsed

def weaken {m n : Nat} (p : Parsed m) (h : m ≤ n) : Parsed n :=
  ⟨p.expr, p.rest, Nat.lt_of_lt_of_le p.short h⟩

/-- The same rest after a change of the expression. -/
def map {n : Nat} (f : Expr → Expr) (p : Parsed n) : Parsed n := ⟨f p.expr, p.rest, p.short⟩

end Parsed

namespace Expr

/-- The words after IS: an optional NOT, then NULL. -/
def nullTest (left : Expr) : (ts : List Token) → Except SyntaxError (Parsed ts.length)
  | [] => .error (.expectedNull none)
  | [t] =>
    if t.isKeyword "NULL" then .ok ⟨.isNull left, [], by simp⟩
    else if t.isKeyword "NOT" then .error (.expectedNull none)
    else .error (.expectedNull (some t))
  | t :: u :: rest =>
    if t.isKeyword "NOT" then
      if u.isKeyword "NULL" then .ok ⟨.isNotNull left, rest, by simp only [List.length_cons]; omega⟩
      else .error (.expectedNull (some u))
    else if t.isKeyword "NULL" then .ok ⟨.isNull left, u :: rest, by simp⟩
    else .error (.expectedNull (some t))

/-- The operand that a single token is, or nothing for tokens that start a longer one. -/
def atom (s : Schema) (t : Token) : Except SyntaxError Expr :=
  let named (name : String) : Except SyntaxError Expr :=
    match s.indexOf? name with
    | some i => .ok (.column i)
    | none => .error (.unknownColumn name)
  match t with
  | .word name =>
    if t.isKeyword "TRUE" then .ok (.literal (.bool true))
    else if t.isKeyword "FALSE" then .ok (.literal (.bool false))
    else if t.isKeyword "NULL" then .ok (.literal .null)
    else named name
  | .quoted name => named name
  | .number text => .literal <$> Scalar.ofNumber? text
  | .string text => .ok (.literal (.text text))
  | _ => .error (.expectedOperand (some t))

mutual

/-- Reads one operand: a sign, NOT or a parenthesis with what it governs, or a single token. -/
def operand (s : Schema) (ts : List Token) : Except SyntaxError (Parsed ts.length) :=
  match ts with
  | [] => .error (.expectedOperand none)
  | .minus :: rest => do
    let p ← expression s signLevel rest
    pure ((p.map negated).weaken (by simp))
  | .plus :: rest => do
    let p ← expression s signLevel rest
    pure (p.weaken (by simp))
  | .leftParen :: rest => do
    let p ← expression s 0 rest
    match h : p.rest with
    | .rightParen :: tail =>
      pure ⟨p.expr, tail, by have := p.short; rw [h] at this; simp at this ⊢; omega⟩
    | [] => .error (.expectedRightParen none)
    | t :: _ => .error (.expectedRightParen (some t))
  | t :: rest =>
    if t.isKeyword "NOT" then do
      let p ← expression s notLevel rest
      pure ((p.map .not).weaken (by simp))
    else do
      let e ← atom s t
      pure ⟨e, rest, by simp⟩
termination_by 2 * ts.length

/-- Extends an operand on the left by the operators that bind more tightly than `level`. Operators
of one level group to the left. -/
def extend (s : Schema) (level : Nat) (left : Expr) (ts : List Token) :
    Except SyntaxError (Parsed (ts.length + 1)) :=
  match ts with
  | [] => .ok ⟨left, [], by simp⟩
  | t :: rest =>
    match Infix.ofToken? t with
    | none => .ok ⟨left, t :: rest, by simp⟩
    | some op =>
      if level < op.level then do
        let p ← match op with
          | .isNull => nullTest left rest
          | .binary l combine => do
            let right ← expression s l rest
            pure (right.map (combine left))
        have := p.short
        let q ← extend s level p.expr p.rest
        pure (q.weaken (by simp; omega))
      else .ok ⟨left, t :: rest, by simp⟩
termination_by 2 * ts.length
decreasing_by all_goals simp_all; omega

/-- Reads an expression of operators that bind more tightly than `level`. -/
def expression (s : Schema) (level : Nat) (ts : List Token) :
    Except SyntaxError (Parsed ts.length) := do
  let p ← operand s ts
  have := p.short
  let q ← extend s level p.expr p.rest
  pure (q.weaken (by omega))
termination_by 2 * ts.length + 1

end

/-- A text that could not be read, with the cause. -/
structure ParseError where
  text : String
  cause : SyntaxError
  deriving DecidableEq, Repr

def ParseError.message (e : ParseError) : String :=
  "Cannot parse expression \"" ++ e.text ++ "\": " ++ e.cause.message

/-- Reads a whole list of tokens as one expression. -/
def ofTokens (s : Schema) (ts : List Token) : Except SyntaxError Expr := do
  let p ← expression s 0 ts
  match p.rest with
  | [] => pure p.expr
  | t :: _ => .error (.trailing t)

/-- Reads a whole list of tokens as an expression with an optional name after AS. -/
def itemOfTokens (s : Schema) (ts : List Token) : Except SyntaxError (Expr × Option String) := do
  let p ← expression s 0 ts
  match p.rest with
  | [] => pure (p.expr, none)
  | t :: rest =>
    if t.isKeyword "AS" then
      let named (name : String) (tail : List Token) :
          Except SyntaxError (Expr × Option String) :=
        match tail with
        | [] => .ok (p.expr, some name)
        | u :: _ => .error (.trailing u)
      match rest with
      | .word name :: tail => named name tail
      | .quoted name :: tail => named name tail
      | [] => .error (.expectedAlias none)
      | u :: _ => .error (.expectedAlias (some u))
    else .error (.trailing t)

/-- Reads expression text over the columns of a schema. A name means the first column that has it.
-/
def parse (s : Schema) (text : String) : Except ParseError Expr :=
  (Token.ofChars text.toList >>= ofTokens s).mapError (ParseError.mk text)

/-- Reads an output column: an expression with an optional name. -/
def parseItem (s : Schema) (text : String) : Except ParseError (Expr × Option String) :=
  (Token.ofChars text.toList >>= itemOfTokens s).mapError (ParseError.mk text)

end Expr

end FlowPlan
