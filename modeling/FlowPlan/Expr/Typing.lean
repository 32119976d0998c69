import FlowPlan.Expr.Text

namespace FlowPlan

/-- Why an expression has no type over a schema, or not the one it needs. -/
inductive TypingError where
  | columnOutOfRange (index count : Nat)
  | notNumeric (op : Arithmetic) (left right : DataType)
  | notPredicate (predicate : Expr) (type : DataType)

namespace TypingError

def message : TypingError → String
  | .columnOutOfRange i n => s!"column ${i} out of range for input of {n} columns"
  | .notNumeric op l r =>
    s!"operator {op.symbol} expects numeric operands, got {l.sqlName} and {r.sqlName}"
  | .notPredicate p t =>
    s!"filter predicate {p.toText} has type {t.sqlName}, expected BOOLEAN"

end TypingError

namespace Expr

/-- A type that arithmetic takes: a number, or NULL. -/
def isOperand (t : DataType) : Bool := t.isNumeric || t == .null

/-- The type of arithmetic on operands of two types. -/
def arithmeticType (op : Arithmetic) (l r : DataType) : Except TypingError DataType :=
  if isOperand l && isOperand r then .ok (l.widen r) else .error (.notNumeric op l r)

mutual

/-- The type of an expression over rows of a schema. -/
def typeOver (s : Schema) : Expr → Except TypingError DataType
  | .column i =>
    match s.field? i with
    | some f => .ok f.type
    | none => .error (.columnOutOfRange i s.length)
  | .literal v => .ok v.type
  | .arithmetic op l r => do
    let t ← typeOver s l
    let u ← typeOver s r
    arithmeticType op t u
  | .compare _ l r => do
    let _ ← typeOver s l
    let _ ← typeOver s r
    pure .boolean
  | .and items => do
    typesOver s items
    pure .boolean
  | .or items => do
    typesOver s items
    pure .boolean
  | .not e => do
    let _ ← typeOver s e
    pure .boolean
  | .isNull e => do
    let _ ← typeOver s e
    pure .boolean
  | .isNotNull e => do
    let _ ← typeOver s e
    pure .boolean

def typesOver (s : Schema) : List Expr → Except TypingError Unit
  | [] => .ok ()
  | e :: rest => do
    let _ ← typeOver s e
    typesOver s rest

end

mutual

/-- Whether an expression may be NULL over rows of a schema. -/
def nullableOver (s : Schema) : Expr → Bool
  | .column i =>
    match s.field? i with
    | some f => f.nullable
    | none => true
  | .literal v => v.isNull
  | .compare _ l r => nullableOver s l || nullableOver s r
  | .arithmetic _ l r => nullableOver s l || nullableOver s r
  | .and items => anyNullableOver s items
  | .or items => anyNullableOver s items
  | .not e => nullableOver s e
  | .isNull _ => false
  | .isNotNull _ => false

def anyNullableOver (s : Schema) : List Expr → Bool
  | [] => false
  | e :: rest => nullableOver s e || anyNullableOver s rest

end

/-- Checks a filter's predicate: it is BOOLEAN, or the NULL literal. -/
def checkPredicate (s : Schema) (predicate : Expr) : Except TypingError Unit := do
  let t ← predicate.typeOver s
  if t == .boolean || t == .null then pure () else .error (.notPredicate predicate t)

end Expr

end FlowPlan
