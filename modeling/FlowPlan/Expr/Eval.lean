import FlowPlan.Expr.Basic

namespace FlowPlan

/-- Why an expression has no value over a row. -/
inductive EvalError where
  | missingColumn (index : Nat)
  | incomparable (left right : DataType)
  | notBoolean (type : DataType)
  | notNumeric (op : Arithmetic) (left right : DataType)
  | divisionByZero
  | overflow (op : Arithmetic) (left right : Int)
  | narrowOverflow (value : Int)
  deriving DecidableEq, Repr

namespace EvalError

def message : EvalError → String
  | .missingColumn i => s!"column ${i} missing from row"
  | .incomparable l r => s!"cannot compare {l.sqlName} with {r.sqlName}"
  | .notBoolean t => s!"expected BOOLEAN, got {t.sqlName}"
  | .notNumeric op l r =>
    s!"operator {op.symbol} expects numeric operands, got {l.sqlName} and {r.sqlName}"
  | .divisionByZero => "division by zero"
  | .overflow op a b => s!"integer overflow in {a} {op.symbol} {b}"
  | .narrowOverflow v => s!"value {v} overflows INTEGER"

end EvalError

/-- True for the values of a BIGINT. -/
def fitsInt64 (v : Int) : Bool := Int64.minValue.toInt ≤ v && v ≤ Int64.maxValue.toInt

/-- True for the values of an INTEGER. -/
def fitsInt32 (v : Int) : Bool := Int32.minValue.toInt ≤ v && v ≤ Int32.maxValue.toInt

namespace Arithmetic

/-- The exact result on integers; division drops the fraction. -/
def onIntegers : Arithmetic → Int → Int → Int
  | .add, a, b => a + b
  | .sub, a, b => a - b
  | .mul, a, b => a * b
  | .div, a, b => a.tdiv b

def onDoubles : Arithmetic → Double → Double → Double
  | .add, a, b => a.add b
  | .sub, a, b => a.sub b
  | .mul, a, b => a.mul b
  | .div, a, b => a.div b

/-- The result on two integers whose types widen to `type`. -/
def applyIntegers (op : Arithmetic) (type : DataType) (a b : Int) : Except EvalError Scalar :=
  if op = .div ∧ b = 0 then .error .divisionByZero
  else
    let v := op.onIntegers a b
    if !fitsInt64 v then .error (.overflow op a b)
    else if type = .int32 then
      if fitsInt32 v then .ok (.int32 (.ofInt v)) else .error (.narrowOverflow v)
    else .ok (.int64 (.ofInt v))

/-- The result on two numbers, one of them floating point, whose types widen to `type`. -/
def applyDoubles (op : Arithmetic) (type : DataType) (a b : Double) : Scalar :=
  let v := op.onDoubles a b
  if type = .float32 then .float32 v.convert else .float64 v

/-- The result on two values. NULL wins over every other operand. -/
def apply (op : Arithmetic) (l r : Scalar) : Except EvalError Scalar :=
  if l.isNull || r.isNull then .ok .null
  else
    let type := l.type.widen r.type
    match l.integer?, r.integer? with
    | some a, some b => op.applyIntegers type a b
    | _, _ =>
      match l.double?, r.double? with
      | some a, some b => .ok (op.applyDoubles type a b)
      | _, _ => .error (.notNumeric op l.type r.type)

end Arithmetic

namespace Comparison

/-- The truth value of a comparison, NULL when a side is. -/
def apply (op : Comparison) (l r : Scalar) : Except EvalError Scalar :=
  if l.isNull || r.isNull then .ok .null
  else
    match l.compare? r with
    | some o => .ok (.bool (op.holds o))
    | none => .error (.incomparable l.type r.type)

end Comparison

/-- The truth value opposite to a given one; NULL stays. -/
def Scalar.negate : Scalar → Except EvalError Scalar
  | .bool b => .ok (.bool !b)
  | .null => .ok .null
  | v => .error (.notBoolean v.type)

namespace Expr

mutual

def eval (row : Values) : Expr → Except EvalError Scalar
  | .column i =>
    match row[i]? with
    | some v => .ok v
    | none => .error (.missingColumn i)
  | .literal v => .ok v
  | .compare op l r => do
    let a ← eval row l
    let b ← eval row r
    op.apply a b
  | .arithmetic op l r => do
    let a ← eval row l
    let b ← eval row r
    op.apply a b
  | .and items => evalItems row false false items
  | .or items => evalItems row true false items
  | .not e => do
    let v ← eval row e
    v.negate
  | .isNull e => do
    let v ← eval row e
    pure (.bool v.isNull)
  | .isNotNull e => do
    let v ← eval row e
    pure (.bool !v.isNull)

/-- The value of a list of items that the truth value `decider` decides: false for AND, true for
OR. Undecided, it is NULL if an item was NULL. -/
def evalItems (row : Values) (decider sawNull : Bool) : List Expr → Except EvalError Scalar
  | [] => .ok (if sawNull then .null else .bool !decider)
  | e :: rest =>
    match eval row e with
    | .error x => .error x
    | .ok (.bool b) =>
      if b = decider then .ok (.bool decider) else evalItems row decider sawNull rest
    | .ok .null => evalItems row decider true rest
    | .ok v => .error (.notBoolean v.type)

end

/-- Whether a filter keeps a row: NULL does not. -/
def keeps (predicate : Expr) (row : Values) : Except EvalError Bool :=
  match predicate.eval row with
  | .error x => .error x
  | .ok (.bool b) => .ok b
  | .ok .null => .ok false
  | .ok v => .error (.notBoolean v.type)

def evalEach (row : Values) (exprs : List Expr) : Except EvalError Values :=
  exprs.mapM (eval row)

end Expr

end FlowPlan
