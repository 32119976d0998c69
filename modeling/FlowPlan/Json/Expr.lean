import FlowPlan.Json.Write
import FlowPlan.Json.Decode
import FlowPlan.Expr.Basic

namespace FlowPlan

namespace Scalar

def toJson : Scalar → Json
  | .null => .string "Null"
  | .bool b => .tagged "Bool" (.bool b)
  | .int32 v => .tagged "I32" (.ofInt v.toInt)
  | .int64 v => .tagged "I64" (.ofInt v.toInt)
  | .float32 v => .tagged "F32" (.ofSingle v)
  | .float64 v => .tagged "F64" (.ofDouble v)
  | .text s => .tagged "Str" (.string s)
  | .binary b => .tagged "Bin" (.array (b.map fun x => .ofNat x.toNat))

def ofJson? : Json.Reader Scalar := fun r j => do
  let c ← Json.choice? r j
  match c.name with
  | "Null" => c.bare? .null
  | "Bool" => .bool <$> c.read? Json.bool?
  | "I32" =>
    (fun v => .int32 (.ofInt v)) <$> c.read? (Json.integer? Int32.minValue.toInt Int32.maxValue.toInt)
  | "I64" =>
    (fun v => .int64 (.ofInt v)) <$> c.read? (Json.integer? Int64.minValue.toInt Int64.maxValue.toInt)
  | "F32" => .float32 <$> c.read? Json.binary?
  | "F64" => .float64 <$> c.read? Json.binary?
  | "Str" => .text <$> c.read? Json.text?
  | "Bin" => (fun b => .binary (b.map UInt8.ofNat)) <$> c.read? (Json.list? (Json.natural? 8))
  | _ => none

end Scalar

namespace Schema

def fieldToJson (f : Field) : Json :=
  .object [("name", .string f.name), ("data_type", .string f.type.name), ("nullable", .bool f.nullable)]

def fieldOfJson? : Json.Reader Field := fun r j => do
  let m ← Json.members? ["name", "data_type", "nullable"] r j
  let name ← m.field? "name" Json.text?
  let type ← m.field? "data_type" (Json.oneOf? DataType.ofName?)
  let nullable ← m.field? "nullable" Json.bool?
  pure ⟨name, type, nullable⟩

def toJson (s : Schema) : Json := .object [("fields", .array (s.fields.map fieldToJson))]

def ofJson? : Json.Reader Schema := fun r j => do
  let m ← Json.members? ["fields"] r j
  Schema.mk <$> m.field? "fields" (Json.list? fieldOfJson?)

end Schema

namespace Comparison

def name : Comparison → String
  | .eq => "Eq"
  | .notEq => "NotEq"
  | .lt => "Lt"
  | .ltEq => "LtEq"
  | .gt => "Gt"
  | .gtEq => "GtEq"

def ofName? (s : String) : Option Comparison :=
  [Comparison.eq, .notEq, .lt, .ltEq, .gt, .gtEq].find? (·.name == s)

end Comparison

namespace Arithmetic

def name : Arithmetic → String
  | .add => "Add"
  | .sub => "Sub"
  | .mul => "Mul"
  | .div => "Div"

def ofName? (s : String) : Option Arithmetic :=
  [Arithmetic.add, .sub, .mul, .div].find? (·.name == s)

end Arithmetic

namespace Expr

def pairToJson (tag op : String) (left right : Json) : Json :=
  .tagged tag (.object [("op", .string op), ("left", left), ("right", right)])

mutual

def toJson : Expr → Json
  | .column i => .tagged "Column" (.ofNat i)
  | .literal v => .tagged "Literal" v.toJson
  | .compare op l r => pairToJson "Compare" op.name (toJson l) (toJson r)
  | .arithmetic op l r => pairToJson "Arithmetic" op.name (toJson l) (toJson r)
  | .and items => .tagged "And" (.array (itemsToJson items))
  | .or items => .tagged "Or" (.array (itemsToJson items))
  | .not e => .tagged "Not" (toJson e)
  | .isNull e => .tagged "IsNull" (toJson e)
  | .isNotNull e => .tagged "IsNotNull" (toJson e)

def itemsToJson : List Expr → List Json
  | [] => []
  | e :: rest => toJson e :: itemsToJson rest

end

/-- Reads an operator over two operands, which `operand` reads. -/
def pairOfJson? {α : Type} (op : String → Option α) (operand : Json.Reader Expr)
    (combine : α → Expr → Expr → Expr) : Json.Reader Expr := fun r j => do
  let m ← Json.members? ["op", "left", "right"] r j
  let o ← m.field? "op" (Json.oneOf? op)
  let left ← m.field? "left" operand
  let right ← m.field? "right" operand
  pure (combine o left right)

/-- Reads an expression that is at most `depth` operators deep. -/
def ofJsonWithin? : (depth : Nat) → Json.Reader Expr
  | 0 => fun _ _ => none
  | depth + 1 => fun r j => do
    let inner := ofJsonWithin? depth
    let c ← Json.choice? r j
    match c.name with
    | "Column" => .column <$> c.read? (Json.natural? 64)
    | "Literal" => .literal <$> c.read? Scalar.ofJson?
    | "Compare" => c.read? (pairOfJson? Comparison.ofName? inner .compare)
    | "Arithmetic" => c.read? (pairOfJson? Arithmetic.ofName? inner .arithmetic)
    | "And" => .and <$> c.read? (Json.list? inner)
    | "Or" => .or <$> c.read? (Json.list? inner)
    | "Not" => .not <$> c.read? inner
    | "IsNull" => .isNull <$> c.read? inner
    | "IsNotNull" => .isNotNull <$> c.read? inner
    | _ => none

/-- Reads an expression. Every operator is a container, so the room bounds their depth. -/
def ofJson? : Json.Reader Expr := fun r j => ofJsonWithin? (r.levels + 1) r j

end Expr

end FlowPlan
