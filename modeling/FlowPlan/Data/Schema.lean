namespace FlowPlan

/-- The type of a column or a value. `null` is the type of a literal NULL. -/
inductive DataType where
  | boolean
  | int32
  | int64
  | float32
  | float64
  | utf8
  | binary
  | null
  deriving DecidableEq, Repr

namespace DataType

def isNumeric : DataType → Bool
  | .int32 | .int64 | .float32 | .float64 => true
  | _ => false

/-- The type of arithmetic on two types: the wider one, where NULL takes the other's type. -/
def widen : DataType → DataType → DataType
  | .null, t => t
  | t, .null => t
  | .float64, _ => .float64
  | _, .float64 => .float64
  | .float32, _ => .float32
  | _, .float32 => .float32
  | .int64, _ => .int64
  | _, .int64 => .int64
  | a, _ => a

/-- The name in SQL, shown in messages and rows. -/
def sqlName : DataType → String
  | .boolean => "BOOLEAN"
  | .int32 => "INTEGER"
  | .int64 => "BIGINT"
  | .float32 => "REAL"
  | .float64 => "DOUBLE"
  | .utf8 => "VARCHAR"
  | .binary => "VARBINARY"
  | .null => "NULL"

def name : DataType → String
  | .boolean => "Boolean"
  | .int32 => "Int32"
  | .int64 => "Int64"
  | .float32 => "Float32"
  | .float64 => "Float64"
  | .utf8 => "Utf8"
  | .binary => "Binary"
  | .null => "Null"

/-- Every type, in the order of their declaration. -/
def all : List DataType :=
  [.boolean, .int32, .int64, .float32, .float64, .utf8, .binary, .null]

def ofName? (s : String) : Option DataType := all.find? (·.name == s)

end DataType

structure Field where
  name : String
  type : DataType
  nullable : Bool
  deriving DecidableEq, Repr

/-- The columns of a row, by position. -/
structure Schema where
  fields : List Field
  deriving DecidableEq, Repr

namespace Schema

def length (s : Schema) : Nat := s.fields.length

def field? (s : Schema) (i : Nat) : Option Field := s.fields[i]?

/-- The first column with exactly this name. -/
def indexOf? (s : Schema) (name : String) : Option Nat :=
  s.fields.findIdx? (·.name == name)

/-- The name of an output column: the declared one, or one made from its position. -/
def columnName (s : Schema) (i : Nat) : String :=
  match s.field? i with
  | some f => f.name
  | none => s!"EXPR${i}"

end Schema

end FlowPlan
