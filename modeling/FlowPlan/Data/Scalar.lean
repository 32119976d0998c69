import FlowPlan.Data.Schema
import FlowPlan.Number.Shortest
import FlowPlan.Text.Hex

namespace FlowPlan

/-- A column value. Floating point values are equal when their bits are. -/
inductive Scalar where
  | null
  | bool (value : Bool)
  | int32 (value : Int32)
  | int64 (value : Int64)
  | float32 (value : Single)
  | float64 (value : Double)
  | text (value : String)
  | binary (value : List UInt8)
  deriving DecidableEq

/-- The values of one row, by position. -/
abbrev Values := List Scalar

namespace Scalar

def type : Scalar → DataType
  | .null => .null
  | .bool _ => .boolean
  | .int32 _ => .int32
  | .int64 _ => .int64
  | .float32 _ => .float32
  | .float64 _ => .float64
  | .text _ => .utf8
  | .binary _ => .binary

def isNull : Scalar → Bool
  | .null => true
  | _ => false

def bool? : Scalar → Option Bool
  | .bool b => some b
  | _ => none

def integer? : Scalar → Option Int
  | .int32 v => some v.toInt
  | .int64 v => some v.toInt
  | _ => none

/-- A number of any type, as a double. -/
def double? : Scalar → Option Double
  | .int32 v => some (.ofInt v.toInt)
  | .int64 v => some (.ofInt v.toInt)
  | .float32 v => some v.convert
  | .float64 v => some v
  | _ => none

/-- The order of byte strings: the first difference decides, then the length. -/
def compareBytes : List UInt8 → List UInt8 → Ordering
  | [], [] => .eq
  | [], _ :: _ => .lt
  | _ :: _, [] => .gt
  | a :: x, b :: y => (compare a.toNat b.toNat).then (compareBytes x y)

/-- The order of characters: the first difference decides, then the length. UTF-8 bytes are
ordered the same way. -/
def compareChars : List Char → List Char → Ordering
  | [], [] => .eq
  | [], _ :: _ => .lt
  | _ :: _, [] => .gt
  | a :: x, b :: y => (compare a.toNat b.toNat).then (compareChars x y)

/-- Numbers in SQL: integers exactly, any other pair as doubles. -/
def compareNumbers? (a b : Scalar) : Option Ordering :=
  match a.integer?, b.integer? with
  | some x, some y => some (compare x y)
  | _, _ => do
    let x ← a.double?
    let y ← b.double?
    x.compare? y

/-- The SQL order: nothing when a side is NULL or the types do not compare. -/
def compare? (a b : Scalar) : Option Ordering :=
  match a, b with
  | .null, _ => none
  | _, .null => none
  | .bool x, .bool y => some (compare x.toNat y.toNat)
  | .text x, .text y => some (compareChars x.toList y.toList)
  | .binary x, .binary y => some (compareBytes x y)
  | x, y => compareNumbers? x y

def toText : Scalar → String
  | .null => "NULL"
  | .bool b => if b then "true" else "false"
  | .int32 v => toString v.toInt
  | .int64 v => toString v.toInt
  | .float32 v => v.plainText
  | .float64 v => v.plainText
  | .text s => s
  | .binary b => "0x" ++ Text.hexOfBytes b

end Scalar

end FlowPlan
