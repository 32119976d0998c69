import FlowPlan.Data.Scalar
import FlowPlan.Text.Utf8

namespace FlowPlan

/-- Why bytes are not the wire form of a value. A decoder of another form says so in its own
words. -/
inductive DecodeFault where
  | empty
  | malformedBoolean
  | length (expected found : Nat)
  | truncatedLength
  | unknownTag (tag : Nat)
  | notUtf8 (fault : Text.Utf8Fault)
  | other (text : String)
  deriving DecidableEq, Repr

namespace DecodeFault

def message : DecodeFault → String
  | .empty => "empty payload"
  | .malformedBoolean => "malformed BOOLEAN payload"
  | .length expected found => s!"expected {expected} payload bytes, got {found}"
  | .truncatedLength => "truncated length prefix"
  | .unknownTag tag => s!"unknown type tag {tag}"
  | .notUtf8 fault => "invalid UTF-8: " ++ fault.message
  | .other text => text

end DecodeFault

namespace Wire

/-- The lowest `count` bytes of a number, the lowest first. -/
def littleEndian : (count : Nat) → Nat → List UInt8
  | 0, _ => []
  | count + 1, n => UInt8.ofNat n :: littleEndian count (n / 256)

/-- The number of some bytes, the lowest first. -/
def ofLittleEndian (bytes : List UInt8) : Nat := bytes.foldr (fun b n => b.toNat + 256 * n) 0

/-- Bytes after their length, which is cut to four bytes. -/
def sized (bytes : List UInt8) : List UInt8 := littleEndian 4 bytes.length ++ bytes

/-- The wire form of a value: a tag, then the value with its lowest byte first. -/
def encode : Scalar → List UInt8
  | .null => [0]
  | .bool b => [1, if b then 1 else 0]
  | .int32 v => 2 :: littleEndian 4 v.toUInt32.toNat
  | .int64 v => 3 :: littleEndian 8 v.toUInt64.toNat
  | .float32 v => 4 :: littleEndian 4 v.pattern
  | .float64 v => 5 :: littleEndian 8 v.pattern
  | .text s => 6 :: sized (Text.toUtf8 s)
  | .binary b => 7 :: sized b

def exactly (count : Nat) (bytes : List UInt8) : Except DecodeFault (List UInt8) :=
  if bytes.length = count then .ok bytes else .error (.length count bytes.length)

/-- The number that exactly `count` bytes write. -/
def fixed (count : Nat) (bytes : List UInt8) : Except DecodeFault Nat :=
  ofLittleEndian <$> exactly count bytes

def unsized (bytes : List UInt8) : Except DecodeFault (List UInt8) :=
  if bytes.length < 4 then .error .truncatedLength
  else exactly (ofLittleEndian (bytes.take 4)) (bytes.drop 4)

def decodeBody (tag : UInt8) (body : List UInt8) : Except DecodeFault Scalar :=
  match tag with
  | 0 => (fun _ => .null) <$> exactly 0 body
  | 1 =>
    match body with
    | [0] => .ok (.bool false)
    | [1] => .ok (.bool true)
    | _ => .error .malformedBoolean
  | 2 => (fun n => .int32 (UInt32.ofNat n).toInt32) <$> fixed 4 body
  | 3 => (fun n => .int64 (UInt64.ofNat n).toInt64) <$> fixed 8 body
  | 4 => (fun n => .float32 (.ofPattern n)) <$> fixed 4 body
  | 5 => (fun n => .float64 (.ofPattern n)) <$> fixed 8 body
  | 6 => do
    let bytes ← unsized body
    .text <$> (Text.ofUtf8 bytes).mapError .notUtf8
  | 7 => .binary <$> unsized body
  | other => .error (.unknownTag other.toNat)

def decode : List UInt8 → Except DecodeFault Scalar
  | [] => .error .empty
  | tag :: body => decodeBody tag body

end Wire

end FlowPlan
