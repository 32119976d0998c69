namespace FlowPlan.Text

/-- Where bytes stop being UTF-8. A fault without a length is a sequence cut off by the end. -/
structure Utf8Fault where
  index : Nat
  length : Option Nat
  deriving DecidableEq, Repr

namespace Utf8Fault

def message (e : Utf8Fault) : String :=
  match e.length with
  | some n => s!"invalid utf-8 sequence of {n} bytes from index {e.index}"
  | none => s!"incomplete utf-8 byte sequence from index {e.index}"

end Utf8Fault

/-- How many bytes follow a first byte, with the range of the first of them and the bits that the
first byte gives. Bytes that start no character have none. -/
def leadByte (b : Nat) : Option (Nat × Nat × Nat × Nat) :=
  if b < 0xc2 then none
  else if b < 0xe0 then some (1, 0x80, 0xbf, b % 32)
  else if b = 0xe0 then some (2, 0xa0, 0xbf, 0)
  else if b = 0xed then some (2, 0x80, 0x9f, 13)
  else if b < 0xf0 then some (2, 0x80, 0xbf, b % 16)
  else if b = 0xf0 then some (3, 0x90, 0xbf, 0)
  else if b < 0xf4 then some (3, 0x80, 0xbf, b % 8)
  else if b = 0xf4 then some (3, 0x80, 0x8f, 4)
  else none

/-- What stands at the end of a sequence: a code point, a byte that does not belong to it after
`length` bytes that do, or nothing. -/
inductive Sequence where
  | point (value : Nat)
  | broken (length : Nat)
  | cutOff
  deriving DecidableEq, Repr

/-- Follows a sequence that still needs `count` bytes, the next of them inside `low..high`, after
`read` bytes with the bits `value`. -/
def followSequence : (count low high value read : Nat) → List UInt8 → Sequence
  | 0, _, _, value, _, _ => .point value
  | _ + 1, _, _, _, _, [] => .cutOff
  | count + 1, low, high, value, read, b :: rest =>
    if low ≤ b.toNat ∧ b.toNat ≤ high then
      followSequence count 0x80 0xbf (64 * value + b.toNat % 64) (read + 1) rest
    else .broken read

/-- Reads the characters of the bytes, the first of which is at `index`. The bytes of a character
after its first are skipped by `skip`. -/
def charsOfUtf8 : (index skip : Nat) → List UInt8 → Except Utf8Fault (List Char)
  | _, _, [] => .ok []
  | index, skip + 1, _ :: rest => charsOfUtf8 (index + 1) skip rest
  | index, 0, b :: rest =>
    if b.toNat < 0x80 then (Char.ofNat b.toNat :: ·) <$> charsOfUtf8 (index + 1) 0 rest
    else
      match leadByte b.toNat with
      | none => .error ⟨index, some 1⟩
      | some (count, low, high, bits) =>
        match followSequence count low high bits 1 rest with
        | .point value => (Char.ofNat value :: ·) <$> charsOfUtf8 (index + 1) count rest
        | .broken length => .error ⟨index, some length⟩
        | .cutOff => .error ⟨index, none⟩

def ofUtf8 (bytes : List UInt8) : Except Utf8Fault String :=
  String.ofList <$> charsOfUtf8 0 0 bytes

def toUtf8 (text : String) : List UInt8 := text.toUTF8.data.toList

end FlowPlan.Text
