import FlowPlan.Json.Number
import FlowPlan.Text.Hex

namespace FlowPlan.Json

/-- A token. A string without a text names half of a surrogate pair. -/
inductive Token where
  | openObject
  | closeObject
  | openArray
  | closeArray
  | comma
  | colon
  | null
  | bool (value : Bool)
  | number (lexeme : String)
  | string (value : Option String)
  deriving DecidableEq, Repr

def isSpace (c : Char) : Bool := c == ' ' || c == '\n' || c == '\t' || c == '\r'

def isNumberPart (c : Char) : Bool :=
  c.isDigit || c == '-' || c == '+' || c == '.' || c == 'e' || c == 'E'

def shortEscape? : Char → Option Char
  | '"' => some '"'
  | '\\' => some '\\'
  | '/' => some '/'
  | 'b' => some (Char.ofNat 8)
  | 'f' => some (Char.ofNat 12)
  | 'n' => some '\n'
  | 'r' => some '\r'
  | 't' => some '\t'
  | _ => none

def isHighHalf (n : Nat) : Bool := 0xd800 ≤ n && n < 0xdc00

def isLowHalf (n : Nat) : Bool := 0xdc00 ≤ n && n < 0xe000

/-- The character of a surrogate pair. -/
def joinHalves (high low : Nat) : Char :=
  Char.ofNat (0x10000 + (high - 0xd800) * 0x400 + (low - 0xdc00))

/-- A unit of a string: a character as it stands or by an escape, or a 16-bit number. -/
inductive StringUnit where
  | char (c : Char)
  | code (n : Nat)

/-- The units of a string after its opening quote, and what follows the closing one. -/
def stringUnits : List Char → Option (List StringUnit × List Char)
  | [] => none
  | '"' :: rest => some ([], rest)
  | '\\' :: 'u' :: a :: b :: c :: d :: rest => do
    let n ← Text.hexNatural? [a, b, c, d]
    let (units, tail) ← stringUnits rest
    pure (.code n :: units, tail)
  | '\\' :: e :: rest => do
    let c ← shortEscape? e
    let (units, tail) ← stringUnits rest
    pure (.char c :: units, tail)
  | c :: rest =>
    if c.toNat < 32 || c == '\\' then none
    else do
      let (units, tail) ← stringUnits rest
      pure (.char c :: units, tail)

/-- The characters of a string; nothing when half of a pair stands alone. -/
def joinUnits : List StringUnit → Option (List Char)
  | [] => some []
  | .char c :: rest => (c :: ·) <$> joinUnits rest
  | .code h :: .code l :: rest =>
    if isHighHalf h then
      if isLowHalf l then (joinHalves h l :: ·) <$> joinUnits rest else none
    else if isLowHalf h then none
    else (Char.ofNat h :: ·) <$> joinUnits (.code l :: rest)
  | .code n :: rest =>
    if isHighHalf n || isLowHalf n then none else (Char.ofNat n :: ·) <$> joinUnits rest

/-- The token that starts with the character `c`, which is no blank, and what follows it. -/
def firstToken (c : Char) (rest : List Char) : Option (Token × List Char) :=
  match c, rest with
  | '\x7b', _ => some (.openObject, rest)
  | '\x7d', _ => some (.closeObject, rest)
  | '[', _ => some (.openArray, rest)
  | ']', _ => some (.closeArray, rest)
  | ',', _ => some (.comma, rest)
  | ':', _ => some (.colon, rest)
  | 'n', 'u' :: 'l' :: 'l' :: tail => some (.null, tail)
  | 't', 'r' :: 'u' :: 'e' :: tail => some (.bool true, tail)
  | 'f', 'a' :: 'l' :: 's' :: 'e' :: tail => some (.bool false, tail)
  | '"', _ => do
    let (units, tail) ← stringUnits rest
    pure (.string ((joinUnits units).map String.ofList), tail)
  | _, _ =>
    let text := c :: rest.takeWhile isNumberPart
    if isNumber text then some (.number (String.ofList text), rest.dropWhile isNumberPart)
    else none

/-- The tokens of a text, at most one for each unit of `fuel`. -/
def tokens : (fuel : Nat) → List Char → Option (List Token)
  | _, [] => some []
  | 0, _ :: _ => none
  | fuel + 1, c :: rest =>
    if isSpace c then tokens fuel rest
    else do
      let (t, tail) ← firstToken c rest
      (t :: ·) <$> tokens fuel tail

end FlowPlan.Json
