import FlowPlan.Yaml.Source
import FlowPlan.Yaml.Token
import FlowPlan.Number.Decimal
import FlowPlan.Text.Hex

namespace FlowPlan.Yaml

/-- A character of the name of an anchor, a tag rule or a directive. -/
def isNameChar (c : Char) : Bool := c.isAlphanum || c == '_' || c == '-'

def spanName (text : List Placed) : List Char × List Placed :=
  (chars (text.takeWhile fun p => isNameChar p.char), text.dropWhile fun p => isNameChar p.char)

/-- Reads the name of an anchor, which is followed by a blank or one of a few marks. -/
def anchorName? (text : List Placed) : Option (String × List Placed) :=
  let (name, rest) := spanName text
  let ends := endsWord rest || rest.head?.any fun p => "?:,]\x7d%@`".toList.contains p.char
  if name.isEmpty || !ends then none else some (String.ofList name, rest)

/-- A character of a tag. Commas and square brackets count only where a tag has its own brackets. -/
def isTagChar (bracketed : Bool) (c : Char) : Bool :=
  isNameChar c || ";/?:@&=+$.%!~*'()".toList.contains c ||
    (bracketed && (c == ',' || c == '[' || c == ']'))

/-- How many escaped bytes follow the first one of a character, by its highest bits. -/
def escapedAfter? (byte : Nat) : Option Nat :=
  if byte < 0x80 then some 0
  else if byte < 0xc0 then none
  else if byte < 0xe0 then some 1
  else if byte < 0xf0 then some 2
  else if byte < 0xf8 then some 3
  else none

/-- The bytes of a tag, some of which are written as a percent sign with two digits. After the first
byte of a character the `wanted` ones that belong to it are written like that, too; whether they
number a character does not matter. -/
def tagBytes? : (wanted : Nat) → List Char → Option (List UInt8)
  | 0, [] => some []
  | wanted, '%' :: a :: b :: rest => do
    let byte ← Text.hexNatural? [a, b]
    let more ← match wanted with
      | 0 => escapedAfter? byte
      | wanted + 1 => if 0x80 ≤ byte && byte < 0xc0 then some wanted else none
    (UInt8.ofNat byte :: ·) <$> tagBytes? more rest
  | 0, c :: rest => if c == '%' then none else (c.toUInt8 :: ·) <$> tagBytes? 0 rest
  | _, _ => none

/-- Reads the characters of a tag, of which those from a NUL on do not count. -/
def tagText? (bracketed : Bool) (text : List Placed) : Option (Tag × List Placed) := do
  let bytes ← tagBytes? 0 (chars (text.takeWhile fun p => isTagChar bracketed p.char))
  pure (⟨bytes.takeWhile (· != 0)⟩, text.dropWhile fun p => isTagChar bracketed p.char)

/-- Reads the characters of a tag, at least one of them. -/
def someTagText? (bracketed : Bool) (text : List Placed) : Option (Tag × List Placed) :=
  if text.head?.any fun p => isTagChar bracketed p.char then tagText? bracketed text else none

/-- Reads a tag after its exclamation mark: in angle brackets, under the name of a rule, or by
itself. -/
def tagMark? : List Placed → Option (TagMark × List Placed)
  | ⟨'<', _, _, _⟩ :: text => do
    let (tag, rest) ← someTagText? true text
    match rest with
    | ⟨'>', _, _, _⟩ :: rest => some (⟨"", tag⟩, rest)
    | _ => none
  | text =>
    match spanName text with
    | (name, ⟨'!', _, _, _⟩ :: rest) => do
      let (tag, rest) ← someTagText? false rest
      pure (⟨String.ofList ('!' :: name ++ ['!']), tag⟩, rest)
    | _ => do
      let (tag, rest) ← tagText? false text
      pure (if tag.bytes.isEmpty then ⟨"", .ofText "!"⟩ else ⟨"!", tag⟩, rest)

/-- Reads a tag up to the blank after it, for which a comma may stand inside brackets. -/
def tag? (inside : Bool) (text : List Placed) : Option (TagMark × List Placed) := do
  let (mark, rest) ← tagMark? text
  if endsWord rest || (inside && rest.head?.any (·.char == ',')) then some (mark, rest) else none

def versionPart? (text : List Placed) : Option (Nat × List Placed) := do
  let digits := text.takeWhile fun p => p.char.isDigit
  let n ← Decimal.natural? (chars digits)
  if digits.length ≤ 9 then some (n, text.drop digits.length) else none

def version? (text : List Placed) : Option (Token × List Placed) := do
  let (major, rest) ← versionPart? (afterWhite text)
  match rest with
  | ⟨'.', _, _, _⟩ :: rest => do
    let (minor, rest) ← versionPart? rest
    pure (.version major minor, rest)
  | _ => none

/-- Reads the name of a tag rule: exclamation marks around a name, or one alone. -/
def ruleName? : List Placed → Option (String × List Placed)
  | ⟨'!', _, _, _⟩ :: text =>
    match spanName text with
    | (name, ⟨'!', _, _, _⟩ :: rest) => some (String.ofList ('!' :: name ++ ['!']), rest)
    | ([], rest) => some ("!", rest)
    | _ => none
  | _ => none

/-- Reads a tag rule: a name, and what it stands for. -/
def tagRule? (text : List Placed) : Option (Token × List Placed) := do
  let (name, rest) ← ruleName? (afterWhite text)
  if !rest.head?.any (fun p => isWhite p.char) then none
  else
    let (start, rest) ← someTagText? true (afterWhite rest)
    if endsWord rest then some (.tagRule name start, rest) else none

/-- Reads a directive after its percent sign, with its line. -/
def directive? (text : List Placed) : Option (Token × List Placed) := do
  let (name, rest) := spanName text
  if !endsWord rest then none
  else
    let (t, rest) ← match String.ofList name with
      | "YAML" => version? rest
      | "TAG" => tagRule? rest
      | _ => none
    (t, ·) <$> nextLine? rest

end FlowPlan.Yaml
