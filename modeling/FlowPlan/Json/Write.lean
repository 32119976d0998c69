import FlowPlan.Json.Value
import FlowPlan.Number.Shortest
import FlowPlan.Text.Class
import FlowPlan.Text.Hex

namespace FlowPlan

/-- The layout of numbers in JSON: an exponent outside a range of magnitudes, and always a
fraction without one. -/
def Layout.json (least most : Int) : Layout :=
  ⟨fun k => least ≤ k && k ≤ most, true, .even, "null", "null"⟩

namespace Json

/-- A finite number, or null. -/
def ofBinary {f : Format} (least most : Int) (x : Binary f) : Json :=
  if x.isFinite then .number ((Layout.json least most).text x) else .null

/-- A number of a DOUBLE column, a cost or a setting. -/
def ofDouble (x : Double) : Json := ofBinary (-5) 15 x

/-- A number of a REAL column. -/
def ofSingle (x : Single) : Json := ofBinary (-6) 12 x

def escaped (c : Char) : List Char :=
  match c with
  | '"' => ['\\', '"']
  | '\\' => ['\\', '\\']
  | '\n' => ['\\', 'n']
  | '\r' => ['\\', 'r']
  | '\t' => ['\\', 't']
  | c =>
    if c.toNat = 8 then ['\\', 'b']
    else if c.toNat = 12 then ['\\', 'f']
    else if c.toNat < 32 then '\\' :: 'u' :: '0' :: '0' :: Text.hexByte c.toNat.toUInt8
    else [c]

def quoted (s : String) : String := "\"" ++ String.ofList (s.toList.flatMap escaped) ++ "\""

mutual

def compact : Json → String
  | .null => "null"
  | .bool b => if b then "true" else "false"
  | .number lexeme => lexeme
  | .string s => quoted s
  | .array items => "[" ++ Text.joined "," (compactItems items) ++ "]"
  | .object members => "\x7b" ++ Text.joined "," (compactMembers members) ++ "\x7d"
  | .unreadable => "null"

def compactItems : List Json → List String
  | [] => []
  | j :: rest => compact j :: compactItems rest

def compactMembers : List (String × Json) → List String
  | [] => []
  | (key, j) :: rest => (quoted key ++ ":" ++ compact j) :: compactMembers rest

end

def indent (depth : Nat) : String := String.ofList ('\n' :: List.replicate (2 * depth) ' ')

/-- Texts between brackets, one a line. -/
def block (depth : Nat) (opening closing : String) : List String → String
  | [] => opening ++ closing
  | texts =>
    opening ++ indent (depth + 1) ++ Text.joined ("," ++ indent (depth + 1)) texts ++
      indent depth ++ closing

mutual

/-- The text with one item or member a line. -/
def pretty (depth : Nat) : Json → String
  | .array items => block depth "[" "]" (prettyItems (depth + 1) items)
  | .object members => block depth "\x7b" "\x7d" (prettyMembers (depth + 1) members)
  | j => compact j

def prettyItems (depth : Nat) : List Json → List String
  | [] => []
  | j :: rest => pretty depth j :: prettyItems depth rest

/-- The indented texts of several members of an object. -/
def prettyMembers (depth : Nat) : List (String × Json) → List String
  | [] => []
  | (key, j) :: rest => (quoted key ++ ": " ++ pretty depth j) :: prettyMembers depth rest

end

end Json

end FlowPlan
