import FlowPlan.Json.Token
import FlowPlan.Json.Value

namespace FlowPlan.Json

/-- An object of members, unreadable when a key is. -/
def ofMembers (members : List (Option String × Json)) : Json :=
  match members.mapM fun (key, value) => key.map (·, value) with
  | some readable => .object readable
  | none => .unreadable

mutual

/-- Reads one value from the front of a list of tokens, as far down as `fuel` allows. -/
def value (fuel : Nat) (ts : List Token) : Option (Json × List Token) :=
  match fuel, ts with
  | fuel + 1, t :: rest =>
    match t with
    | .null => some (.null, rest)
    | .bool b => some (.bool b, rest)
    | .number lexeme => some (.number lexeme, rest)
    | .string (some s) => some (.string s, rest)
    | .string none => some (.unreadable, rest)
    | .openArray =>
      match rest with
      | .closeArray :: tail => some (.array [], tail)
      | _ => do
        let (items, tail) ← items fuel rest
        pure (.array items, tail)
    | .openObject =>
      match rest with
      | .closeObject :: tail => some (.object [], tail)
      | _ => do
        let (found, tail) ← members fuel rest
        pure (ofMembers found, tail)
    | _ => none
  | _, _ => none

/-- Reads the items of an array up to its closing bracket. -/
def items (fuel : Nat) (ts : List Token) : Option (List Json × List Token) :=
  match fuel with
  | 0 => none
  | fuel + 1 => do
    let (first, rest) ← value fuel ts
    match rest with
    | .closeArray :: tail => pure ([first], tail)
    | .comma :: tail => do
      let (more, tail) ← items fuel tail
      pure (first :: more, tail)
    | _ => none

/-- Reads the members of an object up to its closing brace. -/
def members (fuel : Nat) (ts : List Token) : Option (List (Option String × Json) × List Token) :=
  match fuel, ts with
  | fuel + 1, .string key :: .colon :: rest => do
    let (first, rest) ← value fuel rest
    match rest with
    | .closeObject :: tail => pure ([(key, first)], tail)
    | .comma :: tail => do
      let (more, tail) ← members fuel tail
      pure ((key, first) :: more, tail)
    | _ => none
  | _, _ => none

end

def parse? (text : String) : Option Json := do
  let chars := text.toList
  let ts ← tokens chars.length chars
  match ← value (2 * ts.length) ts with
  | (j, []) => some j
  | _ => none

end FlowPlan.Json
