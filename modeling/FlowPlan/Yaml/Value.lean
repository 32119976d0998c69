import FlowPlan.Yaml.Decode

namespace FlowPlan.Yaml

/-- A value. Numbers are told apart only as far as they can number a field. -/
inductive Value where
  | null
  | bool (value : Bool)
  | natural (value : Nat)
  | number
  | text (value : String)
  | list (items : List Value)
  | mapping (entries : List (Value × Value))

namespace Value

/-- The value of a word without quotes. -/
def ofWord? (word : String) : Option Value :=
  match meaning word with
  | .null => some .null
  | .bool b => some (.bool b)
  | .natural n => some (.natural n)
  | .number => some .number
  | .text => some (.text word)
  | .tooLarge => none

/-- The value of a scalar without a tag. -/
def ofUntagged? (style : Style) (s : String) : Option Value :=
  if style == .plain then ofWord? s else some (.text s)

/-- The value of a scalar. A tag that every document knows has to fit the word, any other one makes
it a text. A tag of the document's own is refused, but one without a name does not count. -/
def ofScalar? (p : Properties) (style : Style) (s : String) : Option Value :=
  match p.tag with
  | none => ofUntagged? style s
  | some tag =>
    if tag.ownName?.isSome then none
    else if tag.isMarked then ofUntagged? style s
    else if tag == commonTag "bool" then .bool <$> wordBool? s
    else if tag == commonTag "float" then (wordDouble? s).map fun _ => .number
    else if tag == commonTag "null" then if isNull s then some .null else none
    else if tag == commonTag "int" then
      match integerMeaning? s.toList with
      | some (.natural n) => some (.natural n)
      | some .number => some .number
      | _ => none
    else some (.text s)

/-- Whether a node has a tag of the document's own. -/
def hasOwnTag (p : Properties) : Bool := (p.tag.bind Tag.ownName?).isSome

/-- The value of a node that is at most `levels` deep. -/
def ofNode? : (levels : Nat) → Reader Value
  | levels, n => do
    match ← n.follow, levels with
    | .scalar p style s, _ => ofScalar? p style s
    | .sequence p items, levels + 1 =>
      if hasOwnTag p then failure else .list <$> items.mapM (ofNode? levels)
    | .mapping p entries, levels + 1 =>
      if hasOwnTag p then failure
      else
        .mapping <$> entries.mapM fun (key, value) => do
          pure (← ofNode? levels key, ← ofNode? levels value)
    | _, _ => failure

def text? : Value → Option String
  | .text s => some s
  | _ => none

def bool? : Value → Option Bool
  | .bool b => some b
  | _ => none

def list? {α : Type} (read : Value → Option α) : Value → Option (List α)
  | .list items => items.mapM read
  | _ => none

/-- The field that a key stands for, by its name or its number. Other names and numbers are skipped,
other keys refused. -/
def fieldName? (names : List String) : Value → Option (Option String)
  | .text name => some (if names.contains name then some name else none)
  | .natural n => some names[n]?
  | _ => none

/-- The fields of a structure, each at most once: by their keys, or in their order. -/
def members? (names : List String) : Value → Option (List (String × Value))
  | .mapping entries => do
    let members ← entries.mapM fun (key, value) => (·, value) <$> fieldName? names key
    let found := members.filterMap fun (name, value) => name.map (·, value)
    if (found.map Prod.fst).Nodup then some found else none
  | .list items => if items.length ≤ names.length then some (names.zip items) else none
  | _ => none

end Value

end FlowPlan.Yaml
