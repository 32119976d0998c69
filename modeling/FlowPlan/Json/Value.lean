namespace FlowPlan

/-- A JSON value. The members of an object keep their order and may repeat a key; a number keeps its
text, for what it means depends on who reads it. -/
inductive Json where
  | null
  | bool (value : Bool)
  | number (lexeme : String)
  | string (value : String)
  | array (items : List Json)
  | object (members : List (String × Json))
  /-- A string, or an object with a key, that names half of a surrogate pair. It can be skipped but
  not read. -/
  | unreadable
  deriving Inhabited

namespace Json

def ofNat (n : Nat) : Json := .number (toString n)

def ofInt (n : Int) : Json := .number (toString n)

/-- A value that may be missing, written as null. -/
def ofOption {α : Type} (write : α → Json) : Option α → Json
  | some v => write v
  | none => .null

def tagged (name : String) (content : Json) : Json := .object [(name, content)]

end Json

end FlowPlan
