import FlowPlan.Text.Utf8

namespace FlowPlan.Yaml

inductive Style where
  | plain
  | quoted
  | literal
  | folded
  deriving DecidableEq

/-- A tag: bytes that need not be a text. -/
structure Tag where
  bytes : List UInt8
  deriving DecidableEq

namespace Tag

def ofText (text : String) : Tag := ⟨Text.toUtf8 text⟩

def append (a b : Tag) : Tag := ⟨a.bytes ++ b.bytes⟩

def isMarked (t : Tag) : Bool := t.bytes.head? == some '!'.toUInt8

/-- The name of a tag that belongs to its document: the text after an exclamation mark. -/
def ownName? (t : Tag) : Option String :=
  if t.isMarked then (Text.ofUtf8 (t.bytes.drop 1)).toOption else none

end Tag

/-- A tag as it is written: the name of a rule, if there is one, and what comes after it. -/
structure TagMark where
  handle : String
  suffix : Tag

/-- A token. A block opens before its first entry and closes after its last one. -/
inductive Token where
  | version (major minor : Nat)
  | tagRule (handle : String) (start : Tag)
  | documentStart
  | documentEnd
  | openItems
  | openEntries
  | closeBlock
  | openSquare
  | closeSquare
  | openCurly
  | closeCurly
  | comma
  | dash
  | key
  | value
  | alias (name : String)
  | anchor (name : String)
  | tag (mark : TagMark)
  | scalar (style : Style) (text : String)

end FlowPlan.Yaml
