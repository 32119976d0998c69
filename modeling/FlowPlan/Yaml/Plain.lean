import FlowPlan.Yaml.Source

namespace FlowPlan.Yaml

/-- The blanks since the last word of a scalar, the latest first. Once a line has ended only line
ends count; the first one is missing where it was escaped. -/
inductive Gap where
  | white (blanks : List Char)
  | broken (first : Option Char) (more : List Char)

namespace Gap

def none : Gap := .white []

def isBroken : Gap → Bool
  | .white _ => false
  | .broken .. => true

def isEmpty : Gap → Bool
  | .white blanks => blanks.isEmpty
  | .broken .. => false

def add (g : Gap) (c : Char) : Gap :=
  match g with
  | .white blanks => if isBreak c then .broken (some c) [] else .white (c :: blanks)
  | .broken first more => .broken first (if isBreak c then c :: more else more)

/-- The text of a first line end and those after it: a single line feed is a space, the first of
several is dropped. -/
def fold (first : Option Char) (more : List Char) : List Char :=
  match first, more with
  | some '\n', [] => [' ']
  | some '\n', more => more
  | first, more => first.toList ++ more

def text : Gap → List Char
  | .white blanks => blanks.reverse
  | .broken first more => fold first more.reverse

end Gap

/-- Characters that end a scalar without quotes inside brackets. -/
def isBracketMark (c : Char) : Bool :=
  c == ',' || c == '[' || c == ']' || c == '\x7b' || c == '\x7d'

/-- Whether a scalar without quotes ends before a character: a line that starts too far left, a
boundary of documents, a comment, or a mark. -/
def endsPlain (inside : Bool) (least : Nat) (gap : Gap) (p : Placed) (rest : List Placed) : Bool :=
  (!inside && gap.isBroken && p.column < least) || isBoundary (p :: rest) ||
    (p.char == '#' && !gap.isEmpty) || (p.char == ':' && endsWord rest) ||
    (inside && isBracketMark p.char)

/-- A colon before a mark of brackets is no part of a scalar inside them. -/
def isLooseColon (p : Placed) (rest : List Placed) : Bool :=
  p.char == ':' && rest.head?.any fun q => q.char == '?' || isBracketMark q.char

/-- Reads a scalar without quotes, inside brackets or not, whose lines start at the column `least`
or after it: its text, the gap behind it and the rest. -/
def plain? (inside : Bool) (least : Nat) :
    Gap → List Placed → Option (List Char × Gap × List Placed)
  | gap, [] => some ([], gap, [])
  | gap, p :: rest =>
    if isWhite p.char || isBreak p.char then
      if p.char == '\t' && gap.isBroken && p.column < least then none
      else plain? inside least (gap.add p.char) rest
    else if endsPlain inside least gap p rest then some ([], gap, p :: rest)
    else if inside && isLooseColon p rest then none
    else do
      let (text, last, tail) ← plain? inside least .none rest
      pure (gap.text ++ p.char :: text, last, tail)

/-- Characters that mean something else at the start of a word. -/
def isIndicator (c : Char) : Bool :=
  isBracketMark c || "-?:#&*!|>'\"%@`".toList.contains c

/-- Whether a scalar without quotes starts here. -/
def startsPlain (inside : Bool) (p : Placed) (rest : List Placed) : Bool :=
  (!isIndicator p.char && !isWhite p.char) || (p.char == '-' && !rest.head?.any fun q => isWhite q.char) ||
    (!inside && (p.char == '?' || p.char == ':') && !endsWord rest)

end FlowPlan.Yaml
