import FlowPlan.Yaml.Plain
import FlowPlan.Number.Decimal

namespace FlowPlan.Yaml

/-- Which line ends at the end of the lines are kept: none, the first, or all. -/
inductive Chomping where
  | strip
  | clip
  | keep

/-- What the mark of indented lines says: whether line ends are kept as they are, which of the last
ones are kept, and the indentation where it is given. -/
structure Header where
  literal : Bool
  chomping : Chomping
  margin : Option Nat

namespace Header

/-- Reads the signs after the mark, each at most once and in any order. -/
def read? (literal : Bool) : List Placed → Option (Header × List Placed)
  | text =>
    let (chomping, text) := sign text
    let (margin, text) := digit text
    let (chomping, text) := if chomping.isNone then sign text else (chomping, text)
    if margin == some 0 then none
    else some (⟨literal, chomping.getD .clip, margin⟩, text)
where
  sign : List Placed → Option Chomping × List Placed
    | ⟨'+', _, _, _⟩ :: rest => (some .keep, rest)
    | ⟨'-', _, _, _⟩ :: rest => (some .strip, rest)
    | text => (none, text)
  digit : List Placed → Option Nat × List Placed
    | [] => (none, [])
    | p :: rest =>
      if p.char.isDigit then (some (Decimal.natural [p.char]), rest) else (none, p :: rest)

end Header

/-- Skips empty lines and the margin of the next line: the line ends, the widest column at which a
line began, and the rest. A margin that is not known yet takes in all spaces; tabs may not stand
in it. -/
def emptyLines? (margin : Option Nat) (widest : Nat) :
    List Placed → Option (List Char × Nat × List Placed)
  | [] => some ([], widest, [])
  | p :: rest =>
    let inMargin := margin.all (p.column < ·)
    if p.char == ' ' && inMargin then emptyLines? margin widest rest
    else if p.char == '\t' && inMargin then none
    else
      let widest := max widest p.column
      if isBreak p.char then do
        let (breaks, widest, tail) ← emptyLines? margin widest rest
        pure (p.char :: breaks, widest, tail)
      else some ([], widest, p :: rest)

/-- Lines that were read, with the line ends after them. -/
structure Lines where
  text : List Char
  last : Option Char
  breaks : List Char
  rest : List Placed

/-- What stands between two lines. Lines are joined unless line ends are literal or one of the lines
starts with a blank. -/
def lineJoint (literal : Bool) (last : Option Char) (breaks : List Char) : List Char :=
  if literal then last.toList ++ breaks else Gap.fold last breaks

/-- Reads the lines at a margin, at most `fuel` of them. `indented` tells whether the last line
started with a blank, `last` and `breaks` are the line ends after it. -/
def lines? (literal : Bool) (margin : Nat) :
    (fuel : Nat) → (indented : Bool) → (last : Option Char) → (breaks : List Char) →
      List Placed → Option Lines
  | fuel + 1, indented, last, breaks, p :: rest =>
    if p.column == margin then do
      let starts := isWhite p.char
      let line := chars ((p :: rest).takeWhile fun q => !isBreak q.char)
      let tail := afterLine (p :: rest)
      let (more, _, next) ← emptyLines? (some margin) 0 (tail.drop 1)
      let below ← lines? literal margin fuel starts (tail.head?.map Placed.char) more next
      let joint := lineJoint (literal || indented || starts) last breaks
      pure { below with text := joint ++ line ++ below.text }
    else some ⟨[], last, breaks, p :: rest⟩
  | _, _, last, breaks, text => some ⟨[], last, breaks, text⟩

/-- Reads indented lines after their mark, below a block at the column before `least`. -/
def block? (literal : Bool) (least : Nat) (text : List Placed) : Option (List Char × List Placed) := do
  let (header, text) ← Header.read? literal text
  let text ← nextLine? text
  let given := header.margin.map (least - 1 + ·)
  let (breaks, widest, text) ← emptyLines? given 0 text
  let margin := given.getD (max widest (max least 1))
  let lines ← lines? literal margin text.length false none breaks text
  let tail := match header.chomping with
    | .strip => []
    | .clip => lines.last.toList
    | .keep => lines.last.toList ++ lines.breaks
  pure (lines.text ++ tail, lines.rest)

end FlowPlan.Yaml
