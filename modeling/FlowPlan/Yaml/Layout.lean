import FlowPlan.Yaml.Block
import FlowPlan.Yaml.Quoted
import FlowPlan.Yaml.Tag

namespace FlowPlan.Yaml

/-- A token that could start a key: its number, its place, and whether it has to be a key because
it starts an entry of an open block. -/
structure Candidate where
  index : Nat
  place : Placed
  required : Bool

/-- Whether a colon at `p` is too far away from what could be a key: on another line, or more than
1024 bytes further. -/
def Candidate.isStale (c : Candidate) (p : Placed) : Bool :=
  c.place.line < p.line || c.place.offset + 1024 < p.offset

/-- How far a text has been split into tokens. Each token comes with those that were found to stand
before it. The columns of the open blocks are there, the innermost first, and for every open
bracket and the text around it what could be a key. -/
structure Layout where
  text : List Placed
  tokens : Array (List Token × Token)
  margins : List Nat
  candidates : List (Option Candidate)
  mayStartKey : Bool

namespace Layout

def start (text : List Placed) : Layout := ⟨text, #[], [], [none], true⟩

def inside (l : Layout) : Bool := 1 < l.candidates.length

/-- The column that the lines of a scalar in the innermost block have to reach. -/
def least (l : Layout) : Nat :=
  match l.margins with
  | [] => 0
  | margin :: _ => margin + 1

def add (t : Token) (l : Layout) : Layout := { l with tokens := l.tokens.push ([], t) }

/-- One token more, which reaches up to a given rest and does not let a key follow. -/
def addTo (t : Token) (rest : List Placed) (l : Layout) : Layout :=
  { l.add t with text := rest, mayStartKey := false }

/-- Closes the blocks for which there is no room; brackets keep all of them. -/
def closeBlocks (keeps : Nat → Bool) (l : Layout) : Layout :=
  if l.inside then l
  else
    let closed := l.margins.takeWhile (!keeps ·)
    let l := { l with margins := l.margins.drop closed.length }
    closed.foldl (fun l _ => l.add .closeBlock) l

def opensAt (l : Layout) (column : Nat) : Bool :=
  !l.inside && l.margins.head?.all (· < column)

/-- Opens a block if an entry at this column is the first one of it. -/
def openBlock (t : Token) (column : Nat) (l : Layout) : Layout :=
  if l.opensAt column then { l.add t with margins := column :: l.margins } else l

def candidate? (l : Layout) : Option Candidate := l.candidates.head?.join

def hold (c : Option Candidate) (l : Layout) : Layout :=
  { l with candidates := c :: l.candidates.drop 1 }

/-- Gives up what could be a key, unless it has to be one. -/
def release? (l : Layout) : Option Layout :=
  if l.candidate?.any (·.required) then none else some (l.hold none)

/-- Remembers the next token, which starts at `p`, if a key may start there. -/
def remember? (p : Placed) (l : Layout) : Option Layout :=
  if l.mayStartKey then do
    let l ← l.release?
    let required := !l.inside && l.margins.head? == some p.column
    pure (l.hold (some ⟨l.tokens.size, p, required⟩))
  else some l

/-- Forgets everything that is too far away to be a key. -/
def refresh? (p : Placed) (l : Layout) : Option Layout := do
  let candidates ← l.candidates.mapM fun c =>
    match c with
    | some c => if c.isStale p then if c.required then none else some none else some (some c)
    | none => some none
  pure { l with candidates }

/-- Marks a token as a key that was read already, and as the start of a block if it is the first
entry of one. -/
def markKey (c : Candidate) (l : Layout) : Layout :=
  let opens := l.opensAt c.place.column
  let before := if opens then [.openEntries, .key] else [.key]
  { l with
    tokens := l.tokens.modify c.index fun (_, t) => (before, t)
    margins := if opens then c.place.column :: l.margins else l.margins }

/-- Whether a character is a mark of the byte order at the start of a line. -/
def isOrderMark (p : Placed) : Bool := p.column == 0 && p.char == '\ufeff'

/-- Skips blanks, comments and line ends, and a mark of the byte order at the start of each line.
Outside of brackets a key may follow a line end; a tab is no blank where a key may start. -/
def skip (inside : Bool) : (comment mayStartKey : Bool) → List Placed → Bool × List Placed
  | _, mayStartKey, [] => (mayStartKey, [])
  | comment, mayStartKey, p :: rest =>
    if isBreak p.char then skip inside false (mayStartKey || !inside) rest
    else if comment || p.char == '#' then skip inside true mayStartKey rest
    else if p.char == ' ' || (p.char == '\t' && (inside || !mayStartKey)) || isOrderMark p then
      skip inside false mayStartKey rest
    else (mayStartKey, p :: rest)

def skipped (l : Layout) : Layout :=
  let (mayStartKey, text) := skip l.inside false l.mayStartKey l.text
  { l with text, mayStartKey }

def boundary? (t : Token) (rest : List Placed) (l : Layout) : Option Layout := do
  let l ← (l.closeBlocks fun _ => false).release?
  pure (l.addTo t rest)

def opening? (t : Token) (p : Placed) (rest : List Placed) (l : Layout) : Option Layout := do
  let l ← l.remember? p
  pure { l.addTo t rest with candidates := none :: l.candidates, mayStartKey := true }

/-- A closing bracket. The text around all brackets stays. -/
def closing? (t : Token) (rest : List Placed) (l : Layout) : Option Layout := do
  let l ← l.release?
  let l := if l.inside then { l with candidates := l.candidates.drop 1 } else l
  pure (l.addTo t rest)

def comma? (rest : List Placed) (l : Layout) : Option Layout := do
  let l ← l.release?
  pure { l.addTo .comma rest with mayStartKey := true }

def dash? (p : Placed) (rest : List Placed) (l : Layout) : Option Layout := do
  if !l.inside && !l.mayStartKey then none
  else
    let l ← (l.openBlock .openItems p.column).release?
    pure { l.addTo .dash rest with mayStartKey := true }

def key? (p : Placed) (rest : List Placed) (l : Layout) : Option Layout := do
  if !l.inside && !l.mayStartKey then none
  else
    let l ← (l.openBlock .openEntries p.column).release?
    pure { l.addTo .key rest with mayStartKey := !l.inside }

/-- A colon, after what becomes a key by it or without one. -/
def value? (p : Placed) (rest : List Placed) (l : Layout) : Option Layout :=
  match l.candidate? with
  | some c => some (((l.markKey c).hold none).addTo .value rest)
  | none =>
    if !l.inside && !l.mayStartKey then none
    else some
      { (l.openBlock .openEntries p.column).addTo .value rest with mayStartKey := !l.inside }

/-- A token that could be a key or stand at the start of one. -/
def word? (p : Placed) (read : Option (Token × List Placed)) (l : Layout) : Option Layout := do
  let l ← l.remember? p
  let (t, rest) ← read
  pure (l.addTo t rest)

def quotedWord? (p : Placed) (rest : List Placed) (l : Layout) : Option Layout :=
  l.word? p do
    let (text, rest) ← quoted? p.char rest.length .none rest
    pure (.scalar .quoted (String.ofList text), rest)

/-- A scalar without quotes. A key may follow it on another line. -/
def plainWord? (p : Placed) (l : Layout) : Option Layout := do
  let l ← l.remember? p
  let (text, gap, rest) ← plain? l.inside l.least .none l.text
  pure { l.addTo (.scalar .plain (String.ofList text)) rest with mayStartKey := gap.isBroken }

def blockWord? (style : Style) (rest : List Placed) (l : Layout) : Option Layout := do
  let l ← l.release?
  let (text, rest) ← block? (style == .literal) l.least rest
  pure { l.addTo (.scalar style (String.ofList text)) rest with mayStartKey := true }

/-- The next token, which starts at `p`. -/
def token? (p : Placed) (rest : List Placed) (l : Layout) : Option Layout :=
  if p.column == 0 && p.char == '%' then do
    let l ← (l.closeBlocks fun _ => false).release?
    let (t, rest) ← directive? rest
    pure (l.addTo t rest)
  else if isMarker '-' l.text then l.boundary? .documentStart (rest.drop 2)
  else if isMarker '.' l.text then l.boundary? .documentEnd (rest.drop 2)
  else
    let stands := endsWord rest
    match p.char with
    | '[' => l.opening? .openSquare p rest
    | '\x7b' => l.opening? .openCurly p rest
    | ']' => l.closing? .closeSquare rest
    | '\x7d' => l.closing? .closeCurly rest
    | ',' => l.comma? rest
    | '*' => l.word? p ((fun (name, rest) => (.alias name, rest)) <$> anchorName? rest)
    | '&' => l.word? p ((fun (name, rest) => (.anchor name, rest)) <$> anchorName? rest)
    | '!' => l.word? p ((fun (mark, rest) => (.tag mark, rest)) <$> tag? l.inside rest)
    | '\'' => l.quotedWord? p rest
    | '"' => l.quotedWord? p rest
    | c =>
      if c == '-' && stands then l.dash? p rest
      else if c == '?' && (l.inside || stands) then l.key? p rest
      else if c == ':' && (l.inside || stands) then l.value? p rest
      else if c == '|' && !l.inside then l.blockWord? .literal rest
      else if c == '>' && !l.inside then l.blockWord? .folded rest
      else if startsPlain l.inside p rest then l.plainWord? p
      else none

/-- Splits the rest of a text, one token for each unit of `fuel`, and closes all blocks at its
end. -/
def run? : (fuel : Nat) → Layout → Option Layout
  | fuel, l =>
    let l := l.skipped
    match fuel, l.text with
    | _, [] => (l.closeBlocks fun _ => false).release?
    | 0, _ :: _ => none
    | fuel + 1, p :: rest => do
      let l ← l.refresh? p
      let l ← (l.closeBlocks (· ≤ p.column)).token? p rest
      run? fuel l

end Layout

def tokens? (text : String) : Option (List Token) := do
  let source ← place? text
  let l ← Layout.run? source.length (.start source)
  pure (l.tokens.toList.flatMap fun (before, t) => before ++ [t])

end FlowPlan.Yaml
