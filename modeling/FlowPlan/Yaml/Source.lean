namespace FlowPlan.Yaml

/-- A character with the line and the column that it stands in, and the number of bytes before it on
that line. -/
structure Placed where
  char : Char
  line : Nat
  column : Nat
  offset : Nat

def isAllowed (c : Char) : Bool :=
  c == '\t' || c == '\n' || c == '\r' || (' ' ≤ c && c ≤ '~') || c.toNat == 0x85 ||
    (0xa0 ≤ c.toNat && c.toNat ≤ 0xfffd) || 0x10000 ≤ c.toNat

def isBreak (c : Char) : Bool := c == '\n' || c == '\u2028' || c == '\u2029'

def isWhite (c : Char) : Bool := c == ' ' || c == '\t'

/-- The text with one character for every line end. -/
def unifyBreaks : List Char → List Char
  | '\r' :: '\n' :: rest => '\n' :: unifyBreaks rest
  | c :: rest => (if c == '\r' || c == '\u0085' then '\n' else c) :: unifyBreaks rest
  | [] => []

/-- The characters of a text whose first one stands at a given place. -/
def placeFrom (line column offset : Nat) : List Char → List Placed
  | [] => []
  | c :: rest =>
    ⟨c, line, column, offset⟩ ::
      if isBreak c then placeFrom (line + 1) 0 0 rest
      else placeFrom line (column + 1) (offset + c.utf8Size) rest

/-- The characters of a document; nothing when one of them is not allowed. -/
def place? (text : String) : Option (List Placed) :=
  if text.toList.all isAllowed then some (placeFrom 0 0 0 (unifyBreaks text.toList)) else none

/-- Whether nothing, a blank or a line end comes next. -/
def endsWord : List Placed → Bool
  | [] => true
  | p :: _ => isWhite p.char || isBreak p.char

/-- Whether a line starts with three times a character and nothing more in that word. -/
def isMarker (c : Char) : List Placed → Bool
  | p :: q :: r :: rest =>
    p.column == 0 && p.char == c && q.char == c && r.char == c && endsWord rest
  | _ => false

def isBoundary (text : List Placed) : Bool := isMarker '-' text || isMarker '.' text

/-- What is left of a text from the end of its line on. -/
def afterLine (text : List Placed) : List Placed := text.dropWhile fun p => !isBreak p.char

/-- The text without the blanks at its front. -/
def afterWhite (text : List Placed) : List Placed := text.dropWhile fun p => isWhite p.char

/-- The next line, if nothing but blanks and a comment is left of this one. -/
def nextLine? (text : List Placed) : Option (List Placed) :=
  let rest := afterWhite text
  let rest := if rest.head?.any (·.char == '#') then afterLine rest else rest
  match rest with
  | [] => some []
  | p :: tail => if isBreak p.char then some tail else none

def chars (text : List Placed) : List Char := text.map Placed.char

end FlowPlan.Yaml
