import FlowPlan.Text.Ranges

namespace FlowPlan.Text

/-- Membership of a code point in a table of ranges. -/
def inRanges (ranges : List (Nat × Nat)) (c : Char) : Bool :=
  ranges.any fun (first, last) => first ≤ c.toNat && c.toNat ≤ last

def isBlank (c : Char) : Bool := inRanges blankRanges c

def isLetter (c : Char) : Bool :=
  if c.toNat < 128 then c.isAlpha else inRanges alphabeticRanges c

def isLetterOrNumber (c : Char) : Bool :=
  if c.toNat < 128 then c.isAlphanum
  else inRanges alphabeticRanges c || inRanges numericRanges c

def trimBlanks (text : List Char) : List Char :=
  ((text.dropWhile isBlank).reverse.dropWhile isBlank).reverse

/-- The text with the capital letters of ASCII made small. -/
def lowerAscii (text : List Char) : List Char := text.map Char.toLower

def sameWord (a b : String) : Bool := lowerAscii a.toList == lowerAscii b.toList

/-- The text of a list of parts with a separator between them. -/
def joined (separator : String) : List String → String
  | [] => ""
  | [part] => part
  | part :: rest => part ++ separator ++ joined separator rest

end FlowPlan.Text
