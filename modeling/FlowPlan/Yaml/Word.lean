import FlowPlan.Number.Decimal
import FlowPlan.Text.Hex

namespace FlowPlan.Yaml

def isNull (word : String) : Bool := ["null", "Null", "NULL", "~"].contains word

def wordBool? (word : String) : Option Bool :=
  if ["true", "True", "TRUE"].contains word then some true
  else if ["false", "False", "FALSE"].contains word then some false
  else none

/-- The value of a digit in a base of at most sixteen. -/
def digitIn? (base : Nat) (c : Char) : Option Nat := do
  let n ← Text.hexValue? c
  if n < base then some n else none

/-- The number that a run of at least one digit writes in a base. -/
def naturalIn? (base : Nat) (digits : List Char) : Option Nat :=
  if digits.isEmpty then none
  else digits.foldlM (fun n c => (digitIn? base c).map (base * n + ·)) 0

/-- Whether a word has digits after a zero, which makes it no number in base ten. -/
def isPadded (digits : List Char) : Bool :=
  match digits with
  | '0' :: rest => !rest.isEmpty && rest.all Char.isDigit
  | _ => false

/-- The number that digits write in the base that their first two characters name. -/
def magnitude? : List Char → Option Nat
  | '0' :: 'x' :: digits => naturalIn? 16 digits
  | '0' :: 'o' :: digits => naturalIn? 8 digits
  | '0' :: 'b' :: digits => naturalIn? 2 digits
  | digits => if isPadded digits then none else naturalIn? 10 digits

/-- The natural number that a word writes, with or without a plus sign. -/
def wordNatural? (word : List Char) : Option Nat :=
  match word with
  | '+' :: rest => magnitude? rest
  | _ => magnitude? word

def withoutPlus : List Char → List Char
  | '+' :: rest => rest
  | word => word

/-- The floating point number that a word writes. Infinity and NaN have a point in front. -/
def wordDouble? (word : String) : Option Double :=
  let body := withoutPlus word.toList
  let signed := body.length < word.length && body.head?.any fun c => c == '+' || c == '-'
  if signed then none
  else if [".inf", ".Inf", ".INF"].contains (String.ofList body) then some (.infinity false)
  else if ["-.inf", "-.Inf", "-.INF"].contains word then some (.infinity true)
  else if [".nan", ".NaN", ".NAN"].contains word then some .nan
  else
    match Binary.parse? body with
    | some x => if x.isFinite then some x else none
    | none => none

/-- What a word without quotes means where any value may stand. An integer of more than 64 bits has
no meaning unless it has more than 128. -/
inductive Meaning where
  | null
  | bool (value : Bool)
  | natural (value : Nat)
  | number
  | text
  | tooLarge

/-- The meaning of an integer, which may be too large to be one. -/
def integerMeaning? : List Char → Option Meaning
  | '-' :: digits => do
    let n ← magnitude? digits
    if n ≤ Nat.pow 2 63 then some .number else if n ≤ Nat.pow 2 127 then some .tooLarge else none
  | word => do
    let n ← wordNatural? word
    if n < Nat.pow 2 64 then some (.natural n) else if n < Nat.pow 2 128 then some .tooLarge else none

def withoutSign (word : List Char) : List Char := (Decimal.splitSign word).2

def meaning (word : String) : Meaning :=
  if word.isEmpty || isNull word then .null
  else
    match wordBool? word, integerMeaning? word.toList with
    | some b, _ => .bool b
    | none, some m => m
    | none, none =>
      if isPadded (withoutSign word.toList) || (wordDouble? word).isNone then .text else .number

end FlowPlan.Yaml
