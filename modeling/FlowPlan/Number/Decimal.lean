import FlowPlan.Number.Binary

namespace FlowPlan

namespace Decimal

/-- The number that a run of decimal digits writes. -/
def natural (digits : List Char) : Nat :=
  digits.foldl (fun n c => 10 * n + (c.toNat - '0'.toNat)) 0

/-- How many digits a positive number has; zero has none. -/
def length (n : Nat) : Nat :=
  if n = 0 then 0 else (Nat.toDigits 10 n).length

/-- An unsigned run of at least one digit. -/
def natural? (text : List Char) : Option Nat :=
  if !text.isEmpty && text.all Char.isDigit then some (natural text) else none

/-- Splits off a leading sign; true stands for minus. -/
def splitSign : List Char → Bool × List Char
  | '-' :: rest => (true, rest)
  | '+' :: rest => (false, rest)
  | text => (false, text)

/-- Digits after an optional plus sign, at most `limit`. -/
def unsigned? (limit : Nat) (text : List Char) : Option Nat := do
  let digits := match text with
    | '+' :: rest => rest
    | _ => text
  let n ← natural? digits
  if n ≤ limit then some n else none

/-- Digits after an optional sign, inside `least..most`. -/
def signed? (least most : Int) (text : List Char) : Option Int := do
  let (negative, digits) := splitSign text
  let n ← natural? digits
  let v : Int := if negative then -n else n
  if least ≤ v ∧ v ≤ most then some v else none

/-- A decimal numeral: a whole number of units, each `10 ^ exponent`. -/
structure Numeral where
  units : Nat
  exponent : Int
  deriving DecidableEq, Repr

/-- The exponent part of a numeral: nothing, or a mark with digits and an optional sign. -/
def exponent? : List Char → Option Int
  | [] => some 0
  | c :: rest => do
    if c != 'e' && c != 'E' then none
    else
      let (negative, digits) := splitSign rest
      let n ← natural? digits
      pure (if negative then -n else n)

/-- An unsigned numeral: digits with at most one point among them, then an optional exponent. -/
def numeral? (text : List Char) : Option Numeral := do
  let whole := text.takeWhile Char.isDigit
  let afterWhole := text.dropWhile Char.isDigit
  let (fraction, tail) := match afterWhole with
    | '.' :: rest => (rest.takeWhile Char.isDigit, rest.dropWhile Char.isDigit)
    | _ => ([], afterWhole)
  if whole.isEmpty && fraction.isEmpty then none
  else
    let e ← exponent? tail
    pure ⟨natural (whole ++ fraction), e - fraction.length⟩

end Decimal

namespace Binary

variable {f : Format}

/-- A number of decimal places that no finite number of the format reaches, up or down. -/
def placeLimit (f : Format) : Int := Nat.pow 2 f.exponent + f.fraction

def ofNumeral (negative : Bool) (n : Decimal.Numeral) : Binary f :=
  let places := Decimal.length n.units + n.exponent
  if n.units = 0 then zero negative
  else if placeLimit f < places then infinity negative
  else if places < -placeLimit f then zero negative
  else if 0 ≤ n.exponent then ofQuotient negative (n.units * Nat.pow 10 n.exponent.toNat) 1
  else ofQuotient negative n.units (Nat.pow 10 (-n.exponent).toNat)

/-- Reads a numeral with an optional sign, or one of the words for infinity and NaN in any case. -/
def parse? (text : List Char) : Option (Binary f) :=
  let (negative, body) := Decimal.splitSign text
  match (String.ofList body).toLower with
  | "inf" => some (infinity negative)
  | "infinity" => some (infinity negative)
  | "nan" => some nan
  | _ => (Decimal.numeral? body).map (ofNumeral negative)

end Binary

end FlowPlan
