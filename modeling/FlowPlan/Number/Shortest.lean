import FlowPlan.Number.Binary

namespace FlowPlan

/-- Decimal digits `digits`, read as a whole number of units `10 ^ exponent`. -/
structure Digits where
  digits : Nat
  exponent : Int
  deriving DecidableEq, Repr

/-- Which of two equally near neighbours is taken. -/
inductive Tie where
  | up
  | even
  deriving DecidableEq, Repr

/-- The numbers that read back as one floating point number: from `low` to `high` around `exact`,
all counted in units of `num / den`. The ends belong to it when `closed`. -/
structure Neighbourhood where
  low : Nat
  exact : Nat
  high : Nat
  num : Nat
  den : Nat
  closed : Bool

namespace Neighbourhood

/-- The neighbourhood of a positive finite number. Below a power of two the numbers lie twice as
close, so the lower end is half as far away there. -/
def of (f : Format) (magnitude : Nat) (exponent : Int) : Neighbourhood :=
  let narrow := magnitude = Nat.pow 2 f.fraction
  let (num, den) := if 2 ≤ exponent then (Nat.pow 2 (exponent - 2).toNat, 1)
    else (1, Nat.pow 2 (2 - exponent).toNat)
  ⟨4 * magnitude - (if narrow then 1 else 2), 4 * magnitude, 4 * magnitude + 2, num, den,
    magnitude % 2 = 0⟩

/-- Whether `n` units of `10 ^ e` read back as the number. -/
def holds (b : Neighbourhood) (n : Nat) (e : Int) : Bool :=
  let left := if 0 ≤ e then n * Nat.pow 10 e.toNat * b.den else n * b.den
  let scale := if 0 ≤ e then b.num else b.num * Nat.pow 10 (-e).toNat
  if b.closed then b.low * scale ≤ left && left ≤ b.high * scale
  else b.low * scale < left && left < b.high * scale

/-- How many whole units of `10 ^ e` fit into the number, and where the rest lies against half a
unit. -/
def place (b : Neighbourhood) (e : Int) : Nat × Ordering :=
  let top := if 0 ≤ e then b.exact * b.num else b.exact * b.num * Nat.pow 10 (-e).toNat
  let unit := if 0 ≤ e then b.den * Nat.pow 10 e.toNat else b.den
  (top / unit, compare (2 * (top % unit)) unit)

def leading (b : Neighbourhood) : Int :=
  let top := b.exact * b.num
  if b.den ≤ top then ((Nat.toDigits 10 (top / b.den)).length : Int) - 1
  else
    let inverse := (Nat.toDigits 10 (b.den / top)).length
    if b.den ≤ top * Nat.pow 10 (inverse - 1) then -(inverse - 1 : Nat) else -inverse

/-- The number written in units of `10 ^ e`, if one of its two neighbours there reads back. -/
def onGrid? (b : Neighbourhood) (tie : Tie) (e : Int) : Option Nat :=
  let (below, rest) := b.place e
  let lower := b.holds below e
  let upper := b.holds (below + 1) e
  let takesUpper := match rest with
    | .lt => false
    | .gt => true
    | .eq => match tie with
      | .up => true
      | .even => below % 2 = 1
  if lower && upper then some (if takesUpper then below + 1 else below)
  else if lower then some below
  else if upper then some (below + 1)
  else none

/-- The first grid, from `count` digits on, that has a neighbour which reads back. -/
def search (b : Neighbourhood) (tie : Tie) (leading : Int) : Nat → Nat → Digits
  | count, 0 => ⟨(b.place (leading - count)).1, leading - count⟩
  | count, fuel + 1 =>
    match b.onGrid? tie (leading - count) with
    | some n => ⟨n, leading - count⟩
    | none => search b tie leading (count + 1) fuel

end Neighbourhood

/-- The shortest digits of a positive finite number. Twenty digits are more than any format here
needs. -/
def Format.shortest (f : Format) (tie : Tie) (magnitude : Nat) (exponent : Int) : Digits :=
  let b := Neighbourhood.of f magnitude exponent
  b.search tie b.leading 0 20

/-- How a number is set in decimal. -/
structure Layout where
  /-- The exponents of the leading digit at which no exponent is written. -/
  positional : Int → Bool
  /-- Whether a whole number ends in a point and a zero. -/
  marksWhole : Bool
  tie : Tie
  infinite : String
  nan : String

namespace Layout

/-- Digits without trailing zeros. -/
def trim (digits : List Char) : List Char :=
  (digits.reverse.dropWhile (· == '0')).reverse

/-- Digits set around the point, which stands after `point` of them. -/
def positionalText (marksWhole : Bool) (digits : List Char) (point : Int) : String :=
  if point ≤ 0 then
    "0." ++ String.ofList (List.replicate (-point).toNat '0' ++ digits)
  else
    let n := point.toNat
    let whole := digits.take n ++ List.replicate (n - digits.length) '0'
    match digits.drop n with
    | [] => String.ofList whole ++ (if marksWhole then ".0" else "")
    | fraction => String.ofList whole ++ "." ++ String.ofList fraction

/-- Digits set with one of them before the point and a signed exponent. -/
def exponentText (digits : List Char) (exponent : Int) : String :=
  let mantissa := match digits with
    | [d] => String.ofList [d]
    | d :: rest => String.ofList (d :: '.' :: rest)
    | [] => "0"
  mantissa ++ (if exponent < 0 then "e-" else "e+") ++ toString exponent.natAbs

def positiveText (l : Layout) (f : Format) (magnitude : Nat) (exponent : Int) : String :=
  let found := f.shortest l.tie magnitude exponent
  let all := Nat.toDigits 10 found.digits
  let point := all.length + found.exponent
  if l.positional (point - 1) then positionalText l.marksWhole (trim all) point
  else exponentText (trim all) (point - 1)

def text (l : Layout) {f : Format} (x : Binary f) : String :=
  match x.reading with
  | .nan => l.nan
  | .infinite s => (if s then "-" else "") ++ l.infinite
  | .finite s m e =>
    (if s then "-" else "") ++
      (if m = 0 then (if l.marksWhole then "0.0" else "0") else l.positiveText f m e)

/-- The layout of values in expressions, rows and plans: never an exponent. -/
def plain : Layout := ⟨fun _ => true, false, .up, "inf", "NaN"⟩

end Layout

def Binary.plainText {f : Format} (x : Binary f) : String := Layout.plain.text x

end FlowPlan
