import FlowPlan.Number.Decimal

namespace FlowPlan.Json

inductive Numeric where
  | natural (value : Nat)
  | negative (magnitude : Nat)
  | floating (value : Double)
  deriving DecidableEq

/-- The largest number of 64 bits. -/
def mostDigits : Nat := Nat.pow 2 64 - 1

/-- Digits that fit into 64 bits, and those that are left over. -/
def collect (collected : Nat) : List Char → Nat × List Char
  | [] => (collected, [])
  | c :: rest =>
    let next := 10 * collected + (c.toNat - '0'.toNat)
    if next ≤ mostDigits then collect next rest else (collected, c :: rest)

def powerOfTen (n : Nat) : Double := .ofQuotient false (Nat.pow 10 n) 1

def largestPower : Nat := 308

/-- Divides by a power of ten, in steps where it is too large to be a double. -/
def scaleDown (x : Double) (n : Nat) : Double :=
  if n ≤ largestPower then x.div (powerOfTen n)
  else if x.le (.zero false) then x
  else scaleDown (x.div (powerOfTen largestPower)) (n - largestPower)
termination_by n
decreasing_by simp [largestPower] at *; omega

/-- A number of units `10 ^ exponent`; nothing when it is too large. The units, the power and the
result are rounded one by one, so this need not be the nearest double. -/
def scaled? (units : Nat) (exponent : Int) : Option Double :=
  let x : Double := .ofInt units
  if exponent < 0 then some (scaleDown x (-exponent).toNat)
  else if largestPower < exponent then if units = 0 then some x else none
  else
    let y := x.mul (powerOfTen exponent.toNat)
    if y.isFinite then some y else none

/-- The parts of a number's text: the sign, the whole digits, the digits after a point, and the
exponent as it is written. -/
structure Lexeme where
  negative : Bool
  whole : List Char
  fraction : Option (List Char)
  exponent : Option (Bool × List Char)

def mostExponent : Nat := Nat.pow 2 31 - 1

/-- An exponent moved by the digits that were dropped or read after the point; it stays inside
32 bits. -/
def moved (shift : Int) (negative : Bool) (digits : Nat) : Int :=
  let e := if negative then shift - digits else shift + digits
  max (-(Nat.pow 2 31)) (min mostExponent e)

/-- The double that a number with a point, an exponent or too many digits stands for. Whole digits
that do not fit move the exponent up; further digits after the point are dropped. -/
def Lexeme.double? (l : Lexeme) (units : Nat) (dropped : List Char) : Option Double :=
  let fraction := l.fraction.getD []
  let (units, unread) := collect units fraction
  let shift : Int := dropped.length - (fraction.length - unread.length : Nat)
  let (down, digits) := l.exponent.getD (false, [])
  let exponent := Decimal.natural digits
  if exponent ≤ mostExponent then scaled? units (moved shift down exponent)
  else if down || units = 0 then some (.zero false)
  else none

/-- The value of a number; nothing when it is too large for a double. -/
def Lexeme.value? (l : Lexeme) : Option Numeric :=
  let (units, dropped) := collect 0 l.whole
  if l.fraction.isNone && l.exponent.isNone && dropped.isEmpty then
    if !l.negative then some (.natural units)
    else if units = 0 || Nat.pow 2 63 < units then some (.floating (Binary.neg (.ofInt units)))
    else some (.negative units)
  else (l.double? units dropped).map fun x => .floating (if l.negative then x.neg else x)

def lexeme? (text : List Char) : Option Lexeme := do
  let (negative, rest) := match text with
    | '-' :: rest => (true, rest)
    | _ => (false, text)
  let whole := rest.takeWhile Char.isDigit
  let rest := rest.dropWhile Char.isDigit
  let (fraction, rest) := match rest with
    | '.' :: tail => (some (tail.takeWhile Char.isDigit), tail.dropWhile Char.isDigit)
    | _ => (none, rest)
  let exponent ← match rest with
    | [] => some none
    | c :: tail =>
      let (down, digits) := Decimal.splitSign tail
      if (c == 'e' || c == 'E') && !digits.isEmpty && digits.all Char.isDigit then
        some (some (down, digits))
      else none
  if whole.isEmpty || (whole.length != 1 && whole.head? == some '0') || fraction == some [] then
    none
  else some ⟨negative, whole, fraction, exponent⟩

def isNumber (text : List Char) : Bool := (lexeme? text).isSome

/-- The value of a number's text; nothing when it is too large for a double. -/
def numeric? (text : String) : Option Numeric := do
  let l ← lexeme? text.toList
  l.value?

namespace Numeric

/-- An integer, if the number was written as one. -/
def integer? : Numeric → Option Int
  | .natural n => some n
  | .negative n => some (-n)
  | .floating _ => none

/-- The number in a floating point format, rounded. -/
def toBinary {f : Format} : Numeric → Binary f
  | .natural n => .ofInt n
  | .negative n => .ofInt (-n)
  | .floating x => x.convert

end Numeric

end FlowPlan.Json
