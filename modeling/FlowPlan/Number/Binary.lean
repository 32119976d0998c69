namespace FlowPlan

/-- The widths of the exponent and fraction fields of a floating point format. -/
structure Format where
  exponent : Nat
  fraction : Nat
  deriving DecidableEq, Repr

namespace Format

/-- The number of bits of a pattern: a sign, the exponent and the fraction. -/
abbrev width (f : Format) : Nat := 1 + f.exponent + f.fraction

/-- The format with 8 exponent bits, kept in REAL columns. -/
abbrev single : Format := ⟨8, 23⟩

/-- The format with 11 exponent bits, kept in DOUBLE columns and used for every estimate. -/
abbrev double : Format := ⟨11, 52⟩

def signWeight (f : Format) : Nat := Nat.pow 2 (f.exponent + f.fraction)

/-- The pattern of positive infinity: an exponent of ones over an empty fraction. -/
def infinity (f : Format) : Nat := (Nat.pow 2 f.exponent - 1) * Nat.pow 2 f.fraction

/-- The exponent of two that the last fraction bit of the smallest numbers stands for. -/
def leastExponent (f : Format) : Int := 2 - Nat.pow 2 (f.exponent - 1) - f.fraction

end Format

/-- What a pattern stands for. A finite number is `magnitude * 2 ^ exponent`, signed. -/
inductive Reading where
  | nan
  | infinite (negative : Bool)
  | finite (negative : Bool) (magnitude : Nat) (exponent : Int)
  deriving DecidableEq, Repr

namespace Format

/-- Reads a pattern, given as a number below `2 ^ width`. -/
def read (f : Format) (pattern : Nat) : Reading :=
  let negative := f.signWeight ≤ pattern
  let body := pattern % f.signWeight
  let stored := body / Nat.pow 2 f.fraction
  let fraction := body % Nat.pow 2 f.fraction
  if f.infinity < body then .nan
  else if body = f.infinity then .infinite negative
  else if stored = 0 then .finite negative fraction f.leastExponent
  else .finite negative (Nat.pow 2 f.fraction + fraction) (f.leastExponent + (stored - 1))

/-- The quotient nearest to `num / den`, a tie going to the even one. -/
def roundQuotient (num den : Nat) : Nat :=
  let q := num / den
  let r := num % den
  if 2 * r < den then q
  else if den < 2 * r then q + 1
  else q + q % 2

/-- `num / den` counted in units of `2 ^ e`, as a fraction. -/
def inUnits (num den : Nat) (e : Int) : Nat × Nat :=
  if 0 ≤ e then (num, den * Nat.pow 2 e.toNat) else (num * Nat.pow 2 (-e).toNat, den)

/-- The exponent of the unit in which `num / den` has just enough bits to fill the fraction. -/
def unitExponent (f : Format) (num den : Nat) : Int :=
  let guess : Int := (Nat.log2 num : Int) - Nat.log2 den - 1 - f.fraction
  let (n, d) := inUnits num den guess
  max f.leastExponent (if Nat.pow 2 (f.fraction + 1) ≤ n / d then guess + 1 else guess)

/-- The unsigned pattern nearest to `num / den`. The count of units carries into the exponent
field by itself when it rounds up to the next power of two. -/
def nearest (f : Format) (num den : Nat) : Nat :=
  if num = 0 then 0
  else
    let e := f.unitExponent num den
    let (n, d) := inUnits num den e
    min f.infinity ((e - f.leastExponent).toNat * Nat.pow 2 f.fraction + roundQuotient n d)

end Format

/-- A floating point number of a format, as its bits. Equality is equality of patterns. -/
structure Binary (f : Format) where
  bits : BitVec f.width
  deriving DecidableEq

/-- A number in the format of REAL columns. -/
abbrev Single := Binary .single

/-- A number in the format of DOUBLE columns. -/
abbrev Double := Binary .double

namespace Binary

variable {f g : Format}

def pattern (x : Binary f) : Nat := x.bits.toNat

/-- The number with a given pattern, cut to the width of the format. -/
def ofPattern (n : Nat) : Binary f := ⟨BitVec.ofNat _ n⟩

/-- The pattern of a sign over an unsigned pattern. -/
def signed (negative : Bool) (body : Nat) : Binary f :=
  ofPattern (if negative then f.signWeight + body else body)

def reading (x : Binary f) : Reading := f.read x.pattern

/-- The quiet NaN without a payload. -/
def nan : Binary f := ofPattern (f.infinity + Nat.pow 2 (f.fraction - 1))

def infinity (negative : Bool) : Binary f := signed negative f.infinity

def zero (negative : Bool) : Binary f := signed negative 0

def ofQuotient (negative : Bool) (num den : Nat) : Binary f := signed negative (f.nearest num den)

/-- The number nearest to `magnitude * 2 ^ exponent`, signed. -/
def ofScaled (negative : Bool) (magnitude : Nat) (exponent : Int) : Binary f :=
  if 0 ≤ exponent then ofQuotient negative (magnitude * Nat.pow 2 exponent.toNat) 1
  else ofQuotient negative magnitude (Nat.pow 2 (-exponent).toNat)

def ofInt (n : Int) : Binary f := ofQuotient (n < 0) n.natAbs 1

/-- The number nearest to a reading, in another format as a rule. -/
def ofReading : Reading → Binary f
  | .nan => nan
  | .infinite s => infinity s
  | .finite s m e => ofScaled s m e

/-- The same number in another format, rounded where it does not fit. -/
def convert (x : Binary f) : Binary g := ofReading x.reading

def isNaN (x : Binary f) : Bool :=
  match x.reading with
  | .nan => true
  | _ => false

/-- True for numbers that are neither infinite nor NaN. -/
def isFinite (x : Binary f) : Bool :=
  match x.reading with
  | .finite .. => true
  | _ => false

def signBit (x : Binary f) : Bool := f.signWeight ≤ x.pattern

def neg (x : Binary f) : Binary f := signed (!x.signBit) (x.pattern % f.signWeight)

/-- The place of a number in the numeric order; both zeros are at 0, NaNs lie past infinity. -/
def rank (x : Binary f) : Int :=
  if x.signBit then -(x.pattern % f.signWeight : Nat) else x.pattern

/-- The numeric order. NaN compares with nothing and the two zeros are equal. -/
def compare? (x y : Binary f) : Option Ordering :=
  if x.isNaN || y.isNaN then none else some (compare x.rank y.rank)

/-- Strictly below; false when a NaN is involved. -/
def lt (x y : Binary f) : Bool := x.compare? y == some .lt

/-- At most; false when a NaN is involved. -/
def le (x y : Binary f) : Bool := x.compare? y == some .lt || x.compare? y == some .eq

/-- The order of all patterns: as the numeric order, with the negative zero below the positive
one and NaNs outside the infinities of their sign. -/
def order (x y : Binary f) : Ordering :=
  compare (if x.signBit then x.rank - 1 else x.rank) (if y.signBit then y.rank - 1 else y.rank)

/-- The larger number; of a number and a NaN, the number. -/
def maximum (x y : Binary f) : Binary f :=
  if x.isNaN then y else if x.lt y then y else x

/-- The smaller number; of a number and a NaN, the number. -/
def minimum (x y : Binary f) : Binary f :=
  if x.isNaN then y else if y.lt x then y else x

/-- A magnitude at one exponent as a signed count of units at a lower one. -/
def unitsAt (negative : Bool) (magnitude : Nat) (exponent least : Int) : Int :=
  let units := magnitude * Nat.pow 2 (exponent - least).toNat
  if negative then -(units : Int) else units

/-- Adds. An exact zero is positive unless both addends are negative. -/
def add (x y : Binary f) : Binary f :=
  match x.reading, y.reading with
  | .nan, _ => nan
  | _, .nan => nan
  | .infinite s, .infinite t => if s = t then infinity s else nan
  | .infinite s, _ => infinity s
  | _, .infinite t => infinity t
  | .finite s m d, .finite t n e =>
    let least := min d e
    let sum := unitsAt s m d least + unitsAt t n e least
    if sum = 0 then zero (s && t) else ofScaled (sum < 0) sum.natAbs least

def sub (x y : Binary f) : Binary f := x.add y.neg

/-- Multiplies. Zero times infinity is NaN. -/
def mul (x y : Binary f) : Binary f :=
  match x.reading, y.reading with
  | .nan, _ => nan
  | _, .nan => nan
  | .infinite s, .infinite t => infinity (s != t)
  | .infinite s, .finite t n _ => if n = 0 then nan else infinity (s != t)
  | .finite s m _, .infinite t => if m = 0 then nan else infinity (s != t)
  | .finite s m d, .finite t n e => ofScaled (s != t) (m * n) (d + e)

/-- Divides. A zero divisor gives an infinity, or NaN for zero by zero. -/
def div (x y : Binary f) : Binary f :=
  match x.reading, y.reading with
  | .nan, _ => nan
  | _, .nan => nan
  | .infinite _, .infinite _ => nan
  | .infinite s, .finite t _ _ => infinity (s != t)
  | .finite s _ _, .infinite t => zero (s != t)
  | .finite s m d, .finite t n e =>
    if n = 0 then if m = 0 then nan else infinity (s != t)
    else if e ≤ d then ofQuotient (s != t) (m * Nat.pow 2 (d - e).toNat) n
    else ofQuotient (s != t) m (n * Nat.pow 2 (e - d).toNat)

end Binary

end FlowPlan
