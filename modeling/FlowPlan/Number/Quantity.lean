import FlowPlan.Number.Shortest

namespace FlowPlan

/-- Numbers that estimates can be computed in. Estimates run on `Double` and can be read over exact
numbers. -/
class Quantity (ν : Type) extends Add ν, Sub ν, Mul ν, Max ν, Min ν where
  ofRatio : Nat → Nat → ν
  /-- True for results that are no number. -/
  isNaN : ν → Bool
  /-- True for numbers that are neither infinite nor NaN. -/
  isFinite : ν → Bool
  /-- Strictly below; false when a NaN is involved. -/
  below : ν → ν → Bool
  /-- A total order of all values. -/
  order : ν → ν → Ordering
  text : ν → String

namespace Quantity

variable {ν : Type} [Quantity ν]

def none : ν := ofRatio 0 1

def one : ν := ofRatio 1 1

def ofNat (n : Nat) : ν := ofRatio n 1

/-- NaN and negative amounts become zero. -/
def sanitize (v : ν) : ν := if isNaN v || below v none then none else v

/-- Cuts a number to the unit interval; a NaN stays. -/
def clampUnit (v : ν) : ν :=
  if below v none then none else if below one v then one else v

/-- True inside the closed unit interval. -/
def inUnit (v : ν) : Bool := !isNaN v && !below v none && !below one v

/-- True for finite numbers that are not below zero. -/
def isAmount (v : ν) : Bool := isFinite v && !below v none

end Quantity

instance : Quantity Double where
  add := Binary.add
  sub := Binary.sub
  mul := Binary.mul
  max := Binary.maximum
  min := Binary.minimum
  ofRatio := Binary.ofQuotient false
  isNaN := Binary.isNaN
  isFinite := Binary.isFinite
  below := Binary.lt
  order := Binary.order
  text := Binary.plainText

end FlowPlan
