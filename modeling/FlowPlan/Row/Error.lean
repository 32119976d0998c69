import FlowPlan.Row.Codec

namespace FlowPlan

inductive RowError where
  | unknownColumn (name : String)
  | outOfRange (index : Int) (count : Nat)
  | decode (fault : DecodeFault)
  | columnCount (expected found : Nat)
  deriving DecidableEq, Repr

namespace RowError

def message : RowError → String
  | .unknownColumn name => "Column \"" ++ name ++ "\" doesn't exist"
  | .outOfRange index _ => s!"Column index is out of range: {index}"
  | .decode fault => "failed to decode column value: " ++ fault.message
  | .columnCount expected found =>
    s!"row has {found} values but metadata declares {expected} columns"

/-- True for columns addressed by a name that no column has. -/
def isUnknownColumn : RowError → Bool
  | .unknownColumn _ => true
  | _ => false

/-- True for positions at which there is no column. -/
def isOutOfRange : RowError → Bool
  | .outOfRange .. => true
  | _ => false

end RowError

/-- A value that cannot be decoded cannot be read. -/
instance {α : Type} : Coe (Except DecodeFault α) (Except RowError α) where
  coe found := found.mapError .decode

end FlowPlan
