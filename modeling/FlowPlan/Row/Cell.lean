import FlowPlan.Row.Error

namespace FlowPlan

/-- A value still encoded, or decoded by an earlier read. -/
inductive Cell where
  | encoded (payload : List UInt8)
  | decoded (value : Scalar)
  deriving DecidableEq

namespace Cell

def isDecoded : Cell → Bool
  | .encoded _ => false
  | .decoded _ => true

end Cell

/-- The number of a cell, given in the order of creation. -/
abbrev CellId := Nat

abbrev Cells := List Cell

/-- Turns a payload into a value, or says in any words of a row's why it cannot. It may have effects
of its own. -/
abbrev Decoder (m : Type → Type) := List UInt8 → m (Except RowError Scalar)

def wireDecoder {m : Type → Type} [Monad m] : Decoder m := fun payload => pure (Wire.decode payload)

namespace Cells

def add (cs : Cells) (c : Cell) : CellId × Cells := (cs.length, cs ++ [c])

/-- The value of a cell, which stays decoded. A cell that cannot be decoded keeps its payload. -/
def force {m : Type → Type} [Monad m] (decode : Decoder m) (id : CellId) (cell : Cell) :
    StateT Cells m (Except RowError Scalar) :=
  match cell with
  | .decoded v => pure (.ok v)
  | .encoded payload => do
    match ← decode payload with
    | .ok v => do
      modify fun cs => cs.set id (.decoded v)
      pure (.ok v)
    | .error e => pure (.error e)

end Cells

end FlowPlan
