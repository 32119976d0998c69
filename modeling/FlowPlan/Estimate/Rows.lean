import FlowPlan.Error
import FlowPlan.Estimate.Selectivity

namespace FlowPlan

/-- What estimates are computed from: the settings, the rows that a scan reads, and the fraction
of an input's rows that a predicate keeps, where it is known. -/
structure Estimates (ν : Type) where
  settings : Settings ν
  scanRows : Plan → Except Error ν
  selectivity : Plan → Expr → Option ν

variable {ν : Type} [Quantity ν]

/-- The rows that a filter keeps of `rows`: the given fraction, or the default one, but never
fewer than the smaller of `rows` and the floor of the settings. -/
def filteredRows (settings : Settings ν) (rows : ν) (selectivity : Option ν) : ν :=
  let known := match selectivity with
    | some s => if Quantity.isNaN s then settings.defaultSelectivity else s
    | none => settings.defaultSelectivity
  let rows := Quantity.sanitize rows
  let floor := Quantity.sanitize settings.minFilteredRows
  max (rows * Quantity.clampUnit known) (min rows floor)

namespace Estimates

def rows (m : Estimates ν) : Plan → Except Error ν
  | .node t (.scan c s) inputs => m.scanRows (.node t (.scan c s) inputs)
  | .node _ (.filter p) [input] => do
    let read ← m.rows input
    pure (filteredRows m.settings read (m.selectivity input p))
  | .node _ (.project ..) [input] => m.rows input
  | .node _ .root [input] => m.rows input
  | .node _ op several => .error (.planning (.inputCount op.kind several.length))

/-- The rows that enter a node with a single input. -/
def inputRows (m : Estimates ν) (p : Plan) : Except Error ν := do
  let input ← p.input.mapError .planning
  m.rows input

/-- The same rows for every scan and the same selectivity for every predicate, save the literal
FALSE, which keeps nothing. -/
def fixed (settings : Settings ν) (rows : ν) (selectivity : Option ν) : Estimates ν where
  settings
  scanRows _ := .ok rows
  selectivity _ p :=
    match p with
    | .literal (.bool false) => some Quantity.none
    | _ => selectivity

end Estimates

end FlowPlan
