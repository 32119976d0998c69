import FlowPlan.Plan.Rules

namespace FlowPlan

/-- Builds a node over converted inputs, which scans do without. -/
def Plan.rebuild (place : List Plan → Traits) (op : Operator) (inputs : Except Error (List Plan)) :
    Except Error Plan := do
  let found ← match op with
    | .scan .. => .ok []
    | _ => inputs
  (Plan.make (place found) op found).mapError .planning

/-- The placement of rows that stay where the first input has them. -/
def inheritedDistribution (inputs : List Plan) : Distribution :=
  match inputs with
  | [] => .any
  | p :: _ => p.distribution

/-- The placement of a physical node over its inputs: a scan reads its partitions in place, a root
gathers everything on one member. -/
def physicalDistribution (kind : OperatorKind) (inputs : List Plan) : Distribution :=
  match kind with
  | .scan => .partitioned
  | .root => .root
  | .filter | .project => inheritedDistribution inputs

/-- The rule that makes nodes of one kind logical. -/
def logicalRule (kind : OperatorKind) : Rule where
  name := kind.name ++ "LogicalRule"
  kind
  source := .unset
  target := .logical
  rebuild p inputs := Plan.rebuild (fun _ => { p.traits with convention := .logical }) p.op inputs

/-- The rule that makes nodes of one kind physical. -/
def physicalRule (kind : OperatorKind) : Rule where
  name := kind.name ++ "PhysicalRule"
  kind
  source := .logical
  target := .physical
  rebuild p inputs := Plan.rebuild (fun found => ⟨.physical, physicalDistribution kind found⟩) p.op inputs

/-- One rule for every kind of node and either step. -/
def Rules.default : Rules :=
  ⟨OperatorKind.all.map logicalRule ++ OperatorKind.all.map physicalRule⟩

end FlowPlan
