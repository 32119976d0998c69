import FlowPlan.Plan.Check

namespace FlowPlan

/-- A step of a walk: it may fail, and what it did to the state stays done. -/
abbrev Visit (σ α : Type) := ExceptT Error (StateM σ) α

/-- Gives a result that needs no state. -/
def Visit.lift {σ α : Type} (result : Except Error α) : Visit σ α :=
  match result with
  | .ok v => pure v
  | .error e => throw e

/-- What a walk does at each kind of node. Each step but a scan's is given the result of the step
below it. -/
structure Visitor (σ α : Type) where
  scan : (node : Plan) → (container : String) → Visit σ α
  filter : (node : Plan) → (predicate : Expr) → α → Visit σ α
  project : (node : Plan) → (exprs : List Expr) → α → Visit σ α
  root : (node : Plan) → α → Visit σ α

namespace Plan

variable {σ α : Type}

/-- Does a visitor's step at one node, given the result of the step below. -/
def stepAt (v : Visitor σ α) (p : Plan) (below : α) : Visit σ α :=
  match p.op with
  | .scan container _ => v.scan p container
  | .filter predicate => v.filter p predicate below
  | .project exprs _ => v.project p exprs below
  | .root => v.root p below

/-- Walks a physical plan, one step per node. Nothing is done when a node is not physical or has
not the one input it needs. -/
def accept (v : Visitor σ α) : Plan → Visit σ α
  | .node t (.scan c s) inputs => do
    Visit.lift (requirePhysical (.node t (.scan c s) inputs))
    v.scan (.node t (.scan c s) inputs) c
  | .node t op [input] => do
    Visit.lift (requirePhysical (.node t op [input]))
    let below ← accept v input
    stepAt v (.node t op [input]) below
  | .node t op several => do
    Visit.lift (requirePhysical (.node t op several))
    throw (.planning (.inputCount op.kind several.length))

end Plan

end FlowPlan
