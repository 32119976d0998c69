import FlowPlan.Estimate.Cost

namespace FlowPlan

/-- A node's name with its parameters, in order. -/
structure Terms where
  name : String
  items : List (String × String)
  deriving DecidableEq, Repr

def Terms.toText (t : Terms) : String :=
  match t.items with
  | [] => t.name
  | items => t.name ++ "(" ++ Text.joined ", " (items.map fun (key, value) => key ++ "=" ++ value) ++ ")"

def Convention.suffix : Convention → String
  | .unset => ""
  | .logical => "Logical"
  | .physical => "Physical"

/-- The expressions of a projection under the names of their columns, from position `i` on. -/
def Schema.terms (s : Schema) (i : Nat) : List Expr → List (String × String)
  | [] => []
  | e :: rest => (s.columnName i, e.toText) :: Schema.terms s (i + 1) rest

def Operator.terms : Operator → List (String × String)
  | .scan container _ => [("table", container)]
  | .filter predicate => [("condition", predicate.toText)]
  | .project exprs declared => declared.terms 0 exprs
  | .root => []

namespace Plan

/-- The terms of the topmost node. A physical node also says where its rows are. -/
def terms (p : Plan) : Terms :=
  ⟨p.kind.name ++ p.convention.suffix,
    p.op.terms ++ (if p.isPhysical then [("distribution", p.distribution.label)] else [])⟩

def margin (depth : Nat) : String := String.ofList (List.replicate (2 * depth) ' ')

mutual

/-- The description of a plan whose topmost node stands at some depth. -/
def explainAt (depth : Nat) : Plan → String
  | .node t op inputs =>
    margin depth ++ (Plan.node t op inputs).terms.toText ++ "\n" ++ explainEach (depth + 1) inputs

def explainEach (depth : Nat) : List Plan → String
  | [] => ""
  | p :: rest => explainAt depth p ++ explainEach depth rest

end

def explain (p : Plan) : String := explainAt 0 p

end Plan

namespace Estimates

variable {ν : Type} [Quantity ν]

mutual

/-- The description of a plan at some depth, with the cost of each node. -/
def explainAt (m : Estimates ν) (depth : Nat) : Plan → Except Error String
  | .node t op inputs => do
    let cost ← m.selfCost (.node t op inputs)
    let below ← m.explainEach (depth + 1) inputs
    pure (Plan.margin depth ++ (Plan.node t op inputs).terms.toText ++ ": " ++ cost.toText ++ "\n" ++
      below)

def explainEach (m : Estimates ν) (depth : Nat) : List Plan → Except Error String
  | [] => .ok ""
  | p :: rest => do
    let first ← m.explainAt depth p
    let more ← m.explainEach depth rest
    pure (first ++ more)

end

/-- The description of a physical plan, with the cost of each node. -/
def explain (m : Estimates ν) (p : Plan) : Except Error String := m.explainAt 0 p

end Estimates

end FlowPlan
