import FlowPlan.Json.Expr
import FlowPlan.Plan.Basic
import FlowPlan.Digest.Basic

namespace FlowPlan

namespace Traits

def toJson (t : Traits) : Json :=
  .object [("convention", .string t.convention.name), ("distribution", .string t.distribution.name)]

def ofJson? : Json.Reader Traits := fun r j => do
  let m ← Json.members? ["convention", "distribution"] r j
  let convention ← m.field? "convention" (Json.oneOf? Convention.ofName?)
  let distribution ← m.field? "distribution" (Json.oneOf? Distribution.ofName?)
  pure ⟨convention, distribution⟩

end Traits

namespace Operator

def toJson : Operator → Json
  | .scan c s => .tagged "Scan" (.object [("container", .string c), ("schema", s.toJson)])
  | .filter p => .tagged "Filter" (.object [("predicate", p.toJson)])
  | .project exprs t =>
    .tagged "Project" (.object
      [("exprs", .array (exprs.map Expr.toJson)), ("row_type", t.toJson)])
  | .root => .string "Root"

def scanOfJson? : Json.Reader Operator := fun r j => do
  let m ← Json.members? ["container", "schema"] r j
  let container ← m.field? "container" Json.text?
  let schema ← m.field? "schema" Schema.ofJson?
  pure (.scan container schema)

def filterOfJson? : Json.Reader Operator := fun r j => do
  let m ← Json.members? ["predicate"] r j
  .filter <$> m.field? "predicate" Expr.ofJson?

def projectOfJson? : Json.Reader Operator := fun r j => do
  let m ← Json.members? ["exprs", "row_type"] r j
  let exprs ← m.field? "exprs" (Json.list? Expr.ofJson?)
  let rowType ← m.field? "row_type" Schema.ofJson?
  pure (.project exprs rowType)

def ofJson? : Json.Reader Operator := fun r j => do
  let c ← Json.choice? r j
  match c.name with
  | "Scan" => c.read? scanOfJson?
  | "Filter" => c.read? filterOfJson?
  | "Project" => c.read? projectOfJson?
  | "Root" => c.bare? .root
  | _ => none

end Operator

namespace Plan

mutual

def toJson : Plan → Json
  | .node t op inputs =>
    .object [("traits", t.toJson), ("op", op.toJson), ("inputs", .array (inputsToJson inputs))]

def inputsToJson : List Plan → List Json
  | [] => []
  | p :: rest => toJson p :: inputsToJson rest

end

/-- Reads a plan that is at most `depth` nodes deep. -/
def ofJsonWithin? : (depth : Nat) → Json.Reader Plan
  | 0 => fun _ _ => none
  | depth + 1 => fun r j => do
    let m ← Json.members? ["traits", "op", "inputs"] r j
    let traits ← m.field? "traits" Traits.ofJson?
    let op ← m.field? "op" Operator.ofJson?
    let inputs ← m.field? "inputs" (Json.list? (ofJsonWithin? depth))
    pure (.node traits op inputs)

/-- Reads a plan. Every node is a container, so the room bounds their depth. -/
def ofJson? : Json.Reader Plan := fun r j => ofJsonWithin? (r.levels + 1) r j

def digest (p : Plan) : Digest := .ofText p.toJson.compact

end Plan

def Expr.digest (e : Expr) : Digest := .ofText e.toJson.compact

end FlowPlan
