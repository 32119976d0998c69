import FlowPlan.Plan.Rules
import FlowPlan.Plan.Check
import FlowPlan.Estimate.Cost
import FlowPlan.Json.Plan

namespace FlowPlan

/-- A physical form of a node with the cost of everything up to it. -/
structure Candidate (ν : Type) where
  plan : Plan
  cost : Cost ν

structure Optimized (ν : Type) where
  logical : Plan
  physical : Plan
  cost : Cost ν

namespace Candidate

variable {ν : Type} [Quantity ν]

/-- The cheaper of two candidates, the first one unless the second is strictly cheaper. -/
def cheaper (ordering : CostOrdering) (a b : Candidate ν) : Candidate ν :=
  if b.cost.isBelow ordering a.cost then b else a

def cheapest? (ordering : CostOrdering) : List (Candidate ν) → Option (Candidate ν)
  | [] => none
  | c :: rest => some (rest.foldl (cheaper ordering) c)

end Candidate

namespace Rules

variable {ν : Type} [Quantity ν]

/-- What several rules make of a node, each with its cost. A result whose digest was seen before
is left out. -/
def candidates (rs : Rules) (m : Estimates ν) (p : Plan) (seen : List Digest) :
    List Rule → Except Error (List (Candidate ν))
  | [] => .ok []
  | r :: rest => do
    let q ← rs.apply r p
    if seen.contains q.digest then rs.candidates m p seen rest
    else do
      let cost ← m.cost q
      let more ← rs.candidates m p (seen ++ [q.digest]) rest
      pure (⟨q, cost⟩ :: more)

/-- The cheapest physical form of a logical node over physical inputs. -/
def bestOver (rs : Rules) (m : Estimates ν) (t : Traits) (op : Operator) (inputs : List Plan) :
    Except Error (Candidate ν) := do
  let staged ← (Plan.make t op inputs).mapError .planning
  let found ← rs.candidates m staged [] (rs.rulesFor op.kind .logical .physical)
  match Candidate.cheapest? m.settings.ordering found with
  | some best => pure best
  | none => .error (.planning (.noRule op.kind .logical .physical))

mutual

/-- The cheapest physical form of a logical plan. -/
def best (rs : Rules) (m : Estimates ν) : Plan → Except Error (Candidate ν)
  | .node t op inputs => do
    let chosen ← rs.bestInputs m inputs
    rs.bestOver m t op chosen

def bestInputs (rs : Rules) (m : Estimates ν) : List Plan → Except Error (List Plan)
  | [] => .ok []
  | p :: rest => do
    let first ← rs.best m p
    let more ← rs.bestInputs m rest
    pure (first.plan :: more)

end

/-- The cheapest physical form of a plan, under settings that are checked first. -/
def optimize (rs : Rules) (m : Estimates ν) (p : Plan) : Except Error (Optimized ν) := do
  m.settings.validate.mapError .settings
  let logical ← rs.convert .logical p
  let found ← rs.best m logical
  found.plan.checkConventions
  pure ⟨logical, found.plan, found.cost⟩

end Rules

end FlowPlan
