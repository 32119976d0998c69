import FlowPlan.Estimate.Rows

namespace FlowPlan

/-- What a node is estimated to take. -/
structure Cost (ν : Type) where
  rows : ν
  cpu : ν
  io : ν

namespace Cost

variable {ν : Type} [Quantity ν]

/-- A cost of the given parts, each at least zero. -/
def make (rows cpu io : ν) : Cost ν :=
  ⟨Quantity.sanitize rows, Quantity.sanitize cpu, Quantity.sanitize io⟩

def zero : Cost ν := ⟨Quantity.none, Quantity.none, Quantity.none⟩

def plus (a b : Cost ν) : Cost ν := make (a.rows + b.rows) (a.cpu + b.cpu) (a.io + b.io)

/-- How much CPU one unit of input/output weighs. -/
def ioWeight : ν := Quantity.ofNat 10

/-- CPU and input/output as one number. -/
def total (a : Cost ν) : ν := a.cpu + ioWeight * a.io

def compare (ordering : CostOrdering) (a b : Cost ν) : Ordering :=
  match ordering with
  | .rowsThenCpu =>
    ((Quantity.order a.rows b.rows).then (Quantity.order a.cpu b.cpu)).then
      (Quantity.order a.io b.io)
  | .cpuThenRows =>
    ((Quantity.order a.cpu b.cpu).then (Quantity.order a.rows b.rows)).then
      (Quantity.order a.io b.io)
  | .total => (Quantity.order a.total b.total).then (Quantity.order a.rows b.rows)

def isBelow (ordering : CostOrdering) (a b : Cost ν) : Bool := (compare ordering a b).isLT

def toText (a : Cost ν) : String :=
  "\x7b" ++ Quantity.text a.rows ++ " rows, " ++ Quantity.text a.cpu ++ " cpu, " ++
    Quantity.text a.io ++ " io\x7d"

end Cost

namespace Estimates

variable {ν : Type} [Quantity ν]

/-- The cost of a physical node without its inputs. A scan is charged input/output for every row,
a filter CPU for every row it reads, a projection for every row and expression. -/
def selfCost (m : Estimates ν) (p : Plan) : Except Error (Cost ν) :=
  if !p.isPhysical then .error (.notPhysical p.kind p.convention)
  else
    match p.op with
    | .scan .. => do
      let rows ← m.rows p
      pure (.make rows rows rows)
    | .filter _ => do
      let read ← m.inputRows p
      let rows ← m.rows p
      pure (.make rows (Quantity.sanitize read) Quantity.none)
    | .project exprs _ => do
      let read := Quantity.sanitize (← m.inputRows p)
      let width := Quantity.ofNat (max exprs.length 1)
      pure (.make read (read * width * m.settings.projectCpuPerExpr) Quantity.none)
    | .root => do
      let read ← m.inputRows p
      pure (.make read read Quantity.none)

mutual

/-- The cost of a physical plan: of its topmost node and of all nodes below. -/
def cost (m : Estimates ν) : Plan → Except Error (Cost ν)
  | .node t op inputs => do
    let own ← m.selfCost (.node t op inputs)
    m.addCosts own inputs

def addCosts (m : Estimates ν) (sum : Cost ν) : List Plan → Except Error (Cost ν)
  | [] => .ok sum
  | p :: rest => do
    let c ← m.cost p
    m.addCosts (sum.plus c) rest

end

end Estimates

end FlowPlan
