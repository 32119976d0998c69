import FlowPlan.Plan.Schema
import FlowPlan.Plan.Visit
import FlowPlan.Graph.Builder

namespace FlowPlan

/-- Why a plan gives no graph: a fault of the plan, or of the graph that was built. -/
inductive CompileError where
  | plan (cause : Error)
  | graph (cause : GraphFault)

def CompileError.message : CompileError → String
  | .plan cause => cause.message
  | .graph cause => cause.message

/-- True for plans that break a contract of the planner. -/
def CompileError.isContractViolation : CompileError → Bool
  | .plan cause => cause.isContractViolation
  | .graph _ => false

/-- The routing of an edge: rows leave their members only for a vertex that gathers them. -/
def Routing.between (parent child : Distribution) : Routing :=
  if parent = .root ∧ child ≠ .root then .allToOne else .local

def GraphFault.asError (f : GraphFault) : Error := .broken (.graph f)

namespace Compile

variable {ν : Type}

/-- A step that builds a part of a graph. -/
abbrev Step (α : Type) := Visit Builder α

def addVertex (settings : Settings ν) (p : Plan) (name : String) (processor : Processor) :
    Step VertexId := do
  let schema ← Visit.lift p.schema
  let (id, b) := (← get).addVertex name processor schema p.distribution settings.parallelism
  set b
  pure id

/-- Feeds the vertex of a node's input into the vertex of the node. -/
def connect (p : Plan) (input id : VertexId) : Step Unit := do
  let b ← get
  match b.vertex? input with
  | none => throw (GraphFault.unknownVertex input).asError
  | some child =>
    let routing := Routing.between p.distribution child.distribution
    let (added, b) := b.addEdge input id 0 routing
    set b
    let _ ← Visit.lift (added.mapError GraphFault.asError)

/-- Adds the vertex of a node over the vertex of its input. -/
def addOver (settings : Settings ν) (p : Plan) (name : String) (processor : Processor)
    (input : VertexId) : Step VertexId := do
  let id ← addVertex settings p name processor
  connect p input id
  pure id

/-- A filter's vertex with a projection of the rows it keeps. Other vertices stay. -/
def fused (p : Plan) (schema : Schema) (exprs : List Expr) (v : Vertex) : Vertex :=
  match v.processor with
  | .filter predicate =>
    { v with
      name := "calc", distribution := p.distribution, schema,
      processor := .calc predicate exprs }
  | _ => v

/-- Makes a projection a part of the vertex of its input, if that is a filter's. -/
def fuse (p : Plan) (input : VertexId) (exprs : List Expr) : Step Bool := do
  let schema ← Visit.lift p.schema
  let b ← get
  match b.vertex? input with
  | none => throw (GraphFault.unknownVertex input).asError
  | some v =>
    match v.processor with
    | .filter _ => do
      let b ← Visit.lift ((b.update input (fused p schema exprs)).mapError GraphFault.asError)
      set b
      pure true
    | _ => pure false

/-- The node below, which a step needs to know the columns that enter. -/
def inputOf (p : Plan) : Step Plan := Visit.lift (p.input.mapError .planning)

def visitor (settings : Settings ν) : Visitor Builder VertexId where
  scan p container := addVertex settings p ("scan(" ++ container ++ ")") (.scan container)
  filter p predicate input := do
    let below ← inputOf p
    let entering ← Visit.lift below.schema
    let checked ← Visit.lift (predicate.asPredicate entering)
    addOver settings p "filter" (.filter checked) input
  project p exprs input := do
    let below ← inputOf p
    let entering ← Visit.lift below.schema
    let checked ← Visit.lift (Expr.asProjection entering exprs)
    let done ← if settings.fuse && below.kind == .filter then fuse p input checked else pure false
    if done then pure input else addOver settings p "project" (.project checked) input
  root p input := addOver settings p "root" .root input

end Compile

/-- The graph of a physical plan: one vertex per node from the scan upward, where under fusion a
projection over a filter is one vertex with it. -/
def compile {ν : Type} (settings : Settings ν) (id : GraphId) (p : Plan) :
    Except CompileError Graph := do
  (do p.requirePhysical; p.checkConventions).mapError .plan
  let (result, b) := (p.accept (Compile.visitor settings)).run Builder.empty
  let _ ← result.mapError .plan
  (b.build id).mapError .graph

end FlowPlan
