import FlowPlan.Expr.Eval
import FlowPlan.Plan.Basic
import FlowPlan.Graph.Fault
import FlowPlan.Text.Hex

namespace FlowPlan

/-- The work of a vertex. -/
inductive Processor where
  | scan (container : String)
  | filter (predicate : Expr)
  | project (exprs : List Expr)
  /-- A filter and a projection of the rows it keeps. -/
  | calc (predicate : Expr) (exprs : List Expr)
  | root

namespace Processor

def kindName : Processor → String
  | .scan _ => "scan"
  | .filter _ => "filter"
  | .project _ => "project"
  | .calc .. => "calc"
  | .root => "root"

/-- What becomes of a row: another row, or nothing when it is dropped. -/
def process (p : Processor) (row : Values) : Except EvalError (Option Values) :=
  match p with
  | .scan _ => .ok (some row)
  | .root => .ok (some row)
  | .filter predicate => do
    if ← predicate.keeps row then pure (some row) else pure none
  | .project exprs => do
    let out ← Expr.evalEach row exprs
    pure (some out)
  | .calc predicate exprs => do
    if ← predicate.keeps row then
      let out ← Expr.evalEach row exprs
      pure (some out)
    else pure none

/-- What becomes of a row that several vertices see one after the other. -/
def processAll (row : Values) : List Processor → Except EvalError (Option Values)
  | [] => .ok (some row)
  | p :: rest => do
    match ← p.process row with
    | some out => processAll out rest
    | none => pure none

end Processor

/-- How rows travel along an edge: on the member that made them, or all to one member. -/
inductive Routing where
  | local
  | allToOne
  deriving DecidableEq, Repr

namespace Routing

def name : Routing → String
  | .local => "local"
  | .allToOne => "all_to_one"

def all : List Routing := [.local, .allToOne]

def ofName? (s : String) : Option Routing := all.find? (·.name == s)

end Routing

/-- A vertex: its work, the columns it emits, where it runs, and how many workers it is given. -/
structure Vertex where
  id : VertexId
  name : String
  parallelism : Option UInt32
  distribution : Distribution
  schema : Schema
  processor : Processor

/-- An edge into the input slot `ordinal` of its target. -/
structure Edge where
  id : EdgeId
  source : VertexId
  target : VertexId
  ordinal : Nat
  routing : Routing
  deriving DecidableEq, Repr

/-- The number that tells a graph from all others. -/
abbrev GraphId := BitVec 128

def graphIdText (id : GraphId) : String :=
  let all := Text.hexOfNat 32 id.toNat
  let group (first count : Nat) : String := String.ofList ((all.drop first).take count)
  Text.joined "-" [group 0 8, group 8 4, group 12 4, group 16 4, group 20 12]

/-- A number of a graph made from random bits; six bits say that it was. -/
def GraphId.ofRandom (bits : BitVec 128) : GraphId :=
  let version : BitVec 128 := 0xf <<< 76
  let variant : BitVec 128 := 0x3 <<< 62
  (bits &&& ~~~(version ||| variant)) ||| (0x4 <<< 76) ||| (0x2 <<< 62)

/-- An execution graph. Vertices come in the order of their creation. -/
structure Graph where
  id : GraphId
  version : String
  vertices : List Vertex
  edges : List Edge

namespace Graph

def vertex? (g : Graph) (id : VertexId) : Option Vertex := g.vertices.find? (·.id == id)

/-- The edges into a vertex, by input slot; edges into one slot keep their order. -/
def inputsOf (g : Graph) (id : VertexId) : List Edge :=
  (g.edges.filter (·.target == id)).mergeSort fun a b => a.ordinal ≤ b.ordinal

def outputsOf (g : Graph) (id : VertexId) : List Edge := g.edges.filter (·.source == id)

/-- The vertices without inputs. -/
def sources (g : Graph) : List Vertex :=
  g.vertices.filter fun v => !g.edges.any fun e => e.target == v.id

/-- The vertices without outputs. -/
def sinks (g : Graph) : List Vertex :=
  g.vertices.filter fun v => !g.edges.any fun e => e.source == v.id

def vertexLine (v : Vertex) : String :=
  let workers := match v.parallelism with
    | some n => s!" x{n.toNat}"
    | none => ""
  s!"  {v.id} {v.name} [{v.distribution.label}]" ++ workers ++ "\n"

def edgeLine (e : Edge) : String :=
  s!"  {e.source} -> {e.target} #" ++ s!"{e.ordinal} {e.routing.name}\n"

def toText (g : Graph) : String :=
  "dag DagId(" ++ graphIdText g.id ++ ") (v" ++ g.version ++ ")\n" ++
    String.join (g.vertices.map vertexLine) ++ String.join (g.edges.map edgeLine)

/-- What becomes of a row that all vertices see in their order. -/
def process (g : Graph) (row : Values) : Except EvalError (Option Values) :=
  Processor.processAll row (g.vertices.map (·.processor))

end Graph

end FlowPlan
