import FlowPlan.Graph.Basic

namespace FlowPlan

def plannerVersion : String := "0.1.0"

/-- A graph under construction, with the position of each vertex by its number and the numbers that
are given out next. -/
structure Builder where
  vertices : List Vertex
  index : List (VertexId × Nat)
  edges : List Edge
  nextVertex : VertexId
  nextEdge : EdgeId

namespace Builder

def empty : Builder := ⟨[], [], [], 0, 0⟩

/-- The position of a vertex that has been made. -/
def position (b : Builder) (id : VertexId) : Except GraphFault Nat :=
  match b.index.lookup id with
  | some i => .ok i
  | none => .error (.unknownVertex id)

def vertex? (b : Builder) (id : VertexId) : Option Vertex :=
  (b.index.lookup id).bind fun i => b.vertices[i]?

def has (b : Builder) (id : VertexId) : Bool := (b.index.lookup id).isSome

def addVertex (b : Builder) (name : String) (processor : Processor) (schema : Schema)
    (distribution : Distribution) (parallelism : Option UInt32) : VertexId × Builder :=
  let id := b.nextVertex
  (id,
    { b with
      vertices := b.vertices ++ [⟨id, name, parallelism, distribution, schema, processor⟩]
      index := (id, b.vertices.length) :: b.index
      nextVertex := id + 1 })

def update (b : Builder) (id : VertexId) (change : Vertex → Vertex) : Except GraphFault Builder :=
  match b.position id with
  | .ok i => .ok { b with vertices := b.vertices.modify i change }
  | .error f => .error f

/-- Adds an edge. Its ends have to be two vertices that have been made, and its slot free. -/
def addEdge (b : Builder) (source target : VertexId) (ordinal : Nat) (routing : Routing) :
    Except GraphFault EdgeId × Builder :=
  if !b.has source then (.error (.unknownVertex source), b)
  else if !b.has target then (.error (.unknownVertex target), b)
  else if source = target then (.error (.selfLoop source), b)
  else if b.edges.any fun e => e.target == target && e.ordinal == ordinal then
    (.error (.slotTaken ordinal target), b)
  else
    let id := b.nextEdge
    (.ok id,
      { b with edges := b.edges ++ [⟨id, source, target, ordinal, routing⟩], nextEdge := id + 1 })

/-- Checks that an edge leads to a later vertex. Edges that all do make no cycle. -/
def checkForward (b : Builder) (e : Edge) : Except GraphFault Unit := do
  let source ← b.position e.source
  let target ← b.position e.target
  if target ≤ source then .error (.backwards e.source e.target) else .ok ()

/-- The finished graph, under a number of its own. -/
def build (b : Builder) (id : GraphId) : Except GraphFault Graph := do
  b.edges.forM b.checkForward
  pure ⟨id, plannerVersion, b.vertices, b.edges⟩

end Builder

end FlowPlan
