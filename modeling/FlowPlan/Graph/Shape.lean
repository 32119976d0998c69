import FlowPlan.Graph.Basic

namespace FlowPlan

inductive ShapeFault where
  | notEmitted (input vertex : VertexId)
  | sinkCount (found : Nat)
  | sharedVertex (id : VertexId) (parents : Nat)
  | sharedVertices
  | slotGap (vertex : VertexId) (ordinal slot : Nat)
  deriving DecidableEq, Repr

namespace ShapeFault

/-- The message about two numbers that should be equal. -/
def unequal (message : String) (left right : Nat) : String :=
  "assertion `left == right` failed: " ++ message ++ s!"\n  left: {left}\n right: {right}"

def message : ShapeFault → String
  | .notEmitted input vertex =>
    "input " ++ vertexLabel input ++ " of vertex " ++ vertexLabel vertex ++ " not emitted before it"
  | .sinkCount n => unequal s!"expected one sink, found {n}" n 1
  | .sharedVertex id n => unequal ("vertex " ++ vertexLabel id ++ s!" feeds {n} parents") n 1
  | .sharedVertices => "several vertices feed several parents"
  | .slotGap vertex ordinal slot =>
    unequal ("vertex " ++ vertexLabel vertex ++ " has a gap in its input slots") ordinal slot

end ShapeFault

namespace Graph

/-- Checks that the inputs of some vertices are among those seen before them. -/
def checkOrderFrom (g : Graph) (seen : List VertexId) : List Vertex → Except ShapeFault Unit
  | [] => .ok ()
  | v :: rest =>
    match (g.inputsOf v.id).find? fun e => !seen.contains e.source with
    | some e => .error (.notEmitted e.source v.id)
    | none => g.checkOrderFrom (v.id :: seen) rest

/-- Checks that every edge leads from a vertex to a later one. -/
def checkOrder (g : Graph) : Except ShapeFault Unit := g.checkOrderFrom [] g.vertices

/-- The vertices with several edges out of them, each once. -/
def shared (g : Graph) : List VertexId :=
  (g.edges.map (·.source)).eraseDups.filter fun id => 1 < (g.outputsOf id).length

/-- The first of several edges that does not stand at its slot, with the slot. -/
def gap? (slot : Nat) : List Edge → Option (Edge × Nat)
  | [] => none
  | e :: rest => if e.ordinal = slot then gap? (slot + 1) rest else some (e, slot)

/-- Checks that the input slots of a vertex are numbered without gaps. -/
def checkSlots (g : Graph) (v : Vertex) : Except ShapeFault Unit :=
  match gap? 0 (g.inputsOf v.id) with
  | some (e, slot) => .error (.slotGap v.id e.ordinal slot)
  | none => .ok ()

/-- Checks that there is one sink, that every other vertex feeds one parent, and that input slots
have no gaps. -/
def checkTree (g : Graph) : Except ShapeFault Unit := do
  if g.sinks.length != 1 then throw (.sinkCount g.sinks.length)
  match g.shared with
  | [] => g.vertices.forM g.checkSlots
  | [id] => throw (.sharedVertex id (g.outputsOf id).length)
  | _ => throw .sharedVertices

end Graph

end FlowPlan
