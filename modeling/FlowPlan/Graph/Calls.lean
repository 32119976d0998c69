import FlowPlan.Graph.Builder

namespace FlowPlan.Builder

/-- A call on a graph under construction. A change leaves the number of the vertex alone. -/
inductive Call where
  | addVertex (name : String) (processor : Processor) (schema : Schema)
      (distribution : Distribution) (parallelism : Option UInt32)
  | addEdge (source target : VertexId) (ordinal : Nat) (routing : Routing)
  | update (id : VertexId) (change : Vertex → Vertex) (keeps : ∀ v, (change v).id = v.id)

inductive Answer where
  | vertex (id : VertexId)
  | edge (id : EdgeId)
  | updated
  | refused (fault : GraphFault)

def call (b : Builder) : Call → Answer × Builder
  | .addVertex name processor schema distribution parallelism =>
    let (id, b) := b.addVertex name processor schema distribution parallelism
    (.vertex id, b)
  | .addEdge source target ordinal routing =>
    let (added, b) := b.addEdge source target ordinal routing
    match added with
    | .ok id => (.edge id, b)
    | .error f => (.refused f, b)
  | .update id change _ =>
    match b.update id change with
    | .ok b => (.updated, b)
    | .error f => (.refused f, b)

/-- Does what several calls want, one after the other. Each call is kept with its answer. -/
def callAll (b : Builder) : List Call → List (Call × Answer) × Builder
  | [] => ([], b)
  | c :: rest =>
    let (answer, b) := b.call c
    let (more, b) := b.callAll rest
    ((c, answer) :: more, b)

/-- The number of the vertex that a call made. -/
def issued? : Call × Answer → Option VertexId
  | (_, .vertex id) => some id
  | _ => none

/-- The edge that a call made. -/
def accepted? : Call × Answer → Option Edge
  | (.addEdge source target ordinal routing, .edge id) =>
    some ⟨id, source, target, ordinal, routing⟩
  | _ => none

/-- The numbers of the vertices that were made, in the order of their creation. -/
def issued (calls : List (Call × Answer)) : List VertexId := calls.filterMap issued?

/-- The edges that were accepted, in their order. -/
def accepted (calls : List (Call × Answer)) : List Edge := calls.filterMap accepted?

end FlowPlan.Builder
