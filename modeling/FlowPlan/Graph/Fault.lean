namespace FlowPlan

/-- The number of a vertex, given in the order of creation. -/
abbrev VertexId := Nat

/-- The number of an edge, given in the order of creation. -/
abbrev EdgeId := Nat

def vertexLabel (id : VertexId) : String := s!"VertexId({id})"

def edgeLabel (id : EdgeId) : String := s!"EdgeId({id})"

inductive GraphFault where
  | unknownVertex (id : VertexId)
  | selfLoop (id : VertexId)
  | slotTaken (ordinal : Nat) (target : VertexId)
  | backwards (source target : VertexId)
  deriving DecidableEq, Repr

namespace GraphFault

def message : GraphFault → String
  | .unknownVertex id => "unknown vertex " ++ vertexLabel id
  | .selfLoop id => "malformed graph: self-loop on " ++ vertexLabel id
  | .slotTaken ordinal target =>
    s!"malformed graph: input slot {ordinal} of " ++ vertexLabel target ++ " is already wired"
  | .backwards source target =>
    "malformed graph: edge " ++ vertexLabel source ++ " -> " ++ vertexLabel target ++
      " points backwards"

end GraphFault

end FlowPlan
