namespace FlowPlan

/-- The service that a container belongs to. Only maps can be scanned. -/
inductive ContainerKind where
  | partitionedMap
  | replicatedMap
  | queue
  | list
  | topic
  deriving DecidableEq, Repr

namespace ContainerKind

def service : ContainerKind → String
  | .partitionedMap => "map"
  | .replicatedMap => "replicated_map"
  | .queue => "queue"
  | .list => "list"
  | .topic => "topic"

def name : ContainerKind → String
  | .partitionedMap => "partitioned_map"
  | .replicatedMap => "replicated_map"
  | .queue => "queue"
  | .list => "list"
  | .topic => "topic"

def all : List ContainerKind := [.partitionedMap, .replicatedMap, .queue, .list, .topic]

/-- The kind with a given name in pipeline documents. -/
def ofName? (s : String) : Option ContainerKind := all.find? (·.name == s)

end ContainerKind

end FlowPlan
