import FlowPlan.Pipeline.Basic
import FlowPlan.Store.Catalog

namespace FlowPlan

/-- How many partitions a map has when nothing is said. -/
def defaultPartitions : Nat := 271

namespace ContainerSpec

/-- The container that a pipeline declares. -/
def container (c : ContainerSpec) : Except PipelineError Container :=
  match c.kind with
  | .partitionedMap =>
    let partitions := c.partitions.getD defaultPartitions
    if partitions = 0 then .error (.invalid (.noPartitions c.name))
    else .ok (.partitionedMap c.name partitions c.entries)
  | .replicatedMap => .ok (.replicatedMap c.name c.entries)
  | kind => .error (.invalid (.notScannable c.name kind))

end ContainerSpec

namespace Pipeline

/-- A store with the declared containers added to those it has. -/
def register (s : Store) : List ContainerSpec → Except PipelineError Store
  | [] => .ok s
  | c :: rest => do register (s.addRegistered (← c.container)) rest

def catalog (p : Pipeline) : Except PipelineError Store := register .empty p.containers

end Pipeline

end FlowPlan
