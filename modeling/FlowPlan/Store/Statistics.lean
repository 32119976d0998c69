import FlowPlan.Store.Cache

namespace FlowPlan

/-- Says how many rows a container has, from how the container stands. -/
abbrev RowSource := ContainerId → Container → Except StatsError UInt64

/-- The counters of the containers themselves. -/
def RowSource.counters : RowSource := fun _ c => c.rowCount

/-- What rows are asked of: a container, or whatever is registered under a name. -/
inductive ContainerRef where
  | held (id : ContainerId)
  | named (name : String)
  deriving DecidableEq, Repr

def Store.locate (s : Store) : ContainerRef → Except StatsError ContainerId
  | .held id => .ok id
  | .named name => s.find name

/-- Containers with a source of their counts, and the counts that it gave. -/
structure Statistics where
  store : Store
  source : RowSource
  cache : RowCache

namespace Statistics

/-- Something that happens. A source may come to other answers of itself; only a query looks at the
clock. -/
inductive Event where
  | add (container : Container)
  | recount (id : ContainerId) (change : Counter → Counter)
  | register (id : ContainerId)
  | revise (source : RowSource)
  | count (now : Nat) (ref : ContainerRef)
  | invalidate

/-- Lets something happen, and gives what comes back: the rows that are asked for, unless there is
no container of a number. -/
def perform (s : Statistics) : Event → Option (Except StatsError UInt64) × Statistics
  | .add container => (none, { s with store := (s.store.add container).2 })
  | .recount id change => (none, { s with store := s.store.recount id change })
  | .register id => (none, { s with store := s.store.register id })
  | .revise source => (none, { s with source })
  | .count now ref =>
    match s.store.locate ref with
    | .error e => (some (.error e), s)
    | .ok id =>
      match s.store.container? id with
      | some c =>
        let (rows, cache) := s.cache.count now (c.name, id) (s.source id c)
        (some rows, { s with cache })
      | none => (none, s)
  | .invalidate => (none, { s with cache := s.cache.invalidate })

end Statistics

end FlowPlan
