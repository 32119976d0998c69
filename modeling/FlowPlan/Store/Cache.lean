import FlowPlan.Store.Catalog

namespace FlowPlan

/-- A count and the time at which it was read, in milliseconds. -/
structure CountedRows where
  rows : UInt64
  time : Nat
  deriving DecidableEq, Repr

/-- Counts that were read, and how long they stay fresh, in milliseconds. Each is kept for a name
with a number, so a container that takes over a name starts without one. -/
structure RowCache where
  refresh : Nat
  entries : List ((String × ContainerId) × CountedRows)

namespace RowCache

def empty (refresh : Nat) : RowCache := ⟨refresh, []⟩

def invalidate (c : RowCache) : RowCache := { c with entries := [] }

/-- The count of a container that is fresh at some time. -/
def fresh? (c : RowCache) (now : Nat) (key : String × ContainerId) : Option UInt64 := do
  let r ← c.entries.lookup key
  if now - r.time < c.refresh then some r.rows else none

def keep (c : RowCache) (now : Nat) (key : String × ContainerId) (rows : UInt64) : RowCache :=
  { c with entries := (key, ⟨rows, now⟩) :: c.entries.filter fun (k, _) => k != key }

/-- The rows that are known under a key: a fresh count, or the one that is read now. -/
def count (c : RowCache) (now : Nat) (key : String × ContainerId)
    (read : Except StatsError UInt64) : Except StatsError UInt64 × RowCache :=
  match c.fresh? now key with
  | some rows => (.ok rows, c)
  | none =>
    match read with
    | .ok rows => (.ok rows, c.keep now key rows)
    | .error e => (.error e, c)

/-- The rows of a container: a fresh count, or a newly read one. -/
def rowCount (c : RowCache) (now : Nat) (id : ContainerId) (container : Container) :
    Except StatsError UInt64 × RowCache :=
  c.count now (container.name, id) container.rowCount

end RowCache

end FlowPlan
