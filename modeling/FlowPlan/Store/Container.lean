import FlowPlan.Error

namespace FlowPlan

/-- How a container counts its entries: per partition, in one number, or not at all. -/
inductive Counter where
  | partitions (counts : Array UInt64)
  | single (entries : UInt64)
  | uncounted
  deriving DecidableEq, Repr

namespace Counter

/-- The entries of all partitions together, modulo the largest number. -/
def sum (counts : Array UInt64) : UInt64 := counts.foldl (· + ·) 0

/-- How many entries there are, if they are counted. -/
def size? : Counter → Option UInt64
  | .partitions counts => some (sum counts)
  | .single n => some n
  | .uncounted => none

/-- Changes the counter that a partition belongs to. Partition numbers are taken modulo their
count. -/
def change (f : UInt64 → UInt64) (partition : Nat) : Counter → Counter
  | .partitions counts => .partitions (counts.modify (partition % counts.size) f)
  | .single n => .single (f n)
  | .uncounted => .uncounted

def insert (partition : Nat) (c : Counter) : Counter := c.change (· + 1) partition

/-- One entry less, if there is any. -/
def remove (partition : Nat) (c : Counter) : Counter :=
  c.change (fun n => if n = 0 then 0 else n - 1) partition

def set (partition : Nat) (entries : UInt64) (c : Counter) : Counter :=
  c.change (fun _ => entries) partition

/-- Counts of a number of partitions, which share `entries` as evenly as can be. -/
def spread (partitions : Nat) (entries : UInt64) : Array UInt64 :=
  Array.ofFn fun i : Fin partitions =>
    UInt64.ofNat (entries.toNat / partitions + if i.val < entries.toNat % partitions then 1 else 0)

end Counter

structure Container where
  name : String
  kind : ContainerKind
  counter : Counter
  deriving DecidableEq, Repr

inductive StatsError where
  | unsized (name : String) (kind : ContainerKind)
  | unknown (name : String)
  deriving DecidableEq, Repr

namespace StatsError

/-- The error that the planner reports. A container that cannot be counted should never have been
offered to it. -/
def asError : StatsError → Error
  | .unsized name kind => .broken (.unsizedContainer name kind)
  | .unknown name => .planning (.unknownContainer name)

def message : StatsError → String
  | .unsized name kind => unsizedMessage name kind
  | .unknown name => (PlanningError.unknownContainer name).message

end StatsError

namespace Container

/-- A map whose entries are spread over partitions, at least one. -/
def partitionedMap (name : String) (partitions : Nat) (entries : UInt64) : Container :=
  ⟨name, .partitionedMap, .partitions (Counter.spread (max partitions 1) entries)⟩

def replicatedMap (name : String) (entries : UInt64) : Container :=
  ⟨name, .replicatedMap, .single entries⟩

def partitionCount? (c : Container) : Option Nat :=
  match c.counter with
  | .partitions counts => some counts.size
  | _ => none

def recount (f : Counter → Counter) (c : Container) : Container :=
  { c with counter := f c.counter }

/-- How many rows a scan reads. Only maps that count their entries can be asked. -/
def rowCount (c : Container) : Except StatsError UInt64 :=
  match c.kind, c.counter.size? with
  | .partitionedMap, some n => .ok n
  | .replicatedMap, some n => .ok n
  | _, _ => .error (.unsized c.name c.kind)

end Container

end FlowPlan
