import FlowPlan.Store.Container
import FlowPlan.Estimate.Rows

namespace FlowPlan

/-- The number of a container, given in the order of creation. -/
abbrev ContainerId := Nat

/-- Entries under other keys are found as before when those under one key are taken out. -/
theorem lookup_others {κ β : Type} [BEq κ] [LawfulBEq κ] {key taken : κ} (entries : List (κ × β))
    (h : key ≠ taken) : (entries.filter fun (k, _) => k != taken).lookup key = entries.lookup key := by
  induction entries with
  | nil => rfl
  | cons entry rest ih =>
    obtain ⟨k, v⟩ := entry
    by_cases hk : k = taken
    · subst hk
      simp [ih, List.lookup_cons, beq_false_of_ne h]
    · simp [ih, List.lookup_cons, hk]

/-- Containers by their numbers, and the catalog of names. -/
structure Store where
  containers : List Container
  catalog : List (String × ContainerId)

namespace Store

def empty : Store := ⟨[], []⟩

def add (s : Store) (c : Container) : ContainerId × Store :=
  (s.containers.length, { s with containers := s.containers ++ [c] })

def container? (s : Store) (id : ContainerId) : Option Container := s.containers[id]?

def recount (s : Store) (id : ContainerId) (f : Counter → Counter) : Store :=
  { s with containers := s.containers.modify id (Container.recount f) }

/-- Puts a container into the catalog under its own name, in place of another one. -/
def register (s : Store) (id : ContainerId) : Store :=
  match s.container? id with
  | some c =>
    { s with catalog := (c.name, id) :: s.catalog.filter fun (name, _) => name != c.name }
  | none => s

def addRegistered (s : Store) (c : Container) : Store :=
  let (id, s) := s.add c
  s.register id

/-- The number of the container that the catalog has under a name. -/
def find (s : Store) (name : String) : Except StatsError ContainerId :=
  match s.catalog.lookup name with
  | some id => .ok id
  | none => .error (.unknown name)

/-- The names in the catalog, sorted. -/
def names (s : Store) : List String :=
  (s.catalog.map Prod.fst).mergeSort fun a b => a ≤ b

/-- The rows that a scan of a named container reads; nothing when the name is unknown. -/
def rowCount? (s : Store) (name : String) : Except StatsError (Option UInt64) :=
  match (s.catalog.lookup name).bind s.container? with
  | some c => some <$> c.rowCount
  | none => .ok none

end Store

namespace Estimates

variable {ν : Type} [Quantity ν]

/-- The rows that a scan of an unknown container is taken to read. -/
def unknownRows : Nat := 1000

/-- Estimates from counted containers and the shapes of predicates. -/
def ofCounts (settings : Settings ν) (rowCount? : String → Except StatsError (Option UInt64)) :
    Estimates ν where
  settings
  scanRows p :=
    match p.op with
    | .scan container _ =>
      match rowCount? container with
      | .ok (some n) => .ok (Quantity.ofNat n.toNat)
      | .ok none => .ok (Quantity.ofNat unknownRows)
      | .error e => .error e.asError
    | op => .error (.broken (.notScan op.kind))
  selectivity _ predicate := some (predicate.selectivity settings.defaultSelectivity)

/-- Estimates from the current counts of the containers in a catalog. -/
def ofStore (settings : Settings ν) (s : Store) : Estimates ν := ofCounts settings s.rowCount?

end Estimates

end FlowPlan
