import FlowPlan.Expr.Text

namespace FlowPlan

/-- The execution model that a node targets. Front ends leave it unset. -/
inductive Convention where
  | unset
  | logical
  | physical
  deriving DecidableEq, Repr

namespace Convention

def label : Convention → String
  | .unset => "NONE"
  | .logical => "LOGICAL"
  | .physical => "PHYSICAL"

def name : Convention → String
  | .unset => "None"
  | .logical => "Logical"
  | .physical => "Physical"

/-- Every convention, in the order of conversion. -/
def all : List Convention := [.unset, .logical, .physical]

/-- The convention with a given name in stored plans. -/
def ofName? (s : String) : Option Convention := all.find? (·.name == s)

/-- Whether a node may stand over an input: an unset node over any, the others over their own. -/
def acceptsInput (node input : Convention) : Bool :=
  match node with
  | .unset => true
  | c => c == input

end Convention

/-- How the rows of a node are spread over the members of a cluster. -/
inductive Distribution where
  | any
  | partitioned
  | root
  deriving DecidableEq, Repr

namespace Distribution

def label : Distribution → String
  | .any => "ANY"
  | .partitioned => "PARTITIONED"
  | .root => "ROOT"

def name : Distribution → String
  | .any => "Any"
  | .partitioned => "Partitioned"
  | .root => "Root"

def all : List Distribution := [.any, .partitioned, .root]

/-- The distribution with a given name in stored plans. -/
def ofName? (s : String) : Option Distribution := all.find? (·.name == s)

end Distribution

/-- What a search tells equivalent nodes apart by. -/
structure Traits where
  convention : Convention
  distribution : Distribution
  deriving DecidableEq, Repr

namespace Traits

/-- The traits of a node that nothing has been decided about. -/
def undecided : Traits := ⟨.unset, .any⟩

def label (t : Traits) : String := t.convention.label ++ "." ++ t.distribution.label

end Traits

/-- The operators without their parameters. -/
inductive OperatorKind where
  | scan
  | filter
  | project
  | root
  deriving DecidableEq, Repr

namespace OperatorKind

def name : OperatorKind → String
  | .scan => "Scan"
  | .filter => "Filter"
  | .project => "Project"
  | .root => "Root"

def all : List OperatorKind := [.scan, .filter, .project, .root]

def ofName? (s : String) : Option OperatorKind := all.find? (·.name == s)

end OperatorKind

/-- An operator with its parameters. A projection has one expression per output column, and the
row type that was declared for it. A root hands the rows to the client. -/
inductive Operator where
  | scan (container : String) (schema : Schema)
  | filter (predicate : Expr)
  | project (exprs : List Expr) (rowType : Schema)
  | root

namespace Operator

def kind : Operator → OperatorKind
  | .scan .. => .scan
  | .filter _ => .filter
  | .project .. => .project
  | .root => .root

def arity : Operator → Nat
  | .scan .. => 0
  | _ => 1

end Operator

/-- An operator over the plans of its inputs. -/
inductive Plan where
  | node (traits : Traits) (op : Operator) (inputs : List Plan)

/-- Why a plan cannot be built, read or converted. -/
inductive PlanningError where
  | arity (kind : OperatorKind) (expected found : Nat)
  | inputCount (kind : OperatorKind) (found : Nat)
  | noConversion (kind : OperatorKind) (source target : Convention)
  | noRule (kind : OperatorKind) (source target : Convention)
  | unknownContainer (name : String)
  deriving DecidableEq, Repr

namespace PlanningError

def message : PlanningError → String
  | .arity kind expected found =>
    s!"{kind.name} expects {expected} input(s), got {found}"
  | .inputCount kind found => s!"{kind.name} node has {found} inputs, expected 1"
  | .noConversion kind source target =>
    s!"cannot convert {kind.name} node from {source.label} to {target.label}"
  | .noRule kind source target =>
    s!"no rule converts {kind.name} from {source.label} to {target.label}"
  | .unknownContainer name => "container '" ++ name ++ "' is not registered"

end PlanningError

namespace Plan

def traits : Plan → Traits
  | .node t _ _ => t

def op : Plan → Operator
  | .node _ o _ => o

def inputs : Plan → List Plan
  | .node _ _ i => i

def kind (p : Plan) : OperatorKind := p.op.kind

def convention (p : Plan) : Convention := p.traits.convention

/-- The placement of the rows that leave the topmost node. -/
def distribution (p : Plan) : Distribution := p.traits.distribution

def isPhysical (p : Plan) : Bool := p.convention == .physical

/-- Builds a node that has as many inputs as its operator needs. Conventions are not looked at:
trees of mixed conventions are legal while a search runs. -/
def make (traits : Traits) (op : Operator) (inputs : List Plan) : Except PlanningError Plan :=
  if inputs.length = op.arity then .ok (.node traits op inputs)
  else .error (.arity op.kind op.arity inputs.length)

/-- A scan of a container, as a front end builds it. -/
def scan (container : String) (schema : Schema) : Plan :=
  .node .undecided (.scan container schema) []

def filter (input : Plan) (predicate : Expr) : Plan := .node .undecided (.filter predicate) [input]

def project (input : Plan) (exprs : List Expr) (rowType : Schema) : Plan :=
  .node .undecided (.project exprs rowType) [input]

def root (input : Plan) : Plan := .node .undecided .root [input]

/-- The input of a node that has exactly one. -/
def input (p : Plan) : Except PlanningError Plan :=
  match p.inputs with
  | [only] => .ok only
  | several => .error (.inputCount p.kind several.length)

/-- The declared type of the rows that leave a node. Filters and roots pass their input's on. -/
def rowType : Plan → Except PlanningError Schema
  | .node _ (.scan _ s) _ => .ok s
  | .node _ (.project _ s) _ => .ok s
  | .node _ (.filter _) [only] => rowType only
  | .node _ .root [only] => rowType only
  | .node _ op several => .error (.inputCount op.kind several.length)

mutual

def size : Plan → Nat
  | .node _ _ inputs => 1 + sizes inputs

def sizes : List Plan → Nat
  | [] => 0
  | p :: rest => size p + sizes rest

end

mutual

/-- The nodes of a plan, each before those below it. -/
def nodes : Plan → List Plan
  | .node t op inputs => .node t op inputs :: nodesOf inputs

def nodesOf : List Plan → List Plan
  | [] => []
  | p :: rest => nodes p ++ nodesOf rest

end

end Plan

end FlowPlan
