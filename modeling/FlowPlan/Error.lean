import FlowPlan.Expr.Eval
import FlowPlan.Expr.Typing
import FlowPlan.Plan.Basic
import FlowPlan.Store.Kind
import FlowPlan.Graph.Fault
import FlowPlan.Settings

namespace FlowPlan

/-- A rule or a part of the planner that broke its promise. -/
inductive Breach where
  | ruleResult (rule : String) (found expected : Convention)
  | endlessConversion (kind : OperatorKind) (convention : Convention)
  | inputConvention (kind : OperatorKind) (convention : Convention) (inputKind : OperatorKind)
      (inputConvention : Convention)
  | notScan (kind : OperatorKind)
  | unsizedContainer (name : String) (kind : ContainerKind)
  | graph (fault : GraphFault)
  deriving DecidableEq, Repr

/-- The message about a container whose entries nothing counts. -/
def unsizedMessage (name : String) (kind : ContainerKind) : String :=
  "no row-count source for container '" ++ name ++ "' of kind " ++ kind.service

namespace Breach

def message : Breach → String
  | .ruleResult rule found expected =>
    "rule '" ++ rule ++ "' produced convention " ++ found.label ++ ", expected " ++ expected.label
  | .endlessConversion kind c =>
    s!"conversion of a {kind.name} node from {c.label} does not end"
  | .inputConvention kind c inputKind d =>
    s!"{kind.name} node with convention {c.label} has {inputKind.name} child with convention {d.label}"
  | .notScan kind => s!"scan row count requested for a {kind.name} node"
  | .unsizedContainer name kind => unsizedMessage name kind
  | .graph fault => fault.message

end Breach

inductive Error where
  | settings (cause : SettingsError)
  | typing (cause : TypingError)
  | planning (cause : PlanningError)
  | eval (cause : EvalError)
  | ruleMismatch (rule : String) (kind : OperatorKind) (convention : Convention)
  | notPhysical (kind : OperatorKind) (convention : Convention)
  | broken (breach : Breach)

namespace Error

def message : Error → String
  | .settings c => "Invalid configuration: " ++ c.message
  | .typing c => "Schema error: " ++ c.message
  | .planning c => "Planning error: " ++ c.message
  | .eval c => "Evaluation error: " ++ c.message
  | .ruleMismatch rule kind convention =>
    "rule '" ++ rule ++ "' cannot convert " ++ kind.name ++ " node with convention " ++
      convention.label
  | .notPhysical kind convention =>
    s!"{kind.name} node has convention {convention.label}, expected PHYSICAL"
  | .broken b => "Internal invariant failed: " ++ b.message

/-- True for breaches of a contract between parts of the planner, which are never the fault of what
a user wrote. -/
def isContractViolation : Error → Bool
  | .ruleMismatch .. => true
  | .notPhysical .. => true
  | .broken _ => true
  | _ => false

end Error

end FlowPlan
