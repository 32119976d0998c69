import FlowPlan.Error
import FlowPlan.Expr.Parse

namespace FlowPlan

/-- A column of a source. The name of its type is not looked up yet. -/
structure ColumnSpec where
  name : String
  type : String
  nullable : Bool
  deriving DecidableEq, Repr

/-- A container with its declared number of entries. -/
structure ContainerSpec where
  name : String
  kind : ContainerKind
  partitions : Option Nat
  entries : UInt64
  deriving DecidableEq, Repr

/-- A step of a pipeline. Expressions are texts over the columns of the step before. -/
inductive Pipeline.Step where
  | scan (source : String) (columns : List ColumnSpec)
  | filter (predicate : String)
  | project (columns : List String)
  | root
  deriving DecidableEq, Repr

structure Pipeline where
  overrides : Overrides Double
  containers : List ContainerSpec
  steps : List Pipeline.Step

/-- What is wrong with the parts of a pipeline or their order. -/
inductive PipelineFault where
  | noSteps
  | noScan
  | lateScan
  | earlyRoot
  | unknownType (name : String)
  | noPartitions (container : String)
  | notScannable (container : String) (kind : ContainerKind)
  deriving DecidableEq, Repr

def PipelineFault.message : PipelineFault → String
  | .noSteps => "pipeline has no steps"
  | .noScan => "pipeline must start with a scan"
  | .lateScan => "scan must be the first and only source step"
  | .earlyRoot => "root must be the last step"
  | .unknownType name => "unknown column type '" ++ name ++ "'"
  | .noPartitions container => "container '" ++ container ++ "' needs at least one partition"
  | .notScannable container kind =>
    "container '" ++ container ++ "' has kind " ++ kind.service ++
      "; only map containers can be scanned"

/-- Why a pipeline has no plan or no catalog. -/
inductive PipelineError where
  | unreadable
  | invalid (fault : PipelineFault)
  | expression (cause : Expr.ParseError)
  | plan (cause : Error)

def PipelineError.message : PipelineError → String
  | .unreadable => "YAML error: the document is not a pipeline"
  | .invalid fault => "Invalid pipeline: " ++ fault.message
  | .expression cause => cause.message
  | .plan cause => cause.message

end FlowPlan
