import FlowPlan.Command.Basic
import FlowPlan.Graph.Compile
import FlowPlan.Json.Graph
import FlowPlan.Pipeline.Catalog
import FlowPlan.Pipeline.Document
import FlowPlan.Pipeline.Plan
import FlowPlan.Plan.Defaults
import FlowPlan.Plan.Explain
import FlowPlan.Plan.Optimize

namespace FlowPlan

/-- What a command leaves behind. -/
structure Outcome where
  status : Nat
  output : String
  complaint : String
  deriving DecidableEq, Repr

inductive FileError where
  | missing
  | denied
  | notDirectory
  | isDirectory
  | nameTooLong
  | notText
  | other (reason : String)
  deriving DecidableEq, Repr

def FileError.message : FileError → String
  | .missing => "No such file or directory (os error 2)"
  | .denied => "Permission denied (os error 13)"
  | .notDirectory => "Not a directory (os error 20)"
  | .isDirectory => "Is a directory (os error 21)"
  | .nameTooLong => "File name too long (os error 36)"
  | .notText => "stream did not contain valid UTF-8"
  | .other reason => reason

inductive CommandError where
  | file (cause : FileError)
  | pipeline (cause : PipelineError)
  | plan (cause : Error)
  | graph (cause : CompileError)

def CommandError.message : CommandError → String
  | .file cause => cause.message
  | .pipeline cause => cause.message
  | .plan cause => cause.message
  | .graph cause => cause.message

namespace Options

def overrides (o : Options) : Except SettingsError (Overrides Double) := do
  let ordering ← match o.ordering with
    | some text => some <$> CostOrdering.parse text
    | none => pure none
  pure { Overrides.empty with ordering, fuse := o.fuse, parallelism := o.parallelism }

/-- The settings under which a pipeline is planned. The environment gives way to the pipeline, and
this one to the options of the command. -/
def settings (o : Options) (environment : String → Option String) (p : Pipeline) :
    Except SettingsError (Settings Double) := do
  let given := (Settings.ofEnvironment environment).override p.overrides
  let all := given.override (← o.overrides)
  all.validate
  pure all

end Options

/-- A pipeline with its plans. -/
structure Prepared where
  settings : Settings Double
  estimates : Estimates Double
  plans : Optimized Double

namespace Prepared

def make (environment : String → Option String) (o : Options) (p : Pipeline) (logical : Plan) :
    Except CommandError Prepared := do
  let settings ← (o.settings environment p).mapError fun e => .plan (.settings e)
  let store ← p.catalog.mapError .pipeline
  let estimates := Estimates.ofStore settings store
  let plans ← (Rules.default.optimize estimates logical).mapError .plan
  pure ⟨settings, estimates, plans⟩

/-- The logical and the physical plan with their costs. -/
def explain (p : Prepared) : Except CommandError String := do
  let physical ← (p.estimates.explain p.plans.physical).mapError .plan
  pure ("Logical Plan\n============\n" ++ p.plans.logical.explain ++
    "\nPhysical Plan\n=============\n" ++ physical ++
    "\nCumulative Cost: " ++ p.plans.cost.toText ++
    "\nCost Ordering:   " ++ p.settings.ordering.label ++ "\n")

/-- The graph of the physical plan under a number, as JSON or as text with its fingerprint. -/
def compile (p : Prepared) (id : GraphId) (json : Bool) : Except CommandError String := do
  let g ← (FlowPlan.compile p.settings id p.plans.physical).mapError .graph
  if json then pure (g.toJson.pretty 0 ++ "\n")
  else pure (g.toText ++ "  fingerprint " ++ g.fingerprint.short ++ "\n")

end Prepared

namespace Command

/-- What a command prints about a pipeline whose text was read or could not be. -/
def output (c : Command) (environment : String → Option String) (id : GraphId)
    (contents : Except FileError String) : Except CommandError String := do
  let text ← contents.mapError .file
  let p ← (Pipeline.ofText text).mapError .pipeline
  let plan ← p.plan.mapError .pipeline
  match c.task with
  | .validate =>
    let _ ← p.catalog.mapError .pipeline
    pure "✓ Pipeline is valid\n"
  | .explain => (← Prepared.make environment c.options p plan).explain
  | .compile => (← Prepared.make environment c.options p plan).compile id c.options.json

def complaintStart : Task → String
  | .validate => "Validation failed: "
  | _ => "Error: "

def run (c : Command) (environment : String → Option String) (id : GraphId)
    (contents : Except FileError String) : Outcome :=
  match c.output environment id contents with
  | .ok text => ⟨0, text, ""⟩
  | .error e => ⟨1, "", complaintStart c.task ++ e.message ++ "\n"⟩

end Command

end FlowPlan
