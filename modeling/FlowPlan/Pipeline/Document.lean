import FlowPlan.Pipeline.Basic
import FlowPlan.Yaml.Value

namespace FlowPlan

namespace Overrides

/-- Reads overriding settings, any of which may be missing or null. -/
def ofYaml? : Yaml.Reader (Overrides Double) := fun n => do
  let m ← Yaml.members?
    ["cost_ordering", "min_filtered_rows", "default_selectivity", "project_cpu_per_expr",
      "fuse_operators", "local_parallelism", "stats_refresh_ms"] n
  let optional {α : Type} (name : String) (read : Yaml.Reader α) : Yaml.Resolve (Option α) :=
    m.fieldOr? name none (Yaml.orNull? read)
  let ordering ← optional "cost_ordering" (Yaml.oneOf? CostOrdering.ofName?)
  let minFilteredRows ← optional "min_filtered_rows" Yaml.double?
  let defaultSelectivity ← optional "default_selectivity" Yaml.double?
  let projectCpuPerExpr ← optional "project_cpu_per_expr" Yaml.double?
  let fuse ← optional "fuse_operators" Yaml.bool?
  let parallelism ← optional "local_parallelism" (Yaml.natural? 32)
  let refreshMs ← optional "stats_refresh_ms" (Yaml.natural? 64)
  pure ⟨ordering, minFilteredRows, defaultSelectivity, projectCpuPerExpr, fuse,
    parallelism.map .ofNat, refreshMs.map .ofNat⟩

end Overrides

namespace ContainerSpec

def ofYaml? : Yaml.Reader ContainerSpec := fun n => do
  let m ← Yaml.members? ["name", "kind", "partitions", "entries"] n
  let name ← m.field? "name" Yaml.text?
  let kind ← m.field? "kind" (Yaml.oneOf? ContainerKind.ofName?)
  let partitions ← m.fieldOr? "partitions" none (Yaml.orNull? (Yaml.natural? 64))
  let entries ← m.fieldOr? "entries" 0 (Yaml.natural? 64)
  pure ⟨name, kind, partitions, .ofNat entries⟩

end ContainerSpec

namespace ColumnSpec

def ofValue? (v : Yaml.Value) : Option ColumnSpec := do
  let m ← v.members? ["name", "type", "nullable"]
  let name ← (← m.lookup "name").text?
  let type ← (← m.lookup "type").text?
  let nullable ← match m.lookup "nullable" with
    | some v => v.bool?
    | none => some false
  pure ⟨name, type, nullable⟩

end ColumnSpec

namespace Pipeline

namespace Step

/-- Reads a step of a given kind from its other fields. A root has none. -/
def ofFields? (kind : String) (fields : Yaml.Value) : Option Step :=
  match kind with
  | "scan" => do
    let m ← fields.members? ["source", "schema"]
    let source ← (← m.lookup "source").text?
    let columns ← (← m.lookup "schema").list? ColumnSpec.ofValue?
    pure (.scan source columns)
  | "filter" => do
    let m ← fields.members? ["expr"]
    pure (.filter (← (← m.lookup "expr").text?))
  | "project" => do
    let m ← fields.members? ["columns"]
    pure (.project (← (← m.lookup "columns").list? Yaml.Value.text?))
  | "root" =>
    match fields with
    | .list (_ :: _) => none
    | _ => some .root
  | _ => none

/-- How many containers may be nested inside the list of steps. -/
def levels : Nat := 126

/-- The fields of a step and those among them that hold its kind. -/
def splitKind? :
    List (Yaml.Node × Yaml.Node) →
      Yaml.Resolve (List Yaml.Node × List (Yaml.Value × Yaml.Value))
  | [] => pure ([], [])
  | (key, n) :: rest => do
    let (kinds, fields) ← splitKind? rest
    match ← Yaml.Value.ofNode? (levels - 1) key with
    | .text "op" => pure (n :: kinds, fields)
    | k => pure (kinds, (k, ← Yaml.Value.ofNode? (levels - 1) n) :: fields)

/-- Reads a step with its kind in one of its fields, or first in a list. -/
def ofYaml? : Yaml.Reader Step := Yaml.Reader.at? fun n =>
  match n with
  | .mapping p entries => do
    let ([kind], fields) ← splitKind? entries | failure
    if Yaml.Value.hasOwnTag p then failure
    else ofFields? (← Yaml.text? kind) (.mapping fields)
  | .sequence p (kind :: items) => do
    let fields ← items.mapM (Yaml.Value.ofNode? (levels - 1))
    if Yaml.Value.hasOwnTag p then failure else ofFields? (← Yaml.text? kind) (.list fields)
  | _ => failure

end Step

def ofYaml? : Yaml.Reader Pipeline := fun n => do
  let m ← Yaml.members? ["config", "containers", "steps"] n
  let overrides ← m.fieldOr? "config" none (Yaml.orNull? Overrides.ofYaml?)
  let containers ← m.fieldOr? "containers" [] (Yaml.list? ContainerSpec.ofYaml?)
  let steps ← m.field? "steps" (Yaml.list? Step.ofYaml?)
  pure ⟨overrides.getD .empty, containers, steps⟩

def ofText (text : String) : Except PipelineError Pipeline :=
  match (Yaml.document? text).bind ofYaml?.root? with
  | some p => .ok p
  | none => .error .unreadable

end Pipeline

end FlowPlan
