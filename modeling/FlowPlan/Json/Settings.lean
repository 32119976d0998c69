import FlowPlan.Json.Write
import FlowPlan.Json.Decode
import FlowPlan.Settings
import FlowPlan.Estimate.Cost

namespace FlowPlan

def settingNames : List String :=
  ["cost_ordering", "min_filtered_rows", "default_selectivity", "project_cpu_per_expr",
    "fuse_operators", "local_parallelism", "stats_refresh_ms"]

namespace CostOrdering

def toJson (o : CostOrdering) : Json := .string o.name

def ofJson? : Json.Reader CostOrdering := Json.oneOf? ofName?

end CostOrdering

def word32OfJson? : Json.Reader UInt32 := fun r j => UInt32.ofNat <$> Json.natural? 32 r j

def word64OfJson? : Json.Reader UInt64 := fun r j => UInt64.ofNat <$> Json.natural? 64 r j

namespace Settings

def toJson (s : Settings Double) : Json :=
  .object (settingNames.zip
    [s.ordering.toJson, .ofDouble s.minFilteredRows, .ofDouble s.defaultSelectivity,
      .ofDouble s.projectCpuPerExpr, .bool s.fuse, .ofOption (fun n => .ofNat n.toNat) s.parallelism,
      .ofNat s.refreshMs.toNat])

/-- Reads settings. Those that are missing keep their defaults. -/
def ofJson? : Json.Reader (Settings Double) := fun r j => do
  let m ← Json.members? settingNames r j
  let d : Settings Double := .default
  let ordering ← m.fieldOr? "cost_ordering" d.ordering CostOrdering.ofJson?
  let minFilteredRows ← m.fieldOr? "min_filtered_rows" d.minFilteredRows Json.binary?
  let defaultSelectivity ← m.fieldOr? "default_selectivity" d.defaultSelectivity Json.binary?
  let projectCpuPerExpr ← m.fieldOr? "project_cpu_per_expr" d.projectCpuPerExpr Json.binary?
  let fuse ← m.fieldOr? "fuse_operators" d.fuse Json.bool?
  let parallelism ← m.fieldOr? "local_parallelism" d.parallelism (Json.orNull? word32OfJson?)
  let refreshMs ← m.fieldOr? "stats_refresh_ms" d.refreshMs word64OfJson?
  pure ⟨ordering, minFilteredRows, defaultSelectivity, projectCpuPerExpr, fuse, parallelism, refreshMs⟩

end Settings

namespace Overrides

def toJson (o : Overrides Double) : Json :=
  .object (settingNames.zip
    [.ofOption CostOrdering.toJson o.ordering, .ofOption .ofDouble o.minFilteredRows,
      .ofOption .ofDouble o.defaultSelectivity, .ofOption .ofDouble o.projectCpuPerExpr,
      .ofOption .bool o.fuse, .ofOption (fun n => .ofNat n.toNat) o.parallelism,
      .ofOption (fun n => .ofNat n.toNat) o.refreshMs])

/-- Reads overriding settings, any of which may be missing or null. -/
def ofJson? : Json.Reader (Overrides Double) := fun r j => do
  let m ← Json.members? settingNames r j
  let optional {α : Type} (name : String) (read : Json.Reader α) : Option (Option α) :=
    m.fieldOr? name none (Json.orNull? read)
  let ordering ← optional "cost_ordering" CostOrdering.ofJson?
  let minFilteredRows ← optional "min_filtered_rows" Json.binary?
  let defaultSelectivity ← optional "default_selectivity" Json.binary?
  let projectCpuPerExpr ← optional "project_cpu_per_expr" Json.binary?
  let fuse ← optional "fuse_operators" Json.bool?
  let parallelism ← optional "local_parallelism" word32OfJson?
  let refreshMs ← optional "stats_refresh_ms" word64OfJson?
  pure ⟨ordering, minFilteredRows, defaultSelectivity, projectCpuPerExpr, fuse, parallelism, refreshMs⟩

end Overrides

namespace Cost

def toJson (c : Cost Double) : Json :=
  .object [("rows", .ofDouble c.rows), ("cpu", .ofDouble c.cpu), ("io", .ofDouble c.io)]

/-- Reads a cost as it is written, without correcting its parts. -/
def ofJson? : Json.Reader (Cost Double) := fun r j => do
  let m ← Json.members? ["rows", "cpu", "io"] r j
  let rows ← m.field? "rows" Json.binary?
  let cpu ← m.field? "cpu" Json.binary?
  let io ← m.field? "io" Json.binary?
  pure ⟨rows, cpu, io⟩

end Cost

end FlowPlan
