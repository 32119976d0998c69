import FlowPlan.Number.Quantity
import FlowPlan.Number.Decimal
import FlowPlan.Text.Class

namespace FlowPlan

/-- How two costs are ranked. `total` weighs input and output against CPU in one number. -/
inductive CostOrdering where
  | rowsThenCpu
  | cpuThenRows
  | total
  deriving DecidableEq, Repr

inductive SettingsError where
  | unknownOrdering (text : String)
  | minFilteredRows (shown : String)
  | defaultSelectivity (shown : String)
  | projectCpuPerExpr (shown : String)
  | noParallelism
  deriving DecidableEq, Repr

namespace SettingsError

def message : SettingsError → String
  | .unknownOrdering text => "unknown cost ordering '" ++ text ++ "'"
  | .minFilteredRows v => "min_filtered_rows must be a non-negative number, got " ++ v
  | .defaultSelectivity v => "default_selectivity must be within [0, 1], got " ++ v
  | .projectCpuPerExpr v => "project_cpu_per_expr must be a non-negative number, got " ++ v
  | .noParallelism => "local_parallelism must be at least 1"

end SettingsError

namespace CostOrdering

def name : CostOrdering → String
  | .rowsThenCpu => "rows_then_cpu"
  | .cpuThenRows => "cpu_then_rows"
  | .total => "total"

def label : CostOrdering → String
  | .rowsThenCpu => "RowsThenCpu"
  | .cpuThenRows => "CpuThenRows"
  | .total => "Total"

def all : List CostOrdering := [.rowsThenCpu, .cpuThenRows, .total]

/-- The ordering with exactly a given name. -/
def ofName? (s : String) : Option CostOrdering := all.find? (·.name == s)

/-- Reads an ordering by its name or its first word, in any case and between blanks. -/
def parse (text : String) : Except SettingsError CostOrdering :=
  match String.ofList (Text.lowerAscii (Text.trimBlanks text.toList)) with
  | "rows" => .ok .rowsThenCpu
  | "cpu" => .ok .cpuThenRows
  | word =>
    match ofName? word with
    | some o => .ok o
    | none => .error (.unknownOrdering word)

end CostOrdering

structure Settings (ν : Type) where
  /-- How alternative plans are ranked. -/
  ordering : CostOrdering
  /-- The least number of rows a filter is estimated to keep, though never more than it reads. -/
  minFilteredRows : ν
  /-- The selectivity of predicates about which nothing is known. -/
  defaultSelectivity : ν
  /-- The CPU charged per projected expression and row. -/
  projectCpuPerExpr : ν
  /-- Whether a projection over a filter becomes one vertex with it. -/
  fuse : Bool
  /-- The parallelism hint of every vertex; without one the runtime chooses. -/
  parallelism : Option UInt32
  /-- How many milliseconds a cached row count stays fresh. -/
  refreshMs : UInt64

/-- Settings that override others where they are given. -/
structure Overrides (ν : Type) where
  ordering : Option CostOrdering
  minFilteredRows : Option ν
  defaultSelectivity : Option ν
  projectCpuPerExpr : Option ν
  fuse : Option Bool
  parallelism : Option UInt32
  refreshMs : Option UInt64

namespace Overrides

def empty {ν : Type} : Overrides ν := ⟨none, none, none, none, none, none, none⟩

end Overrides

namespace Settings

variable {ν : Type}

def default [Quantity ν] : Settings ν :=
  ⟨.rowsThenCpu, Quantity.one, Quantity.ofRatio 1 4, Quantity.one, false, none, 1000⟩

/-- The settings with the given ones in place of the old. -/
def override (s : Settings ν) (o : Overrides ν) : Settings ν where
  ordering := o.ordering.getD s.ordering
  minFilteredRows := o.minFilteredRows.getD s.minFilteredRows
  defaultSelectivity := o.defaultSelectivity.getD s.defaultSelectivity
  projectCpuPerExpr := o.projectCpuPerExpr.getD s.projectCpuPerExpr
  fuse := o.fuse.getD s.fuse
  parallelism := o.parallelism <|> s.parallelism
  refreshMs := o.refreshMs.getD s.refreshMs

/-- Refuses values under which costs would mean nothing. -/
def validate [Quantity ν] (s : Settings ν) : Except SettingsError Unit :=
  if !Quantity.isAmount s.minFilteredRows then
    .error (.minFilteredRows (Quantity.text s.minFilteredRows))
  else if !Quantity.inUnit s.defaultSelectivity then
    .error (.defaultSelectivity (Quantity.text s.defaultSelectivity))
  else if !Quantity.isAmount s.projectCpuPerExpr then
    .error (.projectCpuPerExpr (Quantity.text s.projectCpuPerExpr))
  else if s.parallelism = some 0 then .error .noParallelism
  else .ok ()

end Settings

def bool? : String → Option Bool
  | "true" => some true
  | "false" => some false
  | _ => none

def word32? (text : String) : Option UInt32 :=
  (Decimal.unsigned? (Nat.pow 2 32 - 1) text.toList).map UInt32.ofNat

def word64? (text : String) : Option UInt64 :=
  (Decimal.unsigned? (Nat.pow 2 64 - 1) text.toList).map UInt64.ofNat

namespace Overrides

def variableNames : List String :=
  ["RELPLAN_COST_ORDERING", "RELPLAN_MIN_FILTERED_ROWS", "RELPLAN_DEFAULT_SELECTIVITY",
    "RELPLAN_PROJECT_CPU_PER_EXPR", "RELPLAN_FUSE_OPERATORS", "RELPLAN_LOCAL_PARALLELISM",
    "RELPLAN_STATS_REFRESH_MS"]

/-- The settings given by environment variables. A value that cannot be read is as good as none. -/
def ofEnvironment (lookup : String → Option String) : Overrides Double :=
  let double (name : String) : Option Double := do Binary.parse? (← lookup name).toList
  { ordering := do (CostOrdering.parse (← lookup "RELPLAN_COST_ORDERING")).toOption
    minFilteredRows := double "RELPLAN_MIN_FILTERED_ROWS"
    defaultSelectivity := double "RELPLAN_DEFAULT_SELECTIVITY"
    projectCpuPerExpr := double "RELPLAN_PROJECT_CPU_PER_EXPR"
    fuse := do bool? (← lookup "RELPLAN_FUSE_OPERATORS")
    parallelism := do word32? (← lookup "RELPLAN_LOCAL_PARALLELISM")
    refreshMs := do word64? (← lookup "RELPLAN_STATS_REFRESH_MS") }

end Overrides

/-- The default settings under those of the environment. -/
def Settings.ofEnvironment (lookup : String → Option String) : Settings Double :=
  Settings.default.override (Overrides.ofEnvironment lookup)

end FlowPlan
