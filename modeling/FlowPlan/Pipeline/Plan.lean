import FlowPlan.Pipeline.Basic
import FlowPlan.Plan.Schema

namespace FlowPlan

def DataType.ofPipelineName? : String → Option DataType
  | "Boolean" => some .boolean
  | "bool" => some .boolean
  | "Int32" => some .int32
  | "i32" => some .int32
  | "Int64" => some .int64
  | "i64" => some .int64
  | "Float32" => some .float32
  | "f32" => some .float32
  | "Float64" => some .float64
  | "f64" => some .float64
  | "Utf8" => some .utf8
  | "String" => some .utf8
  | "string" => some .utf8
  | "Binary" => some .binary
  | "bytes" => some .binary
  | _ => none

namespace Pipeline

def column (c : ColumnSpec) : Except PipelineError Field :=
  match DataType.ofPipelineName? c.type with
  | some type => .ok ⟨c.name, type, c.nullable⟩
  | none => .error (.invalid (.unknownType c.type))

def columns (specs : List ColumnSpec) : Except PipelineError Schema := Schema.mk <$> specs.mapM column

def entering (input : Plan) : Except PipelineError Schema :=
  input.rowType.mapError fun e => .plan (.planning e)

/-- The name of the output column at position `i`: its alias, the name of the column it copies, or
one made from its position. -/
def outputName (s : Schema) (i : Nat) (given : Option String) (e : Expr) : String :=
  match given, e with
  | some name, _ => name
  | none, .column c => ((s.field? c).map Field.name).getD s!"EXPR${i}"
  | none, _ => s!"EXPR${i}"

/-- An output column that is written as the item at position `i`, and its expression. -/
def output (s : Schema) (i : Nat) (item : String) : Except PipelineError (Expr × Field) := do
  let (e, given) ← (Expr.parseItem s item).mapError .expression
  let f ← (s.derivedField (outputName s i given e) e).mapError .plan
  pure (e, f)

/-- The output columns of the items from position `i` on. -/
def outputs (s : Schema) (i : Nat) : List String → Except PipelineError (List (Expr × Field))
  | [] => .ok []
  | item :: rest => do
    let first ← output s i item
    let more ← outputs s (i + 1) rest
    pure (first :: more)

/-- Follows the steps after a scan, over the plan of those before. -/
def follow (input : Plan) : List Step → Except PipelineError Plan
  | [] => .ok input.root
  | [.root] => .ok input.root
  | .root :: _ => .error (.invalid .earlyRoot)
  | .scan .. :: _ => .error (.invalid .lateScan)
  | .filter predicate :: rest => do
    let s ← entering input
    let e ← (Expr.parse s predicate).mapError .expression
    follow (input.filter e) rest
  | .project items :: rest => do
    let s ← entering input
    let found ← outputs s 0 items
    follow (input.project (found.map Prod.fst) ⟨found.map Prod.snd⟩) rest

/-- The plan of steps, the first of which is a scan. A root ends it where no step does. -/
def planOf : List Step → Except PipelineError Plan
  | [] => .error (.invalid .noSteps)
  | .scan source specs :: rest => do
    let s ← columns specs
    follow (.scan source s) rest
  | _ :: _ => .error (.invalid .noScan)

def plan (p : Pipeline) : Except PipelineError Plan := planOf p.steps

end Pipeline

end FlowPlan
