import FlowPlan.Plan.Check

namespace FlowPlan

namespace Schema

/-- The column that an expression over a schema becomes. -/
def derivedField (input : Schema) (name : String) (e : Expr) : Except Error Field := do
  let type ← (e.typeOver input).mapError .typing
  pure ⟨name, type, e.nullableOver input⟩

/-- The columns of a projection, from position `i` on. Names are the declared ones. -/
def derivedFields (declared input : Schema) (i : Nat) : List Expr → Except Error (List Field)
  | [] => .ok []
  | e :: rest => do
    let f ← derivedField input (declared.columnName i) e
    let more ← derivedFields declared input (i + 1) rest
    pure (f :: more)

/-- The columns of a projection over the columns of its input. -/
def derive (declared input : Schema) (exprs : List Expr) : Except Error Schema :=
  Schema.mk <$> derivedFields declared input 0 exprs

end Schema

namespace Plan

/-- The columns that leave a physical node. -/
def schema : Plan → Except Error Schema
  | .node t (.scan c s) inputs => do
    requirePhysical (.node t (.scan c s) inputs)
    pure s
  | .node t (.project exprs declared) [input] => do
    requirePhysical (.node t (.project exprs declared) [input])
    let entering ← schema input
    declared.derive entering exprs
  | .node t op [input] => do
    requirePhysical (.node t op [input])
    schema input
  | .node t op several => do
    requirePhysical (.node t op several)
    .error (.planning (.inputCount op.kind several.length))

end Plan

namespace Expr

/-- A predicate that fits the columns of a filter's input. -/
def asPredicate (s : Schema) (predicate : Expr) : Except Error Expr :=
  ((predicate.checkPredicate s).map fun _ => predicate).mapError .typing

/-- Expressions that fit the columns of a projection's input. -/
def asProjection (s : Schema) (exprs : List Expr) : Except Error (List Expr) :=
  ((typesOver s exprs).map fun _ => exprs).mapError .typing

end Expr

end FlowPlan
