import FlowPlan.Data.Scalar

namespace FlowPlan

inductive Comparison where
  | eq
  | notEq
  | lt
  | ltEq
  | gt
  | gtEq
  deriving DecidableEq, Repr

namespace Comparison

def symbol : Comparison → String
  | .eq => "="
  | .notEq => "<>"
  | .lt => "<"
  | .ltEq => "<="
  | .gt => ">"
  | .gtEq => ">="

/-- Whether two values in this order satisfy the comparison. -/
def holds : Comparison → Ordering → Bool
  | .eq, o => o.isEq
  | .notEq, o => o.isNe
  | .lt, o => o.isLT
  | .ltEq, o => o.isLE
  | .gt, o => o.isGT
  | .gtEq, o => o.isGE

end Comparison

inductive Arithmetic where
  | add
  | sub
  | mul
  | div
  deriving DecidableEq, Repr

namespace Arithmetic

def symbol : Arithmetic → String
  | .add => "+"
  | .sub => "-"
  | .mul => "*"
  | .div => "/"

end Arithmetic

/-- An expression. AND and OR take any number of items. -/
inductive Expr where
  | column (index : Nat)
  | literal (value : Scalar)
  | compare (op : Comparison) (left right : Expr)
  | arithmetic (op : Arithmetic) (left right : Expr)
  | and (items : List Expr)
  | or (items : List Expr)
  | not (inner : Expr)
  | isNull (inner : Expr)
  | isNotNull (inner : Expr)

namespace Expr

mutual

/-- Adds the columns of an expression that have not been seen yet, from left to right. -/
def addColumns (seen : List Nat) : Expr → List Nat
  | .column i => if seen.contains i then seen else seen ++ [i]
  | .literal _ => seen
  | .compare _ l r => addColumns (addColumns seen l) r
  | .arithmetic _ l r => addColumns (addColumns seen l) r
  | .and items => addColumnsOf seen items
  | .or items => addColumnsOf seen items
  | .not e => addColumns seen e
  | .isNull e => addColumns seen e
  | .isNotNull e => addColumns seen e

def addColumnsOf (seen : List Nat) : List Expr → List Nat
  | [] => seen
  | e :: rest => addColumnsOf (addColumns seen e) rest

end

/-- The columns an expression reads, each once, in the order of their first use. -/
def columns (e : Expr) : List Nat := addColumns [] e

end Expr

end FlowPlan
