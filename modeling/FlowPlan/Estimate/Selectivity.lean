import FlowPlan.Expr.Basic
import FlowPlan.Number.Quantity

namespace FlowPlan

/-- The fraction of rows that satisfy a comparison. -/
def Comparison.selectivity {ν : Type} [Quantity ν] : Comparison → ν
  | .eq => Quantity.ofRatio 15 100
  | .notEq => Quantity.ofRatio 85 100
  | .lt | .ltEq | .gt | .gtEq => Quantity.ofRatio 1 2

namespace Expr

variable {ν : Type} [Quantity ν]

mutual

/-- The fraction of rows that satisfy a predicate, `unknown` where its shape says nothing. The items
of AND and OR count as independent of each other. -/
def selectivity (unknown : ν) : Expr → ν
  | .literal (.bool true) => Quantity.one
  | .literal (.bool false) => Quantity.none
  | .literal .null => Quantity.none
  | .compare op _ _ => op.selectivity
  | .isNotNull _ => Quantity.ofRatio 9 10
  | .isNull _ => Quantity.ofRatio 1 10
  | .and items => selectivityOfAll unknown Quantity.one items
  | .or items => selectivityOfAny unknown Quantity.none items
  | .not e => Quantity.one - selectivity unknown e
  | _ => unknown

/-- The fraction `kept` of rows, cut by every one of several predicates. -/
def selectivityOfAll (unknown kept : ν) : List Expr → ν
  | [] => kept
  | e :: rest => selectivityOfAll unknown (kept * selectivity unknown e) rest

/-- The fraction `kept` of rows, joined by those that satisfy one of several predicates. -/
def selectivityOfAny (unknown kept : ν) : List Expr → ν
  | [] => kept
  | e :: rest =>
    let s := selectivity unknown e
    selectivityOfAny unknown (kept + s - kept * s) rest

end

end Expr

end FlowPlan
