import FlowPlan.Expr.Basic
import FlowPlan.Text.Class

namespace FlowPlan.Expr

mutual

def toText : Expr → String
  | .column i => s!"${i}"
  | .literal (.text s) => "'" ++ s ++ "'"
  | .literal v => v.toText
  | .compare op l r => toText l ++ " " ++ op.symbol ++ " " ++ toText r
  | .arithmetic op l r => "(" ++ toText l ++ " " ++ op.symbol ++ " " ++ toText r ++ ")"
  | .and items => "(" ++ Text.joined " AND " (texts items) ++ ")"
  | .or items => "(" ++ Text.joined " OR " (texts items) ++ ")"
  | .not e => "NOT (" ++ toText e ++ ")"
  | .isNull e => toText e ++ " IS NULL"
  | .isNotNull e => toText e ++ " IS NOT NULL"

def texts : List Expr → List String
  | [] => []
  | e :: rest => toText e :: texts rest

end

end FlowPlan.Expr
