import FlowPlan.Graph.Basic
import FlowPlan.Proofs.Pattern

namespace FlowPlan

namespace Binary

variable {f : Format}

/-- The number as JSON keeps it: all that are not finite are one. -/
def blur (x : Binary f) : Binary f := if x.isFinite then x else infinity false

theorem blur_of_finite {x : Binary f} (h : x.isFinite = true) : x.blur = x := if_pos h

end Binary

namespace Scalar

/-- The value as JSON keeps it. -/
def blur : Scalar → Scalar
  | .float32 v => .float32 v.blur
  | .float64 v => .float64 v.blur
  | v => v

/-- A value that is no infinity and no NaN. -/
def Finite : Scalar → Prop
  | .float32 v => v.isFinite = true
  | .float64 v => v.isFinite = true
  | _ => True

theorem blur_of_finite : (v : Scalar) → v.Finite → v.blur = v
  | .float32 _, h => congrArg float32 (Binary.blur_of_finite h)
  | .float64 _, h => congrArg float64 (Binary.blur_of_finite h)
  | .null, _ | .bool _, _ | .int32 _, _ | .int64 _, _ | .text _, _ | .binary _, _ => rfl

end Scalar

namespace Expr

mutual

def blur : Expr → Expr
  | .column i => .column i
  | .literal v => .literal v.blur
  | .compare op l r => .compare op (blur l) (blur r)
  | .arithmetic op l r => .arithmetic op (blur l) (blur r)
  | .and items => .and (blurItems items)
  | .or items => .or (blurItems items)
  | .not e => .not (blur e)
  | .isNull e => .isNull (blur e)
  | .isNotNull e => .isNotNull (blur e)

def blurItems : List Expr → List Expr
  | [] => []
  | e :: rest => blur e :: blurItems rest

end

mutual

def Finite : Expr → Prop
  | .column _ => True
  | .literal v => v.Finite
  | .compare _ l r => Finite l ∧ Finite r
  | .arithmetic _ l r => Finite l ∧ Finite r
  | .and items => FiniteItems items
  | .or items => FiniteItems items
  | .not e => Finite e
  | .isNull e => Finite e
  | .isNotNull e => Finite e

def FiniteItems : List Expr → Prop
  | [] => True
  | e :: rest => Finite e ∧ FiniteItems rest

end

mutual

theorem blur_of_finite : (e : Expr) → e.Finite → e.blur = e
  | .column _, _ => by rw [blur]
  | .literal v, h => by
    rw [Finite] at h
    rw [blur, v.blur_of_finite h]
  | .compare _ l r, h => by
    rw [Finite] at h
    rw [blur, blur_of_finite l h.1, blur_of_finite r h.2]
  | .arithmetic _ l r, h => by
    rw [Finite] at h
    rw [blur, blur_of_finite l h.1, blur_of_finite r h.2]
  | .and items, h => by
    rw [Finite] at h
    rw [blur, blurItems_of_finite items h]
  | .or items, h => by
    rw [Finite] at h
    rw [blur, blurItems_of_finite items h]
  | .not e, h => by
    rw [Finite] at h
    rw [blur, blur_of_finite e h]
  | .isNull e, h => by
    rw [Finite] at h
    rw [blur, blur_of_finite e h]
  | .isNotNull e, h => by
    rw [Finite] at h
    rw [blur, blur_of_finite e h]

theorem blurItems_of_finite : (items : List Expr) → FiniteItems items → blurItems items = items
  | [], _ => by rw [blurItems]
  | e :: rest, h => by
    rw [FiniteItems] at h
    rw [blurItems, blur_of_finite e h.1, blurItems_of_finite rest h.2]

end

theorem map_blur_of_finite {exprs : List Expr} (h : ∀ e ∈ exprs, e.Finite) :
    exprs.map blur = exprs :=
  (List.map_congr_left fun e he => blur_of_finite e (h e he)).trans (List.map_id exprs)

end Expr

namespace Operator

def blur : Operator → Operator
  | .scan c s => .scan c s
  | .filter p => .filter p.blur
  | .project exprs t => .project (exprs.map Expr.blur) t
  | .root => .root

def Finite : Operator → Prop
  | .filter p => p.Finite
  | .project exprs _ => ∀ e ∈ exprs, e.Finite
  | _ => True

theorem blur_of_finite : (op : Operator) → op.Finite → op.blur = op
  | .scan .., _ | .root, _ => rfl
  | .filter p, h => congrArg filter (p.blur_of_finite h)
  | .project _ t, h => congrArg (project · t) (Expr.map_blur_of_finite h)

end Operator

namespace Plan

mutual

def blur : Plan → Plan
  | .node t op inputs => .node t op.blur (blurInputs inputs)

def blurInputs : List Plan → List Plan
  | [] => []
  | p :: rest => blur p :: blurInputs rest

end

mutual

def Finite : Plan → Prop
  | .node _ op inputs => op.Finite ∧ FiniteInputs inputs

def FiniteInputs : List Plan → Prop
  | [] => True
  | p :: rest => Finite p ∧ FiniteInputs rest

end

mutual

theorem blur_of_finite : (p : Plan) → p.Finite → p.blur = p
  | .node _ op inputs, h => by
    rw [Finite] at h
    rw [blur, op.blur_of_finite h.1, blurInputs_of_finite inputs h.2]

theorem blurInputs_of_finite : (inputs : List Plan) → FiniteInputs inputs → blurInputs inputs = inputs
  | [], _ => by rw [blurInputs]
  | p :: rest, h => by
    rw [FiniteInputs] at h
    rw [blurInputs, blur_of_finite p h.1, blurInputs_of_finite rest h.2]

end

end Plan

namespace Processor

def blur : Processor → Processor
  | .scan c => .scan c
  | .filter p => .filter p.blur
  | .project exprs => .project (exprs.map Expr.blur)
  | .calc p exprs => .calc p.blur (exprs.map Expr.blur)
  | .root => .root

def Finite : Processor → Prop
  | .filter p => p.Finite
  | .project exprs => ∀ e ∈ exprs, e.Finite
  | .calc p exprs => p.Finite ∧ ∀ e ∈ exprs, e.Finite
  | _ => True

theorem blur_of_finite : (p : Processor) → p.Finite → p.blur = p
  | .scan _, _ | .root, _ => rfl
  | .filter p, h => congrArg filter (p.blur_of_finite h)
  | .project _, h => congrArg project (Expr.map_blur_of_finite h)
  | .calc p _, h => by rw [blur, p.blur_of_finite h.1, Expr.map_blur_of_finite h.2]

end Processor

namespace Vertex

def blur (v : Vertex) : Vertex := { v with processor := v.processor.blur }

theorem blur_of_finite {v : Vertex} (h : v.processor.Finite) : v.blur = v := by
  rw [blur, v.processor.blur_of_finite h]

end Vertex

namespace Graph

/-- A graph all of whose literals are finite. -/
def Finite (g : Graph) : Prop := ∀ v ∈ g.vertices, v.processor.Finite

theorem blur_of_finite {g : Graph} (h : g.Finite) : g.vertices.map Vertex.blur = g.vertices :=
  (List.map_congr_left fun v hv => Vertex.blur_of_finite (h v hv)).trans (List.map_id _)

end Graph

end FlowPlan
