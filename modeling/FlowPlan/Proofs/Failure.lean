import FlowPlan.Expr.Eval
import FlowPlan.Proofs.Outcome

namespace FlowPlan

open Outcome

namespace Expr

variable {row : Values} {x : EvalError} {e d : Expr}

/-- The operands of an expression. -/
def parts : Expr → List Expr
  | .column _ => []
  | .literal _ => []
  | .compare _ l r => [l, r]
  | .arithmetic _ l r => [l, r]
  | .and items => items
  | .or items => items
  | .not e => [e]
  | .isNull e => [e]
  | .isNotNull e => [e]

/-- The first of two operands, and the second one if the first has a value. -/
def reachedPair (row : Values) (l r : Expr) : List Expr :=
  match l.eval row with
  | .ok _ => [l, r]
  | .error _ => [l]

/-- The items up to the first one that the truth value `decider` is found at, or no truth value. -/
def reachedItems (row : Values) (decider : Bool) : List Expr → List Expr
  | [] => []
  | e :: rest =>
    match e.eval row with
    | .ok (.bool b) => if b = decider then [e] else e :: reachedItems row decider rest
    | .ok .null => e :: reachedItems row decider rest
    | _ => [e]

/-- The operands that evaluation over a row gets to. -/
def operands (row : Values) : Expr → List Expr
  | .compare _ l r => reachedPair row l r
  | .arithmetic _ l r => reachedPair row l r
  | .and items => reachedItems row false items
  | .or items => reachedItems row true items
  | e => e.parts

/-- Evaluation of the first expression over a row evaluates the second. -/
def Reaches (row : Values) : Expr → Expr → Prop :=
  Relation.ReflTransGen fun e d => d ∈ e.operands row

/-- An expression has no value over a row though its operands have theirs. -/
def Refuses (row : Values) (x : EvalError) : Expr → Prop
  | .column i => row[i]? = none ∧ x = .missingColumn i
  | .literal _ => False
  | .compare op l r => ∃ a b, l.eval row = .ok a ∧ r.eval row = .ok b ∧ op.apply a b = .error x
  | .arithmetic op l r => ∃ a b, l.eval row = .ok a ∧ r.eval row = .ok b ∧ op.apply a b = .error x
  | .and items =>
    ∃ d ∈ reachedItems row false items, ∃ v, d.eval row = .ok v ∧ v.negate = .error x
  | .or items =>
    ∃ d ∈ reachedItems row true items, ∃ v, d.eval row = .ok v ∧ v.negate = .error x
  | .not e => ∃ v, e.eval row = .ok v ∧ v.negate = .error x
  | .isNull _ => False
  | .isNotNull _ => False

theorem mem_reachedItems {decider : Bool} {items : List Expr} (h : d ∈ reachedItems row decider items) :
    d ∈ items := by
  induction items with
  | nil => exact h
  | cons e rest ih =>
    rw [reachedItems] at h
    split at h
    · split at h
      · exact List.mem_cons.mpr (.inl (List.mem_singleton.mp h))
      · exact List.mem_cons.mpr ((List.mem_cons.mp h).imp_right ih)
    · exact List.mem_cons.mpr ((List.mem_cons.mp h).imp_right ih)
    · exact List.mem_cons.mpr (.inl (List.mem_singleton.mp h))

theorem mem_reachedPair {l r : Expr} (h : d ∈ reachedPair row l r) : d ∈ [l, r] := by
  rw [reachedPair] at h
  split at h
  · exact h
  · exact List.mem_cons.mpr (.inl (List.mem_singleton.mp h))

theorem mem_parts_of_mem_operands (h : d ∈ e.operands row) : d ∈ e.parts := by
  cases e with
  | compare op l r => exact mem_reachedPair h
  | arithmetic op l r => exact mem_reachedPair h
  | and items => exact mem_reachedItems h
  | or items => exact mem_reachedItems h
  | column i => exact h
  | literal v => exact h
  | not e => exact h
  | isNull e => exact h
  | isNotNull e => exact h

theorem sizeOf_part (h : d ∈ e.parts) : sizeOf d < sizeOf e := by
  cases e with
  | column i => cases h
  | literal v => cases h
  | compare op l r =>
    simp only [parts, List.mem_cons, List.not_mem_nil, or_false] at h
    rcases h with rfl | rfl <;> simp +arith
  | arithmetic op l r =>
    simp only [parts, List.mem_cons, List.not_mem_nil, or_false] at h
    rcases h with rfl | rfl <;> simp +arith
  | and items =>
    have := List.sizeOf_lt_of_mem (show d ∈ items from h)
    simp only [and.sizeOf_spec]
    omega
  | or items =>
    have := List.sizeOf_lt_of_mem (show d ∈ items from h)
    simp only [or.sizeOf_spec]
    omega
  | not e =>
    obtain rfl := List.mem_singleton.mp h
    simp +arith
  | isNull e =>
    obtain rfl := List.mem_singleton.mp h
    simp +arith
  | isNotNull e =>
    obtain rfl := List.mem_singleton.mp h
    simp +arith

/-- A pair of operands fails with the one that does, or with what is made of their values. -/
theorem pair_eq_error {l r : Expr} {f : Scalar → Scalar → Except EvalError Scalar} :
    (do
      let a ← l.eval row
      let b ← r.eval row
      f a b) = .error x ↔
    (∃ d ∈ reachedPair row l r, d.eval row = .error x) ∨
      ∃ a b, l.eval row = .ok a ∧ r.eval row = .ok b ∧ f a b = .error x := by
  rw [reachedPair]
  cases hl : l.eval row with
  | error y => simp [hl]
  | ok a => cases hr : r.eval row <;> simp [hl, hr]

/-- AND and OR fail at the first item that has no value, or a value that is no truth value. -/
theorem evalItems_eq_error {decider sawNull : Bool} {items : List Expr} :
    evalItems row decider sawNull items = .error x ↔
      (∃ d ∈ reachedItems row decider items, d.eval row = .error x) ∨
        ∃ d ∈ reachedItems row decider items, ∃ v, d.eval row = .ok v ∧ v.negate = .error x := by
  induction items generalizing sawNull with
  | nil => simp [evalItems, reachedItems]
  | cons e rest ih =>
    rw [evalItems, reachedItems]
    cases he : e.eval row with
    | error y => simp [he]
    | ok v =>
      cases v with
      | bool b =>
        by_cases hb : b = decider
        · simp [hb, he, Scalar.negate]
        · simp [hb, he, Scalar.negate, ih]
      | null => simp [he, Scalar.negate, ih]
      | int32 _ => simp [he, Scalar.negate]
      | int64 _ => simp [he, Scalar.negate]
      | float32 _ => simp [he, Scalar.negate]
      | float64 _ => simp [he, Scalar.negate]
      | text _ => simp [he, Scalar.negate]
      | binary _ => simp [he, Scalar.negate]

/-- An expression fails with one of its operands, or on its own. -/
theorem eval_eq_error : e.eval row = .error x ↔
    (∃ d ∈ e.operands row, d.eval row = .error x) ∨ e.Refuses row x := by
  cases e with
  | column i =>
    rw [eval]
    cases hv : row[i]? <;> simp [operands, parts, Refuses, hv, eq_comm]
  | literal v => simp [eval, operands, parts, Refuses]
  | compare op l r =>
    rw [eval]
    exact pair_eq_error
  | arithmetic op l r =>
    rw [eval]
    exact pair_eq_error
  | and items =>
    rw [eval]
    exact evalItems_eq_error
  | or items =>
    rw [eval]
    exact evalItems_eq_error
  | not e =>
    rw [eval]
    cases he : e.eval row <;> simp [operands, parts, Refuses, he]
  | isNull e =>
    rw [eval]
    cases he : e.eval row <;> simp [operands, parts, Refuses, he]
  | isNotNull e =>
    rw [eval]
    cases he : e.eval row <;> simp [operands, parts, Refuses, he]

/-- An expression fails exactly with those of the expressions inside it that evaluation gets to. -/
theorem eval_eq_error_iff_reaches :
    e.eval row = .error x ↔ ∃ q, e.Reaches row q ∧ q.Refuses row x := by
  constructor
  · intro h
    induction hn : sizeOf e using Nat.strong_induction_on generalizing e with
    | _ n ih =>
      subst hn
      rcases eval_eq_error.mp h with ⟨d, hd, hx⟩ | hself
      · obtain ⟨q, hq, hrefuses⟩ := ih _ (sizeOf_part (mem_parts_of_mem_operands hd)) hx rfl
        exact ⟨q, .head hd hq, hrefuses⟩
      · exact ⟨e, .refl, hself⟩
  · rintro ⟨q, hq, hrefuses⟩
    induction hq using Relation.ReflTransGen.head_induction_on with
    | refl => exact eval_eq_error.mpr (.inr hrefuses)
    | head hd _ ih => exact eval_eq_error.mpr (.inl ⟨_, hd, ih⟩)

end Expr

end FlowPlan
