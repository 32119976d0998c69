import FlowPlan.Proofs.Progress

namespace FlowPlan

open Outcome

/-- The truth values of SQL; NULL is between false and true. -/
inductive Truth where
  | no
  | unknown
  | yes
  deriving DecidableEq

namespace Truth

/-- The place of a truth value in their order. -/
def rank : Truth → Nat
  | .no => 0
  | .unknown => 1
  | .yes => 2

theorem rank_injective : Function.Injective rank := by
  intro t u h
  cases t <;> cases u <;> first | rfl | cases h

instance : LinearOrder Truth := LinearOrder.lift' rank rank_injective

instance : BoundedOrder Truth where
  top := .yes
  bot := .no
  le_top t := by cases t <;> decide
  bot_le t := by cases t <;> decide

def ofBool (b : Bool) : Truth := if b then .yes else .no

/-- The value that stands for a truth value in rows. -/
def value : Truth → Scalar
  | .no => .bool false
  | .unknown => .null
  | .yes => .bool true

/-- The truth value of NOT. -/
def opposite : Truth → Truth
  | .no => .yes
  | .unknown => .unknown
  | .yes => .no

theorem negate_value (t : Truth) : t.value.negate = .ok t.opposite.value := by
  cases t <;> rfl

theorem opposite_eq_ofBool {t : Truth} {b : Bool} : t.opposite = .ofBool (!b) ↔ t = .ofBool b := by
  cases t <;> cases b <;> decide

theorem opposite_eq_unknown {t : Truth} : t.opposite = .unknown ↔ t = .unknown := by
  cases t <;> decide

/-- The greater of two truth values for OR, which true decides, and the lesser for AND. -/
def join (decider : Bool) (t u : Truth) : Truth := if decider then t ⊔ u else t ⊓ u

variable {decider : Bool} {t u v : Truth}

theorem join_assoc : join decider (join decider t u) v = join decider t (join decider u v) := by
  cases decider with
  | true => exact sup_assoc t u v
  | false => exact inf_assoc t u v

theorem join_comm : join decider t u = join decider u t := by
  cases decider with
  | true => exact sup_comm t u
  | false => exact inf_comm t u

theorem join_decider : join decider (ofBool decider) t = ofBool decider := by
  cases decider with
  | true => exact top_sup_eq t
  | false => exact bot_inf_eq t

theorem join_neutral : join decider (ofBool !decider) t = t := by
  cases decider with
  | true => exact bot_sup_eq t
  | false => exact top_inf_eq t

/-- What joins the first of several truth values joins the last as well. -/
theorem join_foldr (ts : List Truth) :
    join decider t (ts.foldr (join decider) u) = ts.foldr (join decider) (join decider t u) := by
  induction ts with
  | nil => rfl
  | cons v ts ih =>
    rw [List.foldr_cons, List.foldr_cons, ← ih, ← join_assoc, ← join_assoc, join_comm (u := v)]

end Truth

namespace Expr

variable {row : Values} {decider sawNull : Bool} {e : Expr} {items rest : List Expr} {x y : EvalError}

/-- An item of AND or OR that has no value, or one that is no truth value. -/
def Faults (row : Values) (x : EvalError) (e : Expr) : Prop :=
  e.eval row = .error x ∨ ∃ v, e.eval row = .ok v ∧ v.type.isTruth = false ∧ x = .notBoolean v.type

theorem eval_cases (row : Values) (e : Expr) :
    (∃ t : Truth, e.eval row = .ok t.value) ∨ ∃ x, e.Faults row x := by
  cases he : e.eval row with
  | error x => exact .inr ⟨x, .inl he⟩
  | ok v =>
    cases hv : v.type.isTruth with
    | false => exact .inr ⟨_, .inr ⟨v, he, hv, rfl⟩⟩
    | true =>
      refine .inl ?_
      cases v with
      | bool b => cases b <;> [exact ⟨.no, rfl⟩; exact ⟨.yes, rfl⟩]
      | null => exact ⟨.unknown, rfl⟩
      | _ => cases hv

theorem evalItems_of_faults (h : e.Faults row x) :
    evalItems row decider sawNull (e :: rest) = .error x := by
  rw [evalItems]
  rcases h with h | ⟨v, h, hv, rfl⟩
  · rw [h]
  · rw [h]
    cases v <;> first | rfl | cases hv

/-- The items before the deciding one leave nothing but whether one of them was NULL. -/
theorem evalItems_of_truth {t : Truth} (h : e.eval row = .ok t.value) :
    evalItems row decider sawNull (e :: rest) =
      if t = .ofBool decider then .ok (Truth.ofBool decider).value
      else evalItems row decider (sawNull || decide (t = .unknown)) rest := by
  rw [evalItems, h]
  cases t <;> cases decider <;> simp [Truth.value, Truth.ofBool]

/-- Over truth values, AND is the least and OR the greatest, beginning with what has been seen. -/
theorem evalItems_truths {ts : List Truth}
    (h : List.Forall₂ (fun e t => e.eval row = .ok t.value) items ts) :
    evalItems row decider sawNull items =
      .ok (ts.foldr (Truth.join decider)
        (if sawNull then Truth.unknown else Truth.ofBool !decider)).value := by
  induction h generalizing sawNull with
  | nil => cases sawNull <;> cases decider <;> rfl
  | @cons e t items ts he _ ih =>
    rw [evalItems_of_truth he, List.foldr_cons]
    by_cases hd : t = .ofBool decider
    · rw [if_pos hd, hd, Truth.join_decider]
    · rw [if_neg hd, ih]
      by_cases hu : t = .unknown
      · rw [hu, Truth.join_foldr]
        cases sawNull <;> cases decider <;> rfl
      · have hneutral : t = .ofBool !decider := by
          cases t <;> cases decider <;> simp_all [Truth.ofBool]
        rw [hneutral, Truth.join_neutral]
        cases sawNull <;> cases decider <;> rfl

theorem eval_and_truths {ts : List Truth}
    (h : List.Forall₂ (fun e t => e.eval row = .ok t.value) items ts) :
    (Expr.and items).eval row = .ok (ts : Multiset Truth).inf.value := by
  rw [eval, evalItems_truths h, Multiset.inf, Multiset.coe_fold_r]
  rfl

theorem eval_or_truths {ts : List Truth}
    (h : List.Forall₂ (fun e t => e.eval row = .ok t.value) items ts) :
    (Expr.or items).eval row = .ok (ts : Multiset Truth).sup.value := by
  rw [eval, evalItems_truths h, Multiset.sup, Multiset.coe_fold_r]
  rfl

/-- Some item is of one sort, and all before it are of another. -/
def Preceded (before this : Expr → Prop) (items : List Expr) : Prop :=
  ∃ front d back, items = front ++ d :: back ∧ this d ∧ ∀ q ∈ front, before q

/-- An item at fault, and no earlier item that decides. -/
def Blocked (row : Values) (decider : Bool) (items : List Expr) : Prop :=
  Preceded (fun q => q.eval row ≠ .ok (.bool decider)) (fun d => ∃ x, d.Faults row x) items

/-- The error of the first item at fault. -/
def FirstFault (row : Values) (x : EvalError) (items : List Expr) : Prop :=
  Preceded (fun q => ∀ y, ¬ q.Faults row y) (fun d => d.Faults row x) items

theorem not_preceded_nil {before this : Expr → Prop} : ¬ Preceded before this [] := by
  rintro ⟨front, d, back, h, -⟩
  simp at h

theorem preceded_cons {before this : Expr → Prop} :
    Preceded before this (e :: rest) ↔ this e ∨ before e ∧ Preceded before this rest := by
  constructor
  · rintro ⟨front, d, back, h, hd, hfront⟩
    cases front with
    | nil =>
      cases h
      exact .inl hd
    | cons q front =>
      cases h
      rw [List.forall_mem_cons] at hfront
      exact .inr ⟨hfront.1, front, d, back, rfl, hd, hfront.2⟩
  · rintro (hd | ⟨he, front, d, back, rfl, hd, hfront⟩)
    · exact ⟨[], e, rest, rfl, hd, by simp⟩
    · exact ⟨e :: front, d, back, rfl, hd, List.forall_mem_cons.mpr ⟨he, hfront⟩⟩

theorem Faults.unique (h : e.Faults row x) (k : e.Faults row y) : x = y := by
  have hx : evalItems row true true [e] = .error x := evalItems_of_faults h
  have hy : evalItems row true true [e] = .error y := evalItems_of_faults k
  exact Except.error.inj (hx.symm.trans hy)

theorem not_faults_of_truth {t : Truth} (h : e.eval row = .ok t.value) : ¬ e.Faults row x := by
  rintro (k | ⟨v, k, hv, -⟩)
  · cases h.symm.trans k
  · cases h.symm.trans k
    cases t <;> cases hv

/-- AND and OR fail if an item at fault is reached, with the error of the first one. -/
theorem evalItems_eq_error_iff : evalItems row decider sawNull items = .error x ↔
    Blocked row decider items ∧ FirstFault row x items := by
  induction items generalizing sawNull with
  | nil => simp [evalItems, Blocked, not_preceded_nil]
  | cons e rest ih =>
    rw [Blocked, FirstFault, preceded_cons, preceded_cons]
    rcases eval_cases row e with ⟨t, ht⟩ | ⟨y, hy⟩
    · have hfaults : ∀ z, ¬ e.Faults row z := fun z => not_faults_of_truth ht
      rw [evalItems_of_truth ht]
      by_cases hd : t = .ofBool decider
      · have hdecides : e.eval row = .ok (.bool decider) := by
          rw [ht, hd]
          cases decider <;> rfl
        simp [hd, hfaults, hdecides]
      · have hpasses : e.eval row ≠ .ok (.bool decider) := by
          rw [ht]
          cases t <;> cases decider <;> simp_all [Truth.value, Truth.ofBool]
        simp only [hd, ↓reduceIte, ih, hfaults, hpasses, exists_false, ne_eq, not_false_eq_true,
          implies_true, true_and, false_or]
        rfl
    · rw [evalItems_of_faults hy]
      constructor
      · rintro ⟨⟩
        exact ⟨.inl ⟨x, hy⟩, .inl hy⟩
      · rintro ⟨-, hx | ⟨hnone, -⟩⟩
        · rw [hx.unique hy]
        · exact absurd hy (hnone y)

theorem eval_not_truth {t : Truth} (h : e.eval row = .ok t.value) :
    (Expr.not e).eval row = .ok t.opposite.value := by
  rw [eval, h, ok_bind, t.negate_value]

theorem Faults.not (h : e.Faults row x) : (Expr.not e).Faults row x := by
  refine .inl ?_
  rw [eval]
  rcases h with h | ⟨v, h, hv, rfl⟩
  · rw [h, error_bind]
  · rw [h, ok_bind, Scalar.negate_of_not_isTruth hv]

/-- Opposite items decide the opposite operator, and fail with the same errors. -/
theorem evalItems_map_not : evalItems row (!decider) sawNull (items.map .not) =
    (evalItems row decider sawNull items >>= Scalar.negate) := by
  induction items generalizing sawNull with
  | nil => cases sawNull <;> rfl
  | cons e rest ih =>
    rw [List.map_cons]
    rcases eval_cases row e with ⟨t, ht⟩ | ⟨y, hy⟩
    · rw [evalItems_of_truth ht, evalItems_of_truth (eval_not_truth ht), ih]
      simp only [Truth.opposite_eq_ofBool, Truth.opposite_eq_unknown]
      split
      · cases decider <;> rfl
      · rfl
    · rw [evalItems_of_faults hy.not, evalItems_of_faults hy, error_bind]

/-- Over items that are true, false or NULL, AND is the least of them and OR the greatest, in
whatever order they stand. AND fails if an item that fails or is no truth value is reached before a
false one, OR before a true one, and the error is that of the first such item. The opposite of AND is
OR of the opposites, and the other way around, errors included. -/
theorem kleene_logic (row : Values) (items : List Expr) :
    (∀ ts : List Truth, List.Forall₂ (fun e t => e.eval row = .ok t.value) items ts →
      (Expr.and items).eval row = .ok (ts : Multiset Truth).inf.value ∧
      (Expr.or items).eval row = .ok (ts : Multiset Truth).sup.value) ∧
    (∀ x, (Expr.and items).eval row = .error x ↔ Blocked row false items ∧ FirstFault row x items) ∧
    (∀ x, (Expr.or items).eval row = .error x ↔ Blocked row true items ∧ FirstFault row x items) ∧
    (Expr.not (.and items)).eval row = (Expr.or (items.map .not)).eval row ∧
    (Expr.not (.or items)).eval row = (Expr.and (items.map .not)).eval row := by
  refine ⟨fun ts h => ⟨eval_and_truths h, eval_or_truths h⟩, fun x => ?_, fun x => ?_, ?_, ?_⟩
  · rw [eval]
    exact evalItems_eq_error_iff
  · rw [eval]
    exact evalItems_eq_error_iff
  · rw [eval, eval, eval]
    exact evalItems_map_not.symm
  · rw [eval, eval, eval]
    exact evalItems_map_not.symm

/-- A NULL and two truth values: false is the least of the three, true the greatest. -/
theorem kleene_logic_column :
    List.Forall₂ (fun (e : Expr) (t : Truth) => e.eval [.null, .bool true] = .ok t.value)
      [.column 0, .column 1, .not (.column 1)] [.unknown, .yes, .no] ∧
    (Expr.and [.column 0, .column 1, .not (.column 1)]).eval [.null, .bool true] =
      .ok (.bool false) ∧
    (Expr.or [.column 0, .column 1, .not (.column 1)]).eval [.null, .bool true] =
      .ok (.bool true) := by
  have h : List.Forall₂ (fun (e : Expr) (t : Truth) => e.eval [.null, .bool true] = .ok t.value)
      [.column 0, .column 1, .not (.column 1)] [.unknown, .yes, .no] :=
    .cons rfl (.cons rfl (.cons rfl .nil))
  exact ⟨h, (kleene_logic _ _).1 _ h⟩

end Expr

end FlowPlan
