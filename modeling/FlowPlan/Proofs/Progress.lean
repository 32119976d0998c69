import FlowPlan.Proofs.Failure
import FlowPlan.Proofs.Typing

namespace FlowPlan

open Outcome

/-- A failure of arithmetic on numbers. -/
def EvalError.IsArithmetic : EvalError → Prop
  | .divisionByZero => True
  | .overflow .. => True
  | .narrowOverflow _ => True
  | _ => False

namespace DataType

/-- Values of the two types have an order: they are numbers, or of one type. -/
def comparesWith (t u : DataType) : Bool := t.isNumeric && u.isNumeric || t == u

/-- The type of truth values and of NULL. -/
def isTruth (t : DataType) : Bool := t == .boolean || t == .null

end DataType

/-- A failure because values are not of the types that an operator needs. -/
def EvalError.IsMistyped : EvalError → Prop
  | .notBoolean _ => True
  | .incomparable t u => t.comparesWith u = false
  | .notNumeric .. => True
  | _ => False

namespace Scalar

variable {v a b : Scalar} {x : EvalError}

/-- A number that is a NaN. -/
def IsNaN (v : Scalar) : Prop := ∃ x, v.double? = some x ∧ x.isNaN = true

theorem isNull_iff : v.isNull = true ↔ v = .null := by
  cases v <;> simp [isNull]

theorem exists_double (h : v.type.isNumeric = true) : ∃ x, v.double? = some x := by
  cases v <;> first | exact ⟨_, rfl⟩ | cases h

theorem compare?_numbers (ha : a.type.isNumeric = true) : a.compare? b = compareNumbers? a b := by
  cases a <;> cases b <;> first | rfl | cases ha

/-- Two numbers compare unless one is a NaN. -/
theorem isNaN_of_compare?_eq_none (ha : a.type.isNumeric = true) (hb : b.type.isNumeric = true)
    (h : a.compare? b = none) : a.IsNaN ∨ b.IsNaN := by
  rw [compare?_numbers ha, compareNumbers?] at h
  split at h
  · cases h
  · obtain ⟨x, hx⟩ := exists_double ha
    obtain ⟨y, hy⟩ := exists_double hb
    simp only [hx, hy, Option.bind_eq_bind, Option.bind_some, Binary.compare?] at h
    split at h
    next hnan => exact (Bool.or_eq_true_iff.mp hnan).imp (⟨x, hx, ·⟩) (⟨y, hy, ·⟩)
    next => cases h

/-- Values whose types compare have an order, but for NaNs. -/
theorem compare?_eq_none_of_comparesWith (ha : a.isNull = false) (h : a.type.comparesWith b.type = true)
    (hc : a.compare? b = none) :
    a.type.isNumeric = true ∧ b.type.isNumeric = true ∧ (a.IsNaN ∨ b.IsNaN) := by
  by_cases hn : a.type.isNumeric = true ∧ b.type.isNumeric = true
  · exact ⟨hn.1, hn.2, isNaN_of_compare?_eq_none hn.1 hn.2 hc⟩
  · have hsame : a.type = b.type := by
      simpa [DataType.comparesWith, hn] using h
    cases a <;> cases b <;> simp_all [compare?, Scalar.type, DataType.isNumeric, isNull]

/-- Values whose types do not compare have no order. -/
theorem compare?_of_not_comparesWith (h : a.type.comparesWith b.type = false) :
    a.compare? b = none := by
  cases a <;> cases b <;> first | rfl | cases h

theorem exists_negate (h : v.type.isTruth = true) : ∃ w, v.negate = .ok w := by
  cases v <;> first | exact ⟨_, rfl⟩ | cases h

theorem negate_of_not_isTruth (h : v.type.isTruth = false) :
    v.negate = .error (.notBoolean v.type) := by
  cases v <;> first | rfl | cases h

end Scalar

theorem Arithmetic.applyIntegers_eq_error {op : Arithmetic} {t : DataType} {a b : Int}
    {x : EvalError} (h : op.applyIntegers t a b = .error x) : x.IsArithmetic := by
  simp only [applyIntegers] at h
  split at h
  · cases h
    trivial
  · split at h
    · cases h
      trivial
    · split at h
      · split at h
        · cases h
        · cases h
          trivial
      · cases h

/-- Arithmetic on numbers fails because of their values. -/
theorem Arithmetic.apply_eq_error {op : Arithmetic} {a b : Scalar} {x : EvalError}
    (ha : Expr.isOperand a.type = true) (hb : Expr.isOperand b.type = true)
    (h : op.apply a b = .error x) : x.IsArithmetic := by
  rw [apply] at h
  split at h
  · cases h
  next hnull =>
  have hnumeric : ∀ v : Scalar, v.isNull = false → Expr.isOperand v.type = true →
      v.type.isNumeric = true := by
    intro v hv hoperand
    cases v <;> simp_all [Expr.isOperand, Scalar.type, Scalar.isNull, DataType.isNumeric]
  simp only [Bool.or_eq_true, not_or, Bool.not_eq_true] at hnull
  obtain ⟨y, hy⟩ := Scalar.exists_double (hnumeric a hnull.1 ha)
  obtain ⟨z, hz⟩ := Scalar.exists_double (hnumeric b hnull.2 hb)
  dsimp only at h
  split at h
  · exact applyIntegers_eq_error h
  · simp [hy, hz] at h

namespace Expr

variable {s : Schema} {row : Values} {x : EvalError} {e d q : Expr}

/-- Failure of arithmetic, or of a comparison with a NaN, where evaluation applies the operator. -/
def Hazard (row : Values) (x : EvalError) : Expr → Prop
  | .arithmetic op l r =>
    (∃ a b, l.eval row = .ok a ∧ r.eval row = .ok b ∧ op.apply a b = .error x) ∧ x.IsArithmetic
  | .compare _ l r => ∃ a b, l.eval row = .ok a ∧ r.eval row = .ok b ∧
    a.type.isNumeric = true ∧ b.type.isNumeric = true ∧ (a.IsNaN ∨ b.IsNaN) ∧
      x = .incomparable a.type b.type
  | _ => False

/-- An operand is a truth value by its type, or NULL over this row. -/
def Truthful (s : Schema) (row : Values) (d : Expr) : Prop :=
  ∀ t v, d.typeOver s = .ok t → d.eval row = .ok v → t.isTruth = true ∨ v.isNull = true

/-- The operands that evaluation gets to are of types that the operator needs, or NULL over this
row. -/
def Suits (s : Schema) (row : Values) : Expr → Prop
  | .compare _ l r => ∀ t u a b, l.typeOver s = .ok t → r.typeOver s = .ok u →
    l.eval row = .ok a → r.eval row = .ok b →
      t.comparesWith u = true ∨ a.isNull = true ∨ b.isNull = true
  | .and items => ∀ d ∈ (Expr.and items).operands row, d.Truthful s row
  | .or items => ∀ d ∈ (Expr.or items).operands row, d.Truthful s row
  | .not d => d.Truthful s row
  | _ => True

/-- The operands are of types that the operator needs, whatever the row. -/
def WellSorted (s : Schema) : Expr → Prop
  | .compare _ l r => ∀ t u, l.typeOver s = .ok t → r.typeOver s = .ok u →
    t.comparesWith u = true ∨ t = .null ∨ u = .null
  | .and items => ∀ d ∈ items, ∀ t, d.typeOver s = .ok t → t.isTruth = true
  | .or items => ∀ d ∈ items, ∀ t, d.typeOver s = .ok t → t.isTruth = true
  | .not d => ∀ t, d.typeOver s = .ok t → t.isTruth = true
  | _ => True

/-- The second expression stands somewhere inside the first. -/
def Contains : Expr → Expr → Prop := Relation.ReflTransGen fun e d => d ∈ e.parts

theorem Reaches.contains (h : e.Reaches row q) : e.Contains q := by
  induction h with
  | refl => exact .refl
  | tail _ hd ih => exact .tail ih (mem_parts_of_mem_operands hd)

theorem contains_iff : e.Contains q ↔ e = q ∨ ∃ d ∈ e.parts, d.Contains q := by
  exact Relation.ReflTransGen.cases_head_iff

theorem typesOver_eq_ok {items : List Expr} :
    typesOver s items = .ok () ↔ ∀ d ∈ items, ∃ t, d.typeOver s = .ok t := by
  induction items with
  | nil => simp [typesOver]
  | cons e rest ih => simp [typesOver, bind_eq_ok, ih]

/-- The operands of an expression that has a type have types. -/
theorem exists_type_part {t : DataType} (h : e.typeOver s = .ok t) (hd : d ∈ e.parts) :
    ∃ u, d.typeOver s = .ok u := by
  cases e with
  | column i => cases hd
  | literal v => cases hd
  | compare op l r =>
    simp only [typeOver, bind_eq_ok] at h
    obtain ⟨u, hu, w, hw, -⟩ := h
    rcases List.mem_cons.mp hd with rfl | hd
    · exact ⟨u, hu⟩
    · exact List.mem_singleton.mp hd ▸ ⟨w, hw⟩
  | arithmetic op l r =>
    simp only [typeOver, bind_eq_ok] at h
    obtain ⟨u, hu, w, hw, -⟩ := h
    rcases List.mem_cons.mp hd with rfl | hd
    · exact ⟨u, hu⟩
    · exact List.mem_singleton.mp hd ▸ ⟨w, hw⟩
  | and items =>
    simp only [typeOver, bind_eq_ok] at h
    obtain ⟨_, hitems, -⟩ := h
    exact typesOver_eq_ok.mp hitems d hd
  | or items =>
    simp only [typeOver, bind_eq_ok] at h
    obtain ⟨_, hitems, -⟩ := h
    exact typesOver_eq_ok.mp hitems d hd
  | not e =>
    simp only [typeOver, bind_eq_ok] at h
    obtain ⟨u, hu, -⟩ := h
    exact List.mem_singleton.mp hd ▸ ⟨u, hu⟩
  | isNull e =>
    simp only [typeOver, bind_eq_ok] at h
    obtain ⟨u, hu, -⟩ := h
    exact List.mem_singleton.mp hd ▸ ⟨u, hu⟩
  | isNotNull e =>
    simp only [typeOver, bind_eq_ok] at h
    obtain ⟨u, hu, -⟩ := h
    exact List.mem_singleton.mp hd ▸ ⟨u, hu⟩

theorem Contains.exists_type {t : DataType} (h : e.Contains q) (ht : e.typeOver s = .ok t) :
    ∃ u, q.typeOver s = .ok u := by
  induction h with
  | refl => exact ⟨t, ht⟩
  | tail _ hd ih =>
    obtain ⟨u, hu⟩ := ih
    exact exists_type_part hu hd

/-- A value has the type that its expression has, or it is NULL. -/
theorem type_eq_or_null (hr : s.Admits row) {t : DataType} {v : Scalar} (ht : e.typeOver s = .ok t)
    (hv : e.eval row = .ok v) : v.type = t ∨ v = .null := by
  cases hn : v.isNull with
  | true => exact .inr (Scalar.isNull_iff.mp hn)
  | false => exact .inl ((eval_fits hr ht hv).type_eq hn)

/-- A value of an expression that cannot be anything but NULL. -/
theorem isNull_of_type_null (hr : s.Admits row) {v : Scalar} (ht : e.typeOver s = .ok .null)
    (hv : e.eval row = .ok v) : v.isNull = true := by
  rcases type_eq_or_null hr ht hv with htype | rfl
  · cases v <;> first | rfl | cases htype
  · rfl

/-- Operands of the right types suit the operator over every row. -/
theorem WellSorted.suits (hr : s.Admits row) (h : q.WellSorted s) : q.Suits s row := by
  cases q with
  | compare op l r =>
    intro t u a b hl hr' ha hb
    rcases h t u hl hr' with hc | rfl | rfl
    · exact .inl hc
    · exact .inr (.inl (isNull_of_type_null hr hl ha))
    · exact .inr (.inr (isNull_of_type_null hr hr' hb))
  | and items => exact fun d hd t v ht hv => .inl (h d (mem_reachedItems hd) t ht)
  | or items => exact fun d hd t v ht hv => .inl (h d (mem_reachedItems hd) t ht)
  | not d => exact fun t v ht hv => .inl (h t ht)
  | column i => trivial
  | literal v => trivial
  | arithmetic op l r => trivial
  | isNull d => trivial
  | isNotNull d => trivial

/-- The value of a truthful operand has an opposite. -/
theorem Truthful.exists_negate (hr : s.Admits row) {t : DataType} {v : Scalar}
    (h : d.Truthful s row) (ht : d.typeOver s = .ok t) (hv : d.eval row = .ok v) :
    ∃ w, v.negate = .ok w := by
  rcases type_eq_or_null hr ht hv with rfl | rfl
  · rcases h _ v ht hv with htruth | hnull
    · exact Scalar.exists_negate htruth
    · rw [Scalar.isNull_iff.mp hnull]
      exact ⟨_, rfl⟩
  · exact ⟨_, rfl⟩

/-- A column that has a type is there. -/
theorem not_refuses_column (hr : s.Admits row) {i : Nat} {t : DataType}
    (ht : (column i).typeOver s = .ok t) : ¬ (column i).Refuses row x := by
  rintro ⟨hnone, -⟩
  simp only [typeOver] at ht
  cases hf : s.field? i with
  | none => simp [hf] at ht
  | some f =>
    have hlength : s.fields.length = row.length := hr.length_eq
    have hi : i < s.fields.length := (List.getElem?_eq_some_iff.mp hf).1
    rw [List.getElem?_eq_none_iff] at hnone
    omega

/-- Values of types that compare have an order unless one is a NaN. -/
theorem hazard_compare (hr : s.Admits row) {op : Comparison} {l r : Expr} {t u : DataType}
    (hl : l.typeOver s = .ok t) (hu : r.typeOver s = .ok u) (hs : (compare op l r).Suits s row)
    (h : (compare op l r).Refuses row x) : (compare op l r).Hazard row x := by
  obtain ⟨a, b, ha, hb, hx⟩ := h
  rw [Comparison.apply] at hx
  split at hx
  · cases hx
  next hnull =>
  simp only [Bool.or_eq_true, not_or, Bool.not_eq_true] at hnull
  have hc : a.type.comparesWith b.type = true := by
    rw [(eval_fits hr hl ha).type_eq hnull.1, (eval_fits hr hu hb).type_eq hnull.2]
    simpa [hnull] using hs t u a b hl hu ha hb
  cases hcompare : a.compare? b with
  | some o => simp [hcompare] at hx
  | none =>
    obtain ⟨hna, hnb, hnan⟩ := Scalar.compare?_eq_none_of_comparesWith hnull.1 hc hcompare
    simp only [hcompare] at hx
    cases hx
    exact ⟨a, b, ha, hb, hna, hnb, hnan, rfl⟩

/-- Arithmetic that has a type is on numbers and NULL. -/
theorem hazard_arithmetic (hr : s.Admits row) {op : Arithmetic} {l r : Expr} {t : DataType}
    (ht : (arithmetic op l r).typeOver s = .ok t) (h : (arithmetic op l r).Refuses row x) :
    (arithmetic op l r).Hazard row x := by
  obtain ⟨a, b, ha, hb, hx⟩ := h
  refine ⟨⟨a, b, ha, hb, hx⟩, ?_⟩
  have hvalue : ∀ {e : Expr} {t v}, e.typeOver s = .ok t → e.eval row = .ok v →
      isOperand t = true → isOperand v.type = true := by
    intro e t v ht hv hoperand
    rcases type_eq_or_null hr ht hv with rfl | rfl
    · exact hoperand
    · rfl
  simp only [typeOver, bind_eq_ok, arithmeticType] at ht
  obtain ⟨t, htl, u, hur, ht⟩ := ht
  split at ht
  next hoperands =>
    obtain ⟨hl, hr'⟩ := Bool.and_eq_true_iff.mp hoperands
    exact Arithmetic.apply_eq_error (hvalue htl ha hl) (hvalue hur hb hr') hx
  next => cases ht

/-- What refuses operands that suit it does so for a reason that no type excludes. -/
theorem Suits.hazard (hr : s.Admits row) {t : DataType} (hs : q.Suits s row)
    (ht : q.typeOver s = .ok t) (h : q.Refuses row x) : q.Hazard row x := by
  have hitem : ∀ d ∈ q.parts, d.Truthful s row →
      ¬ ∃ v, d.eval row = .ok v ∧ v.negate = .error x := by
    rintro d hd htruth ⟨v, hv, hx⟩
    obtain ⟨u, hu⟩ := exists_type_part ht hd
    obtain ⟨w, hw⟩ := htruth.exists_negate hr hu hv
    rw [hw] at hx
    cases hx
  cases q with
  | column i => exact absurd h (not_refuses_column hr ht)
  | literal v => exact h.elim
  | compare op l r =>
    obtain ⟨t, hl⟩ := exists_type_part ht (show l ∈ [l, r] by simp)
    obtain ⟨u, hu⟩ := exists_type_part ht (show r ∈ [l, r] by simp)
    exact hazard_compare hr hl hu hs h
  | arithmetic op l r => exact hazard_arithmetic hr ht h
  | and items =>
    obtain ⟨d, hd, hx⟩ := h
    exact (hitem d (mem_reachedItems hd) (hs d hd) hx).elim
  | or items =>
    obtain ⟨d, hd, hx⟩ := h
    exact (hitem d (mem_reachedItems hd) (hs d hd) hx).elim
  | not d => exact (hitem d (List.mem_singleton_self d) hs h).elim
  | isNull d => exact h.elim
  | isNotNull d => exact h.elim

theorem Hazard.not_mistyped (h : q.Hazard row x) : ¬ x.IsMistyped := by
  cases q with
  | compare op l r =>
    obtain ⟨a, b, -, -, hna, hnb, -, rfl⟩ := h
    simp [EvalError.IsMistyped, DataType.comparesWith, hna, hnb]
  | arithmetic op l r =>
    obtain ⟨-, hx⟩ := h
    cases x <;> simp_all [EvalError.IsArithmetic, EvalError.IsMistyped]
  | _ => exact h.elim

/-- An operator refuses operands that do not suit it. -/
theorem exists_refuses (hr : s.Admits row) (h : ¬ q.Suits s row) :
    ∃ x, q.Refuses row x ∧ x.IsMistyped := by
  have hitem : ∀ d : Expr, ¬ d.Truthful s row →
      ∃ v, d.eval row = .ok v ∧ v.negate = .error (.notBoolean v.type) := by
    intro d hd
    simp only [Truthful, not_forall, not_or, Bool.not_eq_true] at hd
    obtain ⟨t, v, ht, hv, htruth, hn⟩ := hd
    rw [← (eval_fits hr ht hv).type_eq hn] at htruth
    exact ⟨v, hv, Scalar.negate_of_not_isTruth htruth⟩
  cases q with
  | compare op l r =>
    simp only [Suits, not_forall, not_or, Bool.not_eq_true] at h
    obtain ⟨t, u, a, b, htl, hur, ha, hb, hc, hna, hnb⟩ := h
    rw [← (eval_fits hr htl ha).type_eq hna, ← (eval_fits hr hur hb).type_eq hnb] at hc
    refine ⟨.incomparable a.type b.type, ⟨a, b, ha, hb, ?_⟩, hc⟩
    simp [Comparison.apply, hna, hnb, Scalar.compare?_of_not_comparesWith hc]
  | and items =>
    simp only [Suits, not_forall] at h
    obtain ⟨d, hd, hnot⟩ := h
    obtain ⟨v, hv, hx⟩ := hitem d hnot
    exact ⟨_, ⟨d, hd, v, hv, hx⟩, trivial⟩
  | or items =>
    simp only [Suits, not_forall] at h
    obtain ⟨d, hd, hnot⟩ := h
    obtain ⟨v, hv, hx⟩ := hitem d hnot
    exact ⟨_, ⟨d, hd, v, hv, hx⟩, trivial⟩
  | not d =>
    obtain ⟨v, hv, hx⟩ := hitem d h
    exact ⟨_, ⟨v, hv, hx⟩, trivial⟩
  | column i => exact absurd trivial h
  | literal v => exact absurd trivial h
  | arithmetic op l r => exact absurd trivial h
  | isNull d => exact absurd trivial h
  | isNotNull d => exact absurd trivial h

/-- A predicate that was checked has the type of truth values or of NULL. -/
theorem exists_isTruth_of_asPredicate {predicate : Expr} (h : predicate.asPredicate s = .ok e) :
    ∃ t, e.typeOver s = .ok t ∧ t.isTruth = true := by
  rw [asPredicate] at h
  obtain ⟨_, hcheck, rfl⟩ := map_eq_ok.mp (mapError_eq_ok.mp h)
  obtain ⟨t, ht, hcheck⟩ := bind_eq_ok.mp hcheck
  split at hcheck
  next htruth => exact ⟨t, ht, htruth⟩
  next => cases hcheck

/-- Where an expression of the type of truth values has a value, the row is kept or it is not. -/
theorem exists_keeps (hr : s.Admits row) {t : DataType} {v : Scalar} (ht : e.typeOver s = .ok t)
    (htruth : t.isTruth = true) (hv : e.eval row = .ok v) : ∃ b, e.keeps row = .ok b := by
  have hsort : v.type.isTruth = true := by
    rcases type_eq_or_null hr ht hv with rfl | rfl
    · exact htruth
    · rfl
  rw [keeps, hv]
  cases v <;> first | exact ⟨_, rfl⟩ | cases hsort

theorem keeps_of_eval_error (h : e.eval row = .error x) : e.keeps row = .error x := by
  rw [keeps, h]

end Expr

/-- Over a row of its columns, a checked predicate keeps the row or does not, or it fails because of
arithmetic or of a NaN that is compared, if and only if the operands of every AND, OR, NOT and
comparison that evaluation gets to are of types that the operator needs, or NULL over this row. They
are wherever the operands of all these operators are of such types; the check has not looked. -/
theorem checked_predicate_sound_iff {s : Schema} {row : Values} {predicate checked : Expr}
    (hp : predicate.asPredicate s = .ok checked) (hr : s.Admits row) :
    (((∃ b, checked.keeps row = .ok b) ∨ ∃ x q, checked.keeps row = .error x ∧ ¬ x.IsMistyped ∧
        checked.Reaches row q ∧ q.Hazard row x) ↔
      ∀ q, checked.Reaches row q → q.Suits s row) ∧
    ((∀ q, checked.Contains q → q.WellSorted s) →
      ∀ q, checked.Reaches row q → q.Suits s row) := by
  obtain ⟨t, ht, htruth⟩ := Expr.exists_isTruth_of_asPredicate hp
  refine ⟨⟨fun hsafe q hq => ?_, fun hsuits => ?_⟩, fun hsorts q hq =>
    (hsorts q hq.contains).suits hr⟩
  · by_contra hnot
    obtain ⟨x, hrefuses, hmistyped⟩ := Expr.exists_refuses hr hnot
    have hkeeps : checked.keeps row = .error x :=
      Expr.keeps_of_eval_error (Expr.eval_eq_error_iff_reaches.mpr ⟨q, hq, hrefuses⟩)
    rcases hsafe with ⟨b, hb⟩ | ⟨y, _, hy, hsound, -, -⟩
    · cases hkeeps.symm.trans hb
    · cases hkeeps.symm.trans hy
      exact hsound hmistyped
  · cases hv : checked.eval row with
    | ok v => exact .inl (Expr.exists_keeps hr ht htruth hv)
    | error x =>
      obtain ⟨q, hq, hrefuses⟩ := Expr.eval_eq_error_iff_reaches.mp hv
      obtain ⟨u, hu⟩ := hq.contains.exists_type ht
      have hhazard : q.Hazard row x := (hsuits q hq).hazard hr hu hrefuses
      exact .inr ⟨x, q, Expr.keeps_of_eval_error hv, hhazard.not_mistyped, hq, hhazard⟩

def Schema.numbered : Schema := ⟨[⟨"id", .int32, false⟩]⟩

theorem Schema.numbered_admits (n : Int32) : Schema.numbered.Admits [.int32 n] :=
  .cons (Scalar.Fits.of_type rfl rfl) .nil

/-- A number that is not above a bound. -/
def Expr.bounded : Expr := .not (.compare .gt (.column 0) (.literal (.int64 9)))

/-- The operands of its operators are of the right types, so that they suit every row. -/
theorem checked_predicate_sound_iff_bounded : Schema.numbered.Admits [.int32 5] ∧
    (∀ q, Expr.bounded.Contains q → q.WellSorted .numbered) ∧
    ∀ q, Expr.bounded.Reaches [.int32 5] q → q.Suits .numbered [.int32 5] := by
  have hrow := Schema.numbered_admits 5
  have hsorts : ∀ q, Expr.bounded.Contains q → q.WellSorted .numbered := by
    intro q hq
    rcases Expr.contains_iff.mp hq with rfl | ⟨d, hd, hq⟩
    · simp [Expr.bounded, Expr.WellSorted, Expr.typeOver, Schema.numbered, Schema.field?,
        DataType.isTruth]
    obtain rfl := List.mem_singleton.mp hd
    rcases Expr.contains_iff.mp hq with rfl | ⟨d, hd, hq⟩
    · simp [Expr.WellSorted, Expr.typeOver, Schema.numbered, Schema.field?, Scalar.type,
        DataType.comparesWith, DataType.isNumeric]
    simp only [Expr.parts, List.mem_cons, List.not_mem_nil, or_false] at hd
    rcases hd with rfl | rfl
    all_goals
      rcases Expr.contains_iff.mp hq with rfl | ⟨_, hd, -⟩
      · trivial
      · cases hd
  have hchecked : Expr.bounded.asPredicate .numbered = .ok .bounded := rfl
  exact ⟨hrow, hsorts, (checked_predicate_sound_iff hchecked hrow).2 hsorts⟩

def Expr.opposite : Expr := .not (.column 0)

/-- The check takes it for a predicate, and every row it is applied to is refused as no BOOLEAN. -/
theorem opposite_of_number_passes : Expr.opposite.asPredicate .numbered = .ok .opposite ∧
    Schema.numbered.Admits [.int32 5] ∧
    Expr.opposite.keeps [.int32 5] = .error (.notBoolean .int32) ∧
    (EvalError.notBoolean .int32).IsMistyped :=
  ⟨rfl, Schema.numbered_admits 5, rfl, trivial⟩

end FlowPlan
