import FlowPlan.Expr.Eval
import FlowPlan.Plan.Schema
import FlowPlan.Proofs.Outcome

namespace FlowPlan

open Outcome

/-- A value for a column: NULL where that is allowed, otherwise a value of the column's type. -/
def Scalar.Fits (type : DataType) (nullable : Bool) (v : Scalar) : Prop :=
  if v.isNull then nullable = true else v.type = type

/-- A row of a schema: one value for each column. -/
def Schema.Admits (s : Schema) (row : Values) : Prop :=
  List.Forall₂ (fun (f : Field) v => v.Fits f.type f.nullable) s.fields row

namespace Scalar

variable {type : DataType} {nullable : Bool} {v : Scalar}

@[simp] theorem fits_null : Fits type nullable .null ↔ nullable = true := Iff.rfl

@[simp] theorem fits_bool {b : Bool} : Fits type nullable (.bool b) ↔ type = .boolean := by
  simp [Fits, isNull, Scalar.type, eq_comm]

theorem fits_self (v : Scalar) : Fits v.type v.isNull v := by
  cases v <;> simp [Fits, isNull]

theorem Fits.of_type (hv : v.isNull = false) (ht : v.type = type) : Fits type nullable v := by
  simp [Fits, hv, ht]

theorem Fits.type_eq (h : Fits type nullable v) (hv : v.isNull = false) : v.type = type := by
  simpa [Fits, hv] using h

theorem Fits.nullable_of_isNull (h : Fits type nullable v) (hv : v.isNull = true) :
    nullable = true := by
  simpa [Fits, hv] using h

end Scalar

namespace DataType

theorem widen_integers {t u : DataType} (ht : t = .int32 ∨ t = .int64)
    (hu : u = .int32 ∨ u = .int64) : t.widen u = .int32 ∨ t.widen u = .int64 := by
  rcases ht with rfl | rfl <;> rcases hu with rfl | rfl <;> decide

theorem widen_floating {t u : DataType} (ht : t.isNumeric = true) (hu : u.isNumeric = true)
    (h : (t = .float32 ∨ t = .float64) ∨ u = .float32 ∨ u = .float64) :
    t.widen u = .float32 ∨ t.widen u = .float64 := by
  cases t <;> cases u <;> revert ht hu h <;> decide

end DataType

namespace Scalar

variable {v : Scalar}

theorem integer_type {a : Int} (h : v.integer? = some a) : v.type = .int32 ∨ v.type = .int64 := by
  cases v <;> simp_all [integer?, Scalar.type]

theorem double_type {x : Double} (h : v.double? = some x) : v.type.isNumeric = true := by
  cases v <;> simp_all [double?, Scalar.type, DataType.isNumeric]

theorem floating_type {x : Double} (hi : v.integer? = none) (h : v.double? = some x) :
    v.type = .float32 ∨ v.type = .float64 := by
  cases v <;> simp_all [integer?, double?, Scalar.type]

end Scalar

/-- The type of arithmetic is the one to which the types of the operands widen. -/
theorem Expr.arithmeticType_eq_ok {op : Arithmetic} {t u type : DataType}
    (h : arithmeticType op t u = .ok type) : type = t.widen u := by
  unfold arithmeticType at h
  split at h
  · cases h
    rfl
  · cases h

namespace Arithmetic

variable {op : Arithmetic} {type : DataType} {l r v : Scalar}

theorem applyIntegers_type {a b : Int} (ht : type = .int32 ∨ type = .int64)
    (h : op.applyIntegers type a b = .ok v) : v.isNull = false ∧ v.type = type := by
  simp only [applyIntegers] at h
  split at h
  · cases h
  · split at h
    · cases h
    · split at h
      · rename_i hint
        split at h
        · cases h
          exact ⟨rfl, hint.symm⟩
        · cases h
      · rename_i hint
        cases h
        exact ⟨rfl, (ht.resolve_left hint).symm⟩

theorem applyDoubles_type {a b : Double} (ht : type = .float32 ∨ type = .float64) :
    (op.applyDoubles type a b).isNull = false ∧ (op.applyDoubles type a b).type = type := by
  rcases ht with rfl | rfl
  · exact ⟨rfl, rfl⟩
  · exact ⟨rfl, rfl⟩

/-- Arithmetic on two numbers gives one of the type to which theirs widen. -/
theorem apply_type (hl : l.isNull = false) (hr : r.isNull = false) (h : op.apply l r = .ok v) :
    v.isNull = false ∧ v.type = l.type.widen r.type := by
  simp only [apply, hl, hr, Bool.or_self, Bool.false_eq_true, ↓reduceIte] at h
  split at h
  · rename_i a b ha hb
    exact applyIntegers_type (DataType.widen_integers (Scalar.integer_type ha)
      (Scalar.integer_type hb)) h
  · rename_i hints
    split at h
    · rename_i a b ha hb
      cases h
      refine applyDoubles_type (DataType.widen_floating (Scalar.double_type ha)
        (Scalar.double_type hb) ?_)
      cases hla : l.integer? with
      | none => exact .inl (Scalar.floating_type hla ha)
      | some a =>
        cases hrb : r.integer? with
        | none => exact .inr (Scalar.floating_type hrb hb)
        | some b => exact absurd hrb (hints a b hla)
    · cases h

/-- Arithmetic on values that fit their columns fits the type and the nullability derived for it. -/
theorem apply_fits {t u : DataType} {n k : Bool} (hl : l.Fits t n) (hr : r.Fits u k)
    (h : op.apply l r = .ok v) : v.Fits (t.widen u) (n || k) := by
  cases hln : l.isNull with
  | true =>
    simp only [apply, hln, Bool.true_or, ↓reduceIte] at h
    cases h
    simp [hl.nullable_of_isNull hln]
  | false =>
    cases hrn : r.isNull with
    | true =>
      simp only [apply, hrn, Bool.or_true, ↓reduceIte] at h
      cases h
      simp [hr.nullable_of_isNull hrn]
    | false =>
      obtain ⟨hv, htype⟩ := apply_type hln hrn h
      rw [hl.type_eq hln, hr.type_eq hrn] at htype
      exact .of_type hv htype

end Arithmetic

/-- A comparison has a truth value, or NULL if a side is NULL. -/
theorem Comparison.apply_fits {op : Comparison} {t u : DataType} {n k : Bool} {l r v : Scalar}
    (hl : l.Fits t n) (hr : r.Fits u k) (h : op.apply l r = .ok v) : v.Fits .boolean (n || k) := by
  simp only [apply] at h
  split at h
  · rename_i hnull
    cases h
    rw [Scalar.fits_null, Bool.or_eq_true]
    exact (Bool.or_eq_true_iff.mp hnull).imp hl.nullable_of_isNull hr.nullable_of_isNull
  · split at h
    · cases h
      exact Scalar.fits_bool.mpr rfl
    · cases h

theorem Scalar.negate_fits {t : DataType} {n : Bool} {u v : Scalar} (hu : u.Fits t n)
    (h : u.negate = .ok v) : v.Fits .boolean n := by
  cases u with
  | bool b =>
    cases h
    exact fits_bool.mpr rfl
  | null =>
    cases h
    exact hu
  | int32 _ => cases h
  | int64 _ => cases h
  | float32 _ => cases h
  | float64 _ => cases h
  | text _ => cases h
  | binary _ => cases h

/-- The value in a column of an admitted row. -/
theorem Schema.Admits.column {s : Schema} {row : Values} {i : Nat} {f : Field} {v : Scalar}
    (hr : s.Admits row) (hf : s.field? i = some f) (hv : row[i]? = some v) :
    v.Fits f.type f.nullable := by
  obtain ⟨hi, rfl⟩ := List.getElem?_eq_some_iff.mp hf
  obtain ⟨hj, rfl⟩ := List.getElem?_eq_some_iff.mp hv
  exact List.Forall₂.get hr hi hj

namespace Expr

variable {s : Schema} {row : Values}

mutual

/-- The value of an expression fits the type and the nullability derived for the expression. -/
theorem eval_fits (hr : s.Admits row) : {e : Expr} → {type : DataType} → {v : Scalar} →
    e.typeOver s = .ok type → e.eval row = .ok v → v.Fits type (e.nullableOver s)
  | .column i, type, v, ht, hv => by
    simp only [typeOver, eval, nullableOver] at ht hv ⊢
    cases hf : s.field? i with
    | none => simp [hf] at ht
    | some f =>
      cases hc : row[i]? with
      | none => simp [hc] at hv
      | some w =>
        simp only [hf, hc] at ht hv ⊢
        cases ht
        cases hv
        exact hr.column hf hc
  | .literal w, type, v, ht, hv => by
    simp only [typeOver, eval] at ht hv
    cases ht
    cases hv
    rw [nullableOver]
    exact Scalar.fits_self w
  | .compare op l r, type, v, ht, hv => by
    rw [typeOver] at ht
    obtain ⟨t, hl, ht⟩ := bind_eq_ok.mp ht
    obtain ⟨u, hr', ht⟩ := bind_eq_ok.mp ht
    rw [eval] at hv
    obtain ⟨a, ha, hv⟩ := bind_eq_ok.mp hv
    obtain ⟨b, hb, hv⟩ := bind_eq_ok.mp hv
    cases ht
    rw [nullableOver]
    exact Comparison.apply_fits (eval_fits hr hl ha) (eval_fits hr hr' hb) hv
  | .arithmetic op l r, type, v, ht, hv => by
    rw [typeOver] at ht
    obtain ⟨t, hl, ht⟩ := bind_eq_ok.mp ht
    obtain ⟨u, hr', ht⟩ := bind_eq_ok.mp ht
    rw [eval] at hv
    obtain ⟨a, ha, hv⟩ := bind_eq_ok.mp hv
    obtain ⟨b, hb, hv⟩ := bind_eq_ok.mp hv
    rw [nullableOver, arithmeticType_eq_ok ht]
    exact Arithmetic.apply_fits (eval_fits hr hl ha) (eval_fits hr hr' hb) hv
  | .and items, type, v, ht, hv => by
    rw [typeOver] at ht
    obtain ⟨_, hitems, ht⟩ := bind_eq_ok.mp ht
    cases ht
    rw [eval] at hv
    rw [nullableOver]
    exact evalItems_fits hr hitems (by simp) hv
  | .or items, type, v, ht, hv => by
    rw [typeOver] at ht
    obtain ⟨_, hitems, ht⟩ := bind_eq_ok.mp ht
    cases ht
    rw [eval] at hv
    rw [nullableOver]
    exact evalItems_fits hr hitems (by simp) hv
  | .not e, type, v, ht, hv => by
    rw [typeOver] at ht
    obtain ⟨t, he, ht⟩ := bind_eq_ok.mp ht
    cases ht
    rw [eval] at hv
    obtain ⟨u, hu, hv⟩ := bind_eq_ok.mp hv
    rw [nullableOver]
    exact Scalar.negate_fits (eval_fits hr he hu) hv
  | .isNull e, type, v, ht, hv => by
    rw [typeOver] at ht
    obtain ⟨t, -, ht⟩ := bind_eq_ok.mp ht
    cases ht
    rw [eval] at hv
    obtain ⟨u, -, hv⟩ := bind_eq_ok.mp hv
    cases hv
    exact Scalar.fits_bool.mpr rfl
  | .isNotNull e, type, v, ht, hv => by
    rw [typeOver] at ht
    obtain ⟨t, -, ht⟩ := bind_eq_ok.mp ht
    cases ht
    rw [eval] at hv
    obtain ⟨u, -, hv⟩ := bind_eq_ok.mp hv
    cases hv
    exact Scalar.fits_bool.mpr rfl

/-- AND and OR give a truth value; NULL only if an item may be NULL, or one has been. -/
theorem evalItems_fits (hr : s.Admits row) : {items : List Expr} → {decider sawNull n : Bool} →
    {v : Scalar} → typesOver s items = .ok () →
    (hn : sawNull = true ∨ anyNullableOver s items = true → n = true) →
    evalItems row decider sawNull items = .ok v → v.Fits .boolean n
  | [], decider, sawNull, n, v, ht, hn, hv => by
    rw [evalItems] at hv
    cases hv
    cases sawNull with
    | true => exact Scalar.fits_null.mpr (hn (.inl rfl))
    | false => exact Scalar.fits_bool.mpr rfl
  | e :: rest, decider, sawNull, n, v, ht, hn, hv => by
    rw [typesOver] at ht
    obtain ⟨t, he, hrest⟩ := bind_eq_ok.mp ht
    simp only [anyNullableOver, Bool.or_eq_true] at hn
    rw [evalItems] at hv
    split at hv
    · cases hv
    · split at hv
      · cases hv
        exact Scalar.fits_bool.mpr rfl
      · exact evalItems_fits hr hrest (fun h => hn (h.imp_right .inr)) hv
    · rename_i hnull
      have hitem := Scalar.fits_null.mp (eval_fits hr he hnull)
      exact evalItems_fits hr hrest (fun _ => hn (.inr (.inl hitem))) hv
    · cases hv

end

/-- The values of several expressions fit the columns derived for them. -/
theorem evalEach_admits {declared : Schema} (hr : s.Admits row) : {exprs : List Expr} → {i : Nat} →
    {fields : List Field} → {out : Values} →
    Schema.derivedFields declared s i exprs = .ok fields → evalEach row exprs = .ok out →
    Schema.Admits ⟨fields⟩ out
  | [], i, fields, out, hf, ho => by
    cases hf
    cases ho
    exact .nil
  | e :: rest, i, fields, out, hf, ho => by
    rw [Schema.derivedFields] at hf
    obtain ⟨f, hfirst, hf⟩ := bind_eq_ok.mp hf
    obtain ⟨more, hmore, hf⟩ := bind_eq_ok.mp hf
    cases hf
    obtain ⟨type, htype, hfirst⟩ := bind_eq_ok.mp hfirst
    cases hfirst
    rw [evalEach, List.mapM_cons] at ho
    obtain ⟨v, hv, ho⟩ := bind_eq_ok.mp ho
    obtain ⟨values, hvalues, ho⟩ := bind_eq_ok.mp ho
    cases ho
    exact .cons (eval_fits hr (mapError_eq_ok.mp htype) hv) (evalEach_admits hr hmore hvalues)

end Expr

end FlowPlan
