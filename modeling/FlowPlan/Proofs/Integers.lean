import FlowPlan.Proofs.Progress

namespace FlowPlan

open Outcome

/-- The exact result over all integers. A quotient drops its fraction, and by zero there is none. -/
def Arithmetic.Yields : Arithmetic → Int → Int → Int → Prop
  | .add, a, b, q => q = a + b
  | .sub, a, b, q => q = a - b
  | .mul, a, b, q => q = a * b
  | .div, a, b, q => b ≠ 0 ∧ q = a.tdiv b

namespace DataType

/-- The integers that a column of an integer type can hold. -/
def Holds : DataType → Int → Prop
  | .int32, q => -2 ^ 31 ≤ q ∧ q < 2 ^ 31
  | _, q => -2 ^ 63 ≤ q ∧ q < 2 ^ 63

theorem Holds.wide {q : Int} (h : int32.Holds q) : int64.Holds q := by
  simp only [Holds] at h ⊢
  omega

/-- The type of arithmetic on two integers: INTEGER on two of these, otherwise BIGINT. -/
def ofIntegers (t u : DataType) : DataType := if t = .int32 ∧ u = .int32 then .int32 else .int64

end DataType

namespace Scalar

/-- An integer, or NULL. -/
def IsIntegral (v : Scalar) : Prop := v.type = .int32 ∨ v.type = .int64 ∨ v.type = .null

variable {v w : Scalar} {m n : Int}

theorem IsIntegral.null_or_integer (h : v.IsIntegral) : v = .null ∨ ∃ n, v.integer? = some n := by
  cases v <;> simp_all [IsIntegral, Scalar.type, integer?]

theorem widen_eq_ofIntegers (hv : v.integer? = some m) (hw : w.integer? = some n) :
    v.type.widen w.type = v.type.ofIntegers w.type := by
  rcases integer_type hv with hv | hv <;> rcases integer_type hw with hw | hw <;> rw [hv, hw] <;> rfl

end Scalar

theorem fitsInt32_iff_holds {q : Int} : fitsInt32 q = true ↔ DataType.int32.Holds q := by
  have hmin : Int32.minValue.toInt = -2 ^ 31 := rfl
  have hmax : Int32.maxValue.toInt = 2 ^ 31 - 1 := rfl
  simp only [fitsInt32, DataType.Holds, hmin, hmax, Bool.and_eq_true, decide_eq_true_eq]
  omega

theorem fitsInt64_iff_holds {q : Int} : fitsInt64 q = true ↔ DataType.int64.Holds q := by
  have hmin : Int64.minValue.toInt = -2 ^ 63 := rfl
  have hmax : Int64.maxValue.toInt = 2 ^ 63 - 1 := rfl
  simp only [fitsInt64, DataType.Holds, hmin, hmax, Bool.and_eq_true, decide_eq_true_eq]
  omega

namespace Arithmetic

variable {op : Arithmetic} {type : DataType} {a b q : Int}

theorem yields_onIntegers (h : ¬ (op = .div ∧ b = 0)) : op.Yields a b (op.onIntegers a b) := by
  cases op with
  | div => exact ⟨fun hb => h ⟨rfl, hb⟩, rfl⟩
  | _ => rfl

theorem Yields.eq_onIntegers (h : op.Yields a b q) : q = op.onIntegers a b := by
  cases op with
  | div => exact h.2
  | _ => exact h

theorem Yields.not_by_zero (h : op.Yields a b q) : ¬ (op = .div ∧ b = 0) := by
  rintro ⟨rfl, hb⟩
  exact h.1 hb

/-- There is no result that a type can hold. -/
def Unrepresentable (op : Arithmetic) (type : DataType) (a b : Int) : Prop :=
  op = .div ∧ b = 0 ∨ ∃ q, op.Yields a b q ∧ ¬ type.Holds q

theorem Yields.unrepresentable_iff (h : op.Yields a b q) :
    op.Unrepresentable type a b ↔ ¬ type.Holds q := by
  constructor
  · rintro (hzero | ⟨r, hr, hr'⟩)
    · exact absurd hzero h.not_by_zero
    · rwa [h.eq_onIntegers, ← hr.eq_onIntegers]
  · exact fun hq => .inr ⟨q, h, hq⟩

/-- A result that the type can hold is given as it is. -/
theorem applyIntegers_of_holds (ht : type = .int32 ∨ type = .int64) (hzero : ¬ (op = .div ∧ b = 0))
    (hq : type.Holds (op.onIntegers a b)) : ∃ v, op.applyIntegers type a b = .ok v ∧
      v.type = type ∧ v.integer? = some (op.onIntegers a b) := by
  rcases ht with rfl | rfl
  · have hwide := fitsInt64_iff_holds.mpr hq.wide
    have hvalue : (Int32.ofInt (op.onIntegers a b)).toInt = op.onIntegers a b :=
      Int32.toInt_ofInt_of_le hq.1 hq.2
    rw [← fitsInt32_iff_holds] at hq
    exact ⟨.int32 (.ofInt _), by simp [applyIntegers, hzero, hwide, hq], rfl, congrArg some hvalue⟩
  · have hvalue : (Int64.ofInt (op.onIntegers a b)).toInt = op.onIntegers a b :=
      Int64.toInt_ofInt_of_le hq.1 hq.2
    rw [← fitsInt64_iff_holds] at hq
    exact ⟨.int64 (.ofInt _), by simp [applyIntegers, hzero, hq], rfl, congrArg some hvalue⟩

/-- A result that the type cannot hold is refused, by the wider check or by the narrower one. -/
theorem applyIntegers_of_not_holds (ht : type = .int32 ∨ type = .int64)
    (hzero : ¬ (op = .div ∧ b = 0)) (hq : ¬ type.Holds (op.onIntegers a b)) :
    ∃ x, op.applyIntegers type a b = .error x := by
  rw [applyIntegers, if_neg hzero]
  cases hwide : fitsInt64 (op.onIntegers a b) with
  | false => exact ⟨.overflow op a b, by simp [hwide]⟩
  | true =>
    rcases ht with rfl | rfl
    · rw [← fitsInt32_iff_holds] at hq
      exact ⟨.narrowOverflow (op.onIntegers a b), by simp [hwide, hq]⟩
    · exact absurd (fitsInt64_iff_holds.mp hwide) hq

/-- Arithmetic on two integers has their exact result in the type, or it fails. -/
theorem applyIntegers_cases (op : Arithmetic) (a b : Int) (ht : type = .int32 ∨ type = .int64) :
    (∃ v q, op.applyIntegers type a b = .ok v ∧ v.type = type ∧ v.integer? = some q ∧
      op.Yields a b q ∧ ¬ op.Unrepresentable type a b) ∨
    ((∃ x, op.applyIntegers type a b = .error x) ∧ op.Unrepresentable type a b) := by
  by_cases hzero : op = .div ∧ b = 0
  · exact .inr ⟨⟨.divisionByZero, if_pos hzero⟩, .inl hzero⟩
  · have hyields := yields_onIntegers (a := a) hzero
    rw [hyields.unrepresentable_iff, not_not]
    by_cases hq : type.Holds (op.onIntegers a b)
    · obtain ⟨v, hv, htype, hvalue⟩ := applyIntegers_of_holds ht hzero hq
      exact .inl ⟨v, _, hv, htype, hvalue, hyields, hq⟩
    · exact .inr ⟨applyIntegers_of_not_holds ht hzero hq, hq⟩

theorem apply_null {l r : Scalar} (h : l = .null ∨ r = .null) : op.apply l r = .ok .null := by
  rcases h with rfl | rfl
  · rfl
  · simp [apply, Scalar.isNull]

theorem apply_integers {l r : Scalar} (hl : l.integer? = some a) (hr : r.integer? = some b) :
    op.apply l r = op.applyIntegers (l.type.ofIntegers r.type) a b := by
  have hnull : ∀ {v : Scalar} {n}, v.integer? = some n → v.isNull = false := by
    intro v n hv
    cases v <;> first | rfl | cases hv
  simp [apply, hnull hl, hnull hr, hl, hr, Scalar.widen_eq_ofIntegers hl hr]

end Arithmetic

theorem DataType.ofIntegers_integer (t u : DataType) :
    t.ofIntegers u = .int32 ∨ t.ofIntegers u = .int64 := by
  rw [ofIntegers]
  split
  · exact .inl rfl
  · exact .inr rfl

theorem DataType.ofIntegers_eq_int32 {t u : DataType} :
    t.ofIntegers u = .int32 ↔ t = .int32 ∧ u = .int32 := by
  simp [ofIntegers]

namespace Expr

variable {row : Values} {e d l r : Expr} {v w : Scalar}

/-- A tree of arithmetic over columns and literals that supply integers and NULL. -/
inductive IntegerTree (row : Values) : Expr → Prop
  | column {i : Nat} {v : Scalar} (found : row[i]? = some v) (integral : v.IsIntegral) :
    IntegerTree row (.column i)
  | literal {v : Scalar} (integral : v.IsIntegral) : IntegerTree row (.literal v)
  | arithmetic (op : Arithmetic) {l r : Expr} (left : IntegerTree row l)
    (right : IntegerTree row r) : IntegerTree row (.arithmetic op l r)

/-- The values at the leaves of a tree, from left to right. -/
def leaves (row : Values) : Expr → List Scalar
  | .column i => row[i]?.toList
  | .literal v => [v]
  | .arithmetic _ l r => leaves row l ++ leaves row r
  | _ => []

/-- The value of a tree over all integers, where no result is too large. -/
inductive Exact (row : Values) : Expr → Int → Prop
  | column {i : Nat} {v : Scalar} {n : Int} (found : row[i]? = some v)
    (integer : v.integer? = some n) : Exact row (.column i) n
  | literal {v : Scalar} {n : Int} (integer : v.integer? = some n) : Exact row (.literal v) n
  | arithmetic {op : Arithmetic} {l r : Expr} {a b q : Int} (left : Exact row l a)
    (right : Exact row r b) (result : op.Yields a b q) : Exact row (.arithmetic op l r) q

/-- Arithmetic whose operands are both integers, without a result that its type can hold. -/
def Overflows (row : Values) (d : Expr) : Prop :=
  ∃ op l r v w a b, d = .arithmetic op l r ∧ l.eval row = .ok v ∧ r.eval row = .ok w ∧
    v.integer? = some a ∧ w.integer? = some b ∧
    op.Unrepresentable (v.type.ofIntegers w.type) a b

/-- What a tree of integers evaluates to without failing. -/
structure Computed (row : Values) (e : Expr) (v : Scalar) : Prop where
  integral : v.IsIntegral
  null_iff : v = .null ↔ .null ∈ e.leaves row
  exact : ∀ n, v.integer? = some n → e.Exact row n
  narrow : v ≠ .null → (v.type = .int32 ↔ ∀ w ∈ e.leaves row, w.type = .int32)

theorem computed_leaf (hv : v.IsIntegral) (hleaves : e.leaves row = [v])
    (hexact : ∀ n, v.integer? = some n → e.Exact row n) : e.Computed row v := by
  refine ⟨hv, ?_, hexact, fun _ => ?_⟩
  · rw [hleaves, List.mem_singleton, eq_comm]
  · simp [hleaves]

theorem overflows_iff {op : Arithmetic} (hv : l.eval row = .ok v) (hw : r.eval row = .ok w) :
    (Expr.arithmetic op l r).Overflows row ↔ ∃ a b, v.integer? = some a ∧ w.integer? = some b ∧
      op.Unrepresentable (v.type.ofIntegers w.type) a b := by
  constructor
  · rintro ⟨_, _, _, v', w', a, b, heq, hv', hw', ha, hb, h⟩
    cases heq
    obtain rfl := Except.ok.inj (hv.symm.trans hv')
    obtain rfl := Except.ok.inj (hw.symm.trans hw')
    exact ⟨a, b, ha, hb, h⟩
  · rintro ⟨a, b, ha, hb, h⟩
    exact ⟨op, l, r, v, w, a, b, rfl, hv, hw, ha, hb, h⟩

theorem eval_arithmetic {op : Arithmetic} (hv : l.eval row = .ok v) (hw : r.eval row = .ok w) :
    (Expr.arithmetic op l r).eval row = op.apply v w := by
  rw [eval, hv, hw, ok_bind, ok_bind]

/-- A NULL operand gives NULL, whatever the other one is. -/
theorem computed_null {op : Arithmetic} (hl : l.Computed row v) (hr : r.Computed row w)
    (h : v = .null ∨ w = .null) : (Expr.arithmetic op l r).Computed row .null := by
  refine ⟨.inr (.inr rfl), iff_of_true rfl ?_, nofun, fun hne => absurd rfl hne⟩
  rw [leaves, List.mem_append]
  exact h.imp hl.null_iff.mp hr.null_iff.mp

/-- The exact result of two exact operands. -/
theorem computed_result {op : Arithmetic} {a b q : Int} {u : Scalar} (hl : l.Computed row v)
    (hr : r.Computed row w) (ha : v.integer? = some a) (hb : w.integer? = some b)
    (hu : u.integer? = some q) (htype : u.type = v.type.ofIntegers w.type)
    (hq : op.Yields a b q) : (Expr.arithmetic op l r).Computed row u := by
  have hnull : ∀ {x : Scalar} {n}, x.integer? = some n → x ≠ .null := by
    rintro x n hx rfl
    cases hx
  refine ⟨?_, ?_, ?_, fun _ => ?_⟩
  · exact (Scalar.integer_type hu).imp_right .inl
  · rw [leaves, List.mem_append, ← hl.null_iff, ← hr.null_iff]
    simp [hnull ha, hnull hb, hnull hu]
  · intro n hn
    obtain rfl := Option.some.inj (hu.symm.trans hn)
    exact .arithmetic (hl.exact a ha) (hr.exact b hb) hq
  · rw [leaves, List.forall_mem_append, ← hl.narrow (hnull ha), ← hr.narrow (hnull hb), htype,
      DataType.ofIntegers_eq_int32]

/-- One operation on what its operands are computed to. -/
theorem arithmetic_cases {op : Arithmetic} (hl : l.Computed row v) (hr : r.Computed row w)
    (hv : l.eval row = .ok v) (hw : r.eval row = .ok w) :
    (∃ u, (Expr.arithmetic op l r).eval row = .ok u ∧ (Expr.arithmetic op l r).Computed row u ∧
      ¬ (Expr.arithmetic op l r).Overflows row) ∨
    ((∃ x, (Expr.arithmetic op l r).eval row = .error x) ∧
      (Expr.arithmetic op l r).Overflows row) := by
  rw [overflows_iff hv hw, eval_arithmetic hv hw]
  by_cases hnull : v = .null ∨ w = .null
  · refine .inl ⟨.null, Arithmetic.apply_null hnull, computed_null hl hr hnull, ?_⟩
    rintro ⟨a, b, ha, hb, -⟩
    rcases hnull with rfl | rfl
    · cases ha
    · cases hb
  · rw [not_or] at hnull
    obtain ⟨a, ha⟩ := hl.integral.null_or_integer.resolve_left hnull.1
    obtain ⟨b, hb⟩ := hr.integral.null_or_integer.resolve_left hnull.2
    rw [Arithmetic.apply_integers ha hb]
    rcases op.applyIntegers_cases a b (v.type.ofIntegers_integer w.type) with
      ⟨u, q, hu, htype, hq, hyields, hfits⟩ | ⟨hx, hnot⟩
    · refine .inl ⟨u, hu, computed_result hl hr ha hb hq htype hyields, ?_⟩
      rintro ⟨a', b', ha', hb', h⟩
      cases ha.symm.trans ha'
      cases hb.symm.trans hb'
      exact hfits h
    · exact .inr ⟨hx, a, b, ha, hb, hnot⟩

theorem contains_arithmetic {op : Arithmetic} : (Expr.arithmetic op l r).Contains d ↔
    Expr.arithmetic op l r = d ∨ l.Contains d ∨ r.Contains d := by
  rw [contains_iff]
  simp [parts]

/-- Some part of a tree overflows. -/
def Spills (row : Values) (e : Expr) : Prop := ∃ d, e.Contains d ∧ d.Overflows row

theorem spills_arithmetic {op : Arithmetic} : (Expr.arithmetic op l r).Spills row ↔
    (Expr.arithmetic op l r).Overflows row ∨ l.Spills row ∨ r.Spills row := by
  simp only [Spills, contains_arithmetic]
  constructor
  · rintro ⟨d, rfl | h | h, hd⟩
    · exact .inl hd
    · exact .inr (.inl ⟨d, h, hd⟩)
    · exact .inr (.inr ⟨d, h, hd⟩)
  · rintro (hd | ⟨d, h, hd⟩ | ⟨d, h, hd⟩)
    · exact ⟨_, .inl rfl, hd⟩
    · exact ⟨d, .inr (.inl h), hd⟩
    · exact ⟨d, .inr (.inr h), hd⟩

theorem not_spills_leaf (h : e.parts = []) : ¬ e.Spills row := by
  rintro ⟨d, hd, _, _, _, _, _, _, _, rfl, -⟩
  rcases contains_iff.mp hd with rfl | ⟨q, hq, -⟩
  · cases h
  · rw [h] at hq
    cases hq

/-- A tree is computed if no part of it overflows, and otherwise it fails. -/
theorem IntegerTree.cases (h : IntegerTree row e) :
    (∃ v, e.eval row = .ok v ∧ e.Computed row v ∧ ¬ e.Spills row) ∨
    ((∃ x, e.eval row = .error x) ∧ e.Spills row) := by
  induction h with
  | @column i v found integral =>
    refine .inl ⟨v, by rw [eval, found], computed_leaf integral ?_ fun n => .column found, ?_⟩
    · rw [leaves, found, Option.toList_some]
    · exact not_spills_leaf rfl
  | @literal v integral =>
    refine .inl ⟨v, by rw [eval], computed_leaf integral ?_ fun n => .literal, ?_⟩
    · rw [leaves]
    · exact not_spills_leaf rfl
  | @arithmetic op l r _ _ left right =>
    rw [spills_arithmetic]
    rcases left with ⟨v, hv, hl, hleft⟩ | ⟨⟨x, hx⟩, hleft⟩
    · rcases right with ⟨w, hw, hr, hright⟩ | ⟨⟨y, hy⟩, hright⟩
      · simp only [hleft, hright, or_false]
        exact arithmetic_cases hl hr hv hw
      · exact .inr ⟨⟨y, by rw [eval, hv, hy, ok_bind, error_bind]⟩, .inr (.inr hright)⟩
    · exact .inr ⟨⟨x, by rw [eval, hx, error_bind]⟩, .inr (.inl hleft)⟩

/-- The integer that a tree evaluates to is its exact value, an INTEGER if and only if all its leaves
are. It evaluates to NULL if a leaf is NULL and nothing in it fails, and to no other value. It fails
if and only if, somewhere inside it, arithmetic on two integers divides by zero or has an exact
result outside of the range of its type. -/
theorem integer_tree_exact (h : IntegerTree row e) :
    (∀ v n, e.eval row = .ok v → v.integer? = some n →
      e.Exact row n ∧ (v.type = .int32 ↔ ∀ w ∈ e.leaves row, w.type = .int32)) ∧
    (.null ∈ e.leaves row → (∀ d, e.Contains d → ∀ x, d.eval row ≠ .error x) →
      e.eval row = .ok .null) ∧
    (∀ v, e.eval row = .ok v → (∃ n, v.integer? = some n) ∨ v = .null ∧ .null ∈ e.leaves row) ∧
    ((∃ x, e.eval row = .error x) ↔ ∃ d, e.Contains d ∧ d.Overflows row) := by
  rcases h.cases with ⟨v, hv, hcomputed, hspills⟩ | ⟨⟨x, hx⟩, hspills⟩
  · refine ⟨fun u n hu hn => ?_, fun hnull _ => ?_, fun u hu => ?_, ?_⟩
    · obtain rfl := Except.ok.inj (hv.symm.trans hu)
      refine ⟨hcomputed.exact n hn, hcomputed.narrow ?_⟩
      rintro rfl
      cases hn
    · rw [hv, hcomputed.null_iff.mpr hnull]
    · obtain rfl := Except.ok.inj (hv.symm.trans hu)
      exact hcomputed.integral.null_or_integer.symm.imp_right fun hnull =>
        ⟨hnull, hcomputed.null_iff.mp hnull⟩
    · exact iff_of_false (by simp [hv]) hspills
  · refine ⟨fun v n hv => ?_, fun _ hnone => ?_, fun v hv => ?_, ?_⟩
    · cases hx.symm.trans hv
    · exact absurd hx (hnone e .refl x)
    · cases hx.symm.trans hv
    · exact iff_of_true ⟨x, hx⟩ hspills

/-- A difference of an INTEGER product and a BIGINT quotient, which is cut to minus two. -/
def ledgerEntry : Expr :=
  .arithmetic .sub (.arithmetic .mul (.column 0) (.literal (.int32 3)))
    (.arithmetic .div (.column 1) (.literal (.int32 (-2))))

theorem integer_tree_exact_ledgerEntry : IntegerTree [.int32 7, .int64 5] ledgerEntry ∧
    ledgerEntry.eval [.int32 7, .int64 5] = .ok (.int64 23) ∧
    ledgerEntry.Exact [.int32 7, .int64 5] 23 := by
  have htree : IntegerTree [.int32 7, .int64 5] ledgerEntry :=
    .arithmetic .sub (.arithmetic .mul (.column rfl (.inl rfl)) (.literal (.inl rfl)))
      (.arithmetic .div (.column rfl (.inr (.inl rfl))) (.literal (.inl rfl)))
  have hvalue : ledgerEntry.eval [.int32 7, .int64 5] = .ok (.int64 23) := rfl
  exact ⟨htree, hvalue, ((integer_tree_exact htree).1 _ 23 hvalue rfl).1⟩

end Expr

end FlowPlan
