import FlowPlan.Proofs.Progress

namespace FlowPlan

open Outcome

theorem Comparison.apply_ne_missing (op : Comparison) {a b : Scalar} {i : Nat} :
    op.apply a b ≠ .error (.missingColumn i) := by
  intro h
  rw [apply] at h
  split at h
  · cases h
  · split at h <;> cases h

theorem Arithmetic.apply_ne_missing (op : Arithmetic) {a b : Scalar} {i : Nat} :
    op.apply a b ≠ .error (.missingColumn i) := by
  intro h
  rw [apply] at h
  split at h
  · cases h
  · dsimp only at h
    split at h
    · exact applyIntegers_eq_error h
    · split at h <;> cases h

theorem Scalar.negate_ne_missing (v : Scalar) {i : Nat} : v.negate ≠ .error (.missingColumn i) := by
  intro h
  cases v <;> cases h

namespace Expr

variable {row other : Values} {s : Schema} {e : Expr} {i j : Nat} {l : List Nat}

mutual

/-- The columns as they are written, from left to right and with repetitions. -/
def occurrences : Expr → List Nat
  | .column i => [i]
  | .literal _ => []
  | .compare _ l r => occurrences l ++ occurrences r
  | .arithmetic _ l r => occurrences l ++ occurrences r
  | .and items => occurrencesOf items
  | .or items => occurrencesOf items
  | .not e => occurrences e
  | .isNull e => occurrences e
  | .isNotNull e => occurrences e

def occurrencesOf : List Expr → List Nat
  | [] => []
  | e :: rest => occurrences e ++ occurrencesOf rest

end

/-- What holds of an expression if it holds of its operands holds of all. -/
theorem induction_on_parts {motive : Expr → Prop} (step : ∀ e, (∀ d ∈ e.parts, motive d) → motive e)
    (e : Expr) : motive e := by
  induction hn : sizeOf e using Nat.strong_induction_on generalizing e with
  | _ n ih =>
    subst hn
    exact step e fun d hd => ih _ (sizeOf_part hd) d rfl

/-- Adds a column that has not been seen yet. -/
def note (seen : List Nat) (i : Nat) : List Nat := if seen.contains i then seen else seen ++ [i]

theorem occurrencesOf_eq (items : List Expr) : occurrencesOf items = items.flatMap occurrences := by
  induction items with
  | nil => rfl
  | cons e rest ih => rw [occurrencesOf, ih, List.flatMap_cons]

theorem addColumnsOf_eq (seen : List Nat) (items : List Expr) :
    addColumnsOf seen items = items.foldl addColumns seen := by
  induction items generalizing seen with
  | nil => rfl
  | cons e rest ih => rw [addColumnsOf, ih, List.foldl_cons]

/-- An expression that is no column writes the columns of its operands. -/
theorem occurrences_parts (h : ∀ i, e ≠ .column i) : e.occurrences = e.parts.flatMap occurrences := by
  cases e with
  | column i => exact absurd rfl (h i)
  | and items => exact occurrencesOf_eq items
  | or items => exact occurrencesOf_eq items
  | _ => simp [occurrences, parts]

theorem addColumns_parts (h : ∀ i, e ≠ .column i) (seen : List Nat) :
    addColumns seen e = e.parts.foldl addColumns seen := by
  cases e with
  | column i => exact absurd rfl (h i)
  | and items => exact addColumnsOf_eq seen items
  | or items => exact addColumnsOf_eq seen items
  | _ => rfl

/-- The walk notes one column after the other. -/
theorem addColumns_eq (e : Expr) (seen : List Nat) :
    addColumns seen e = e.occurrences.foldl note seen := by
  induction e using induction_on_parts generalizing seen with
  | step e ih =>
    by_cases h : ∃ i, e = .column i
    · obtain ⟨i, rfl⟩ := h
      rfl
    · rw [not_exists] at h
      rw [addColumns_parts h, occurrences_parts h, List.foldl_flatMap]
      exact List.foldl_ext _ _ _ fun seen d hd => ih d hd seen

theorem columns_eq (e : Expr) : e.columns = e.occurrences.foldl note [] := addColumns_eq e []

theorem mem_note : j ∈ note l i ↔ j ∈ l ∨ j = i := by
  rw [note]
  split
  next h =>
    rw [List.contains_iff_mem] at h
    exact ⟨.inl, fun hj => hj.elim id fun hj => hj ▸ h⟩
  next => simp

/-- What is noted of a list is what is in it. -/
theorem mem_foldl_note : j ∈ l.foldl note [] ↔ j ∈ l := by
  induction l using List.reverseRecOn with
  | nil => rfl
  | append_singleton l i ih =>
    rw [List.foldl_append, List.foldl_cons, List.foldl_nil, mem_note, ih, List.mem_append,
      List.mem_singleton]

/-- Columns are noted where they occur for the first time. -/
theorem foldl_note_ordered (l : List Nat) :
    (l.foldl note []).Pairwise fun i j => l.idxOf i < l.idxOf j := by
  induction l using List.reverseRecOn with
  | nil => exact .nil
  | append_singleton l k ih =>
    have hplace : ∀ {i}, i ∈ l.foldl note [] → (l ++ [k]).idxOf i = l.idxOf i := fun hi =>
      List.idxOf_append_of_mem (mem_foldl_note.mp hi)
    have hbefore : (l.foldl note []).Pairwise fun i j => (l ++ [k]).idxOf i < (l ++ [k]).idxOf j := by
      refine ih.imp_of_mem fun hi hj h => ?_
      rwa [hplace hi, hplace hj]
    rw [List.foldl_append, List.foldl_cons, List.foldl_nil, note]
    split
    next => exact hbefore
    next hnew =>
      rw [List.contains_iff_mem] at hnew
      have hk : k ∉ l := mt mem_foldl_note.mpr hnew
      refine List.pairwise_append.mpr ⟨hbefore, List.pairwise_singleton _ _, fun i hi j hj => ?_⟩
      obtain rfl := List.mem_singleton.mp hj
      rw [hplace hi, List.idxOf_append_of_notMem hk]
      exact Nat.lt_add_right _ (List.idxOf_lt_length_of_mem (mem_foldl_note.mp hi))

theorem nodup_columns (e : Expr) : e.columns.Nodup := by
  rw [columns_eq]
  exact (foldl_note_ordered _).imp fun h heq => absurd h (by simp [heq])

/-- A column is written where it stands inside the expression. -/
theorem mem_occurrences : i ∈ e.occurrences ↔ e.Contains (.column i) := by
  induction e using induction_on_parts with
  | step e ih =>
    rw [contains_iff]
    by_cases h : ∃ j, e = .column j
    · obtain ⟨j, rfl⟩ := h
      simp [occurrences, parts, eq_comm]
    · rw [not_exists] at h
      rw [occurrences_parts h, List.mem_flatMap]
      constructor
      · rintro ⟨d, hd, hi⟩
        exact .inr ⟨d, hd, (ih d hd).mp hi⟩
      · rintro (heq | ⟨d, hd, hi⟩)
        · exact absurd heq (h i)
        · exact ⟨d, hd, (ih d hd).mpr hi⟩

theorem mem_columns : i ∈ e.columns ↔ e.Contains (.column i) := by
  rw [columns_eq, mem_foldl_note, mem_occurrences]

theorem evalItems_congr {decider sawNull : Bool} {items : List Expr}
    (h : ∀ d ∈ items, d.eval row = d.eval other) :
    evalItems row decider sawNull items = evalItems other decider sawNull items := by
  induction items generalizing sawNull with
  | nil => rfl
  | cons e rest ih =>
    rw [List.forall_mem_cons] at h
    rw [evalItems, evalItems, h.1, ih h.2, ih h.2]

/-- An expression that is no column has its value from its operands. -/
theorem eval_congr_parts (he : ∀ i, e ≠ .column i) (h : ∀ d ∈ e.parts, d.eval row = d.eval other) :
    e.eval row = e.eval other := by
  cases e with
  | column i => exact absurd rfl (he i)
  | literal v => rfl
  | compare op l r => rw [eval, eval, h l (by simp [parts]), h r (by simp [parts])]
  | arithmetic op l r => rw [eval, eval, h l (by simp [parts]), h r (by simp [parts])]
  | and items => exact evalItems_congr h
  | or items => exact evalItems_congr h
  | not e => rw [eval, eval, h e (by simp [parts])]
  | isNull e => rw [eval, eval, h e (by simp [parts])]
  | isNotNull e => rw [eval, eval, h e (by simp [parts])]

/-- Rows that agree in the columns of an expression give it one value, or one error. -/
theorem eval_congr (h : ∀ i, e.Contains (.column i) → row[i]? = other[i]?) :
    e.eval row = e.eval other := by
  induction e using induction_on_parts with
  | step e ih =>
    by_cases hc : ∃ i, e = .column i
    · obtain ⟨i, rfl⟩ := hc
      rw [eval, eval, h i .refl]
    · rw [not_exists] at hc
      exact eval_congr_parts hc fun d hd => ih d hd fun i hi => h i (.head hd hi)

theorem lt_of_typeOver {t : DataType} (h : (column i).typeOver s = .ok t) : i < s.length := by
  rw [typeOver] at h
  split at h
  next f hf => exact (List.getElem?_eq_some_iff.mp hf).1
  next => cases h

/-- Only a column can be missing. -/
theorem Refuses.missing (h : e.Refuses row (.missingColumn i)) : e = .column i ∧ row[i]? = none := by
  cases e with
  | column j =>
    obtain ⟨hnone, heq⟩ := h
    cases heq
    exact ⟨rfl, hnone⟩
  | literal v => exact h.elim
  | compare op l r =>
    obtain ⟨a, b, -, -, h⟩ := h
    exact absurd h op.apply_ne_missing
  | arithmetic op l r =>
    obtain ⟨a, b, -, -, h⟩ := h
    exact absurd h op.apply_ne_missing
  | and items =>
    obtain ⟨d, -, v, -, h⟩ := h
    exact absurd h v.negate_ne_missing
  | or items =>
    obtain ⟨d, -, v, -, h⟩ := h
    exact absurd h v.negate_ne_missing
  | not d =>
    obtain ⟨v, -, h⟩ := h
    exact absurd h v.negate_ne_missing
  | isNull d => exact h.elim
  | isNotNull d => exact h.elim

/-- A typed expression misses no column of a row that is as long as the schema. -/
theorem eval_ne_missing {t : DataType} (h : e.typeOver s = .ok t) (hrow : s.length ≤ row.length) :
    e.eval row ≠ .error (.missingColumn i) := by
  intro hx
  obtain ⟨q, hq, hrefuses⟩ := eval_eq_error_iff_reaches.mp hx
  obtain ⟨rfl, hnone⟩ := hrefuses.missing
  obtain ⟨u, hu⟩ := hq.contains.exists_type h
  have hi := lt_of_typeOver hu
  rw [List.getElem?_eq_none_iff] at hnone
  omega

/-- Rows that agree in the columns that an expression lists give it the same value or error, as a
predicate too. It lists exactly the columns inside it, each one once, in the order in which they
occur for the first time. And where it has a type over a schema, the columns are those of the schema,
so that over a row that is long enough none is missing. -/
theorem columns_determine (e : Expr) :
    (∀ row other : Values, (∀ i ∈ e.columns, row[i]? = other[i]?) →
      e.eval row = e.eval other ∧ e.keeps row = e.keeps other) ∧
    (e.columns.Nodup ∧ (∀ i, i ∈ e.columns ↔ e.Contains (.column i)) ∧
      e.columns.Pairwise fun i j => e.occurrences.idxOf i < e.occurrences.idxOf j) ∧
    ∀ (s : Schema) (t : DataType), e.typeOver s = .ok t → (∀ i ∈ e.columns, i < s.length) ∧
      ∀ (row : Values) (i : Nat), s.length ≤ row.length → e.eval row ≠ .error (.missingColumn i) := by
  refine ⟨fun row other h => ?_, ⟨nodup_columns e, fun i => mem_columns, ?_⟩, fun s t ht => ⟨?_, ?_⟩⟩
  · have heval : e.eval row = e.eval other := eval_congr fun i hi => h i (mem_columns.mpr hi)
    exact ⟨heval, by rw [keeps, keeps, heval]⟩
  · rw [columns_eq]
    exact foldl_note_ordered _
  · intro i hi
    obtain ⟨u, hu⟩ := (mem_columns.mp hi).exists_type ht
    exact lt_of_typeOver hu
  · exact fun row i hrow => eval_ne_missing ht hrow

/-- Two of three columns, one of them read twice. -/
def lateOrOverdue : Expr :=
  .or [.isNull (.column 2), .compare .lt (.column 0) (.column 2)]

/-- The column between them makes no difference, and the later one is listed first. -/
theorem columns_determine_lateOrOverdue : lateOrOverdue.columns = [2, 0] ∧
    lateOrOverdue.eval [.int32 4, .bool true, .int32 9] =
      lateOrOverdue.eval [.int32 4, .null, .int32 9] ∧
    lateOrOverdue.typeOver ⟨[⟨"due", .int32, false⟩, ⟨"late", .boolean, true⟩,
      ⟨"paid", .int32, true⟩]⟩ = .ok .boolean ∧
    lateOrOverdue.eval [.int32 4, .null, .int32 9] ≠ .error (.missingColumn 2) := by
  have hcolumns : lateOrOverdue.columns = [2, 0] := rfl
  have htype : lateOrOverdue.typeOver ⟨[⟨"due", .int32, false⟩, ⟨"late", .boolean, true⟩,
    ⟨"paid", .int32, true⟩]⟩ = .ok .boolean := rfl
  have hagree : ∀ i ∈ lateOrOverdue.columns, ([.int32 4, .bool true, .int32 9] : Values)[i]? =
      ([.int32 4, .null, .int32 9] : Values)[i]? := by
    simp [hcolumns]
  exact ⟨hcolumns, ((columns_determine _).1 _ _ hagree).1, htype,
    ((columns_determine _).2.2 _ _ htype).2 _ 2 (by decide)⟩

end Expr

end FlowPlan
