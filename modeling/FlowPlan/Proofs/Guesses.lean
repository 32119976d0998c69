import FlowPlan.Proofs.Columns
import FlowPlan.Proofs.Exact
import FlowPlan.Proofs.NormalForm

namespace FlowPlan

namespace Comparison

theorem selectivity_mem (op : Comparison) : (op.selectivity : ℚ) ∈ Set.Icc 0 1 := by
  cases op <;> norm_num [selectivity]

end Comparison

namespace Connective

variable {unknown x : ℚ} {items : List Expr}

/-- What a connective multiplies: the fraction of rows that is kept, or the one that is dropped. -/
def share : Connective → ℚ → ℚ
  | .and, x => x
  | .or, x => 1 - x

/-- The connective that NOT turns this one into. -/
def dual : Connective → Connective
  | .and => .or
  | .or => .and

theorem share_dual (c : Connective) : c.dual.share (1 - x) = c.share x := by
  cases c with
  | and => exact sub_sub_cancel 1 x
  | or => rfl

theorem share_injective (c : Connective) : Function.Injective c.share := by
  cases c with
  | and => exact Function.injective_id
  | or => exact sub_right_injective

theorem share_mem (c : Connective) : c.share x ∈ Set.Icc 0 1 ↔ x ∈ Set.Icc 0 1 := by
  cases c with
  | and => exact Iff.rfl
  | or => exact Set.Icc.mem_iff_one_sub_mem.symm

/-- The shares of all items, multiplied. -/
def shares (c : Connective) (unknown : ℚ) (items : List Expr) : ℚ :=
  (items.map fun e => c.share (e.selectivity unknown)).prod

theorem selectivityOfAll_eq (kept : ℚ) : Expr.selectivityOfAll unknown kept items =
    kept * and.shares unknown items := by
  induction items generalizing kept with
  | nil => exact (mul_one kept).symm
  | cons e rest ih =>
    rw [Expr.selectivityOfAll, ih, mul_assoc]
    rfl

theorem selectivityOfAny_eq (kept : ℚ) : 1 - Expr.selectivityOfAny unknown kept items =
    (1 - kept) * or.shares unknown items := by
  induction items generalizing kept with
  | nil => exact (mul_one _).symm
  | cons e rest ih =>
    have hkept : 1 - (kept + e.selectivity unknown - kept * e.selectivity unknown) =
        (1 - kept) * or.share (e.selectivity unknown) := by
      rw [share]
      ring
    rw [Expr.selectivityOfAny, ih, hkept, mul_assoc]
    rfl

/-- The share of a list of items is the product of their shares. -/
theorem share_join (c : Connective) :
    c.share ((c.join items).selectivity unknown) = c.shares unknown items := by
  cases c with
  | and =>
    rw [join, Expr.selectivity, selectivityOfAll_eq, Quantity.one_rat, one_mul]
    rfl
  | or =>
    rw [join, Expr.selectivity, share, selectivityOfAny_eq, Quantity.none_rat, sub_zero, one_mul]

/-- Lists of items with one product of shares are guessed alike. -/
theorem selectivity_join_congr (c : Connective) {others : List Expr}
    (h : c.shares unknown items = c.shares unknown others) :
    (c.join items).selectivity unknown = (c.join others).selectivity unknown := by
  apply c.share_injective
  rw [share_join, share_join, h]

theorem shares_append (c : Connective) (items others : List Expr) :
    c.shares unknown (items ++ others) = c.shares unknown items * c.shares unknown others := by
  rw [shares, List.map_append, List.prod_append]
  rfl

theorem shares_cons (c : Connective) (e : Expr) (items : List Expr) :
    c.shares unknown (e :: items) = c.share (e.selectivity unknown) * c.shares unknown items := by
  rw [shares, List.map_cons, List.prod_cons]
  rfl

theorem shares_mem (c : Connective) (h : ∀ e ∈ items, e.selectivity unknown ∈ Set.Icc 0 1) :
    c.shares unknown items ∈ Set.Icc 0 1 := by
  induction items with
  | nil => simp [shares]
  | cons e rest ih =>
    obtain ⟨he, hrest⟩ := List.forall_mem_cons.mp h
    obtain ⟨hlow, hhigh⟩ := c.share_mem.mpr he
    obtain ⟨hlows, hhighs⟩ := ih hrest
    rw [shares_cons]
    exact ⟨mul_nonneg hlow hlows, mul_le_one₀ hhigh hlows hhighs⟩

end Connective

namespace Expr

variable {unknown : ℚ}

/-- The items of AND and OR in another order or grouped in another way, at the top or below AND, OR
and NOT. -/
inductive Rearranged : Expr → Expr → Prop where
  | refl (e : Expr) : Rearranged e e
  | symm {e f : Expr} (h : Rearranged e f) : Rearranged f e
  | trans {e f g : Expr} (first : Rearranged e f) (second : Rearranged f g) : Rearranged e g
  | permute (c : Connective) {items others : List Expr} (order : items.Perm others) :
      Rearranged (c.join items) (c.join others)
  | flatten (c : Connective) (before inner after : List Expr) :
      Rearranged (c.join (before ++ c.join inner :: after)) (c.join (before ++ inner ++ after))
  | single (c : Connective) (e : Expr) : Rearranged (c.join [e]) e
  | item (c : Connective) (before after : List Expr) {e f : Expr} (h : Rearranged e f) :
      Rearranged (c.join (before ++ e :: after)) (c.join (before ++ f :: after))
  | not {e f : Expr} (h : Rearranged e f) : Rearranged (.not e) (.not f)

theorem selectivity_not (e : Expr) :
    (Expr.not e).selectivity unknown = 1 - e.selectivity unknown := by
  rw [selectivity, Quantity.one_rat]

theorem selectivity_mem (h : unknown ∈ Set.Icc 0 1) (e : Expr) :
    e.selectivity unknown ∈ Set.Icc 0 1 := by
  have hjoin : ∀ (c : Connective) (items : List Expr),
      (∀ d ∈ items, d.selectivity unknown ∈ Set.Icc 0 1) →
        (c.join items).selectivity unknown ∈ Set.Icc 0 1 := by
    intro c items hitems
    rw [← c.share_mem, c.share_join]
    exact c.shares_mem hitems
  induction e using induction_on_parts with
  | step e ih =>
    cases e with
    | column i => simpa [selectivity] using h
    | arithmetic op l r => simpa [selectivity] using h
    | literal v =>
      cases v with
      | bool b => cases b <;> simp [selectivity]
      | null => simp [selectivity]
      | _ => simpa [selectivity] using h
    | compare op l r =>
      rw [selectivity]
      exact op.selectivity_mem
    | isNull e => norm_num [selectivity]
    | isNotNull e => norm_num [selectivity]
    | and items => exact hjoin .and items ih
    | or items => exact hjoin .or items ih
    | not e =>
      rw [selectivity_not]
      exact Set.Icc.mem_iff_one_sub_mem.mp (ih e (by simp [parts]))

theorem Rearranged.selectivity_eq {e f : Expr} (h : Rearranged e f) :
    e.selectivity unknown = f.selectivity unknown := by
  induction h with
  | refl e => rfl
  | symm _ ih => exact ih.symm
  | trans _ _ ihl ihr => exact ihl.trans ihr
  | permute c order => exact c.selectivity_join_congr (order.map _).prod_eq
  | flatten c before inner after =>
    apply c.selectivity_join_congr
    rw [c.shares_append, c.shares_cons, c.share_join, c.shares_append, c.shares_append, mul_assoc]
  | single c e =>
    apply c.share_injective
    rw [c.share_join, c.shares_cons]
    exact mul_one _
  | item c before after _ ih =>
    apply c.selectivity_join_congr
    rw [c.shares_append, c.shares_cons, c.shares_append, c.shares_cons, ih]
  | not _ ih => rw [selectivity_not, selectivity_not, ih]

/-- NOT moves to the items of AND and OR, which it turns into each other. -/
theorem selectivity_not_join (c : Connective) (items : List Expr) :
    (Expr.not (c.join items)).selectivity unknown =
      (c.dual.join (items.map Expr.not)).selectivity unknown := by
  apply c.dual.share_injective
  rw [selectivity_not, c.share_dual, c.share_join, c.dual.share_join, Connective.shares,
    Connective.shares, List.map_map]
  congr 1
  refine List.map_congr_left fun e _ => ?_
  rw [Function.comp_apply, selectivity_not, c.share_dual]

/-- What a predicate is guessed to keep is a fraction of the rows, if that is so for the predicates
about which nothing is known. It is the same for every order and nesting of the items of AND and OR,
and NOT of the one is guessed like the other over NOT of each item. -/
theorem guessed_fraction_laws (unknown : ℚ) :
    (unknown ∈ Set.Icc 0 1 → ∀ e : Expr, e.selectivity unknown ∈ Set.Icc 0 1) ∧
    (∀ e f : Expr, e.Rearranged f → e.selectivity unknown = f.selectivity unknown) ∧
    ∀ (c : Connective) (items : List Expr), (Expr.not (c.join items)).selectivity unknown =
      (c.dual.join (items.map Expr.not)).selectivity unknown :=
  ⟨selectivity_mem, fun _ _ h => h.selectivity_eq, selectivity_not_join⟩

/-- A comparison, a check for NULL and a column, grouped from the right and then in one OR, where
the check comes first. -/
theorem guessed_fraction_laws_regrouped :
    (Expr.or [.compare .eq (.column 0) (.column 1), .or [.isNull (.column 0), .column 2]]).selectivity
      (1 / 4 : ℚ) ∈ Set.Icc 0 1 ∧
    (Expr.or [.compare .eq (.column 0) (.column 1), .or [.isNull (.column 0), .column 2]]).selectivity
      (1 / 4 : ℚ) =
    (Expr.or [.isNull (.column 0), .compare .eq (.column 0) (.column 1), .column 2]).selectivity
      (1 / 4 : ℚ) := by
  obtain ⟨hmem, hsame, -⟩ := guessed_fraction_laws (1 / 4)
  refine ⟨hmem ⟨by norm_num, by norm_num⟩ _, hsame _ _ ?_⟩
  exact (Rearranged.flatten .or [.compare .eq (.column 0) (.column 1)] _ []).trans
    (.permute .or (List.Perm.swap _ _ _))

end Expr

end FlowPlan
