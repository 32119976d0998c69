import FlowPlan.Proofs.Costing

namespace FlowPlan

/-- Exact arithmetic, in which every number is finite. -/
instance : Quantity ℚ where
  ofRatio a b := a / b
  isNaN _ := false
  isFinite _ := true
  below a b := decide (a < b)
  order := compare
  text := toString

namespace Quantity

@[simp] theorem none_rat : (none : ℚ) = 0 := by simp [none, ofRatio]

@[simp] theorem one_rat : (one : ℚ) = 1 := by simp [one, ofRatio]

@[simp] theorem ofRatio_rat (a b : Nat) : (ofRatio a b : ℚ) = a / b := rfl

@[simp] theorem ofNat_rat (n : Nat) : (ofNat n : ℚ) = n := by simp [ofNat, ofRatio]

@[simp] theorem sanitize_rat (v : ℚ) : sanitize v = max 0 v := by
  have hv : sanitize v = if v < 0 then 0 else v := by simp [sanitize, isNaN, below]
  rw [hv]
  split
  next h => exact (max_eq_left h.le).symm
  next h => exact (max_eq_right (not_lt.mp h)).symm

theorem clampUnit_nonneg (v : ℚ) : 0 ≤ clampUnit v := by
  simp only [clampUnit, below, none_rat, one_rat, decide_eq_true_eq]
  split
  · exact le_refl 0
  · split
    · exact zero_le_one
    · exact not_lt.mp ‹_›

end Quantity

theorem Settings.projectCpuPerExpr_nonneg {s : Settings ℚ} (h : s.validate = .ok ()) :
    0 ≤ s.projectCpuPerExpr := by
  have hamount := (validate_eq_ok.mp h).2.2.1
  simpa [Quantity.isAmount, Quantity.below, Quantity.isFinite] using hamount

variable {settings : Settings ℚ} {read read' : ℚ} {known : Option ℚ}

/-- More rows are not filtered to fewer. -/
theorem filteredRows_mono (h : max 0 read ≤ max 0 read') :
    filteredRows settings read known ≤ filteredRows settings read' known := by
  simp only [filteredRows, Quantity.sanitize_rat]
  exact max_le_max (mul_le_mul_of_nonneg_right h (Quantity.clampUnit_nonneg _))
    (min_le_min_right _ h)

namespace Cost

/-- A cost that is no more than another, in any of the parts. -/
structure Within (a b : Cost ℚ) : Prop where
  rows : a.rows ≤ b.rows
  cpu : a.cpu ≤ b.cpu
  io : a.io ≤ b.io

/-- A cost of parts that are not negative. -/
structure Nonneg (a : Cost ℚ) : Prop where
  rows : 0 ≤ a.rows
  cpu : 0 ≤ a.cpu
  io : 0 ≤ a.io

variable {a b c d : Cost ℚ} {ordering : CostOrdering}

theorem make_rat (rows cpu io : ℚ) : make rows cpu io = ⟨max 0 rows, max 0 cpu, max 0 io⟩ := by
  simp [make]

theorem nonneg_make (rows cpu io : ℚ) : (make rows cpu io).Nonneg := by
  rw [make_rat]
  exact ⟨le_max_left _ _, le_max_left _ _, le_max_left _ _⟩

theorem Nonneg.plus_eq (ha : a.Nonneg) (hb : b.Nonneg) :
    a.plus b = ⟨a.rows + b.rows, a.cpu + b.cpu, a.io + b.io⟩ := by
  rw [plus, make_rat, max_eq_right (add_nonneg ha.rows hb.rows),
    max_eq_right (add_nonneg ha.cpu hb.cpu), max_eq_right (add_nonneg ha.io hb.io)]

theorem Within.refl (a : Cost ℚ) : a.Within a := ⟨le_rfl, le_rfl, le_rfl⟩

theorem Within.trans (h : a.Within b) (k : b.Within c) : a.Within c :=
  ⟨h.rows.trans k.rows, h.cpu.trans k.cpu, h.io.trans k.io⟩

theorem Within.plus (h : a.Within b) (k : c.Within d) : (a.plus c).Within (b.plus d) := by
  simp only [Cost.plus, make_rat]
  exact ⟨max_le_max_left 0 (add_le_add h.rows k.rows), max_le_max_left 0 (add_le_add h.cpu k.cpu),
    max_le_max_left 0 (add_le_add h.io k.io)⟩

/-- What is added to both of two costs does not change how they compare. -/
theorem Within.of_plus (ha : a.Nonneg) (hb : b.Nonneg) (hc : c.Nonneg)
    (h : (a.plus c).Within (b.plus c)) : a.Within b := by
  rw [ha.plus_eq hc, hb.plus_eq hc] at h
  exact ⟨le_of_add_le_add_right h.rows, le_of_add_le_add_right h.cpu, le_of_add_le_add_right h.io⟩

/-- The numbers that an ordering compares, one after the other. -/
def key (ordering : CostOrdering) (a : Cost ℚ) : ℚ ×ₗ ℚ ×ₗ ℚ :=
  match ordering with
  | .rowsThenCpu => toLex (a.rows, toLex (a.cpu, a.io))
  | .cpuThenRows => toLex (a.cpu, toLex (a.rows, a.io))
  | .total => toLex (a.total, toLex (a.rows, 0))

theorem compare_eq_key : compare ordering a b = Ord.compare (a.key ordering) (b.key ordering) := by
  cases ordering <;> simp [compare, key, Quantity.order, Prod.Lex.compare_def, compareLex,
    compareOn, Ordering.then_assoc]

theorem isBelow_iff : a.isBelow ordering b = true ↔ a.key ordering < b.key ordering := by
  rw [isBelow, compare_eq_key, Ordering.isLT_iff_eq_lt, compare_lt_iff_lt]

theorem not_isBelow_iff : a.isBelow ordering b = false ↔ b.key ordering ≤ a.key ordering := by
  rw [← not_lt, ← isBelow_iff, Bool.not_eq_true]

theorem not_isBelow_trans (a b c : Cost ℚ) (h : a.isBelow ordering b = false)
    (k : b.isBelow ordering c = false) : a.isBelow ordering c = false :=
  not_isBelow_iff.mpr ((not_isBelow_iff.mp k).trans (not_isBelow_iff.mp h))

theorem isBelow_asymm (a b : Cost ℚ) (h : a.isBelow ordering b = true) :
    b.isBelow ordering a = false :=
  not_isBelow_iff.mpr (isBelow_iff.mp h).le

theorem total_rat (a : Cost ℚ) : a.total = a.cpu + 10 * a.io := by
  simp [total, ioWeight]

theorem Within.key_le (h : a.Within b) : a.key ordering ≤ b.key ordering := by
  cases ordering with
  | rowsThenCpu => exact Prod.Lex.toLex_mono ⟨h.rows, Prod.Lex.toLex_mono ⟨h.cpu, h.io⟩⟩
  | cpuThenRows => exact Prod.Lex.toLex_mono ⟨h.cpu, Prod.Lex.toLex_mono ⟨h.rows, h.io⟩⟩
  | total =>
    refine Prod.Lex.toLex_mono ⟨?_, Prod.Lex.toLex_mono ⟨h.rows, le_refl 0⟩⟩
    have hcpu := h.cpu
    have hio := h.io
    simp only [total_rat]
    linarith

/-- Of costs that compare in every part, one that no ordering puts above the other is no more. -/
theorem Within.of_key_le (h : b.Within a) (hk : a.key ordering ≤ b.key ordering) : a.Within b := by
  have hkey : a.key ordering = b.key ordering := le_antisymm hk h.key_le
  cases ordering with
  | rowsThenCpu =>
    simp only [key, EmbeddingLike.apply_eq_iff_eq, Prod.mk.injEq] at hkey
    exact ⟨hkey.1.le, hkey.2.1.le, hkey.2.2.le⟩
  | cpuThenRows =>
    simp only [key, EmbeddingLike.apply_eq_iff_eq, Prod.mk.injEq] at hkey
    exact ⟨hkey.2.1.le, hkey.1.le, hkey.2.2.le⟩
  | total =>
    simp only [key, total_rat, EmbeddingLike.apply_eq_iff_eq, Prod.mk.injEq] at hkey
    have hcpu := h.cpu
    have hio := h.io
    exact ⟨hkey.2.1.le, by linarith [hkey.1], by linarith [hkey.1]⟩

/-- A cost that is no more than another is not above it in any ordering. -/
theorem Within.compare_isLE (h : a.Within b) : (compare ordering a b).isLE = true := by
  rw [compare_eq_key, Ordering.isLE_iff_ne_gt]
  exact compare_le_iff_le.mpr h.key_le

end Cost

end FlowPlan
