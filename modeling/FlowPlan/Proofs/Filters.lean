import FlowPlan.Proofs.Charges
import FlowPlan.Proofs.Products

namespace FlowPlan

open Outcome Quantity Format

namespace Binary

variable {f : Format} {x y z : Binary f}

theorem isNaN_of_isFinite (h : x.isFinite = true) : x.isNaN = false := by
  rw [isFinite] at h
  rw [isNaN]
  cases hx : x.reading <;> simp_all

theorem lt_iff : x.lt y = true ↔ x.isNaN = false ∧ y.isNaN = false ∧ x.rank < y.rank := by
  cases hx : x.isNaN <;> cases hy : y.isNaN <;> simp [lt, compare?, hx, hy, compare_lt_iff_lt]

theorem le_iff : x.le y = true ↔ x.isNaN = false ∧ y.isNaN = false ∧ x.rank ≤ y.rank := by
  cases hx : x.isNaN <;> cases hy : y.isNaN <;>
    simp [le, compare?, hx, hy, compare_lt_iff_lt, le_iff_lt_or_eq]

theorem lt_eq_false_iff (hx : x.isNaN = false) (hy : y.isNaN = false) :
    x.lt y = false ↔ y.rank ≤ x.rank := by
  rw [← Bool.not_eq_true, lt_iff]
  simp [hx, hy]

theorem maximum_of_isNaN (h : x.isNaN = true) : maximum x y = y := by
  rw [maximum, if_pos h]

theorem maximum_spec (hx : x.isNaN = false) (hy : y.isNaN = false) :
    (maximum x y).isNaN = false ∧ (maximum x y).rank = max x.rank y.rank := by
  rw [maximum, if_neg (by simp [hx])]
  split
  next h => exact ⟨hy, (max_eq_right (lt_iff.mp h).2.2.le).symm⟩
  next h =>
    rw [Bool.not_eq_true, lt_eq_false_iff hx hy] at h
    exact ⟨hx, (max_eq_left h).symm⟩

theorem minimum_spec (hx : x.isNaN = false) (hy : y.isNaN = false) :
    (minimum x y).isNaN = false ∧ (minimum x y).rank = min x.rank y.rank := by
  rw [minimum, if_neg (by simp [hx])]
  split
  next h => exact ⟨hy, (min_eq_right (lt_iff.mp h).2.2.le).symm⟩
  next h =>
    rw [Bool.not_eq_true, lt_eq_false_iff hy hx] at h
    exact ⟨hx, (min_eq_left h).symm⟩

end Binary

namespace Quantity

open Binary

variable {v w : Double}

theorem rank_none : (Quantity.none : Double).rank = 0 := by decide +kernel

theorem isNonneg_iff : IsNonneg v ↔ v.isNaN = false ∧ 0 ≤ v.rank := by
  have hnone : (Quantity.none : Double).isNaN = false := isNonneg_none.1
  rw [← rank_none]
  refine and_congr_right fun hv => ?_
  exact lt_eq_false_iff hv hnone

theorem IsNonneg.isNaN (h : IsNonneg v) : v.isNaN = false := h.1

theorem IsNonneg.rank (h : IsNonneg v) : 0 ≤ v.rank := (isNonneg_iff.mp h).2

/-- A number of the closed unit interval. -/
structure IsFraction (v : Double) : Prop where
  isNaN : v.isNaN = false
  nonneg : 0 ≤ v.rank
  le_one : v.rank ≤ (one : Double).rank

theorem amount_one : (one : Double).amount = 1 := by
  have hbody : double.nearest 1 1 < double.signWeight :=
    Nat.lt_of_le_of_lt (Format.nearest_le_infinity 1 1) Format.infinity_lt_signWeight
  have hamount := Format.amount_nearest (n := 1) (by norm_num)
  rw [Nat.cast_one] at hamount
  rw [← hamount]
  exact congrArg double.amount (body_signed hbody)

theorem IsFraction.amount_le_one (h : IsFraction v) : v.amount ≤ 1 :=
  amount_one ▸ amount_mono h.nonneg h.le_one

theorem IsFraction.finite (h : IsFraction v) : v.rank < double.infinity :=
  lt_of_le_of_lt h.le_one (by decide +kernel)

theorem clampUnit_spec (h : v.isNaN = false) : (clampUnit v).isNaN = false ∧
    (clampUnit v).rank = max 0 (min v.rank (one : Double).rank) := by
  have hnone : (Quantity.none : Double).isNaN = false := isNonneg_none.1
  have hone : (one : Double).isNaN = false := by decide +kernel
  have hpos : (0 : Int) ≤ (one : Double).rank := by decide +kernel
  rw [clampUnit]
  split
  next hlow =>
    have hlow : v.rank < (Quantity.none : Double).rank := (lt_iff.mp hlow).2.2
    rw [rank_none] at hlow ⊢
    exact ⟨hnone, by omega⟩
  next hlow =>
    have hlow : (Quantity.none : Double).rank ≤ v.rank :=
      (lt_eq_false_iff h hnone).mp (Bool.not_eq_true _ ▸ hlow)
    rw [rank_none] at hlow
    split
    next hhigh =>
      have hhigh : (one : Double).rank < v.rank := (lt_iff.mp hhigh).2.2
      exact ⟨hone, by omega⟩
    next hhigh =>
      have hhigh : v.rank ≤ (one : Double).rank :=
        (lt_eq_false_iff hone h).mp (Bool.not_eq_true _ ▸ hhigh)
      exact ⟨h, by omega⟩

theorem isFraction_clampUnit (h : v.isNaN = false) : IsFraction (clampUnit v) := by
  obtain ⟨hn, hrank⟩ := clampUnit_spec h
  have hpos : (0 : Int) ≤ (one : Double).rank := by decide +kernel
  exact ⟨hn, by omega, by omega⟩

theorem clampUnit_mono (hv : v.isNaN = false) (hw : w.isNaN = false) (h : v.rank ≤ w.rank) :
    (clampUnit v).rank ≤ (clampUnit w).rank := by
  rw [(clampUnit_spec hv).2, (clampUnit_spec hw).2]
  omega

end Quantity

namespace Binary

variable {read read' fraction fraction' floor : Double}

/-- What is kept of some rows: a fraction, but not less than the floor or all of them. -/
def kept (read fraction floor : Double) : Double :=
  maximum (read.mul fraction) (minimum read floor)

theorem kept_spec (hr : IsNonneg read) (hs : IsFraction fraction) (hf : IsNonneg floor) :
    IsNonneg (kept read fraction floor) ∧
    min read.rank floor.rank ≤ (kept read fraction floor).rank ∧
    (kept read fraction floor).rank ≤ read.rank := by
  obtain ⟨hleast, hrank⟩ := minimum_spec hr.isNaN hf.isNaN
  have hread := hr.rank
  have hfloor := hf.rank
  rw [isNonneg_iff, kept]
  cases hn : (read.mul fraction).isNaN with
  | true =>
    rw [maximum_of_isNaN hn]
    exact ⟨⟨hleast, by omega⟩, by omega, by omega⟩
  | false =>
    have hproduct := product hread hr.isNaN hs.nonneg hs.finite
    have hle := hproduct.rank_le hread hs.amount_le_one hn
    obtain ⟨hmax, hmaxRank⟩ := maximum_spec hn hleast
    exact ⟨⟨hmax, by omega⟩, by omega, by omega⟩

/-- More rows and a larger fraction of them are kept as more. Nothing of infinitely many rows is no
number, and then the floor alone counts. -/
theorem kept_mono (hr : IsNonneg read) (hs : IsFraction fraction) (hr' : IsNonneg read')
    (hs' : IsFraction fraction') (hf : IsNonneg floor) (h : read.rank ≤ read'.rank)
    (k : fraction.rank ≤ fraction'.rank) :
    (kept read fraction floor).rank ≤ (kept read' fraction' floor).rank := by
  obtain ⟨hleast, hrank⟩ := minimum_spec hr.isNaN hf.isNaN
  obtain ⟨hleast', hrank'⟩ := minimum_spec hr'.isNaN hf.isNaN
  have hproduct := product hr.rank hr.isNaN hs.nonneg hs.finite
  have hproduct' := product hr'.rank hr'.isNaN hs'.nonneg hs'.finite
  have hbelow := (kept_spec hr' hs' hf).2.1
  cases hn : (read.mul fraction).isNaN with
  | true =>
    rw [kept, maximum_of_isNaN hn]
    omega
  | false =>
    have hmax := (maximum_spec hn hleast).2
    cases hn' : (read'.mul fraction').isNaN with
    | true =>
      cases hproduct' with
      | undefined _ hnothing _ =>
        have hzero := hproduct.rank_eq_zero (le_antisymm (hnothing ▸ k) hs.nonneg) hn
        have hfloor := hf.rank
        have hread := hr.rank
        rw [kept, kept, maximum_of_isNaN hn']
        omega
      | infinite _ _ hm _ => cases hm.symm.trans hn'
      | finite _ _ _ _ _ hm _ => cases hm.symm.trans hn'
    | false =>
      have hmax' := (maximum_spec hn' hleast').2
      have hle := hproduct.rank_mono hproduct' hr.rank hs.nonneg h k hn hn'
      rw [kept, kept]
      omega

end Binary

open Binary

/-- The fraction that a filter keeps when so much is known about it. -/
def Settings.keptFraction (settings : Settings Double) (known : Option Double) : Double :=
  clampUnit <| match known with
    | some s => if Quantity.isNaN s then settings.defaultSelectivity else s
    | Option.none => settings.defaultSelectivity

theorem filteredRows_eq_kept (settings : Settings Double) (read : Double) (known : Option Double) :
    filteredRows settings read known = kept (sanitize read) (settings.keptFraction known)
      (sanitize settings.minFilteredRows) := by
  cases known with
  | none => rfl
  | some s => rfl

theorem Settings.keptFraction_some {settings : Settings Double} {s : Double}
    (h : Quantity.isNaN s = false) : settings.keptFraction (some s) = clampUnit s := by
  rw [keptFraction, h]
  rfl

/-- What is known of a filter says the same as before, or says that it keeps no less. -/
inductive Raised : Option Double → Option Double → Prop where
  | same (known : Option Double) : Raised known known
  | more {s s' : Double} (h : s.le s' = true) : Raised (some s) (some s')

section Valid

variable {settings : Settings Double} {read read' : Double} {known known' : Option Double}

theorem isNonneg_minFilteredRows (hv : settings.validate = .ok ()) :
    IsNonneg settings.minFilteredRows := by
  have hfinite := (Settings.validate_eq_ok.mp hv).1
  rw [isAmount, Bool.and_eq_true, Bool.not_eq_true'] at hfinite
  obtain ⟨hfin, hlow⟩ := hfinite
  exact ⟨isNaN_of_isFinite hfin, hlow⟩

theorem isNaN_defaultSelectivity (hv : settings.validate = .ok ()) :
    settings.defaultSelectivity.isNaN = false := by
  have hunit := (Settings.validate_eq_ok.mp hv).2.1
  simp only [inUnit, Bool.and_eq_true, Bool.not_eq_true'] at hunit
  exact hunit.1.1

theorem isFraction_keptFraction (hv : settings.validate = .ok ()) (known : Option Double) :
    IsFraction (settings.keptFraction known) := by
  have hdefault := isFraction_clampUnit (isNaN_defaultSelectivity hv)
  cases known with
  | none => exact hdefault
  | some s =>
    cases hs : Quantity.isNaN s with
    | true =>
      rw [Settings.keptFraction, hs]
      exact hdefault
    | false =>
      rw [Settings.keptFraction_some hs]
      exact isFraction_clampUnit hs

theorem Raised.keptFraction_le (h : Raised known known') :
    (settings.keptFraction known).rank ≤ (settings.keptFraction known').rank := by
  cases h with
  | same => exact le_rfl
  | more hle =>
    obtain ⟨hs, hs', hrank⟩ := le_iff.mp hle
    rw [Settings.keptFraction_some hs, Settings.keptFraction_some hs']
    exact clampUnit_mono hs hs' hrank

theorem filteredRows_spec (hv : settings.validate = .ok ()) (hr : IsNonneg read)
    (known : Option Double) : IsNonneg (filteredRows settings read known) ∧
    min read.rank settings.minFilteredRows.rank ≤ (filteredRows settings read known).rank ∧
    (filteredRows settings read known).rank ≤ read.rank := by
  have hfloor := isNonneg_minFilteredRows hv
  rw [filteredRows_eq_kept, sanitize_of_isNonneg hr, sanitize_of_isNonneg hfloor]
  exact kept_spec hr (isFraction_keptFraction hv known) hfloor

theorem filteredRows_le (hv : settings.validate = .ok ()) (hr : IsNonneg read)
    (hr' : IsNonneg read') (h : read.rank ≤ read'.rank) (k : Raised known known') :
    (filteredRows settings read known).rank ≤ (filteredRows settings read' known').rank := by
  have hfloor := isNonneg_minFilteredRows hv
  rw [filteredRows_eq_kept, filteredRows_eq_kept, sanitize_of_isNonneg hr,
    sanitize_of_isNonneg hr', sanitize_of_isNonneg hfloor]
  exact kept_mono hr (isFraction_keptFraction hv known) hr' (isFraction_keptFraction hv known')
    hfloor h k.keptFraction_le

end Valid

/-- The rows that come through filters, of which the last reads first. -/
def Settings.through (settings : Settings Double) (read : Double) : List (Option Double) → Double
  | [] => read
  | known :: below => filteredRows settings (settings.through read below) known

section Through

variable {settings : Settings Double} {read read' : Double} {known known' : List (Option Double)}

theorem through_spec (hv : settings.validate = .ok ()) (hr : IsNonneg read)
    (known : List (Option Double)) : IsNonneg (settings.through read known) ∧
    min read.rank settings.minFilteredRows.rank ≤ (settings.through read known).rank ∧
    (settings.through read known).rank ≤ read.rank := by
  induction known with
  | nil => exact ⟨hr, min_le_left _ _, le_rfl⟩
  | cons known below ih =>
    obtain ⟨hbelow, hlow, hhigh⟩ := ih
    obtain ⟨hkept, hleast, hmost⟩ := filteredRows_spec hv hbelow known
    refine ⟨hkept, ?_, hmost.trans hhigh⟩
    rw [Settings.through]
    omega

/-- More rows, and filters that keep no less of them. -/
theorem through_le_of_raised (hv : settings.validate = .ok ()) (hr : IsNonneg read)
    (hr' : IsNonneg read') (h : read.rank ≤ read'.rank) (k : List.Forall₂ Raised known known') :
    (settings.through read known).rank ≤ (settings.through read' known').rank := by
  induction k with
  | nil => exact h
  | cons first rest ih =>
    exact filteredRows_le hv (through_spec hv hr _).1 (through_spec hv hr' _).1 ih first

/-- A filter that is put in reads what was read there before, and the filters after it read less. -/
theorem through_le_of_sublist (hv : settings.validate = .ok ()) (hr : IsNonneg read)
    (k : known.Sublist known') :
    (settings.through read known').rank ≤ (settings.through read known).rank := by
  induction k with
  | slnil => exact le_rfl
  | cons added rest ih =>
    exact (filteredRows_spec hv (through_spec hv hr _).1 added).2.2.trans ih
  | cons_cons first rest ih =>
    exact filteredRows_le hv (through_spec hv hr _).1 (through_spec hv hr _).1 ih (.same first)

end Through

namespace Estimates

/-- Every scan of the plan reads so many rows. -/
def Reads {ν : Type} (m : Estimates ν) (p : Plan) (read : ν) : Prop :=
  ∀ q ∈ p.nodes, q.kind = .scan → m.scanRows q = .ok read

/-- What is known about each filter of a plan, from the top down. -/
def answers {ν : Type} (m : Estimates ν) : Plan → List (Option ν)
  | .node _ (.filter predicate) [input] => m.selectivity input predicate :: m.answers input
  | .node _ _ [input] => m.answers input
  | _ => []

variable {m : Estimates Double} {p : Plan} {read : Double}

/-- Of the nodes of a chain only the filters change how many rows there are. -/
theorem rows_eq_through (hc : p.Chain) (hr : m.Reads p read) :
    m.rows p = .ok (m.settings.through read (m.answers p)) := by
  induction hc with
  | scan t container s =>
    rw [rows]
    exact hr _ (Plan.mem_nodes_self _) rfl
  | node t op input one below ih =>
    have hbelow := ih fun q hq => hr q (by simp [hq])
    rw [rows_over one hbelow]
    cases op with
    | scan container s => cases one
    | filter predicate => rw [answers, rowsOver, Settings.through]
    | project exprs declared => simp only [answers, rowsOver]
    | root => simp only [answers, rowsOver]

/-- In a chain of filters, projections and roots every node is estimated to have at most the rows of
the scan and at least the floor or all of them, so that none is estimated empty over rows if the
floor is not. More filters do not keep more, and more rows or a higher selectivity are not kept as
fewer. -/
theorem filters_bounded_and_monotone (hv : m.settings.validate = .ok ()) (hc : p.Chain)
    (hm : m.Reads p read) (hr : IsNonneg read) :
    (∀ q ∈ p.nodes, ∃ n, m.rows q = .ok n ∧
      (min read m.settings.minFilteredRows).le n = true ∧ n.le read = true ∧
      (below Quantity.none m.settings.minFilteredRows = true → below Quantity.none read = true →
        below Quantity.none n = true)) ∧
    ∀ (m' : Estimates Double) (p' : Plan) (read' : Double), m'.settings = m.settings → p'.Chain →
      m'.Reads p' read' → ∃ n n', m.rows p = .ok n ∧ m'.rows p' = .ok n' ∧
        (read' = read → (m.answers p).Sublist (m'.answers p') → n'.le n = true) ∧
        (read.le read' = true → List.Forall₂ Raised (m.answers p) (m'.answers p') →
          n.le n' = true) := by
  have hfloor := isNonneg_minFilteredRows hv
  constructor
  · intro q hq
    obtain ⟨hchain, hsub⟩ := hc.of_mem_nodes hq
    obtain ⟨hn, hlow, hhigh⟩ := through_spec hv hr (m.answers q)
    obtain ⟨hleast, hrank⟩ := minimum_spec hr.isNaN hfloor.isNaN
    refine ⟨_, rows_eq_through hchain fun r hr => hm r (hsub hr), ?_, ?_, ?_⟩
    · exact le_iff.mpr ⟨hleast, hn.isNaN, hrank ▸ hlow⟩
    · exact le_iff.mpr ⟨hn.isNaN, hr.isNaN, hhigh⟩
    · intro hpos hsome
      have hpos := (lt_iff.mp hpos).2.2
      have hsome := (lt_iff.mp hsome).2.2
      exact lt_iff.mpr ⟨isNonneg_none.1, hn.isNaN, by omega⟩
  · intro m' p' read' hsame hc' hm'
    have hrows' := rows_eq_through hc' hm'
    rw [hsame] at hrows'
    refine ⟨_, _, rows_eq_through hc hm, hrows', ?_, ?_⟩
    · rintro rfl hsublist
      exact le_iff.mpr ⟨(through_spec hv hr _).1.isNaN, (through_spec hv hr _).1.isNaN,
        through_le_of_sublist hv hr hsublist⟩
    · intro hle hraised
      obtain ⟨-, hnan, hrank⟩ := le_iff.mp hle
      have hr' : IsNonneg read' := isNonneg_iff.mpr ⟨hnan, hr.rank.trans hrank⟩
      exact le_iff.mpr ⟨(through_spec hv hr _).1.isNaN, (through_spec hv hr' _).1.isNaN,
        through_le_of_raised hv hr hr' hrank hraised⟩

/-- A filter that keeps no rows of a thousand, put over one about which no number is known: fewer
rows come through both, but some do. -/
theorem filters_bounded_and_monotone_emptied : ∃ n n' : Double,
    (fixed .default (ofNat 1000) (some .nan)).rows (.gatheredOrders .root) = .ok n ∧
    (fixed .default (ofNat 1000) (some .nan)).rows
      (.node ⟨.physical, .root⟩ (.filter (.literal (.bool false))) [.gatheredOrders .root]) =
        .ok n' ∧
    n'.le n = true ∧ below Quantity.none n' = true := by
  have hread : IsNonneg (ofNat 1000 : Double) := ⟨by decide +kernel, by decide +kernel⟩
  have hchain := (Plan.gatheredOrders_arity .root).chain
  have hemptied :=
    Plan.Chain.node ⟨.physical, .root⟩ (.filter (.literal (.bool false))) _ rfl hchain
  obtain ⟨-, hmono⟩ := filters_bounded_and_monotone
    (m := fixed .default (ofNat 1000) (some .nan)) rfl hchain (fun _ _ _ => rfl) hread
  obtain ⟨hbounds, -⟩ := filters_bounded_and_monotone
    (m := fixed .default (ofNat 1000) (some .nan)) rfl hemptied (fun _ _ _ => rfl) hread
  obtain ⟨n, n', hn, hn', hfewer, -⟩ :=
    hmono (fixed .default (ofNat 1000) (some .nan)) _ _ rfl hemptied fun _ _ _ => rfl
  obtain ⟨top, htop, -, -, hsome⟩ := hbounds _ (Plan.mem_nodes_self _)
  cases hn'.symm.trans htop
  exact ⟨n, n', hn, hn', hfewer rfl (.cons _ (.refl _)),
    hsome (by decide +kernel) (by decide +kernel)⟩

end Estimates

end FlowPlan
