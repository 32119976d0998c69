import FlowPlan.Estimate.Cost
import FlowPlan.Proofs.Conventions

namespace FlowPlan

open Outcome

/-- Settings are valid if everything that estimates and charges are computed from is an amount, or a
fraction. -/
theorem Settings.validate_eq_ok {ν : Type} [Quantity ν] {s : Settings ν} :
    s.validate = .ok () ↔ Quantity.isAmount s.minFilteredRows = true ∧
      Quantity.inUnit s.defaultSelectivity = true ∧
      Quantity.isAmount s.projectCpuPerExpr = true ∧ s.parallelism ≠ some 0 := by
  rw [validate]
  cases Quantity.isAmount s.minFilteredRows <;> cases Quantity.inUnit s.defaultSelectivity <;>
    cases Quantity.isAmount s.projectCpuPerExpr <;> simp

namespace Estimates

variable {ν : Type}

/-- The rows that every scan of a plan reads are known. -/
def Counts (m : Estimates ν) (p : Plan) : Prop :=
  ∀ q ∈ p.nodes, q.kind = .scan → ∃ n, m.scanRows q = .ok n

variable [Quantity ν]

/-- The rows that leave an operator over an input with `read` of them. -/
def rowsOver (m : Estimates ν) (input : Plan) (read : ν) : Operator → ν
  | .filter predicate => filteredRows m.settings read (m.selectivity input predicate)
  | _ => read

/-- What an operator over an input with `read` rows is charged. -/
def chargeOver (m : Estimates ν) (input : Plan) (read : ν) : Operator → Cost ν
  | .filter predicate =>
    .make (m.rowsOver input read (.filter predicate)) (Quantity.sanitize read) Quantity.none
  | .project exprs _ =>
    .make (Quantity.sanitize read) (Quantity.sanitize read * Quantity.ofNat (max exprs.length 1) *
      m.settings.projectCpuPerExpr) Quantity.none
  | _ => .make read read Quantity.none

variable {m : Estimates ν} {t : Traits} {op : Operator} {input : Plan} {read : ν} {c : Cost ν}

theorem rows_over (one : op.arity = 1) (h : m.rows input = .ok read) :
    m.rows (.node t op [input]) = .ok (m.rowsOver input read op) := by
  cases op with
  | scan container s => cases one
  | filter predicate => rw [rows, h, ok_bind, pure_eq_ok, rowsOver]
  | project exprs declared => simp only [rows, h, rowsOver]
  | root => simp only [rows, h, rowsOver]

theorem selfCost_over (one : op.arity = 1) (ht : t.convention = .physical)
    (h : m.rows input = .ok read) :
    m.selfCost (.node t op [input]) = .ok (m.chargeOver input read op) := by
  have hphysical : (Plan.node t op [input]).isPhysical = true := by
    simp [Plan.isPhysical, Plan.convention, Plan.traits, ht]
  have hread : m.inputRows (.node t op [input]) = .ok read := h
  simp only [selfCost, hphysical, Bool.not_true, Bool.false_eq_true, ↓reduceIte]
  cases op with
  | scan container s => cases one
  | filter predicate =>
    have hrows := rows_over (t := t) one h
    simp only [Plan.op, hread, hrows, ok_bind, pure_eq_ok, chargeOver]
  | project exprs declared => simp only [Plan.op, hread, ok_bind, pure_eq_ok, chargeOver]
  | root => simp only [Plan.op, hread, ok_bind, pure_eq_ok, chargeOver]

/-- An operator over an input has a cost of its own if it is physical and the rows of the input are
known. -/
theorem selfCost_over_eq_ok (one : op.arity = 1) : m.selfCost (.node t op [input]) = .ok c ↔
    t.convention = .physical ∧ ∃ read, m.rows input = .ok read ∧ m.chargeOver input read op = c := by
  constructor
  · intro h
    have hphysical : t.convention = .physical := by
      by_contra hne
      simp [selfCost, Plan.isPhysical, Plan.convention, Plan.traits, hne] at h
    cases hrows : m.rows input with
    | ok read =>
      rw [selfCost_over one hphysical hrows] at h
      exact ⟨hphysical, read, rfl, Except.ok.inj h⟩
    | error e =>
      have hread : m.inputRows (.node t op [input]) = .error e := hrows
      simp only [selfCost, Plan.isPhysical, Plan.convention, Plan.traits, hphysical,
        beq_self_eq_true, Bool.not_true, Bool.false_eq_true, ↓reduceIte, Plan.op] at h
      cases op with
      | scan container s => cases one
      | filter predicate => simp [hread] at h
      | project exprs declared => simp [hread] at h
      | root => simp [hread] at h
  · rintro ⟨hphysical, read, hread, rfl⟩
    exact selfCost_over one hphysical hread

/-- The cost of a plan over an input is what its operator is charged and the cost of the input. -/
theorem cost_over_eq_ok (one : op.arity = 1) : m.cost (.node t op [input]) = .ok c ↔
    t.convention = .physical ∧ ∃ read below, m.rows input = .ok read ∧ m.cost input = .ok below ∧
      (m.chargeOver input read op).plus below = c := by
  have hsum : ∀ own, m.addCosts own [input] = (do
      let below ← m.cost input
      pure (own.plus below)) := by
    intro own
    simp only [addCosts, pure_eq_ok]
  rw [cost]
  constructor
  · intro h
    obtain ⟨own, hown, h⟩ := bind_eq_ok.mp h
    rw [hsum] at h
    obtain ⟨below, hbelow, h⟩ := bind_eq_ok.mp h
    obtain ⟨hphysical, read, hread, rfl⟩ := (selfCost_over_eq_ok one).mp hown
    exact ⟨hphysical, read, below, hread, hbelow, Except.ok.inj h⟩
  · rintro ⟨hphysical, read, below, hread, hbelow, rfl⟩
    rw [selfCost_over one hphysical hread, ok_bind, hsum, hbelow, ok_bind, pure_eq_ok]

/-- The cost of a scan is what reading its rows is charged. -/
theorem cost_scan_eq_ok {container : String} {s : Schema} :
    m.cost (.node t (.scan container s) []) = .ok c ↔ t.convention = .physical ∧
      ∃ n, m.scanRows (.node t (.scan container s) []) = .ok n ∧ Cost.make n n n = c := by
  rw [cost]
  by_cases ht : t.convention = .physical
  · simp [selfCost, Plan.isPhysical, Plan.convention, Plan.traits, ht, Plan.op, rows, addCosts,
      bind_eq_ok]
  · simp [selfCost, Plan.isPhysical, Plan.convention, Plan.traits, ht]

end Estimates

namespace Plan

variable {ν : Type} {m : Estimates ν} {p input : Plan} {t : Traits} {op : Operator}

theorem counts_below (h : m.Counts (.node t op [input])) : m.Counts input :=
  fun q hq => h q (by simp [hq])

variable [Quantity ν]

theorem Chain.rows_eq_ok (hc : Chain p) (hm : m.Counts p) : ∃ n, m.rows p = .ok n := by
  induction hc with
  | scan t container s =>
    rw [Estimates.rows]
    exact hm _ (mem_nodes_self _) rfl
  | node t op input one below ih =>
    obtain ⟨n, hn⟩ := ih (counts_below hm)
    exact ⟨_, Estimates.rows_over one hn⟩

/-- A physical chain has a cost, that of each node and of all below it. -/
theorem Chain.cost_eq_ok (hc : Chain p) (hp : AllIn .physical p) (hm : m.Counts p) :
    ∃ c, m.cost p = .ok c := by
  induction hc with
  | scan t container s =>
    obtain ⟨n, hn⟩ := hm _ (mem_nodes_self _) rfl
    exact ⟨_, Estimates.cost_scan_eq_ok.mpr ⟨hp.top, n, hn, rfl⟩⟩
  | node t op input one below ih =>
    obtain ⟨c, hcost⟩ := ih hp.below (counts_below hm)
    obtain ⟨read, hread⟩ := below.rows_eq_ok (counts_below hm)
    exact ⟨_, (Estimates.cost_over_eq_ok one).mpr ⟨hp.top, read, c, hread, hcost, rfl⟩⟩

end Plan

end FlowPlan
