import FlowPlan.Proofs.Costing
import FlowPlan.Proofs.Stages

namespace FlowPlan

open Outcome

namespace Quantity

variable {ν : Type} [Quantity ν]

/-- Neither NaN nor below zero. -/
def IsNonneg (v : ν) : Prop := isNaN v = false ∧ below v none = false

theorem sanitize_of_isNonneg {v : ν} (h : IsNonneg v) : sanitize v = v := by
  simp [sanitize, h.1, h.2]

theorem isNonneg_none : IsNonneg (none : Double) := ⟨by decide +kernel, by decide +kernel⟩

theorem isNonneg_sanitize (v : Double) : IsNonneg (sanitize v) := by
  rw [sanitize]
  split
  next => exact isNonneg_none
  next h => simpa [IsNonneg] using h

theorem sanitize_sanitize (v : Double) : sanitize (sanitize v) = sanitize v :=
  sanitize_of_isNonneg (isNonneg_sanitize v)

end Quantity

open Quantity

namespace Cost

/-- No part is NaN or below zero. -/
structure Proper (a : Cost Double) : Prop where
  rows : IsNonneg a.rows
  cpu : IsNonneg a.cpu
  io : IsNonneg a.io

theorem proper_make (rows cpu io : Double) : (make rows cpu io).Proper :=
  ⟨isNonneg_sanitize rows, isNonneg_sanitize cpu, isNonneg_sanitize io⟩

end Cost

namespace Estimates

variable {m : Estimates Double} {p input : Plan} {t : Traits} {op : Operator} {read : Double}

/-- What an operator over an input is charged, by what the input is charged. -/
def ChargedOver (m : Estimates Double) (own below : Cost Double) : Operator → Prop
  | .scan .. => False
  | .filter _ => own.cpu = below.rows
  | .project exprs _ => own.rows = below.rows ∧ own.cpu =
      sanitize (below.rows * ofNat (max exprs.length 1) * m.settings.projectCpuPerExpr)
  | .root => own.rows = below.rows ∧ own.cpu = below.rows

theorem proper_chargeOver : (m.chargeOver input read op).Proper := by
  cases op <;> exact Cost.proper_make _ _ _

/-- An operator is charged for the rows that it is estimated to let out. -/
theorem rows_chargeOver :
    (m.chargeOver input read op).rows = sanitize (m.rowsOver input read op) := by
  cases op with
  | project exprs declared => exact sanitize_sanitize read
  | _ => rfl

theorem io_chargeOver : (m.chargeOver input read op).io = Quantity.none := by
  cases op <;> exact sanitize_of_isNonneg isNonneg_none

theorem chargedOver_chargeOver {below : Cost Double} (one : op.arity = 1)
    (h : below.rows = sanitize read) : m.ChargedOver (m.chargeOver input read op) below op := by
  cases op with
  | scan container s => cases one
  | filter predicate => exact (sanitize_sanitize read).trans h.symm
  | project exprs declared =>
    rw [ChargedOver, h]
    exact ⟨sanitize_sanitize read, rfl⟩
  | root => exact ⟨h.symm, h.symm⟩

/-- A node with its estimate, its charge and the cost of the plan that it tops. -/
structure Charged (m : Estimates Double) (p : Plan) (rows : Double) (own total : Cost Double) :
    Prop where
  estimated : m.rows p = .ok rows
  charged : m.selfCost p = .ok own
  summed : m.cost p = .ok total
  rows_eq : own.rows = sanitize rows
  scan : p.kind = .scan → own.cpu = own.rows ∧ own.io = own.rows
  io : p.kind ≠ .scan → own.io = Quantity.none
  reads : ∀ t op input, p = .node t op [input] →
    ∃ below, m.selfCost input = .ok below ∧ m.ChargedOver own below op
  own_proper : own.Proper
  total_proper : total.Proper

theorem charged_scan {container : String} {s : Schema} {n : Double}
    (ht : t.convention = .physical) (h : m.scanRows (.node t (.scan container s) []) = .ok n) :
    m.Charged (.node t (.scan container s) []) n (.make n n n) (.make n n n) where
  estimated := by rw [rows, h]
  charged := by
    simp [selfCost, Plan.isPhysical, Plan.convention, Plan.traits, ht, Plan.op, rows, h]
  summed := cost_scan_eq_ok.mpr ⟨ht, n, h, rfl⟩
  rows_eq := rfl
  scan _ := ⟨rfl, rfl⟩
  io hk := absurd rfl hk
  reads t op input h := by cases h
  own_proper := Cost.proper_make n n n
  total_proper := Cost.proper_make n n n

theorem Charged.node {own total : Cost Double} (one : op.arity = 1) (ht : t.convention = .physical)
    (h : m.Charged input read own total) :
    m.Charged (.node t op [input]) (m.rowsOver input read op) (m.chargeOver input read op)
      ((m.chargeOver input read op).plus total) where
  estimated := rows_over one h.estimated
  charged := selfCost_over one ht h.estimated
  summed := (cost_over_eq_ok one).mpr ⟨ht, read, total, h.estimated, h.summed, rfl⟩
  rows_eq := rows_chargeOver
  scan hk := by
    cases op with
    | scan container s => cases one
    | _ => cases hk
  io _ := io_chargeOver
  reads u other below heq := by
    cases heq
    exact ⟨own, h.charged, chargedOver_chargeOver one h.rows_eq⟩
  own_proper := proper_chargeOver
  total_proper := Cost.proper_make _ _ _

/-- By induction on the chain, from the scan upward. -/
theorem exists_charged (hc : p.Chain) (hp : p.AllIn .physical) (hm : m.Counts p) :
    ∃ rows own total, m.Charged p rows own total := by
  induction hc with
  | scan t container s =>
    obtain ⟨n, hn⟩ := hm _ (Plan.mem_nodes_self _) rfl
    exact ⟨n, _, _, charged_scan hp.top hn⟩
  | node t op input one below ih =>
    obtain ⟨rows, own, total, h⟩ := ih hp.below (Plan.counts_below hm)
    exact ⟨_, _, _, h.node one hp.top⟩

/-- Every node of a physical plan has an estimate, a charge and a cost if the rows of the scan are
known. The rows that it is charged for making are its estimate, those that it is charged for reading
are what its input is charged for making, only a scan is charged input/output, and no part of a
charge or of a cost is NaN or negative. -/
theorem charged_as_estimated (ha : p.ArityCorrect) (hp : p.AllIn .physical) (hm : m.Counts p) :
    ∀ q ∈ p.nodes, ∃ rows own total, m.Charged q rows own total := by
  intro q hq
  obtain ⟨hchain, hsub⟩ := ha.chain.of_mem_nodes hq
  exact exists_charged hchain (fun r hr => hp r (hsub hr)) fun r hr => hm r (hsub hr)

/-- Settings and answers that mean nothing: the rows of scans, the floor and the charge of an
expression are NaN or infinite, and so are selectivities. -/
def boundless : Estimates Double where
  settings := { (Settings.default : Settings Double) with
    minFilteredRows := .nan, projectCpuPerExpr := .infinity true }
  scanRows _ := .ok (.infinity false)
  selectivity _ _ := some .nan

/-- Even so the projection reads what the filter below it makes, and nothing costs less than zero. -/
theorem charged_as_estimated_boundless : ∃ (filter : Plan) (own below total : Cost Double),
    (Plan.gatheredOrders .root).input = .ok filter ∧
    boundless.selfCost (.gatheredOrders .root) = .ok own ∧ boundless.selfCost filter = .ok below ∧
    own.rows = below.rows ∧ boundless.cost (.gatheredOrders .root) = .ok total ∧ total.Proper := by
  have hphysical : (Plan.gatheredOrders .root).AllIn .physical := by
    intro q hq
    simp only [Plan.gatheredOrders, Plan.nodes_over, Plan.nodes_scan, List.mem_cons,
      List.not_mem_nil, or_false] at hq
    rcases hq with rfl | rfl | rfl <;> rfl
  have hall := charged_as_estimated (Plan.gatheredOrders_arity .root) hphysical
    (m := boundless) fun q _ _ => ⟨_, rfl⟩
  obtain ⟨_, own, total, h⟩ := hall _ (Plan.mem_nodes_self _)
  obtain ⟨below, hbelow, hrows, -⟩ := h.reads _ _ _ rfl
  exact ⟨_, own, below, total, rfl, h.charged, hbelow, hrows, h.summed, h.total_proper⟩

end Estimates

end FlowPlan
