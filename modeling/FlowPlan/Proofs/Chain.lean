import FlowPlan.Plan.Defaults
import Mathlib

namespace FlowPlan

/-- A scan needs no input, every other operator one. -/
theorem Operator.scan_or_over (op : Operator) :
    (∃ container s, op = .scan container s) ∨ op.arity = 1 := by
  cases op with
  | scan container s => exact .inl ⟨container, s, rfl⟩
  | filter predicate => exact .inr rfl
  | project exprs rowType => exact .inr rfl
  | root => exact .inr rfl

namespace Plan

/-- Every node has as many inputs as its operator needs. -/
def ArityCorrect (p : Plan) : Prop := ∀ q ∈ p.nodes, q.inputs.length = q.op.arity

/-- Every node has one and the same convention. -/
def AllIn (c : Convention) (p : Plan) : Prop := ∀ q ∈ p.nodes, q.convention = c

/-- One scan, with any number of other operators stacked over it. -/
inductive Chain : Plan → Prop where
  | scan (t : Traits) (container : String) (s : Schema) : Chain (.node t (.scan container s) [])
  | node (t : Traits) (op : Operator) (input : Plan) (one : op.arity = 1) (below : Chain input) :
      Chain (.node t op [input])

@[simp] theorem nodes_scan (t : Traits) (op : Operator) :
    (Plan.node t op []).nodes = [.node t op []] := by rw [nodes, nodesOf]

@[simp] theorem nodes_over (t : Traits) (op : Operator) (input : Plan) :
    (Plan.node t op [input]).nodes = .node t op [input] :: input.nodes := by
  rw [nodes, nodesOf, nodesOf, List.append_nil]

theorem mem_nodes_self (p : Plan) : p ∈ p.nodes := by
  cases p
  rw [nodes]
  exact List.mem_cons_self

theorem ArityCorrect.below {t : Traits} {op : Operator} {input : Plan}
    (h : ArityCorrect (.node t op [input])) : ArityCorrect input := by
  intro q hq
  exact h q (by simp [hq])

theorem AllIn.below {c : Convention} {t : Traits} {op : Operator} {input : Plan}
    (h : AllIn c (.node t op [input])) : AllIn c input := by
  intro q hq
  exact h q (by simp [hq])

theorem AllIn.top {c : Convention} {p : Plan} (h : AllIn c p) : p.convention = c :=
  h p (mem_nodes_self p)

/-- No operator needs more than one input, so a plan that satisfies its operators is a chain. -/
theorem ArityCorrect.chain : {p : Plan} → ArityCorrect p → Chain p
  | .node t op inputs, h => by
    have harity : inputs.length = op.arity := h _ (mem_nodes_self _)
    rcases op.scan_or_over with ⟨container, s, rfl⟩ | one
    · obtain rfl := List.length_eq_zero_iff.mp harity
      exact .scan t container s
    · match inputs with
      | [input] => exact .node t op input one (ArityCorrect.chain h.below)
      | [] => simp [one] at harity
      | _ :: _ :: _ => simp [one] at harity

/-- What stands over a node of a chain is not needed below it. -/
theorem Chain.of_mem_nodes {p q : Plan} (h : Chain p) (hq : q ∈ p.nodes) :
    Chain q ∧ q.nodes ⊆ p.nodes := by
  induction h with
  | scan t container s =>
    rw [nodes_scan, List.mem_singleton] at hq
    subst hq
    exact ⟨.scan t container s, List.Subset.refl _⟩
  | node t op input one below ih =>
    rw [nodes_over, List.mem_cons] at hq
    rcases hq with rfl | hq
    · exact ⟨.node t op input one below, List.Subset.refl _⟩
    · obtain ⟨hchain, hsub⟩ := ih hq
      rw [nodes_over]
      exact ⟨hchain, List.subset_cons_of_subset _ hsub⟩

mutual

/-- The plan with every node logical and still placed where it was. -/
def logicalForm : Plan → Plan
  | .node t op inputs => .node { t with convention := .logical } op (logicalForms inputs)

def logicalForms : List Plan → List Plan
  | [] => []
  | p :: rest => logicalForm p :: logicalForms rest

end

mutual

/-- The plan with every node physical and placed by the default rules. -/
def physicalForm : Plan → Plan
  | .node _ op inputs =>
    let found := physicalForms inputs
    .node ⟨.physical, physicalDistribution op.kind found⟩ op found

def physicalForms : List Plan → List Plan
  | [] => []
  | p :: rest => physicalForm p :: physicalForms rest

end

@[simp] theorem logicalForm_scan (t : Traits) (op : Operator) :
    logicalForm (.node t op []) = .node { t with convention := .logical } op [] := by
  rw [logicalForm, logicalForms]

@[simp] theorem logicalForm_over (t : Traits) (op : Operator) (input : Plan) :
    logicalForm (.node t op [input]) =
      .node { t with convention := .logical } op [logicalForm input] := by
  rw [logicalForm, logicalForms, logicalForms]

@[simp] theorem physicalForm_scan (t : Traits) (op : Operator) :
    physicalForm (.node t op []) = .node ⟨.physical, physicalDistribution op.kind []⟩ op [] := by
  rw [physicalForm, physicalForms]

@[simp] theorem physicalForm_over (t : Traits) (op : Operator) (input : Plan) :
    physicalForm (.node t op [input]) =
      .node ⟨.physical, physicalDistribution op.kind [physicalForm input]⟩ op
        [physicalForm input] := by
  rw [physicalForm, physicalForms, physicalForms]

/-- Where a plan's rows were placed before is forgotten on the way to the physical form. -/
theorem Chain.physicalForm_logicalForm {p : Plan} (h : Chain p) :
    p.logicalForm.physicalForm = p.physicalForm := by
  induction h with
  | scan t container s => simp
  | node t op input one below ih => simp [ih]

theorem Chain.size_logicalForm {p : Plan} (h : Chain p) : p.logicalForm.size = p.size := by
  induction h with
  | scan t container s => rw [logicalForm_scan, size, size]
  | node t op input one below ih => simp only [logicalForm_over, size, sizes, ih]

theorem Chain.logicalForm {p : Plan} (h : Chain p) : Chain p.logicalForm := by
  induction h with
  | scan t container s =>
    rw [logicalForm_scan]
    exact .scan _ container s
  | node t op input one below ih =>
    rw [logicalForm_over]
    exact .node _ op _ one ih

theorem Chain.logicalForm_allIn {p : Plan} (h : Chain p) : AllIn .logical p.logicalForm := by
  induction h with
  | scan t container s =>
    intro q hq
    simp only [logicalForm_scan, nodes_scan, List.mem_singleton] at hq
    subst q
    rfl
  | node t op input one below ih =>
    intro q hq
    simp only [logicalForm_over, nodes_over, List.mem_cons] at hq
    rcases hq with rfl | hq
    · rfl
    · exact ih q hq

theorem physicalForm_convention (p : Plan) : p.physicalForm.convention = .physical := by
  cases p
  rw [physicalForm]
  rfl

end Plan

end FlowPlan
