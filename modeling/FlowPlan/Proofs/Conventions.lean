import FlowPlan.Proofs.Chain
import FlowPlan.Proofs.Outcome
import FlowPlan.Plan.Check

namespace FlowPlan

open Outcome

theorem Convention.acceptsInput_iff {c d : Convention} :
    c.acceptsInput d = true ↔ c = .unset ∨ c = d := by
  cases c <;> simp [acceptsInput]

namespace Plan

variable {c : Convention} {t : Traits} {op : Operator} {input p : Plan}

theorem allIn_over : AllIn c (.node t op [input]) ↔ t.convention = c ∧ AllIn c input := by
  rw [AllIn, nodes_over, List.forall_mem_cons]
  rfl

@[simp] theorem checkConventions_scan : (Plan.node t op []).checkConventions = .ok () := by
  rw [checkConventions, checkInputs]

theorem checkConventions_over : (Plan.node t op [input]).checkConventions = .ok () ↔
    (t.convention = .unset ∨ t.convention = input.convention) ∧
      input.checkConventions = .ok () := by
  rw [checkConventions, checkInputs, checkInputs, ← Convention.acceptsInput_iff]
  cases t.convention.acceptsInput input.convention with
  | false => simp
  | true =>
    cases input.checkConventions with
    | error e => simp
    | ok u => simp

/-- Below a node that something has been decided about everything is where the node is. -/
theorem Chain.allIn_of_check (hc : Chain p) (hv : p.checkConventions = .ok ())
    (hd : p.convention ≠ .unset) : AllIn p.convention p := by
  induction hc with
  | scan t container s => simp [AllIn]
  | node t op input one below ih =>
    obtain ⟨haccepts, hbelow⟩ := checkConventions_over.mp hv
    have hsame : t.convention = input.convention := haccepts.resolve_left hd
    refine allIn_over.mpr ⟨rfl, ?_⟩
    have hinput := ih hbelow (hsame ▸ hd)
    rw [← hsame] at hinput
    exact hinput

theorem Chain.check_of_allIn (hc : Chain p) (h : AllIn c p) : p.checkConventions = .ok () := by
  induction hc with
  | scan t container s => exact checkConventions_scan
  | node t op input one below ih =>
    obtain ⟨htop, hbelow⟩ := allIn_over.mp h
    exact checkConventions_over.mpr ⟨.inr (htop.trans hbelow.top.symm), ih hbelow⟩

/-- A logical chain is its own logical form. -/
theorem Chain.logicalForm_of_allIn (hc : Chain p) (h : AllIn .logical p) : p.logicalForm = p := by
  induction hc with
  | scan t container s =>
    have ht : t.convention = .logical := h.top
    rw [logicalForm_scan, ← ht]
  | node t op input one below ih =>
    obtain ⟨ht, hbelow⟩ := allIn_over.mp h
    rw [logicalForm_over, ih hbelow, ← ht]

end Plan

end FlowPlan
