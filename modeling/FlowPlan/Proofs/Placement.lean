import FlowPlan.Proofs.Conversion

namespace FlowPlan

open Outcome

namespace Plan

mutual

/-- The operators of a plan where they are, with nothing decided about any of them. -/
def outline : Plan → Plan
  | .node _ op inputs => .node .undecided op (outlines inputs)

def outlines : List Plan → List Plan
  | [] => []
  | p :: rest => outline p :: outlines rest

end

/-- The node is placed as its operator wants it: a scan reads partitions where they are, a root
gathers, and whatever is between stays where its input is. -/
def Placed : Plan → Prop
  | .node t (.scan _ _) _ => t.distribution = .partitioned
  | .node t .root _ => t.distribution = .root
  | .node t (.filter _) inputs => ∃ input, inputs = [input] ∧ t.distribution = input.distribution
  | .node t (.project _ _) inputs => ∃ input, inputs = [input] ∧ t.distribution = input.distribution

variable {t : Traits} {op : Operator} {input p q : Plan}

@[simp] theorem outline_scan : (Plan.node t op []).outline = .node .undecided op [] := by
  rw [outline, outlines]

@[simp] theorem outline_over :
    (Plan.node t op [input]).outline = .node .undecided op [input.outline] := by
  rw [outline, outlines, outlines]

theorem Chain.outline_logicalForm (h : Chain p) : p.logicalForm.outline = p.outline := by
  induction h with
  | scan t container s => simp
  | node t op input one below ih => simp [ih]

theorem Chain.outline_physicalForm (h : Chain p) : p.physicalForm.outline = p.outline := by
  induction h with
  | scan t container s => simp
  | node t op input one below ih => simp [ih]

/-- The declared columns are those of the operators. -/
theorem Chain.rowType_outline (h : Chain p) : p.outline.rowType = p.rowType := by
  induction h with
  | scan t container s => rw [outline_scan, rowType, rowType]
  | node t op input one below ih =>
    rw [outline_over]
    cases op with
    | scan container s => cases one
    | filter predicate => rw [rowType, rowType, ih]
    | project exprs declared => rw [rowType, rowType]
    | root => rw [rowType, rowType, ih]

theorem Chain.distributions_logicalForm (h : Chain p) :
    p.logicalForm.nodes.map (·.distribution) = p.nodes.map (·.distribution) := by
  induction h with
  | scan t container s => simp [distribution, traits]
  | node t op input one below ih => simpa [distribution, traits] using ih

theorem Chain.physicalForm (h : Chain p) : Chain p.physicalForm := by
  induction h with
  | scan t container s =>
    rw [physicalForm_scan]
    exact .scan _ container s
  | node t op input one below ih =>
    rw [physicalForm_over]
    exact .node _ op _ one ih

theorem Chain.physicalForm_allIn (h : Chain p) : AllIn .physical p.physicalForm := by
  induction h with
  | scan t container s => simp [AllIn, convention, traits]
  | node t op input one below ih =>
    rw [physicalForm_over]
    exact allIn_over.mpr ⟨rfl, ih⟩

theorem Chain.physicalForm_placed (h : Chain p) : ∀ r ∈ p.physicalForm.nodes, r.Placed := by
  induction h with
  | scan t container s => simp [Placed, physicalDistribution, Operator.kind]
  | node t op input one below ih =>
    rw [physicalForm_over, nodes_over, List.forall_mem_cons]
    refine ⟨?_, ih⟩
    cases op with
    | scan container s => cases one
    | filter predicate => exact ⟨_, rfl, rfl⟩
    | project exprs declared => exact ⟨_, rfl, rfl⟩
    | root => rfl

end Plan

/-- The form that the default rules give a plan at a stage. -/
def Plan.formAt (p : Plan) : Convention → Plan
  | .unset => p
  | .logical => p.logicalForm
  | .physical => p.physicalForm

namespace Plan.Chain

variable {p : Plan} {target : Convention}

theorem formAt (h : Chain p) : Chain (p.formAt target) := by
  cases target with
  | unset => exact h
  | logical => exact h.logicalForm
  | physical => exact h.physicalForm

theorem formAt_allIn (h : Chain p) (ht : target = .logical ∨ target = .physical) :
    AllIn target (p.formAt target) := by
  rcases ht with rfl | rfl
  · exact h.logicalForm_allIn
  · exact h.physicalForm_allIn

theorem outline_formAt (h : Chain p) : (p.formAt target).outline = p.outline := by
  cases target with
  | unset => rfl
  | logical => exact h.outline_logicalForm
  | physical => exact h.outline_physicalForm

theorem rowType_formAt (h : Chain p) : (p.formAt target).rowType = p.rowType := by
  rw [← h.formAt.rowType_outline, h.outline_formAt, h.rowType_outline]

end Plan.Chain

namespace Rules

open Plan

variable {p q : Plan} {target : Convention}

theorem convert_ahead (hc : Chain p) (hv : p.checkConventions = .ok ())
    (ht : target = .logical ∨ target = .physical) (hp : ∀ r ∈ p.nodes, r.convention ≠ .physical) :
    Rules.default.convert target p = .ok (p.formAt target) := by
  rcases ht with rfl | rfl
  · exact convertWithin_logical hc hv hp (Nat.le_refl _)
  · exact convert_physical hc hv hp

theorem convert_back (hc : Chain p) (hv : p.checkConventions = .ok ())
    (ht : target = .logical ∨ target = .physical) (hne : p.convention ≠ target)
    (hp : ∃ r ∈ p.nodes, r.convention = .physical) :
    ∃ e, Rules.default.convert target p = .error e := by
  rcases ht with rfl | rfl
  · exact convertWithin_logical_error hc hv hne hp (Nat.le_refl _)
  · refine convert_physical_error hc hv ?_ hp
    -- a logical root has nothing but logical nodes below it
    refine unset_of_not_physical hne fun hl => ?_
    obtain ⟨r, hr, hphysical⟩ := hp
    have hsame := hc.allIn_of_check hv (by simp [hl]) r hr
    rw [hphysical, hl] at hsame
    cases hsame

/-- What a conversion succeeds with is the plan itself or its form at the goal. -/
theorem eq_or_eq_formAt (hc : Chain p) (hv : p.checkConventions = .ok ())
    (ht : target = .logical ∨ target = .physical)
    (h : Rules.default.convert target p = .ok q) :
    p.convention = target ∧ q = p ∨ p.convention ≠ target ∧
      (∀ r ∈ p.nodes, r.convention ≠ .physical) ∧ q = p.formAt target := by
  by_cases hat : p.convention = target
  · rw [convert_reached hat] at h
    exact .inl ⟨hat, (Except.ok.inj h).symm⟩
  by_cases hp : ∃ r ∈ p.nodes, r.convention = .physical
  · obtain ⟨e, he⟩ := convert_back hc hv ht hat hp
    rw [he] at h
    cases h
  · have hp : ∀ r ∈ p.nodes, r.convention ≠ .physical := fun r hr he => hp ⟨r, hr, he⟩
    rw [convert_ahead hc hv ht hp] at h
    exact .inr ⟨hat, hp, (Except.ok.inj h).symm⟩

/-- Where every node may stand over its input, the default rules convert a plan unless its root is
not at the goal and a node is physical, which would have to go back. The result has the operators
of the plan where they were and is at the goal throughout. Towards LOGICAL no placement changes;
towards PHYSICAL every node that is converted is placed as its operator wants it. -/
theorem convert_default_staged (ha : p.ArityCorrect) (hv : p.checkConventions = .ok ())
    (ht : target = .logical ∨ target = .physical) :
    ((∃ q, Rules.default.convert target p = .ok q) ↔
      p.convention = target ∨ ∀ r ∈ p.nodes, r.convention ≠ .physical) ∧
    ∀ q, Rules.default.convert target p = .ok q →
      q.outline = p.outline ∧ q.AllIn target ∧ q.checkConventions = .ok () ∧
      q.rowType = p.rowType ∧
      (target = .logical → q.nodes.map (·.distribution) = p.nodes.map (·.distribution)) ∧
      (target = .physical → p.convention ≠ .physical → ∀ r ∈ q.nodes, r.Placed) := by
  have hc := ha.chain
  refine ⟨⟨fun ⟨q, hq⟩ => ?_, fun h => ?_⟩, fun q hq => ?_⟩
  · rcases eq_or_eq_formAt hc hv ht hq with ⟨hat, -⟩ | ⟨-, hp, -⟩
    · exact .inl hat
    · exact .inr hp
  · rcases h with hat | hp
    · exact ⟨p, convert_reached hat⟩
    · exact ⟨_, convert_ahead hc hv ht hp⟩
  · rcases eq_or_eq_formAt hc hv ht hq with ⟨hat, rfl⟩ | ⟨hne, -, rfl⟩
    · have hall := hc.allIn_of_check hv (by rcases ht with rfl | rfl <;> simp [hat])
      exact ⟨rfl, hat ▸ hall, hv, rfl, fun _ => rfl, fun h hne => absurd (hat.trans h) hne⟩
    · have hall := hc.formAt_allIn ht
      refine ⟨hc.outline_formAt, hall, hc.formAt.check_of_allIn hall, hc.rowType_formAt,
        fun h => ?_, fun h _ => ?_⟩
      · subst h
        exact hc.distributions_logicalForm
      · subst h
        exact hc.physicalForm_placed

end Rules

/-- A filter that nothing has been decided about over a scan that is at a stage. -/
def Plan.filterOver (stage : Convention) : Plan :=
  .node .undecided (.filter (.literal (.bool true)))
    [.node ⟨stage, .any⟩ (.scan "orders" ⟨[⟨"amount", .int32, true⟩]⟩) []]

theorem Plan.filterOver_valid (stage : Convention) :
    (filterOver stage).ArityCorrect ∧ (filterOver stage).checkConventions = .ok () := by
  refine ⟨?_, checkConventions_over.mpr ⟨.inl rfl, checkConventions_scan⟩⟩
  intro q hq
  simp only [filterOver, nodes_over, nodes_scan, List.mem_cons, List.not_mem_nil, or_false] at hq
  rcases hq with rfl | rfl <;> rfl

/-- Over a logical scan the filter becomes physical where the scan is; over a physical one it does
not. -/
theorem Rules.convert_default_staged_filterOver :
    (∃ q, Rules.default.convert .physical (.filterOver .logical) = .ok q ∧ q.AllIn .physical ∧
      ∀ r ∈ q.nodes, r.Placed) ∧
    ¬ ∃ q, Rules.default.convert .physical (.filterOver .physical) = .ok q := by
  obtain ⟨ha, hv⟩ := Plan.filterOver_valid .logical
  obtain ⟨hb, hw⟩ := Plan.filterOver_valid .physical
  obtain ⟨haccepts, hmakes⟩ := convert_default_staged ha hv (.inr rfl)
  refine ⟨?_, fun h => ?_⟩
  · obtain ⟨q, hq⟩ := haccepts.mpr (.inr (by
      simp [Plan.filterOver, Plan.convention, Plan.traits, Traits.undecided]))
    obtain ⟨-, hall, -, -, -, hplaced⟩ := hmakes q hq
    exact ⟨q, hq, hall, hplaced rfl (by decide)⟩
  · rcases (convert_default_staged hb hw (.inr rfl)).1.mp h with hat | hp
    · cases hat
    · exact hp (.node ⟨.physical, .any⟩ (.scan "orders" ⟨[⟨"amount", .int32, true⟩]⟩) [])
        (by simp [Plan.filterOver]) rfl

end FlowPlan
