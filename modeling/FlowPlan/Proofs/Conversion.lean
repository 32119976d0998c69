import FlowPlan.Proofs.Conventions
import FlowPlan.Plan.Optimize

namespace FlowPlan

/-- A node that finds as many inputs as its operator needs is built over them. -/
theorem Plan.rebuild_found {op : Operator} {found : List Plan} (h : found.length = op.arity)
    (place : List Plan → Traits) :
    Plan.rebuild place op (.ok found) = .ok (.node (place found) op found) := by
  cases op with
  | scan container s =>
    obtain rfl := List.length_eq_zero_iff.mp h
    rfl
  | filter predicate => simp [Plan.rebuild, Plan.make, h, bind, Except.bind, Except.mapError]
  | project exprs rowType => simp [Plan.rebuild, Plan.make, h, bind, Except.bind, Except.mapError]
  | root => simp [Plan.rebuild, Plan.make, h, bind, Except.bind, Except.mapError]

/-- A node that needs an input is not built over inputs that could not be converted. -/
theorem Plan.rebuild_error {op : Operator} {e : Error} (one : op.arity = 1)
    (place : List Plan → Traits) : Plan.rebuild place op (.error e) = .error e := by
  cases op with
  | scan container s => cases one
  | filter predicate => rfl
  | project exprs declared => rfl
  | root => rfl

/-- A rule that builds what it promises is applied by building. -/
theorem Rule.run_of_rebuild {r : Rule} {p q : Plan} {inputs : Except Error (List Plan)}
    (ha : r.accepts p = true) (hb : r.rebuild p inputs = .ok q) (hc : q.convention = r.target) :
    r.run p inputs = .ok q := by
  simp only [Rule.run, ha, Bool.not_true, Bool.false_eq_true, ↓reduceIte, hb, hc]

/-- A rule that applies but cannot build says why. -/
theorem Rule.run_of_rebuild_error {r : Rule} {p : Plan} {inputs : Except Error (List Plan)}
    {e : Error} (ha : r.accepts p = true) (hb : r.rebuild p inputs = .error e) :
    r.run p inputs = .error e := by
  simp only [Rule.run, ha, Bool.not_true, Bool.false_eq_true, ↓reduceIte, hb]

namespace Plan

/-- A plan has a node, so a level is left for it. -/
theorem exists_level {p : Plan} {n : Nat} (h : p.size ≤ n) : ∃ k, n = k + 1 := by
  cases p
  rw [size] at h
  exact ⟨n - 1, by omega⟩

theorem size_below {t : Traits} {op : Operator} {input : Plan} {n : Nat}
    (h : (Plan.node t op [input]).size ≤ n + 1) : input.size ≤ n := by
  simp only [size, sizes] at h
  omega

end Plan

namespace Rules

open Plan Outcome

variable {t : Traits} {op : Operator} {inputs found : List Plan}

theorem rulesFor_default_logical (kind : OperatorKind) :
    Rules.default.rulesFor kind .unset .logical = [logicalRule kind] := by
  cases kind <;> rfl

theorem rulesFor_default_physical (kind : OperatorKind) :
    Rules.default.rulesFor kind .logical .physical = [physicalRule kind] := by
  cases kind <;> rfl

theorem accepts_logicalRule (ht : t.convention = .unset) :
    (logicalRule op.kind).accepts (.node t op inputs) = true := by
  simp [Rule.accepts, logicalRule, kind, Plan.op, convention, traits, ht]

theorem accepts_physicalRule (ht : t.convention = .logical) :
    (physicalRule op.kind).accepts (.node t op inputs) = true := by
  simp [Rule.accepts, physicalRule, kind, Plan.op, convention, traits, ht]

theorem run_logicalRule (ht : t.convention = .unset) (h : found.length = op.arity) :
    (logicalRule op.kind).run (.node t op inputs) (.ok found) =
      .ok (.node { t with convention := .logical } op found) :=
  Rule.run_of_rebuild (accepts_logicalRule ht) (rebuild_found h _) rfl

theorem run_physicalRule (ht : t.convention = .logical) (h : found.length = op.arity) :
    (physicalRule op.kind).run (.node t op inputs) (.ok found) =
      .ok (.node ⟨.physical, physicalDistribution op.kind found⟩ op found) :=
  Rule.run_of_rebuild (accepts_physicalRule ht) (rebuild_found h _) rfl

section Steps

variable {convertInput : Plan → Except Error Plan}

theorem step_logical_eq (ht : t.convention = .unset) :
    Rules.default.step convertInput (.node t op inputs) .logical =
      (logicalRule op.kind).run (.node t op inputs) (inputs.mapM convertInput) := by
  have hrules := rulesFor_default_logical op.kind
  rw [← ht] at hrules
  simp only [step, kind, Plan.op, convention, traits, hrules, Plan.inputs]

theorem step_logical (ht : t.convention = .unset) (hin : inputs.mapM convertInput = .ok found)
    (h : found.length = op.arity) :
    Rules.default.step convertInput (.node t op inputs) .logical =
      .ok (.node { t with convention := .logical } op found) := by
  rw [step_logical_eq ht, hin, run_logicalRule ht h]

theorem step_physical (ht : t.convention = .logical) (hin : inputs.mapM convertInput = .ok found)
    (h : found.length = op.arity) :
    Rules.default.step convertInput (.node t op inputs) .physical =
      .ok (.node ⟨.physical, physicalDistribution op.kind found⟩ op found) := by
  simp only [step, kind, Plan.op, convention, traits, ht, rulesFor_default_physical, Plan.inputs,
    hin, run_physicalRule ht h]

/-- An input that cannot become logical keeps the node above it from doing so. -/
theorem step_logical_error {input : Plan} {e : Error} (one : op.arity = 1)
    (ht : t.convention = .unset) (he : convertInput input = .error e) :
    Rules.default.step convertInput (.node t op [input]) .logical = .error e := by
  have hin : [input].mapM convertInput = .error e := by
    rw [List.mapM_cons, he, error_bind]
  rw [step_logical_eq ht, hin]
  exact Rule.run_of_rebuild_error (accepts_logicalRule ht) (rebuild_error one _)

end Steps

/-- A plan that is already where it has to go is left alone. -/
theorem convertWithin_reached {rs : Rules} {n : Nat} {target : Convention} {p : Plan}
    (h : p.convention = target) : rs.convertWithin n target p = .ok p := by
  have hpath : target.path? target = some [] := by cases target <;> rfl
  cases n with
  | zero => simp [convertWithin, h]
  | succ n =>
    simp only [convertWithin, h, hpath]
    rfl

theorem convert_reached {rs : Rules} {target : Convention} {p : Plan}
    (h : p.convention = target) : rs.convert target p = .ok p :=
  convertWithin_reached h

theorem convertWithin_path {rs : Rules} {n : Nat} {target : Convention} {p : Plan}
    {path : List Convention} (h : p.convention.path? target = some path) :
    rs.convertWithin (n + 1) target p =
      path.foldlM (fun q next => rs.step (rs.convertWithin n next) q next) p := by
  simp only [convertWithin, h]

theorem convertWithin_logical_step {n : Nat} (ht : t.convention = .unset) :
    Rules.default.convertWithin (n + 1) .logical (.node t op inputs) =
      Rules.default.step (Rules.default.convertWithin n .logical) (.node t op inputs) .logical := by
  have hpath : (Plan.node t op inputs).convention.path? .logical = some [.logical] := by
    rw [convention, traits, ht]
    rfl
  rw [convertWithin_path hpath]
  exact bind_pure _

theorem convertWithin_physical_step {n : Nat} (ht : t.convention = .logical) :
    Rules.default.convertWithin (n + 1) .physical (.node t op inputs) =
      Rules.default.step (Rules.default.convertWithin n .physical) (.node t op inputs) .physical := by
  have hpath : (Plan.node t op inputs).convention.path? .physical = some [.physical] := by
    rw [convention, traits, ht]
    rfl
  rw [convertWithin_path hpath]
  exact bind_pure _

/-- A node that has to become physical becomes logical first. -/
theorem convertWithin_physical_steps {n : Nat} (ht : t.convention = .unset) :
    Rules.default.convertWithin (n + 1) .physical (.node t op inputs) = (do
      let q ← Rules.default.step (Rules.default.convertWithin n .logical) (.node t op inputs) .logical
      Rules.default.step (Rules.default.convertWithin n .physical) q .physical) := by
  have hpath : (Plan.node t op inputs).convention.path? .physical =
      some [.logical, .physical] := by
    rw [convention, traits, ht]
    rfl
  rw [convertWithin_path hpath, List.foldlM_cons]
  exact congrArg _ (funext fun q => bind_pure _)

theorem convertWithin_back {rs : Rules} {n : Nat} {p : Plan} (h : p.convention = .physical) :
    rs.convertWithin (n + 1) .logical p =
      .error (.planning (.noConversion p.kind .physical .logical)) := by
  simp only [convertWithin, h, Convention.path?]

theorem unset_of_not_physical {c : Convention} (hp : c ≠ .physical) (hl : c ≠ .logical) :
    c = .unset := by
  cases c with
  | unset => rfl
  | logical => exact absurd rfl hl
  | physical => exact absurd rfl hp

theorem convertWithin_of_logical {n : Nat} {p : Plan} (hc : Chain p)
    (hv : p.checkConventions = .ok ()) (hl : p.convention = .logical) :
    Rules.default.convertWithin n .logical p = .ok p.logicalForm := by
  have hall := hc.allIn_of_check hv (by simp [hl])
  rw [hl] at hall
  rw [convertWithin_reached hl, hc.logicalForm_of_allIn hall]

/-- A chain with nothing physical in it becomes logical, whatever is logical already. -/
theorem convertWithin_logical {n : Nat} {p : Plan} (hc : Chain p)
    (hv : p.checkConventions = .ok ()) (hp : ∀ q ∈ p.nodes, q.convention ≠ .physical)
    (hn : p.size ≤ n) : Rules.default.convertWithin n .logical p = .ok p.logicalForm := by
  induction hc generalizing n with
  | scan t container s =>
    by_cases hl : t.convention = .logical
    · exact convertWithin_of_logical (.scan t container s) hv hl
    · have hu : t.convention = .unset := unset_of_not_physical (hp _ (mem_nodes_self _)) hl
      obtain ⟨n, rfl⟩ := exists_level hn
      rw [convertWithin_logical_step hu, logicalForm_scan]
      exact step_logical hu rfl rfl
  | node t op input one below ih =>
    by_cases hl : t.convention = .logical
    · exact convertWithin_of_logical (.node t op input one below) hv hl
    · have hu : t.convention = .unset := unset_of_not_physical (hp _ (mem_nodes_self _)) hl
      obtain ⟨n, rfl⟩ := exists_level hn
      rw [nodes_over, List.forall_mem_cons] at hp
      have hin := ih (checkConventions_over.mp hv).2 hp.2 (size_below hn)
      rw [convertWithin_logical_step hu, logicalForm_over]
      exact step_logical hu (mapM_singleton hin) one.symm

/-- A node cannot become logical with a physical one below it, for that one cannot go back. -/
theorem convertWithin_logical_error {n : Nat} {p : Plan} (hc : Chain p)
    (hv : p.checkConventions = .ok ()) (hl : p.convention ≠ .logical)
    (hp : ∃ q ∈ p.nodes, q.convention = .physical) (hn : p.size ≤ n) :
    ∃ e, Rules.default.convertWithin n .logical p = .error e := by
  induction hc generalizing n with
  | scan t container s =>
    obtain ⟨n, rfl⟩ := exists_level hn
    simp only [nodes_scan, List.mem_singleton, exists_eq_left] at hp
    exact ⟨_, convertWithin_back hp⟩
  | node t op input one below ih =>
    obtain ⟨n, rfl⟩ := exists_level hn
    by_cases ht : t.convention = .physical
    · exact ⟨_, convertWithin_back ht⟩
    have hu : t.convention = .unset := unset_of_not_physical ht hl
    -- then the physical node is below, and the input cannot be logical over it
    obtain ⟨q, hq, hphysical⟩ := hp
    have hq : q ∈ input.nodes := by
      rw [nodes_over, List.mem_cons] at hq
      refine hq.resolve_left fun he => ht ?_
      rw [he] at hphysical
      exact hphysical
    have hbelow := (checkConventions_over.mp hv).2
    have hinput : input.convention ≠ .logical := by
      intro h
      have hsame := below.allIn_of_check hbelow (by simp [h]) q hq
      rw [hphysical, h] at hsame
      cases hsame
    obtain ⟨e, he⟩ := ih hbelow hinput ⟨q, hq, hphysical⟩ (size_below hn)
    rw [convertWithin_logical_step hu]
    exact ⟨e, step_logical_error one hu he⟩

theorem convertWithin_physical {n : Nat} {p : Plan} (hc : Chain p) (hl : AllIn .logical p)
    (hn : p.size ≤ n) : Rules.default.convertWithin n .physical p = .ok p.physicalForm := by
  induction hc generalizing n with
  | scan t container s =>
    obtain ⟨n, rfl⟩ := exists_level hn
    have ht : t.convention = .logical := hl.top
    rw [convertWithin_physical_step ht, physicalForm_scan]
    exact step_physical ht rfl rfl
  | node t op input one below ih =>
    obtain ⟨n, rfl⟩ := exists_level hn
    have ht : t.convention = .logical := hl.top
    have hin := ih hl.below (size_below hn)
    rw [convertWithin_physical_step ht, physicalForm_over]
    exact step_physical ht (mapM_singleton hin) one.symm

/-- A chain with nothing physical in it becomes physical, in one stage or in two. -/
theorem convert_physical {p : Plan} (hc : Chain p) (hv : p.checkConventions = .ok ())
    (hp : ∀ q ∈ p.nodes, q.convention ≠ .physical) :
    Rules.default.convert .physical p = .ok p.physicalForm := by
  by_cases hl : p.convention = .logical
  · have hall := hc.allIn_of_check hv (by simp [hl])
    exact convertWithin_physical hc (hl ▸ hall) (Nat.le_refl _)
  -- an undecided root goes through LOGICAL, and its input with it, before either is physical
  have hu := unset_of_not_physical (hp p (mem_nodes_self p)) hl
  rw [convert]
  obtain ⟨n, hn⟩ := exists_level (Nat.le_refl p.size)
  rw [hn]
  cases hc with
  | scan t container s =>
    have ht : t.convention = .unset := hu
    rw [convertWithin_physical_steps ht, step_logical ht rfl rfl, ok_bind, physicalForm_scan]
    exact step_physical rfl rfl rfl
  | node t op input one below =>
    have ht : t.convention = .unset := hu
    rw [nodes_over, List.forall_mem_cons] at hp
    have hsize := size_below (Nat.le_of_eq hn)
    have hlogical := convertWithin_logical below (checkConventions_over.mp hv).2 hp.2 hsize
    have hphysical := convertWithin_physical below.logicalForm below.logicalForm_allIn
      (below.size_logicalForm ▸ hsize)
    rw [convertWithin_physical_steps ht, step_logical ht (mapM_singleton hlogical) one.symm,
      ok_bind, physicalForm_over, ← below.physicalForm_logicalForm]
    exact step_physical rfl (mapM_singleton hphysical) one.symm

/-- A physical node below an undecided root ends the first of the two stages. -/
theorem convert_physical_error {p : Plan} (hc : Chain p) (hv : p.checkConventions = .ok ())
    (hu : p.convention = .unset) (hp : ∃ q ∈ p.nodes, q.convention = .physical) :
    ∃ e, Rules.default.convert .physical p = .error e := by
  obtain ⟨e, he⟩ := convertWithin_logical_error hc hv (by simp [hu]) hp (Nat.le_refl _)
  obtain ⟨n, hn⟩ := exists_level (Nat.le_refl p.size)
  obtain ⟨t, op, inputs⟩ := p
  have ht : t.convention = .unset := hu
  refine ⟨e, ?_⟩
  rw [hn, convertWithin_logical_step ht] at he
  rw [convert, hn, convertWithin_physical_steps ht, he, error_bind]

theorem mapM_convert_reached {rs : Rules} {target : Convention}
    (h : ∀ q ∈ inputs, q.convention = target) :
    inputs.mapM (rs.convert target) = .ok inputs := by
  induction inputs with
  | nil => rfl
  | cons q rest ih =>
    rw [List.mapM_cons, convert_reached (h q (by simp)), ih (fun x hx => h x (by simp [hx]))]
    rfl

end Rules

end FlowPlan
