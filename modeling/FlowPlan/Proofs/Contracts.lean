import FlowPlan.Proofs.Conventions
import FlowPlan.Proofs.Visits

namespace FlowPlan

open Outcome Plan

namespace Plan

mutual

theorem checkConventions_error : (p : Plan) → {e : Error} → p.checkConventions = .error e →
    e.isContractViolation = true
  | .node t op inputs, e, h => by
    rw [checkConventions] at h
    exact checkInputs_error inputs h

theorem checkInputs_error {c : Convention} {kind : OperatorKind} : (inputs : List Plan) →
    {e : Error} → checkInputs c kind inputs = .error e → e.isContractViolation = true
  | [], e, h => by cases h
  | p :: rest, e, h => by
    rw [checkInputs] at h
    split at h
    next =>
      cases hp : p.checkConventions with
      | error e' =>
        rw [hp] at h
        cases h
        exact checkConventions_error p hp
      | ok u =>
        rw [hp] at h
        exact checkInputs_error rest h
    next =>
      cases h
      rfl

end

mutual

/-- Below a physical node a check lets only physical nodes pass. -/
theorem check_of_physical : (p : Plan) → p.convention = .physical →
    (p.checkConventions = .ok () ↔ p.AllIn .physical)
  | .node t op inputs, hp => by
    have ht : t.convention = .physical := hp
    rw [checkConventions, ht, checkInputs_physical inputs, AllIn, nodes, List.forall_mem_cons]
    exact (and_iff_right hp).symm

theorem checkInputs_physical {kind : OperatorKind} : (inputs : List Plan) →
    (checkInputs .physical kind inputs = .ok () ↔ ∀ q ∈ nodesOf inputs, q.convention = .physical)
  | [] => by simp [checkInputs, nodesOf]
  | p :: rest => by
    rw [checkInputs, nodesOf, List.forall_mem_append]
    split
    next haccepts =>
      have hp : p.convention = .physical :=
        ((Convention.acceptsInput_iff.mp haccepts).resolve_left (by decide)).symm
      rw [bind_eq_ok, ← checkInputs_physical rest, ← AllIn, ← check_of_physical p hp]
      exact ⟨fun ⟨_, hcheck, hrest⟩ => ⟨hcheck, hrest⟩, fun ⟨hcheck, hrest⟩ => ⟨(), hcheck, hrest⟩⟩
    next haccepts =>
      refine iff_of_false (by simp) fun ⟨hp, _⟩ => haccepts ?_
      exact Convention.acceptsInput_iff.mpr (.inr (AllIn.top hp).symm)

end

end Plan

/-- Whatever goes wrong, no contract is broken. -/
def Outcome.KeepsContracts {α : Type} (x : Except Error α) : Prop :=
  ∀ e, x = .error e → e.isContractViolation = false

namespace Outcome.KeepsContracts

variable {α β : Type}

theorem ok (a : α) : KeepsContracts (.ok a) := by
  intro e h
  cases h

theorem bind {x : Except Error α} {f : α → Except Error β} (hx : KeepsContracts x)
    (hf : ∀ a, KeepsContracts (f a)) : KeepsContracts (x >>= f) := by
  cases x with
  | ok a => exact hf a
  | error e =>
    intro e' h
    cases h
    exact hx e rfl

theorem map {x : Except Error α} (hx : KeepsContracts x) (f : α → β) :
    KeepsContracts (f <$> x) := by
  cases x with
  | ok a => exact ok (f a)
  | error e =>
    intro e' h
    cases h
    exact hx e rfl

theorem typing (x : Except TypingError α) : KeepsContracts (x.mapError .typing) := by
  cases x with
  | ok a => exact ok a
  | error cause =>
    intro e h
    cases h
    rfl

theorem planning (cause : PlanningError) :
    KeepsContracts (.error (.planning cause) : Except Error α) := by
  intro e h
  cases h
  rfl

end Outcome.KeepsContracts

theorem Schema.keepsContracts_derivedFields (declared input : Schema) (i : Nat)
    (exprs : List Expr) : KeepsContracts (declared.derivedFields input i exprs) := by
  induction exprs generalizing i with
  | nil => exact .ok []
  | cons e rest ih =>
    rw [derivedFields]
    exact .bind (.bind (.typing _) fun _ => .ok _) fun _ => .bind (ih (i + 1)) fun _ => .ok _

theorem Operator.keepsContracts_leaving (entering : Schema) (op : Operator) :
    KeepsContracts (op.leaving entering) := by
  cases op with
  | scan container s => exact .ok s
  | filter predicate => exact .bind (.typing _) fun _ => .ok entering
  | project exprs declared =>
    exact .bind (.typing _) fun _ =>
      .map (Schema.keepsContracts_derivedFields declared entering 0 exprs) _
  | root => exact .ok entering

namespace Plan

variable {ν : Type}

theorem AllIn.requirePhysical {p : Plan} (h : p.AllIn .physical) : p.requirePhysical = .ok () :=
  requirePhysical_eq_ok.mpr (by simp [isPhysical, h.top])

/-- The columns of a plan of physical nodes may be at fault, and so may be its shape. -/
theorem keepsContracts_schema (p : Plan) (h : p.AllIn .physical) : KeepsContracts p.schema := by
  fun_induction schema p with
  | case1 t container s inputs =>
    rw [h.requirePhysical, ok_bind]
    exact .ok s
  | case2 t exprs declared input ih =>
    rw [h.requirePhysical, ok_bind]
    exact .bind (ih h.below) fun entering =>
      .map (Schema.keepsContracts_derivedFields declared entering 0 exprs) _
  | case3 t op input notScan notProject ih =>
    rw [h.requirePhysical, ok_bind]
    exact ih h.below
  | case4 t op inputs =>
    rw [h.requirePhysical, ok_bind]
    exact .planning _

theorem keepsContracts_assemble (settings : Settings ν) (p : Plan) (h : p.AllIn .physical) :
    KeepsContracts (p.assemble settings) := by
  fun_induction assemble settings p with
  | case1 t container s inputs =>
    rw [h.requirePhysical, ok_bind]
    exact .ok _
  | case2 t op input notScan ih =>
    rw [h.requirePhysical, ok_bind]
    exact .bind (ih h.below) fun _ => .bind (keepsContracts_schema input h.below) fun entering =>
      .bind (op.keepsContracts_leaving entering) fun _ => .ok _
  | case3 t op inputs =>
    rw [h.requirePhysical, ok_bind]
    exact .planning _

end Plan

namespace Compile

variable {ν : Type} {settings : Settings ν} {id : GraphId} {p : Plan} {e : Error}

/-- What a compilation does before the graph is finished: the checks, and the walk that builds. -/
def construct (settings : Settings ν) (p : Plan) : Step VertexId := do
  Visit.lift (do p.requirePhysical; p.checkConventions)
  p.accept (visitor settings)

theorem compile_eq_construct (settings : Settings ν) (id : GraphId) (p : Plan) :
    compile settings id p = (do
      let (result, b) := (construct settings p).run Builder.empty
      let _ ← result.mapError .plan
      (b.build id).mapError .graph) := by
  rw [compile, construct]
  cases (do p.requirePhysical; p.checkConventions : Except Error Unit) with
  | error e => rfl
  | ok u =>
    rw [Visit.run_lift_bind]
    rfl

/-- A plan with a node that is not physical does not pass the checks. -/
theorem exists_breach (h : ¬p.AllIn .physical) :
    ∃ e, (do p.requirePhysical; p.checkConventions : Except Error Unit) = .error e ∧
      e.isContractViolation = true := by
  cases hr : p.requirePhysical with
  | error e =>
    rw [requirePhysical] at hr
    split at hr
    next => cases hr
    next =>
      cases hr
      exact ⟨_, rfl, rfl⟩
  | ok u =>
    have hp : p.convention = .physical := by simpa [isPhysical] using requirePhysical_eq_ok.mp hr
    cases hc : p.checkConventions with
    | error e => exact ⟨e, rfl, checkConventions_error p hc⟩
    | ok u => exact absurd ((check_of_physical p hp).mp hc) h

theorem construct_of_breach (settings : Settings ν)
    (h : (do p.requirePhysical; p.checkConventions : Except Error Unit) = .error e) :
    (construct settings p).run Builder.empty = (.error e, Builder.empty) := by
  rw [construct, h]
  exact Visit.run_bind_fail (Visit.run_lift _ _) _

/-- A compilation that fails over physical nodes only does so by a fault of the plan. -/
theorem compile_keeps_contracts (hp : p.AllIn .physical) {cause : CompileError}
    (h : compile settings id p = .error cause) : cause.isContractViolation = false := by
  have hc : p.checkConventions = .ok () := (check_of_physical p hp.top).mpr hp
  rw [compile_eq, hp.requirePhysical, hc, ok_bind, ok_bind] at h
  cases ha : p.assemble settings with
  | ok b =>
    rw [ha] at h
    cases h
  | error e =>
    rw [ha] at h
    cases h
    exact keepsContracts_assemble settings p hp e ha

end Compile

namespace Plan

theorem not_allIn_iff {c : Convention} {p : Plan} :
    ¬p.AllIn c ↔ ∃ q ∈ p.nodes, q.convention ≠ c := by
  simp [AllIn]

/-- A visitor takes the steps of a path of physical nodes from the scan upward, each given what the
one before gave, up to the first that fails; on a path that breaks off or has another node it takes
none. A compilation calls it a breach of a contract that any node of the tree is not physical, and
nothing else, and then it has built nothing. -/
theorem accept_climbs_and_compile_refuses (p : Plan) :
    (p.Walkable → ∀ {σ α : Type} (v : Visitor σ α) (start : σ),
      ∃ steps result s', p.Walks v start steps result s') ∧
    (¬p.Walkable → ∃ e, ∀ {σ α : Type} (v : Visitor σ α) (start : σ),
      (p.accept v).run start = (.error e, start) ∧
      (p.accept v.noting).run (start, []) = (.error e, (start, []))) ∧
    ∀ {ν : Type} (settings : Settings ν) (id : GraphId),
      ((∃ cause, compile settings id p = .error cause ∧ cause.isContractViolation = true) ↔
        ∃ q ∈ p.nodes, q.convention ≠ .physical) ∧
      ((∃ q ∈ p.nodes, q.convention ≠ .physical) → ∃ e,
        (Compile.construct settings p).run Builder.empty = (.error e, Builder.empty) ∧
        compile settings id p = .error (.plan e)) := by
  refine ⟨fun hw _ _ v start => Walkable.walks v start p hw, fun hw => ?_, fun settings id => ?_⟩
  · obtain ⟨e, he⟩ := accept_of_not_walkable p hw
    exact ⟨e, fun v start => ⟨he v start, he v.noting (start, [])⟩⟩
  · rw [← not_allIn_iff]
    have hrefused : ¬p.AllIn .physical → ∃ e, e.isContractViolation = true ∧
        (Compile.construct settings p).run Builder.empty = (.error e, Builder.empty) ∧
        compile settings id p = .error (.plan e) := by
      intro hp
      obtain ⟨e, hchecks, hbreach⟩ := Compile.exists_breach hp
      have hnothing := Compile.construct_of_breach settings hchecks
      refine ⟨e, hbreach, hnothing, ?_⟩
      rw [Compile.compile_eq_construct, hnothing]
      rfl
    refine ⟨⟨?_, fun hp => ?_⟩, fun hp => ?_⟩
    · rintro ⟨cause, hcause, hbreach⟩ hp
      rw [Compile.compile_keeps_contracts hp hcause] at hbreach
      cases hbreach
    · obtain ⟨e, hbreach, -, hcompile⟩ := hrefused hp
      exact ⟨.plan e, hcompile, hbreach⟩
    · obtain ⟨e, -, hrest⟩ := hrefused hp
      exact ⟨e, hrest⟩

/-- A scan needs no input. What is below one is never walked to, but a compilation finds it. -/
def scanOverRoot : Plan :=
  .node ⟨.physical, .partitioned⟩ (.scan "orders" ⟨[⟨"amount", .int32, true⟩]⟩)
    [.node ⟨.logical, .root⟩ .root []]

/-- The scan is walked but not compiled, and with the root alone nothing is done. -/
theorem accept_climbs_and_compile_refuses_scanOverRoot :
    (∃ steps result b, scanOverRoot.Walks (Compile.visitor (Settings.default : Settings Double))
      Builder.empty steps result b) ∧
    (∃ e, (Compile.construct (Settings.default : Settings Double) scanOverRoot).run Builder.empty =
      (.error e, Builder.empty)) ∧
    ∃ e, ((Plan.node ⟨.physical, .root⟩ .root []).accept
      (Compile.visitor (Settings.default : Settings Double))).run Builder.empty =
        (.error e, Builder.empty) := by
  obtain ⟨hclimbs, -, hrefuses⟩ := accept_climbs_and_compile_refuses scanOverRoot
  obtain ⟨-, hstops, -⟩ := accept_climbs_and_compile_refuses (.node ⟨.physical, .root⟩ .root [])
  have hlogical : ∃ q ∈ scanOverRoot.nodes, q.convention ≠ .physical :=
    ⟨.node ⟨.logical, .root⟩ .root [], by simp [scanOverRoot], by decide⟩
  obtain ⟨e, hnothing, -⟩ := (hrefuses (Settings.default : Settings Double) 0).2 hlogical
  obtain ⟨stopped, hstopped⟩ := hstops (not_walkable_several rfl (by simp))
  exact ⟨hclimbs (walkable_scan.mpr rfl) _ _, ⟨e, hnothing⟩, stopped, (hstopped _ _).1⟩

end Plan

end FlowPlan
