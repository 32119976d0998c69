import FlowPlan.Proofs.Gathering

namespace FlowPlan

open Outcome Compile

variable {σ α β : Type}

theorem Visit.run_bind_fail {x : Visit σ α} {s s' : σ} {e : Error} (h : x.run s = (.error e, s'))
    (f : α → Visit σ β) : (x >>= f).run s = (.error e, s') := by
  change (ExceptT.bindCont f (x.run s).1) (x.run s).2 = _
  rw [h]
  rfl

/-- A step of a visitor with all that it is given. -/
inductive Call (α : Type) where
  | scan (node : Plan) (container : String)
  | filter (node : Plan) (predicate : Expr) (below : α)
  | project (node : Plan) (exprs : List Expr) (below : α)
  | root (node : Plan) (below : α)

/-- The step for a node. A scan is given nothing, every other operator what the step below gave. -/
def Plan.callAt (p : Plan) (given : Option α) : Option (Call α) :=
  match p.op, given with
  | .scan container _, none => some (.scan p container)
  | .filter predicate, some below => some (.filter p predicate below)
  | .project exprs _, some below => some (.project p exprs below)
  | .root, some below => some (.root p below)
  | _, _ => none

namespace Visitor

def call (v : Visitor σ α) : Call α → Visit σ α
  | .scan node container => v.scan node container
  | .filter node predicate below => v.filter node predicate below
  | .project node exprs below => v.project node exprs below
  | .root node below => v.root node below

/-- Takes a step and notes it with its result. -/
def note (v : Visitor σ α) (c : Call α) : Visit (σ × List (Call α × Except Error α)) α :=
  ExceptT.mk fun (s, steps) =>
    let (result, s') := (v.call c).run s
    (result, (s', steps ++ [(c, result)]))

/-- A visitor that does the same and notes its steps. -/
def noting (v : Visitor σ α) : Visitor (σ × List (Call α × Except Error α)) α where
  scan node container := v.note (.scan node container)
  filter node predicate below := v.note (.filter node predicate below)
  project node exprs below := v.note (.project node exprs below)
  root node below := v.note (.root node below)

variable {v : Visitor σ α} {c : Call α} {s s' : σ} {steps : List (Call α × Except Error α)}
  {result : Except Error α}

theorem run_note (h : (v.call c).run s = (result, s')) :
    (v.note c).run (s, steps) = (result, (s', steps ++ [(c, result)])) := by
  change ((((v.call c).run s).1, (((v.call c).run s).2, steps ++ [(c, ((v.call c).run s).1)])) :
    Except Error α × σ × List (Call α × Except Error α)) = _
  rw [h]

end Visitor

/-- The steps for nodes one over the other. Each is given what the one before gave, and after one
that fails there is none. -/
inductive Climbed : Option α → List Plan → List (Call α × Except Error α) → Except Error α →
    Prop where
  | top (a : α) : Climbed (some a) [] [] (.ok a)
  | failed {given : Option α} {p : Plan} {c : Call α} (step : p.callAt given = some c)
      (above : List Plan) (e : Error) : Climbed given (p :: above) [(c, .error e)] (.error e)
  | passed {given : Option α} {p : Plan} {c : Call α} {a : α} {above : List Plan}
      {steps : List (Call α × Except Error α)} {result : Except Error α}
      (step : p.callAt given = some c) (rest : Climbed (some a) above steps result) :
      Climbed given (p :: above) ((c, .ok a) :: steps) result

namespace Climbed

variable {given : Option α} {p : Plan} {nodes : List Plan} {c : Call α} {a : α} {e : Error}
  {steps : List (Call α × Except Error α)} {result : Except Error α}

theorem single (step : p.callAt given = some c) (result : Except Error α) :
    Climbed given [p] [(c, result)] result := by
  cases result with
  | error e => exact .failed step [] e
  | ok a => exact .passed step (.top a)

/-- What was climbed can be climbed further. -/
theorem step (h : Climbed given nodes steps (.ok a)) (next : p.callAt (some a) = some c)
    (result : Except Error α) : Climbed given (nodes ++ [p]) (steps ++ [(c, result)]) result := by
  generalize hreached : Except.ok a = reached at h
  induction h with
  | top b =>
    cases hreached
    exact single next result
  | failed step above e => cases hreached
  | passed step rest ih => exact .passed step (ih hreached)

theorem stop (h : Climbed given nodes steps (.error e)) (p : Plan) :
    Climbed given (nodes ++ [p]) steps (.error e) := by
  generalize hreached : Except.error e = reached at h
  induction h with
  | top b => cases hreached
  | failed step above e => exact .failed step (above ++ [p]) e
  | passed step rest ih => exact .passed step (ih hreached)

end Climbed

namespace Plan

variable {t : Traits} {op : Operator} {input p : Plan} {inputs : List Plan}

/-- Every node down to the scan is physical and has one input, but for the scan. -/
def Walkable (p : Plan) : Prop :=
  ∀ q ∈ p.spine, q.isPhysical = true ∧ (q.kind = .scan ∨ q.inputs.length = 1)

theorem spine_scan (t : Traits) (container : String) (s : Schema) (inputs : List Plan) :
    (Plan.node t (.scan container s) inputs).spine = [.node t (.scan container s) inputs] := by
  rw [spine]

theorem mem_spine_self (p : Plan) : p ∈ p.spine := by
  unfold spine
  split <;> exact List.mem_cons_self

theorem walkable_scan {container : String} {s : Schema} :
    (Plan.node t (.scan container s) inputs).Walkable ↔
      (Plan.node t (.scan container s) inputs).isPhysical = true := by
  rw [Walkable, spine_scan, List.forall_mem_singleton]
  exact and_iff_left (.inl rfl)

theorem walkable_over (one : op.arity = 1) : (Plan.node t op [input]).Walkable ↔
    (Plan.node t op [input]).isPhysical = true ∧ input.Walkable := by
  rw [Walkable, spine_over one, List.forall_mem_cons]
  exact and_congr_left fun _ => and_iff_left (.inr rfl)

theorem not_walkable_several (one : op.arity = 1) (h : inputs.length ≠ 1) :
    ¬(Plan.node t op inputs).Walkable := by
  intro hw
  rcases (hw _ (mem_spine_self _)).2 with hscan | hlength
  · cases op with
    | scan container s => cases one
    | _ => cases hscan
  · exact h hlength

/-- Every operator with an input has a step for what comes from the input. -/
theorem exists_callAt (t : Traits) (input : Plan) (one : op.arity = 1) (below : α) : ∃ c,
    (Plan.node t op [input]).callAt (some below) = some c ∧ ∀ {σ : Type} (v : Visitor σ α),
      (Plan.node t op [input]).stepAt v below = v.call c ∧
      (Plan.node t op [input]).stepAt v.noting below = v.note c := by
  cases op with
  | scan container s => cases one
  | filter predicate => exact ⟨_, rfl, fun v => ⟨rfl, rfl⟩⟩
  | project exprs declared => exact ⟨_, rfl, fun v => ⟨rfl, rfl⟩⟩
  | root => exact ⟨_, rfl, fun v => ⟨rfl, rfl⟩⟩

/-- What a walk gives, and the steps that a visitor notes on it. -/
structure Walks (p : Plan) (v : Visitor σ α) (s : σ) (steps : List (Call α × Except Error α))
    (result : Except Error α) (s' : σ) : Prop where
  run : (p.accept v).run s = (result, s')
  noted : (p.accept v.noting).run (s, []) = (result, (s', steps))
  climbed : Climbed none p.spine.reverse steps result

theorem walks_scan {container : String} {s : Schema}
    (hp : (Plan.node t (.scan container s) inputs).isPhysical = true) (v : Visitor σ α)
    (start : σ) : ∃ steps result s',
      (Plan.node t (.scan container s) inputs).Walks v start steps result s' := by
  obtain ⟨result, s', hrun⟩ : ∃ result s',
      (v.call (.scan (.node t (.scan container s) inputs) container)).run start = (result, s') :=
    ⟨_, _, rfl⟩
  have hphysical := requirePhysical_eq_ok.mpr hp
  refine ⟨[(.scan (.node t (.scan container s) inputs) container, result)], result, s', ?_, ?_, ?_⟩
  · rw [accept, hphysical, Visit.run_lift_bind]
    exact hrun
  · rw [accept, hphysical, Visit.run_lift_bind]
    exact Visitor.run_note hrun
  · rw [spine_scan]
    exact .single rfl result

/-- The step for a node comes after those below it, unless one of them has failed. -/
theorem Walks.node {v : Visitor σ α} {start reached : σ}
    {steps : List (Call α × Except Error α)} {result : Except Error α} (one : op.arity = 1)
    (hp : (Plan.node t op [input]).isPhysical = true)
    (h : input.Walks v start steps result reached) :
    ∃ steps' result' s', (Plan.node t op [input]).Walks v start steps' result' s' := by
  obtain ⟨hrun, hnoted, hclimbed⟩ := h
  have hphysical := requirePhysical_eq_ok.mpr hp
  cases result with
  | error e =>
    refine ⟨steps, .error e, reached, ?_, ?_, ?_⟩
    · rw [accept_over one, hphysical, Visit.run_lift_bind, Visit.run_bind_fail hrun]
    · rw [accept_over one, hphysical, Visit.run_lift_bind, Visit.run_bind_fail hnoted]
    · rw [spine_over one, List.reverse_cons]
      exact hclimbed.stop _
  | ok below =>
    obtain ⟨c, hc, hstep⟩ := exists_callAt t input one below
    obtain ⟨hcall, hnote⟩ := hstep v
    obtain ⟨result', s', hlast⟩ : ∃ result' s', (v.call c).run reached = (result', s') :=
      ⟨_, _, rfl⟩
    refine ⟨steps ++ [(c, result')], result', s', ?_, ?_, ?_⟩
    · rw [accept_over one, hphysical, Visit.run_lift_bind, Visit.run_bind_ok hrun, hcall, hlast]
    · rw [accept_over one, hphysical, Visit.run_lift_bind, Visit.run_bind_ok hnoted, hnote]
      exact Visitor.run_note hlast
    · rw [spine_over one, List.reverse_cons]
      exact hclimbed.step hc result'

/-- By recursion on the path, like the walk itself. -/
theorem Walkable.walks (v : Visitor σ α) (start : σ) : (p : Plan) → p.Walkable →
    ∃ steps result s', p.Walks v start steps result s'
  | .node t op inputs, h => by
    rcases op.scan_or_over with ⟨container, s, rfl⟩ | one
    · exact walks_scan (walkable_scan.mp h) v start
    · match inputs with
      | [input] =>
        obtain ⟨hp, hbelow⟩ := (walkable_over one).mp h
        obtain ⟨steps, result, s', hwalks⟩ := Walkable.walks v start input hbelow
        exact hwalks.node one hp
      | [] => exact absurd h (not_walkable_several one (by simp))
      | _ :: _ :: _ => exact absurd h (not_walkable_several one (by simp))

/-- The first thing that a walk does at a node is to see whether it is physical. -/
theorem accept_of_not_physical {e : Error} (hr : p.requirePhysical = .error e) (v : Visitor σ α)
    (start : σ) : (p.accept v).run start = (.error e, start) := by
  have hfirst : ∃ next, p.accept v = Visit.lift p.requirePhysical >>= next := by
    unfold accept
    split <;> exact ⟨_, rfl⟩
  obtain ⟨next, heq⟩ := hfirst
  rw [heq, hr]
  exact Visit.run_bind_fail (Visit.run_lift _ _) next

/-- A node that a walk cannot pass stops it on its way down, before the first step. -/
theorem accept_of_not_walkable : (p : Plan) → ¬p.Walkable →
    ∃ e, ∀ {σ α : Type} (v : Visitor σ α) (start : σ), (p.accept v).run start = (.error e, start)
  | .node t op inputs, h => by
    cases hr : (Plan.node t op inputs).requirePhysical with
    | error e => exact ⟨e, accept_of_not_physical hr⟩
    | ok u =>
      have hp := requirePhysical_eq_ok.mp hr
      rcases op.scan_or_over with ⟨container, s, rfl⟩ | one
      · exact absurd (walkable_scan.mpr hp) h
      · have hseveral : inputs.length ≠ 1 → ∃ e, ∀ {σ α : Type} (v : Visitor σ α) (start : σ),
            ((Plan.node t op inputs).accept v).run start = (.error e, start) := by
          intro hlength
          refine ⟨.planning (.inputCount op.kind inputs.length), fun v start => ?_⟩
          rw [accept_several one hlength, hr, Visit.run_lift_bind]
          rfl
        match inputs with
        | [input] =>
          have hbelow : ¬input.Walkable := fun hw => h ((walkable_over one).mpr ⟨hp, hw⟩)
          obtain ⟨e, he⟩ := accept_of_not_walkable input hbelow
          refine ⟨e, fun v start => ?_⟩
          rw [accept_over one, hr, Visit.run_lift_bind]
          exact Visit.run_bind_fail (he v start) _
        | [] => exact hseveral (by simp)
        | _ :: _ :: _ => exact hseveral (by simp)

end Plan

end FlowPlan
