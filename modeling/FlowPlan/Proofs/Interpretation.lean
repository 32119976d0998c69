import FlowPlan.Proofs.Assembly
import FlowPlan.Proofs.Search

namespace FlowPlan

open Outcome

/-- Goes on with a row that was not dropped. -/
def onward (found : Except EvalError (Option Values))
    (next : Values → Except EvalError (Option Values)) : Except EvalError (Option Values) := do
  match ← found with
  | some row => next row
  | none => pure none

/-- What an operator makes of a row: another row, or nothing when the row is dropped. -/
def Operator.apply (row : Values) : Operator → Except EvalError (Option Values)
  | .scan _ _ => .ok (some row)
  | .filter predicate => do
    let kept ← predicate.keeps row
    pure (if kept then some row else none)
  | .project exprs _ => some <$> Expr.evalEach row exprs
  | .root => .ok (some row)

/-- What becomes of a row that the scan of a plan reads, on its way up to the topmost node. -/
def Plan.interpret (row : Values) : Plan → Except EvalError (Option Values)
  | .node _ (.scan _ _) _ => .ok (some row)
  | .node _ op [input] => onward (interpret row input) op.apply
  | .node _ _ _ => .ok none

section Onward

variable {next after : Values → Except EvalError (Option Values)} {row : Values}

@[simp] theorem onward_some : onward (.ok (some row)) next = next row := rfl

@[simp] theorem onward_none : onward (.ok none) next = .ok none := rfl

@[simp] theorem onward_error (e : EvalError) : onward (.error e) next = .error e := rfl

theorem onward_some_right (found : Except EvalError (Option Values)) :
    onward found (fun row => .ok (some row)) = found := by
  rcases found with e | _ | row <;> rfl

theorem onward_assoc (found : Except EvalError (Option Values)) :
    onward (onward found next) after = onward found fun row => onward (next row) after := by
  rcases found with e | _ | row <;> rfl

end Onward

namespace Processor

theorem processAll_cons (row : Values) (p : Processor) (rest : List Processor) :
    processAll row (p :: rest) = onward (p.process row) (processAll · rest) := rfl

theorem processAll_append (row : Values) (first rest : List Processor) :
    processAll row (first ++ rest) = onward (processAll row first) (processAll · rest) := by
  induction first generalizing row with
  | nil => rfl
  | cons p first ih =>
    rw [List.cons_append, processAll_cons, processAll_cons, onward_assoc]
    congr 1
    funext out
    exact ih out

theorem processAll_concat (row : Values) (first : List Processor) (p : Processor) :
    processAll row (first ++ [p]) = onward (processAll row first) p.process := by
  rw [processAll_append]
  congr 1
  funext out
  exact onward_some_right (p.process out)

/-- The vertex of an operator does the work of the operator. -/
theorem process_processor (op : Operator) (row : Values) :
    op.processor.process row = op.apply row := by
  cases op with
  | scan container s => rfl
  | filter predicate =>
    simp only [Operator.processor, process, Operator.apply]
    cases predicate.keeps row with
    | error e => rfl
    | ok kept => cases kept <;> rfl
  | project exprs declared =>
    simp only [Operator.processor, process, Operator.apply]
    cases Expr.evalEach row exprs <;> rfl
  | root => rfl

/-- A vertex made of two does the work of one and then of the other. -/
theorem process_calc (predicate : Expr) (exprs : List Expr) (row : Values) :
    (Processor.calc predicate exprs).process row =
      onward ((filter predicate).process row) (project exprs).process := by
  simp only [process]
  cases predicate.keeps row with
  | error e => rfl
  | ok kept => cases kept <;> rfl

end Processor

namespace Builder

variable {ν : Type} {settings : Settings ν} {b : Builder} {t : Traits} {leaving : Schema}

/-- What becomes of a row that all vertices built so far see in their order. -/
def process (b : Builder) (row : Values) : Except EvalError (Option Values) :=
  Processor.processAll row (b.vertices.map (·.processor))

theorem process_stack (op : Operator) (row : Values) :
    (b.stack settings t op leaving).process row = onward (b.process row) (Operator.apply · op) := by
  simp only [process, stack, List.map_append, List.map_cons, List.map_nil,
    Processor.processAll_concat]
  congr 1
  funext out
  exact Processor.process_processor op out

/-- The last vertex apart, where it is a filter's. -/
theorem absorb_vertices {p : Plan} {exprs : List Expr} {first : List Vertex} {v : Vertex}
    {predicate : Expr} (hv : b.vertices = first ++ [v]) (hf : v.processor = .filter predicate) :
    (b.absorb p leaving exprs).vertices = first ++ [{ v with
      name := "calc", distribution := p.distribution, schema := leaving,
      processor := .calc predicate exprs }] := by
  have hat : (first ++ [v]).length - 1 = first.length := by simp
  have hlt : first.length < (first ++ [v]).length := by simp
  simp only [absorb, hv, hat, List.modify_eq_take_cons_drop hlt, List.take_left',
    List.getElem_concat_length, Compile.fused, hf]
  simp

theorem process_absorb {p : Plan} {exprs : List Expr} {declared : Schema} {v : Vertex}
    {predicate : Expr} (hv : b.vertices.getLast? = some v)
    (hf : v.processor = .filter predicate) (row : Values) :
    (b.absorb p leaving exprs).process row =
      onward (b.process row) (Operator.apply · (.project exprs declared)) := by
  obtain ⟨first, hfirst⟩ := List.getLast?_eq_some_iff.mp hv
  have hcalc : (Processor.calc predicate exprs).process = fun out =>
      onward ((Processor.filter predicate).process out) (Processor.project exprs).process := by
    funext out
    exact Processor.process_calc predicate exprs out
  have hproject : (Processor.project exprs).process =
      (Operator.apply · (.project exprs declared)) := by
    funext out
    exact Processor.process_processor (.project exprs declared) out
  simp only [process, absorb_vertices hfirst hf, hfirst, List.map_append, List.map_cons,
    List.map_nil, Processor.processAll_concat, hf, hcalc, onward_assoc, hproject]

end Builder

namespace Plan

variable {ν : Type} {settings : Settings ν} {t : Traits} {op : Operator} {input : Plan}

theorem interpret_over (one : op.arity = 1) (row : Values) :
    (Plan.node t op [input]).interpret row = onward (input.interpret row) (Operator.apply · op) := by
  cases op with
  | scan container s => cases one
  | filter predicate => rw [interpret]; simp
  | project exprs declared => rw [interpret]; simp
  | root => rw [interpret]; simp

/-- Laying an operator over what was built is doing its work after everything else. -/
theorem process_lay {b : Builder} {leaving : Schema} (ha : Assembled settings input b)
    (row : Values) :
    (b.lay settings t op input leaving).process row =
      onward (b.process row) (Operator.apply · op) := by
  unfold Builder.lay
  split
  · split
    · rename_i hfuse
      have hk : input.kind = .filter := by simpa using (Bool.and_eq_true_iff.mp hfuse).2
      obtain ⟨v, predicate, hv, hf⟩ := ha.last_filter hk
      exact Builder.process_absorb hv hf row
    · exact Builder.process_stack _ row
  · exact Builder.process_stack _ row

/-- What is built for a plan does to every row what the plan means for it. -/
theorem process_of_assemble {p : Plan} {b : Builder} (h : p.assemble settings = .ok b)
    (row : Values) : b.process row = p.interpret row := by
  replace h := assembled_of_eq_ok h
  induction h with
  | scan physical =>
    rw [Builder.process_stack, interpret]
    rfl
  | laid one physical below enters leaves ih =>
    rw [process_lay below, ih, interpret_over one]

/-- A plan means the same in its physical form. -/
theorem Chain.interpret_physicalForm {p : Plan} (h : Chain p) (row : Values) :
    p.physicalForm.interpret row = p.interpret row := by
  induction h with
  | scan t container s => rw [physicalForm_scan, interpret, interpret]
  | node t op input one below ih =>
    rw [physicalForm_over, interpret_over one, interpret_over one, ih]

end Plan

/-- The graph of a plan does to every row what the plan means for it. -/
theorem process_of_compile {ν : Type} {settings : Settings ν} {id : GraphId} {p : Plan} {g : Graph}
    (h : compile settings id p = .ok g) (row : Values) : g.process row = p.interpret row := by
  rw [compile_eq] at h
  obtain ⟨_, -, h⟩ := bind_eq_ok.mp (mapError_eq_ok.mp h)
  obtain ⟨_, -, h⟩ := bind_eq_ok.mp h
  obtain ⟨b, hb, h⟩ := bind_eq_ok.mp h
  cases h
  exact Plan.process_of_assemble hb row

/-- Optimizing a plan that nothing has been decided about and compiling the result changes nothing
for any row: it leaves as the same row, is dropped, or fails with the same error. Which projections
became a part of a filter's vertex, and all other settings, make no difference. -/
theorem optimized_graph_refines_plan {ν μ κ : Type} [Quantity ν] {m : Estimates ν}
    {settings : Settings μ} {id : GraphId} {p : Plan} {o : Optimized ν} {g : Graph}
    (ha : p.ArityCorrect) (hu : p.AllIn .unset) (ho : Rules.default.optimize m p = .ok o)
    (hg : compile settings id o.physical = .ok g) (row : Values) :
    g.process row = p.interpret row ∧
      ∀ (other : Settings κ) (id' : GraphId) (g' : Graph),
        compile other id' o.physical = .ok g' → g'.process row = g.process row := by
  have hmeans : ∀ {μ : Type} {settings : Settings μ} {id : GraphId} {g : Graph},
      compile settings id o.physical = .ok g → g.process row = p.interpret row := by
    intro μ settings id g hg
    rw [process_of_compile hg row, Rules.optimize_default ha.chain hu ho]
    exact ha.chain.interpret_physicalForm row
  exact ⟨hmeans hg, fun other id' g' hg' => (hmeans hg').trans (hmeans hg).symm⟩

/-- Twice the amount of every order above ten. -/
def Plan.doubledOrders : Plan :=
  (((Plan.scan "orders" ⟨[⟨"id", .int32, false⟩, ⟨"amount", .int32, true⟩]⟩).filter
    (.compare .gt (.column 1) (.literal (.int32 10)))).project
    [.arithmetic .mul (.column 1) (.literal (.int32 2))] ⟨[⟨"double", .int32, true⟩]⟩).root

theorem Plan.doubledOrders_undecided : doubledOrders.ArityCorrect ∧ doubledOrders.AllIn .unset := by
  refine ⟨?_, ?_⟩ <;>
  · intro q hq
    simp only [doubledOrders, root, project, filter, scan, nodes_over, nodes_scan, List.mem_cons,
      List.not_mem_nil, or_false] at hq
    rcases hq with rfl | rfl | rfl | rfl <;> rfl

/-- Fused, the graph of the doubled orders doubles an amount of twelve. -/
theorem optimized_graph_refines_plan_doubledOrders : ∃ (o : Optimized Double) (g : Graph),
    Rules.default.optimize (.fixed Settings.default (.ofInt 1000) none) Plan.doubledOrders = .ok o ∧
    compile { (Settings.default : Settings Double) with fuse := true } 0 o.physical = .ok g ∧
    g.process [.int32 1, .int32 12] = .ok (some [.int32 24]) := by
  obtain ⟨ha, hu⟩ := Plan.doubledOrders_undecided
  obtain ⟨o, ho⟩ : ∃ o : Optimized Double, Rules.default.optimize
      (.fixed Settings.default (.ofInt 1000) none) Plan.doubledOrders = .ok o := ⟨_, rfl⟩
  obtain ⟨g, hg⟩ : ∃ g, compile { (Settings.default : Settings Double) with fuse := true } 0
      o.physical = .ok g := by
    rw [Rules.optimize_default ha.chain hu ho]
    exact ⟨_, rfl⟩
  exact ⟨o, g, ho, hg, (optimized_graph_refines_plan (κ := Double) ha hu ho hg _).1⟩

end FlowPlan
