import FlowPlan.Graph.Compile
import FlowPlan.Proofs.Chain
import FlowPlan.Proofs.Indexing

namespace FlowPlan

open Outcome

namespace Operator

/-- The work of the vertex that an operator gets when it gets one of its own. -/
def processor : Operator → Processor
  | .scan container _ => .scan container
  | .filter predicate => .filter predicate
  | .project exprs _ => .project exprs
  | .root => .root

def vertexName : Operator → String
  | .scan container _ => "scan(" ++ container ++ ")"
  | .filter _ => "filter"
  | .project _ _ => "project"
  | .root => "root"

/-- The columns that leave an operator, once it has been checked against those that enter. -/
def leaving (entering : Schema) : Operator → Except Error Schema
  | .scan _ s => .ok s
  | .filter predicate => do
    let _ ← predicate.asPredicate entering
    pure entering
  | .project exprs declared => do
    let _ ← Expr.asProjection entering exprs
    declared.derive entering exprs
  | .root => .ok entering

end Operator

namespace Builder

variable {ν : Type}

/-- One more vertex, fed by the last one if there is one. -/
def stack (b : Builder) (settings : Settings ν) (t : Traits) (op : Operator) (leaving : Schema) :
    Builder where
  vertices := b.vertices ++
    [⟨b.vertices.length, op.vertexName, settings.parallelism, t.distribution, leaving, op.processor⟩]
  index := (b.vertices.length, b.vertices.length) :: b.index
  edges := match b.vertices.getLast? with
    | none => b.edges
    | some below =>
      b.edges ++ [⟨b.edges.length, b.vertices.length - 1, b.vertices.length, 0,
        Routing.between t.distribution below.distribution⟩]
  nextVertex := b.vertices.length + 1
  nextEdge := match b.vertices.getLast? with
    | none => b.edges.length
    | some _ => b.edges.length + 1

/-- The last vertex made one with a projection of the rows it keeps. -/
def absorb (b : Builder) (p : Plan) (leaving : Schema) (exprs : List Expr) : Builder :=
  { b with vertices := b.vertices.modify (b.vertices.length - 1) (Compile.fused p leaving exprs) }

/-- A node over what was built for its input. -/
def lay (b : Builder) (settings : Settings ν) (t : Traits) (op : Operator) (input : Plan)
    (leaving : Schema) : Builder :=
  match op with
  | .project exprs declared =>
    if settings.fuse && input.kind == .filter then
      b.absorb (.node t (.project exprs declared) [input]) leaving exprs
    else b.stack settings t (.project exprs declared) leaving
  | op => b.stack settings t op leaving

/-- Every edge leads from a vertex to a later one, and there is a vertex at all. -/
structure Standing (b : Builder) : Prop extends Indexed b where
  inhabited : b.vertices ≠ []
  forward : ∀ e ∈ b.edges, e.source < e.target
  bounded : ∀ e ∈ b.edges, e.target < b.vertices.length

end Builder

/-- What is built for a physical plan, from the scan upward. -/
def Plan.assemble {ν : Type} (settings : Settings ν) : Plan → Except Error Builder
  | .node t (.scan c s) inputs => do
    requirePhysical (.node t (.scan c s) inputs)
    pure (Builder.empty.stack settings t (.scan c s) s)
  | .node t op [input] => do
    requirePhysical (.node t op [input])
    let b ← assemble settings input
    let entering ← input.schema
    let leaving ← op.leaving entering
    pure (b.lay settings t op input leaving)
  | .node t op several => do
    requirePhysical (.node t op several)
    .error (.planning (.inputCount op.kind several.length))

namespace Builder

variable {ν : Type} {settings : Settings ν} {b : Builder} {t : Traits} {op : Operator}
  {leaving : Schema}

@[simp] theorem stack_length : (b.stack settings t op leaving).vertices.length =
    b.vertices.length + 1 := by
  simp [stack]

theorem stack_last : (b.stack settings t op leaving).vertices.getLast? =
    some ⟨b.vertices.length, op.vertexName, settings.parallelism, t.distribution, leaving,
      op.processor⟩ := by
  simp [stack]

@[simp] theorem absorb_length {p : Plan} {exprs : List Expr} :
    (b.absorb p leaving exprs).vertices.length = b.vertices.length := by
  simp [absorb]

theorem stack_edges (settings : Settings ν) (t : Traits) (op : Operator) (leaving : Schema)
    (hb : b.vertices ≠ []) : ∃ below ∈ b.vertices.getLast?, (b.stack settings t op leaving).edges =
      b.edges ++ [⟨b.edges.length, b.vertices.length - 1, b.vertices.length, 0,
        Routing.between t.distribution below.distribution⟩] := by
  cases hl : b.vertices.getLast? with
  | none => exact absurd (List.getLast?_eq_none_iff.mp hl) hb
  | some below => exact ⟨below, rfl, by simp [stack, hl]⟩

theorem lay_eq_absorb {exprs : List Expr} {declared : Schema} {input : Plan}
    (hfuse : settings.fuse = true) (hk : input.kind = .filter) :
    b.lay settings t (.project exprs declared) input leaving =
      b.absorb (.node t (.project exprs declared) [input]) leaving exprs := by
  simp [lay, hfuse, hk]

/-- Only a projection over a filter is not put on top. -/
theorem lay_eq_stack {input : Plan}
    (h : settings.fuse = true → op.kind = .project → input.kind ≠ .filter) :
    b.lay settings t op input leaving = b.stack settings t op leaving := by
  cases op with
  | scan container s => rfl
  | filter predicate => rfl
  | root => rfl
  | project exprs declared =>
    have hoff : (settings.fuse && input.kind == .filter) = false := by
      cases hfuse : settings.fuse with
      | false => rfl
      | true => simpa using h hfuse rfl
    simp [lay, hoff]

theorem Indexed.stack (h : b.Indexed) : (b.stack settings t op leaving).Indexed := by
  refine ⟨by simp [Builder.stack], ?_, fun id => ?_⟩
  · simp only [Builder.stack]
    cases b.vertices.getLast? <;> simp
  · rw [stack_length]
    exact lookup_next h.lookup id

theorem Standing.stack (h : b.Standing) : (b.stack settings t op leaving).Standing := by
  have hpos := List.length_pos_iff.mpr h.inhabited
  obtain ⟨below, -, he⟩ := stack_edges settings t op leaving h.inhabited
  refine ⟨h.toIndexed.stack, by simp [Builder.stack], ?_, ?_⟩
  · intro e hm
    rw [he] at hm
    rcases List.mem_append.mp hm with hm | hm
    · exact h.forward e hm
    · obtain rfl := List.mem_singleton.mp hm
      exact Nat.sub_one_lt_of_lt hpos
  · intro e hm
    rw [he] at hm
    rw [stack_length]
    rcases List.mem_append.mp hm with hm | hm
    · exact Nat.lt_succ_of_lt (h.bounded e hm)
    · obtain rfl := List.mem_singleton.mp hm
      exact Nat.lt_succ_self _

theorem standing_scan : (Builder.empty.stack settings t op leaving).Standing :=
  ⟨indexed_empty.stack, by simp [Builder.stack], by simp [Builder.stack, empty],
    by simp [Builder.stack, empty]⟩

theorem Standing.absorb {p : Plan} {exprs : List Expr} (h : b.Standing) :
    (b.absorb p leaving exprs).Standing := by
  refine ⟨⟨?_, h.nextEdge, fun id => ?_⟩, ?_, h.forward, ?_⟩
  · rw [absorb_length]
    exact h.nextVertex
  · rw [absorb_length]
    exact h.lookup id
  · have := List.length_pos_iff.mpr h.inhabited
    exact List.length_pos_iff.mp (by simpa using this)
  · intro e hm
    rw [absorb_length]
    exact h.bounded e hm

/-- Whatever stands can be finished. -/
theorem Standing.build (h : b.Standing) (id : GraphId) :
    b.build id = .ok ⟨id, plannerVersion, b.vertices, b.edges⟩ := by
  have hb : b.edges.forM b.checkForward = .ok () := by
    refine forM_eq_ok.mpr fun e he => ?_
    have hlt := h.forward e he
    have htarget := h.bounded e he
    exact (h.checkForward_eq_ok (Nat.lt_trans hlt htarget) htarget).mpr hlt
  rw [Builder.build, hb, ok_bind, pure_eq_ok]

end Builder

namespace Visit

variable {σ α β : Type}

/-- A walk goes on from where its first step left the state. -/
theorem run_bind_ok {x : Visit σ α} {s s' : σ} {a : α} (h : x.run s = (.ok a, s'))
    (f : α → Visit σ β) : (x >>= f).run s = (f a).run s' := by
  change (ExceptT.bindCont f (x.run s).1) (x.run s).2 = _
  rw [h]
  rfl

/-- A step that fails ends the walk. -/
theorem run_bind_error {x : Visit σ α} {s : σ} {e : Error} (h : (x.run s).1 = .error e)
    (f : α → Visit σ β) : ((x >>= f).run s).1 = .error e := by
  change ((ExceptT.bindCont f (x.run s).1) (x.run s).2).1 = _
  rw [h]
  rfl

theorem run_lift (x : Except Error α) (s : σ) : (Visit.lift x).run s = (x, s) := by
  cases x <;> rfl

theorem run_lift_bind {a : α} (f : α → Visit σ β) (s : σ) :
    (Visit.lift (.ok a) >>= f).run s = (f a).run s :=
  run_bind_ok (run_lift (.ok a) s) f

theorem run_lift_bind_error {e : Error} (f : α → Visit σ β) (s : σ) :
    ((Visit.lift (.error e) >>= f).run s).1 = .error e :=
  run_bind_error (congrArg Prod.fst (run_lift (.error e) s)) f

end Visit

namespace Compile

open Plan Builder

variable {ν : Type} {settings : Settings ν}

/-- What a step did, against what it should have built: the number of the last vertex over the
builder as it should be, or the error. -/
def Gives (done : Except Error VertexId × Builder) (expected : Except Error Builder) : Prop :=
  match expected with
  | .ok b => done = (.ok (b.vertices.length - 1), b) ∧ b.Standing
  | .error e => done.1 = .error e

theorem addVertex_run {p : Plan} {name : String} {processor : Processor} {s : Schema}
    (hs : p.schema = .ok s) (b : Builder) :
    (addVertex settings p name processor).run b =
      (.ok b.nextVertex, (b.addVertex name processor s p.distribution settings.parallelism).2) := by
  rw [addVertex, hs, Visit.run_lift_bind]
  rfl

theorem addEdge_forward {b : Builder} {source target : Nat} (ordinal : Nat) (routing : Routing)
    (hi : b.Indexed) (hlt : source < target) (hb : target < b.vertices.length)
    (hfree : ∀ e ∈ b.edges, e.target < target) :
    b.addEdge source target ordinal routing = (.ok b.edges.length,
      { b with
        edges := b.edges ++ [⟨b.edges.length, source, target, ordinal, routing⟩]
        nextEdge := b.edges.length + 1 }) := by
  have hsource : b.has source = true := hi.has_eq.trans (decide_eq_true (Nat.lt_trans hlt hb))
  have htarget : b.has target = true := hi.has_eq.trans (decide_eq_true hb)
  have hne : source ≠ target := Nat.ne_of_lt hlt
  have hslot : (b.edges.any fun e => e.target == target && e.ordinal == ordinal) = false := by
    apply List.any_eq_false.mpr
    intro e he
    simp [Nat.ne_of_lt (hfree e he)]
  simp only [addEdge, hsource, htarget, hne, hslot, hi.nextEdge, Bool.not_true, Bool.false_eq_true,
    ↓reduceIte]

theorem connect_run {p : Plan} {b : Builder} {input id : VertexId} {child : Vertex}
    (hi : b.Indexed) (hc : b.vertices[input]? = some child) (hlt : input < id)
    (hb : id < b.vertices.length) (hfree : ∀ e ∈ b.edges, e.target < id) :
    (connect p input id).run b = (.ok (), { b with
      edges := b.edges ++
        [⟨b.edges.length, input, id, 0, Routing.between p.distribution child.distribution⟩]
      nextEdge := b.edges.length + 1 }) := by
  have he := addEdge_forward 0 (Routing.between p.distribution child.distribution) hi hlt hb hfree
  have hget : (get : Step Builder).run b = (.ok b, b) := rfl
  rw [connect, Visit.run_bind_ok hget]
  simp only [hi.vertex?_eq, hc, he, mapError_ok]
  rfl

/-- A vertex that is put over the last one is fed by it. -/
theorem addOver_gives {t : Traits} {op : Operator} {inputs : List Plan} {s : Schema} {b : Builder}
    (hs : (Plan.node t op inputs).schema = .ok s) (hb : b.Standing) :
    Gives ((addOver settings (.node t op inputs) op.vertexName op.processor
      (b.vertices.length - 1)).run b) (.ok (b.stack settings t op s)) := by
  refine ⟨?_, hb.stack⟩
  have hpos := List.length_pos_iff.mpr hb.inhabited
  obtain ⟨below, hlast, he⟩ := stack_edges settings t op s hb.inhabited
  have hchild : (b.vertices ++ [⟨b.vertices.length, op.vertexName, settings.parallelism,
      t.distribution, s, op.processor⟩] : List Vertex)[b.vertices.length - 1]? = some below := by
    rw [List.getElem?_append_left (by omega), ← List.getLast?_eq_getElem?]
    exact hlast
  have hadded := hb.toIndexed.addVertex op.vertexName op.processor s t.distribution
    settings.parallelism
  have hrun : (addVertex settings (.node t op inputs) op.vertexName op.processor).run b = _ :=
    addVertex_run hs b
  simp only [Builder.addVertex, hb.nextVertex] at hadded hrun
  have hconnect := connect_run (p := .node t op inputs) hadded hchild (Nat.sub_one_lt_of_lt hpos)
    (by simp) hb.bounded
  rw [addOver, Visit.run_bind_ok hrun, stack_length, Nat.add_sub_cancel]
  refine (Visit.run_bind_ok hconnect _).trans ?_
  simp only [Builder.stack, Option.mem_def.mp hlast]
  rfl

/-- A projection over a filter's vertex, which is the last one, becomes a part of it. -/
theorem fuse_run {p : Plan} {b : Builder} {s : Schema} {exprs : List Expr} {v : Vertex}
    {predicate : Expr} (hs : p.schema = .ok s) (hb : b.Standing)
    (hv : b.vertices.getLast? = some v) (hf : v.processor = .filter predicate) :
    (fuse p (b.vertices.length - 1) exprs).run b = (.ok true, b.absorb p s exprs) := by
  have hpos := List.length_pos_iff.mpr hb.inhabited
  have hget : (get : Step Builder).run b = (.ok b, b) := rfl
  have hlast : b.vertices[b.vertices.length - 1]? = some v := by
    rw [← List.getLast?_eq_getElem?, hv]
  have hposition := hb.position_eq (Nat.sub_one_lt_of_lt hpos)
  rw [fuse, hs, Visit.run_lift_bind, Visit.run_bind_ok hget]
  simp only [hb.vertex?_eq, hlast, hf, update, hposition, mapError_ok]
  rw [Visit.run_lift_bind]
  rfl

end Compile

namespace Plan

variable {ν : Type} {settings : Settings ν} {t : Traits} {op : Operator} {input : Plan}

theorem requirePhysical_eq_ok {p : Plan} : p.requirePhysical = .ok () ↔ p.isPhysical = true := by
  cases h : p.isPhysical <;> simp [requirePhysical, h]

theorem asPredicate_eq_ok {s : Schema} {predicate q : Expr}
    (h : predicate.asPredicate s = .ok q) : q = predicate := by
  obtain ⟨_, -, rfl⟩ := map_eq_ok.mp (mapError_eq_ok.mp h)
  rfl

theorem asProjection_eq_ok {s : Schema} {exprs found : List Expr}
    (h : Expr.asProjection s exprs = .ok found) : found = exprs := by
  obtain ⟨_, -, rfl⟩ := map_eq_ok.mp (mapError_eq_ok.mp h)
  rfl

/-- The columns that leave a physical node are those that leave its operator. -/
theorem schema_of_leaving {entering leaving : Schema} (one : op.arity = 1)
    (hp : (Plan.node t op [input]).isPhysical = true) (hs : input.schema = .ok entering)
    (hl : op.leaving entering = .ok leaving) : (Plan.node t op [input]).schema = .ok leaving := by
  have hr := requirePhysical_eq_ok.mpr hp
  cases op with
  | scan container s => cases one
  | filter predicate =>
    obtain ⟨_, -, hl⟩ := bind_eq_ok.mp hl
    simpa only [schema, hr, ok_bind, hs, pure_eq_ok] using hl
  | project exprs declared =>
    obtain ⟨_, -, hl⟩ := bind_eq_ok.mp hl
    simpa only [schema, hr, ok_bind, hs] using hl
  | root => simpa only [schema, hr, ok_bind, hs, Operator.leaving] using hl

theorem assemble_over (one : op.arity = 1) : (Plan.node t op [input]).assemble settings = (do
    requirePhysical (.node t op [input])
    let b ← input.assemble settings
    let entering ← input.schema
    let leaving ← op.leaving entering
    pure (b.lay settings t op input leaving)) := by
  cases op with
  | scan container s => cases one
  | filter predicate => rw [assemble]; simp
  | project exprs declared => rw [assemble]; simp
  | root => rw [assemble]; simp

theorem assemble_several {inputs : List Plan} (one : op.arity = 1) (h : inputs.length ≠ 1) :
    (Plan.node t op inputs).assemble settings = (do
      requirePhysical (.node t op inputs)
      .error (.planning (.inputCount op.kind inputs.length))) := by
  match inputs with
  | [] =>
    cases op with
    | scan container s => cases one
    | filter predicate => rw [assemble] <;> simp
    | project exprs declared => rw [assemble] <;> simp
    | root => rw [assemble] <;> simp
  | [input] => exact absurd rfl h
  | _ :: _ :: _ =>
    cases op with
    | scan container s => cases one
    | filter predicate => rw [assemble] <;> simp
    | project exprs declared => rw [assemble] <;> simp
    | root => rw [assemble] <;> simp

/-- What is built for a plan, as a relation to do induction on: a scan's vertex, or a node laid
over what was built for its only input. -/
inductive Assembled {ν : Type} (settings : Settings ν) : Plan → Builder → Prop where
  | scan {t : Traits} {container : String} {s : Schema} {inputs : List Plan}
      (physical : (Plan.node t (.scan container s) inputs).requirePhysical = .ok ()) :
      Assembled settings (.node t (.scan container s) inputs)
        (Builder.empty.stack settings t (.scan container s) s)
  | laid {t : Traits} {op : Operator} {input : Plan} {b : Builder} {entering leaving : Schema}
      (one : op.arity = 1) (physical : (Plan.node t op [input]).requirePhysical = .ok ())
      (below : Assembled settings input b) (enters : input.schema = .ok entering)
      (leaves : op.leaving entering = .ok leaving) :
      Assembled settings (.node t op [input]) (b.lay settings t op input leaving)

theorem assembled_of_eq_ok : {p : Plan} → {b : Builder} → p.assemble settings = .ok b →
    Assembled settings p b
  | .node t op inputs, b, h => by
    rcases op.scan_or_over with ⟨container, s, rfl⟩ | one
    · rw [assemble] at h
      obtain ⟨_, hp, h⟩ := bind_eq_ok.mp h
      cases h
      exact .scan hp
    · rcases inputs with _ | ⟨input, _ | ⟨second, more⟩⟩
      · rw [assemble_several one (by simp)] at h
        obtain ⟨_, -, h⟩ := bind_eq_ok.mp h
        cases h
      · rw [assemble_over one] at h
        obtain ⟨_, hp, h⟩ := bind_eq_ok.mp h
        obtain ⟨below, hbelow, h⟩ := bind_eq_ok.mp h
        obtain ⟨entering, hentering, h⟩ := bind_eq_ok.mp h
        obtain ⟨leaving, hleaving, h⟩ := bind_eq_ok.mp h
        cases h
        exact .laid one hp (assembled_of_eq_ok hbelow) hentering hleaving
      · rw [assemble_several one (by simp)] at h
        obtain ⟨_, -, h⟩ := bind_eq_ok.mp h
        cases h

/-- What is built for a filter ends in the filter's own vertex. -/
theorem Assembled.last_filter {p : Plan} {b : Builder} (h : Assembled settings p b)
    (hk : p.kind = .filter) :
    ∃ v predicate, b.vertices.getLast? = some v ∧ v.processor = .filter predicate := by
  cases h with
  | scan physical => cases hk
  | @laid t op input b entering leaving one physical below enters leaves =>
    cases op with
    | scan container s => cases hk
    | project exprs declared => cases hk
    | root => cases hk
    | filter predicate => exact ⟨_, predicate, Builder.stack_last, rfl⟩

end Plan

namespace Compile

open Plan Builder

variable {ν : Type} {settings : Settings ν}

/-- The last part of the step at a projection, which either becomes a part of the vertex below or
gets one of its own. -/
theorem project_gives {t : Traits} {exprs : List Expr} {declared entering : Schema} {input : Plan}
    {b : Builder} (hp : (Plan.node t (.project exprs declared) [input]).isPhysical = true)
    (hs : input.schema = .ok entering)
    (ha : input.assemble settings = .ok b) (hb : b.Standing) :
    Gives ((do
      let p : Plan := .node t (.project exprs declared) [input]
      let below := b.vertices.length - 1
      let done ← if settings.fuse && input.kind == .filter then fuse p below exprs else pure false
      if done then pure below else addOver settings p "project" (.project exprs) below :
        Step VertexId).run b)
      (do
        let leaving ← declared.derive entering exprs
        pure (b.lay settings t (.project exprs declared) input leaving)) := by
  have hschema : (Plan.node t (.project exprs declared) [input]).schema =
      declared.derive entering exprs := by
    simp [schema, requirePhysical_eq_ok.mpr hp, hs]
  have hfalse : (pure false : Step Bool).run b = (.ok false, b) := rfl
  cases hd : declared.derive entering exprs with
  | error e =>
    have hadd : ∀ name processor, ((addOver settings (.node t (.project exprs declared) [input])
        name processor (b.vertices.length - 1)).run b).1 = .error e := by
      intro name processor
      simp only [addOver, addVertex, hschema, hd]
      exact Visit.run_bind_error (Visit.run_lift_bind_error _ _) _
    simp only [error_bind, Gives]
    split
    · apply Visit.run_bind_error
      simp only [fuse, hschema, hd]
      exact Visit.run_lift_bind_error _ _
    · rw [Visit.run_bind_ok hfalse]
      exact hadd _ _
  | ok leaving =>
    rw [hd] at hschema
    simp only [ok_bind, pure_eq_ok, lay]
    split
    · rename_i hfuse
      have hk : input.kind = .filter := by simpa using (Bool.and_eq_true_iff.mp hfuse).2
      obtain ⟨v, predicate, hv, hf⟩ := (assembled_of_eq_ok ha).last_filter hk
      rw [Visit.run_bind_ok (fuse_run hschema hb hv hf)]
      exact ⟨by rw [absorb_length]; rfl, hb.absorb⟩
    · rw [Visit.run_bind_ok hfalse]
      exact addOver_gives hschema hb

/-- The step at one node lays it over what was built for its input. -/
theorem stepAt_gives {t : Traits} {op : Operator} {input : Plan} {b : Builder}
    (one : op.arity = 1) (hp : (Plan.node t op [input]).isPhysical = true)
    (ha : input.assemble settings = .ok b) (hb : b.Standing) :
    Gives ((stepAt (visitor settings) (.node t op [input]) (b.vertices.length - 1)).run b)
      (do
        let entering ← input.schema
        let leaving ← op.leaving entering
        pure (b.lay settings t op input leaving)) := by
  have hin : inputOf (.node t op [input]) = Visit.lift (.ok input) := rfl
  cases op with
  | scan container s => cases one
  | filter predicate =>
    simp only [stepAt, Plan.op, visitor, hin]
    rw [Visit.run_lift_bind]
    cases hs : input.schema with
    | error e => exact Visit.run_lift_bind_error _ _
    | ok entering =>
      rw [Visit.run_lift_bind]
      cases hq : predicate.asPredicate entering with
      | error e =>
        simp only [ok_bind, Operator.leaving, hq, error_bind]
        exact Visit.run_lift_bind_error _ _
      | ok q =>
        obtain rfl := asPredicate_eq_ok hq
        have hl : Operator.leaving entering (.filter q) = .ok entering := by
          simp [Operator.leaving, hq]
        rw [Visit.run_lift_bind]
        simp only [ok_bind, hl]
        exact addOver_gives (schema_of_leaving one hp hs hl) hb
  | project exprs declared =>
    simp only [stepAt, Plan.op, visitor, hin]
    rw [Visit.run_lift_bind]
    cases hs : input.schema with
    | error e => exact Visit.run_lift_bind_error _ _
    | ok entering =>
      rw [Visit.run_lift_bind]
      cases hq : Expr.asProjection entering exprs with
      | error e =>
        simp only [ok_bind, Operator.leaving, hq, error_bind]
        exact Visit.run_lift_bind_error _ _
      | ok q =>
        obtain rfl := asProjection_eq_ok hq
        rw [Visit.run_lift_bind]
        have hleaving : Operator.leaving entering (.project q declared) =
            declared.derive entering q := by
          simp [Operator.leaving, hq]
        simp only [ok_bind, hleaving]
        exact project_gives hp hs ha hb
  | root =>
    simp only [stepAt, Plan.op, visitor]
    cases hs : input.schema with
    | error e =>
      have hs' : (Plan.node t .root [input]).schema = .error e := by
        simp [schema, requirePhysical_eq_ok.mpr hp, hs]
      simp only [error_bind, Gives, addOver, addVertex, hs']
      exact Visit.run_bind_error (Visit.run_lift_bind_error _ _) _
    | ok entering => exact addOver_gives (schema_of_leaving one hp hs rfl) hb

theorem accept_over {σ α : Type} {v : Visitor σ α} {t : Traits} {op : Operator} {input : Plan}
    (one : op.arity = 1) : (Plan.node t op [input]).accept v = (do
      Visit.lift (requirePhysical (.node t op [input]))
      let below ← input.accept v
      stepAt v (.node t op [input]) below) := by
  cases op with
  | scan container s => cases one
  | filter predicate => rw [accept]; simp
  | project exprs declared => rw [accept]; simp
  | root => rw [accept]; simp

theorem accept_several {σ α : Type} {v : Visitor σ α} {t : Traits} {op : Operator}
    {inputs : List Plan} (one : op.arity = 1) (h : inputs.length ≠ 1) :
    (Plan.node t op inputs).accept v = (do
      Visit.lift (requirePhysical (.node t op inputs))
      throw (.planning (.inputCount op.kind inputs.length))) := by
  match inputs with
  | [] =>
    cases op with
    | scan container s => cases one
    | filter predicate => rw [accept] <;> simp
    | project exprs declared => rw [accept] <;> simp
    | root => rw [accept] <;> simp
  | [input] => exact absurd rfl h
  | _ :: _ :: _ =>
    cases op with
    | scan container s => cases one
    | filter predicate => rw [accept] <;> simp
    | project exprs declared => rw [accept] <;> simp
    | root => rw [accept] <;> simp

/-- A walk over a node builds what is expected of the node if a walk over its input does so. -/
theorem accept_over_gives {t : Traits} {op : Operator} {input : Plan} (one : op.arity = 1)
    (hin : Gives ((input.accept (visitor settings)).run Builder.empty) (input.assemble settings)) :
    Gives (((Plan.node t op [input]).accept (visitor settings)).run Builder.empty)
      ((Plan.node t op [input]).assemble settings) := by
  rw [accept_over one, assemble_over one]
  cases hr : requirePhysical (.node t op [input]) with
  | error e => exact Visit.run_lift_bind_error _ _
  | ok u =>
    rw [Visit.run_lift_bind, ok_bind]
    cases ha : input.assemble settings with
    | error e =>
      rw [ha] at hin
      exact Visit.run_bind_error hin _
    | ok b =>
      rw [ha] at hin
      obtain ⟨hrun, hb⟩ := hin
      rw [Visit.run_bind_ok hrun, ok_bind]
      exact stepAt_gives one (requirePhysical_eq_ok.mp hr) ha hb

theorem accept_several_gives {t : Traits} {op : Operator} {inputs : List Plan} (one : op.arity = 1)
    (h : inputs.length ≠ 1) :
    Gives (((Plan.node t op inputs).accept (visitor settings)).run Builder.empty)
      ((Plan.node t op inputs).assemble settings) := by
  rw [accept_several one h, assemble_several one h]
  cases hr : requirePhysical (.node t op inputs) with
  | error e => exact Visit.run_lift_bind_error _ _
  | ok u => rfl

theorem accept_scan_gives (t : Traits) (container : String) (s : Schema) (inputs : List Plan) :
    Gives (((Plan.node t (.scan container s) inputs).accept (visitor settings)).run Builder.empty)
      ((Plan.node t (.scan container s) inputs).assemble settings) := by
  rw [accept, assemble]
  cases hr : requirePhysical (.node t (.scan container s) inputs) with
  | error e => exact Visit.run_lift_bind_error _ _
  | ok u =>
    have hs : (Plan.node t (.scan container s) inputs).schema = .ok s := by simp [schema, hr]
    rw [Visit.run_lift_bind]
    exact ⟨addVertex_run hs Builder.empty, standing_scan⟩

/-- A walk over a plan builds what `assemble` says, or fails with its error. -/
theorem accept_gives (settings : Settings ν) : (p : Plan) →
    Gives ((p.accept (visitor settings)).run Builder.empty) (p.assemble settings)
  | .node t op [] => by
    rcases op.scan_or_over with ⟨container, s, rfl⟩ | one
    · exact accept_scan_gives t container s []
    · exact accept_several_gives one (by simp)
  | .node t op [input] => by
    rcases op.scan_or_over with ⟨container, s, rfl⟩ | one
    · exact accept_scan_gives t container s [input]
    · exact accept_over_gives one (accept_gives settings input)
  | .node t op (first :: second :: rest) => by
    rcases op.scan_or_over with ⟨container, s, rfl⟩ | one
    · exact accept_scan_gives t container s (first :: second :: rest)
    · exact accept_several_gives one (by simp)

end Compile

/-- A compilation checks the plan and then gives the graph that is assembled for it. -/
theorem compile_eq {ν : Type} (settings : Settings ν) (id : GraphId) (p : Plan) :
    compile settings id p = (do
      p.requirePhysical
      p.checkConventions
      let b ← p.assemble settings
      pure ⟨id, plannerVersion, b.vertices, b.edges⟩ : Except Error Graph).mapError .plan := by
  have hgives := Compile.accept_gives settings p
  unfold compile
  cases hr : p.requirePhysical with
  | error e => rfl
  | ok u =>
    cases hc : p.checkConventions with
    | error e => rfl
    | ok u =>
      cases ha : p.assemble settings with
      | error e =>
        rw [ha] at hgives
        cases hd : (p.accept (Compile.visitor settings)).run Builder.empty with
        | mk done b =>
          rw [hd] at hgives
          obtain rfl : done = .error e := hgives
          rfl
      | ok b =>
        rw [ha] at hgives
        obtain ⟨hrun, hb⟩ := hgives
        simp only [ok_bind, mapError_ok, hrun, hb.build, pure_eq_ok]

end FlowPlan
