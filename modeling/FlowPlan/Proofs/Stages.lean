import FlowPlan.Proofs.Gathering
import FlowPlan.Proofs.Shape

namespace FlowPlan

open Outcome

/-- What one vertex does for a plan. The columns and the placement are those of its topmost node. -/
structure Stage where
  top : Plan
  name : String
  processor : Processor

namespace Stage

/-- A node by itself. -/
def single (p : Plan) : Stage := ⟨p, p.op.vertexName, p.op.processor⟩

/-- A projection with the filter directly below it. Other nodes do not go together. -/
def joined? (p below : Plan) : Option Stage :=
  match p.op, below.op with
  | .project exprs _, .filter predicate => some ⟨p, "calc", .calc predicate exprs⟩
  | _, _ => none

/-- The stages of nodes that stand over each other, from the top down. -/
def ofNodes (fuse : Bool) : List Plan → List Stage
  | [] => []
  | [p] => [single p]
  | p :: q :: rest =>
    match if fuse then joined? p q else none with
    | some s => s :: ofNodes fuse rest
    | none => single p :: ofNodes fuse (q :: rest)

/-- The vertex of a stage, which emits the given columns. -/
def vertex {ν : Type} (s : Stage) (settings : Settings ν) (id : VertexId) (leaving : Schema) :
    Vertex :=
  ⟨id, s.name, settings.parallelism, s.top.distribution, leaving, s.processor⟩

theorem ofNodes_off (nodes : List Plan) : ofNodes false nodes = nodes.map single := by
  induction nodes with
  | nil => rfl
  | cons p rest ih =>
    cases rest with
    | nil => rfl
    | cons q rest => simpa [ofNodes] using ih

theorem joined?_eq_some {p below : Plan} {s : Stage} (h : joined? p below = some s) :
    ∃ exprs declared predicate, p.op = .project exprs declared ∧ below.op = .filter predicate ∧
      s = ⟨p, "calc", .calc predicate exprs⟩ := by
  unfold joined? at h
  split at h
  · next exprs declared predicate hp hbelow =>
    exact ⟨exprs, declared, predicate, hp, hbelow, (Option.some.inj h).symm⟩
  · cases h

theorem joined?_eq_none {p below : Plan} (h : joined? p below = none) (hp : p.kind = .project) :
    below.kind ≠ .filter := by
  intro hk
  obtain ⟨t, op, inputs⟩ := p
  obtain ⟨u, op', inputs'⟩ := below
  cases op with
  | scan container s => cases hp
  | filter predicate => cases hp
  | root => cases hp
  | project exprs declared =>
    cases op' with
    | filter predicate => cases h
    | scan container s => cases hk
    | project exprs declared => cases hk
    | root => cases hk

end Stage

namespace Plan

/-- The stages of a plan, from the scan upward. -/
def stages (fuse : Bool) (p : Plan) : List Stage := (Stage.ofNodes fuse p.nodes).reverse

theorem stages_off (p : Plan) : p.stages false = p.nodes.reverse.map .single := by
  rw [stages, Stage.ofNodes_off, List.map_reverse]

variable {ν : Type} {settings : Settings ν} {fuse : Bool} {t : Traits} {op : Operator} {input : Plan}

theorem nodes_eq_cons (p : Plan) : p.nodes = p :: nodesOf p.inputs := by
  cases p
  rw [nodes]
  rfl

@[simp] theorem stages_scan : (Plan.node t op []).stages fuse = [.single (.node t op [])] := by
  rw [stages, nodes_scan]
  rfl

theorem stages_single (h : (if fuse then Stage.joined? (.node t op [input]) input else none) = none) :
    (Plan.node t op [input]).stages fuse = input.stages fuse ++ [.single (.node t op [input])] := by
  rw [stages, nodes_over, stages, nodes_eq_cons input, Stage.ofNodes, h, List.reverse_cons]

theorem stages_joined {u : Traits} {below : Operator} {s : Stage}
    (h : Stage.joined? (.node t op [.node u below [input]]) (.node u below [input]) = some s) :
    (Plan.node t op [.node u below [input]]).stages true = input.stages true ++ [s] := by
  rw [stages, nodes_over, nodes_over, Stage.ofNodes, if_pos rfl, h, List.reverse_cons, stages]

/-- An operator is laid as a stage of its own, or it is a projection that makes one with the filter
below. -/
theorem lay_eq (b : Builder) (settings : Settings ν) (t : Traits) (op : Operator) (input : Plan)
    (leaving : Schema) :
    ((if settings.fuse then Stage.joined? (.node t op [input]) input else none) = none ∧
      b.lay settings t op input leaving = b.stack settings t op leaving) ∨
    ∃ exprs declared predicate, settings.fuse = true ∧ op = .project exprs declared ∧
      input.op = .filter predicate ∧
      Stage.joined? (.node t op [input]) input =
        some ⟨.node t op [input], "calc", .calc predicate exprs⟩ ∧
      b.lay settings t op input leaving = b.absorb (.node t op [input]) leaving exprs := by
  cases hj : if settings.fuse then Stage.joined? (.node t op [input]) input else none with
  | none =>
    refine .inl ⟨rfl, Builder.lay_eq_stack fun hfuse hop => ?_⟩
    rw [hfuse, if_pos rfl] at hj
    exact Stage.joined?_eq_none hj hop
  | some s =>
    obtain ⟨hfuse, hj⟩ := Option.ite_none_right_eq_some.mp hj
    obtain ⟨exprs, declared, predicate, rfl, hbelow, rfl⟩ := Stage.joined?_eq_some hj
    have hk : input.kind = .filter := by rw [kind, hbelow, Operator.kind]
    exact .inr ⟨exprs, declared, predicate, hfuse, rfl, hbelow, hj, Builder.lay_eq_absorb hfuse hk⟩

/-- Each vertex is that of the stage at its position. -/
def Drawn (settings : Settings ν) (stages : List Stage) (vertices : List Vertex) : Prop :=
  vertices.length = stages.length ∧ ∀ (k : Nat) (s : Stage), stages[k]? = some s →
    ∃ leaving, s.top.schema = .ok leaving ∧ vertices[k]? = some (s.vertex settings k leaving)

theorem Drawn.concat {stages : List Stage} {vertices : List Vertex} {s : Stage} {leaving : Schema}
    (h : Drawn settings stages vertices) (hs : s.top.schema = .ok leaving) :
    Drawn settings (stages ++ [s]) (vertices ++ [s.vertex settings vertices.length leaving]) := by
  refine ⟨by simp [h.1], fun k found hk => ?_⟩
  rw [List.getElem?_append] at hk
  split at hk
  · next hlt =>
    obtain ⟨left, hleft, hv⟩ := h.2 k found hk
    exact ⟨left, hleft, by rw [List.getElem?_append_left (h.1 ▸ hlt), hv]⟩
  · next hge =>
    obtain ⟨hlt, hfound⟩ := List.getElem?_eq_some_iff.mp hk
    rw [List.getElem_singleton] at hfound
    obtain rfl : k = vertices.length := by
      rw [List.length_singleton] at hlt
      have := h.1
      omega
    exact ⟨leaving, hfound ▸ hs, by rw [List.getElem?_concat_length, hfound]⟩

/-- A chain is drawn stage by stage. A joined stage comes after the stages below its filter, so the
step at a projection looks two nodes down. -/
theorem Assembled.drawn : {p : Plan} → {b : Builder} → Assembled settings p b → Chain p →
    Drawn settings (p.stages settings.fuse) b.vertices
  | _, _, @Assembled.scan _ _ t container s inputs physical, chain => by
    cases chain with
    | node _ _ _ one _ => cases one
    | scan _ _ _ =>
      have hempty : Drawn settings [] [] := ⟨rfl, by simp⟩
      have hschema : (Plan.node t (.scan container s) []).schema = .ok s := by
        rw [schema, physical, ok_bind, pure_eq_ok]
      rw [stages_scan]
      exact hempty.concat (s := .single _) hschema
  | _, _, @Assembled.laid _ _ t op input b entering leaving one physical below enters leaves,
      .node _ _ _ _ chain => by
    have hschema := schema_of_leaving one (requirePhysical_eq_ok.mp physical) enters leaves
    rcases lay_eq b settings t op input leaving with
      ⟨hj, he⟩ | ⟨exprs, declared, predicate, hfuse, rfl, hbelow, hj, he⟩
    · rw [he, stages_single hj]
      exact (below.drawn chain).concat hschema
    · cases below with
      | scan physical => cases hbelow
      | @laid u filter input b entering kept one physical below enters leaves =>
        obtain rfl : filter = .filter predicate := hbelow
        cases chain with
        | node _ _ _ _ chain =>
          rw [he, hfuse, stages_joined hj, ← hfuse, Builder.absorb_vertices rfl rfl]
          exact (below.drawn chain).concat hschema

/-- Every vertex but the first is fed by the one before it, through an edge of the same number. -/
theorem Assembled.linked {p : Plan} {b : Builder} (h : Assembled settings p b) :
    b.edges.map Edge.ends = (List.range (b.vertices.length - 1)).map fun k => (k, k, k + 1, 0) := by
  induction h with
  | scan physical => rfl
  | @laid t op input b entering leaving one physical below enters leaves ih =>
    rcases lay_eq b settings t op input leaving with ⟨-, he⟩ | ⟨exprs, -, -, -, -, -, -, he⟩
    -- so far there is one edge less than there are vertices, which gives the new edge its number
    · have hinhabited := below.topped.inhabited
      obtain ⟨n, hn⟩ := Nat.exists_eq_succ_of_ne_zero (List.length_pos_iff.mpr hinhabited).ne'
      obtain ⟨last, -, hedges⟩ := Builder.stack_edges settings t op leaving hinhabited
      have hcount : b.edges.length = n := by
        have := congrArg List.length ih
        simpa [hn] using this
      rw [he, hedges, Builder.stack_length, List.map_append, ih, hcount, hn]
      simp only [Nat.succ_eq_add_one, Nat.add_sub_cancel, List.range_succ, List.map_append]
      rfl
    · rw [he, Builder.absorb_length]
      exact ih

theorem assemble_scan_alike (settings settings' : Settings ν) (t : Traits) (container : String)
    (s : Schema) (inputs : List Plan) :
    Alike ((Plan.node t (.scan container s) inputs).assemble settings)
      ((Plan.node t (.scan container s) inputs).assemble settings') := by
  rw [assemble, assemble]
  exact alike_bind _ fun _ => rfl

theorem assemble_several_alike (settings settings' : Settings ν) {inputs : List Plan}
    (h : inputs.length ≠ 1) :
    Alike ((Plan.node t op inputs).assemble settings)
      ((Plan.node t op inputs).assemble settings') := by
  rcases op.scan_or_over with ⟨container, s, rfl⟩ | one
  · exact assemble_scan_alike settings settings' t container s inputs
  · rw [assemble_several one h, assemble_several one h]
    rfl

/-- Settings decide what is built, not whether it can be. -/
theorem assemble_alike (settings settings' : Settings ν) : (p : Plan) →
    Alike (p.assemble settings) (p.assemble settings')
  | .node t op [] => assemble_several_alike settings settings' (by simp)
  | .node t op [input] => by
    rcases op.scan_or_over with ⟨container, s, rfl⟩ | one
    · exact assemble_scan_alike settings settings' t container s [input]
    · rw [assemble_over one, assemble_over one]
      refine alike_bind _ fun _ => (assemble_alike settings settings' input).bind fun b b' => ?_
      exact alike_bind _ fun entering => alike_bind _ fun leaving => rfl
  | .node t op (_ :: _ :: _) => assemble_several_alike settings settings' (by simp)

end Plan

theorem compile_alike {ν : Type} (settings settings' : Settings ν) (id id' : GraphId) (p : Plan) :
    Alike (compile settings id p) (compile settings' id' p) := by
  rw [compile_eq, compile_eq]
  refine Alike.mapError (alike_bind _ fun _ => alike_bind _ fun _ => ?_) _
  exact (p.assemble_alike settings settings').bind fun b b' => rfl

/-- All settings compile the same plans and refuse the others with the same errors. The graph has
one vertex per stage, numbered from the scan upward, with the columns that were derived for the
topmost node of the stage and with that node's placement; each feeds the next one. Without fusion
the stages are the nodes. The graph passes the checks of its order and of its shape. -/
theorem compile_gives_stages {ν : Type} (settings settings' : Settings ν) (id id' : GraphId)
    {p : Plan} (ha : p.ArityCorrect) :
    (compile settings id p).map (fun _ => ()) = (compile settings' id' p).map (fun _ => ()) ∧
    p.stages false = p.nodes.reverse.map .single ∧
    ∀ g, compile settings id p = .ok g →
      g.vertices.length = (p.stages settings.fuse).length ∧
      (∀ (k : Nat) (s : Stage), (p.stages settings.fuse)[k]? = some s →
        ∃ leaving, s.top.schema = .ok leaving ∧ g.vertices[k]? = some (s.vertex settings k leaving)) ∧
      g.edges.map Edge.ends = (List.range (g.vertices.length - 1)).map (fun k => (k, k, k + 1, 0)) ∧
      g.checkOrder = .ok () ∧ g.checkTree = .ok () := by
  refine ⟨compile_alike settings settings' id id' p, p.stages_off, fun g hg => ?_⟩
  rw [compile_eq] at hg
  obtain ⟨_, -, hg⟩ := bind_eq_ok.mp (mapError_eq_ok.mp hg)
  obtain ⟨_, -, hg⟩ := bind_eq_ok.mp hg
  obtain ⟨b, hb, hg⟩ := bind_eq_ok.mp hg
  cases hg
  have hb := Plan.assembled_of_eq_ok hb
  obtain ⟨hcount, hdrawn⟩ := hb.drawn ha.chain
  have hlinear : Graph.Linear ⟨id, plannerVersion, b.vertices, b.edges⟩ :=
    ⟨hb.topped.inhabited, hb.topped.numbered, hb.linked⟩
  exact ⟨hcount, hdrawn, hb.linked, hlinear.forward.checkOrder, hlinear.checkTree⟩

theorem Plan.gatheredOrders_arity (d : Distribution) : (gatheredOrders d).ArityCorrect := by
  intro q hq
  simp only [gatheredOrders, nodes_over, nodes_scan, List.mem_cons, List.not_mem_nil, or_false] at hq
  rcases hq with rfl | rfl | rfl <;> rfl

/-- Fused, the large orders are found and gathered by one vertex over that of the scan. -/
theorem compile_gives_stages_gatheredOrders : ∃ (g : Graph) (scan fused : Vertex),
    compile { (Settings.default : Settings Double) with fuse := true } 0
      (.gatheredOrders .root) = .ok g ∧
    g.vertices.length = 2 ∧ g.vertices[0]? = some scan ∧ g.vertices[1]? = some fused ∧
    scan.processor = .scan "orders" ∧ fused.distribution = .root ∧
    fused.processor = .calc (.compare .gt (.column 0) (.literal (.int32 10))) [.column 0] ∧
    g.edges.map Edge.ends = [(0, 0, 1, 0)] ∧ g.checkTree = .ok () := by
  obtain ⟨g, hg⟩ : ∃ g, compile { (Settings.default : Settings Double) with fuse := true } 0
      (.gatheredOrders .root) = .ok g := ⟨_, rfl⟩
  obtain ⟨-, -, hgives⟩ := compile_gives_stages
    { (Settings.default : Settings Double) with fuse := true } Settings.default 0 1
    (Plan.gatheredOrders_arity .root)
  obtain ⟨hcount, hdrawn, hedges, -, htree⟩ := hgives g hg
  have hcount : g.vertices.length = 2 := hcount
  obtain ⟨_, -, hscan⟩ := hdrawn 0 _ rfl
  obtain ⟨_, -, hfused⟩ := hdrawn 1 _ rfl
  rw [hcount] at hedges
  exact ⟨g, _, _, hg, hcount, hscan, hfused, rfl, rfl, rfl, hedges, htree⟩

end FlowPlan
