import FlowPlan.Proofs.Interpretation

namespace FlowPlan

open Outcome

/-- Every edge joins two vertices of the graph, and rows leave their members along it exactly when
the target is on the root member and the source is not. -/
def Graph.Gathered (g : Graph) : Prop :=
  ∀ e ∈ g.edges, ∃ source target, g.vertex? e.source = some source ∧
    g.vertex? e.target = some target ∧
    e.routing = if target.distribution = .root ∧ source.distribution ≠ .root then .allToOne
      else .local

namespace Plan

/-- The nodes that a compilation visits. Nothing below a scan is. -/
def spine : Plan → List Plan
  | .node t (.scan container s) inputs => [.node t (.scan container s) inputs]
  | .node t op [input] => .node t op [input] :: spine input
  | p => [p]

/-- If the node is a projection over a filter, then both are on the root member or neither is,
unless what is below them is there already. -/
def FusesAlike : Plan → Prop
  | .node t (.project _ _) [.node u (.filter _) [input]] =>
    input.distribution = .root ∨ (t.distribution = .root ↔ u.distribution = .root)
  | _ => True

variable {t : Traits} {op : Operator} {input : Plan}

theorem spine_over (one : op.arity = 1) :
    (Plan.node t op [input]).spine = .node t op [input] :: input.spine := by
  cases op with
  | scan container s => cases one
  | filter predicate => rw [spine]; simp
  | project exprs declared => rw [spine]; simp
  | root => rw [spine]; simp

theorem fusesAlike_of_not_filter (h : input.kind ≠ .filter) : (Plan.node t op [input]).FusesAlike := by
  obtain ⟨u, below, inputs⟩ := input
  cases below with
  | filter predicate => exact absurd rfl h
  | scan container s => cases op <;> trivial
  | project exprs declared => cases op <;> trivial
  | root => cases op <;> trivial

end Plan

theorem Routing.between_eq_iff {c d below : Distribution} :
    between c below = between d below ↔ below = .root ∨ (d = .root ↔ c = .root) := by
  cases c <;> cases d <;> cases below <;> decide

/-- The edge is routed as the vertices at its ends stand now. -/
def Edge.Routed (vertices : List Vertex) (e : Edge) : Prop :=
  ∃ source target, vertices[e.source]? = some source ∧ vertices[e.target]? = some target ∧
    e.routing = .between target.distribution source.distribution

theorem Edge.routed_concat {vertices : List Vertex} {v : Vertex} {e : Edge}
    (hf : e.source < e.target) (hb : e.target < vertices.length) :
    e.Routed (vertices ++ [v]) ↔ e.Routed vertices := by
  rw [Routed, List.getElem?_append_left (Nat.lt_trans hf hb), List.getElem?_append_left hb]
  rfl

namespace Builder

variable {ν : Type} {settings : Settings ν} {b : Builder} {t : Traits} {op : Operator}
  {leaving : Schema} {d : Distribution}

def Routed (b : Builder) : Prop := ∀ e ∈ b.edges, e.Routed b.vertices

/-- What was built can be built upon: its vertices are numbered by position, and the last one is
placed where the rows of the plan are. -/
structure Topped (b : Builder) (d : Distribution) : Prop extends Standing b where
  numbered : b.vertices.map (·.id) = List.range b.vertices.length
  last : ∃ v, b.vertices.getLast? = some v ∧ v.distribution = d

theorem topped_concat {b' : Builder} {v : Vertex} (hb : b'.Standing)
    (hn : b.vertices.map (·.id) = List.range b.vertices.length)
    (hv : b'.vertices = b.vertices ++ [v]) (hi : v.id = b.vertices.length) :
    b'.Topped v.distribution := by
  refine ⟨hb, ?_, v, by rw [hv, List.getLast?_concat], rfl⟩
  rw [hv, List.map_append, hn, List.length_append, List.length_singleton, List.range_succ,
    List.map_singleton, hi]

/-- A vertex fed by the last one so far is routed rightly if its one edge is. -/
theorem routed_concat {b' : Builder} {v : Vertex} {n : EdgeId} {r : Routing} (hb : b.Topped d)
    (hv : b'.vertices = b.vertices ++ [v])
    (he : b'.edges = b.edges ++ [⟨n, b.vertices.length - 1, b.vertices.length, 0, r⟩]) :
    b'.Routed ↔ b.Routed ∧ r = .between v.distribution d := by
  obtain ⟨below, hlast, rfl⟩ := hb.last
  have hpos := List.length_pos_iff.mpr hb.inhabited
  have hsource : (b.vertices ++ [v])[b.vertices.length - 1]? = some below := by
    rw [List.getElem?_append_left (by omega), ← List.getLast?_eq_getElem?, hlast]
  have hnew : Edge.Routed (b.vertices ++ [v])
      ⟨n, b.vertices.length - 1, b.vertices.length, 0, r⟩ ↔
        r = .between v.distribution below.distribution := by
    simp only [Edge.Routed, hsource, List.getElem?_concat_length, Option.some.injEq]
    exact ⟨fun ⟨_, _, hs, ht, hr⟩ => hs ▸ ht ▸ hr, fun hr => ⟨_, _, rfl, rfl, hr⟩⟩
  have hold : (∀ e ∈ b.edges, e.Routed (b.vertices ++ [v])) ↔ b.Routed := by
    refine forall₂_congr fun e hm => ?_
    exact Edge.routed_concat (hb.forward e hm) (hb.bounded e hm)
  rw [Routed, hv, he, List.forall_mem_append, List.forall_mem_singleton, hold, hnew]

theorem topped_stack (hb : b.Topped d) : (b.stack settings t op leaving).Topped t.distribution :=
  topped_concat hb.toStanding.stack hb.numbered rfl rfl

theorem topped_absorb {p : Plan} {exprs : List Expr} {v : Vertex} {predicate : Expr}
    (hb : b.Topped d) (hv : b.vertices.getLast? = some v) (hf : v.processor = .filter predicate) :
    (b.absorb p leaving exprs).Topped p.distribution := by
  obtain ⟨first, hfirst⟩ := List.getLast?_eq_some_iff.mp hv
  have hn := hb.numbered
  rw [hfirst, List.map_append, List.length_append, List.length_singleton, List.range_succ,
    List.map_singleton] at hn
  obtain ⟨hn, hi⟩ := List.append_inj' hn rfl
  exact topped_concat (b := { b with vertices := first }) hb.toStanding.absorb hn
    (absorb_vertices hfirst hf) (List.singleton_inj.mp hi)

theorem topped_scan : (Builder.empty.stack settings t op leaving).Topped t.distribution :=
  topped_concat standing_scan rfl rfl rfl

/-- The edge to a vertex made by stacking is right when it is made. -/
theorem routed_stack (hb : b.Topped d) : (b.stack settings t op leaving).Routed ↔ b.Routed := by
  obtain ⟨below, hlast, rfl⟩ := hb.last
  obtain ⟨w, hw, he⟩ := stack_edges settings t op leaving hb.inhabited
  obtain rfl : below = w := Option.some.inj (hlast.symm.trans hw)
  rw [routed_concat hb rfl he]
  exact and_iff_left rfl

/-- A projection that becomes a part of a filter's vertex takes the filter's edge as it is. -/
theorem routed_absorb {u : Traits} {predicate : Expr} {p : Plan} {exprs : List Expr}
    {kept : Schema} (hb : b.Topped d) :
    ((b.stack settings u (.filter predicate) kept).absorb p leaving exprs).Routed ↔
      b.Routed ∧ (d = .root ∨ (p.distribution = .root ↔ u.distribution = .root)) := by
  obtain ⟨below, hlast, rfl⟩ := hb.last
  obtain ⟨w, hw, he⟩ := stack_edges settings u (.filter predicate) kept hb.inhabited
  obtain rfl : below = w := Option.some.inj (hlast.symm.trans hw)
  have hv : ((b.stack settings u (.filter predicate) kept).absorb p leaving exprs).vertices = _ :=
    absorb_vertices rfl rfl
  rw [routed_concat hb hv he, Routing.between_eq_iff]

end Builder

namespace Plan

open Builder

variable {ν : Type} {settings : Settings ν} {t : Traits} {op : Operator} {input : Plan}

/-- Laying an operator makes it a part of a filter's vertex or gives it one of its own. -/
theorem lay_cases (b : Builder) (settings : Settings ν) (t : Traits) (op : Operator) (input : Plan)
    (leaving : Schema) :
    (∃ exprs declared, op = .project exprs declared ∧ settings.fuse = true ∧
      input.kind = .filter ∧ b.lay settings t op input leaving =
        b.absorb (.node t op [input]) leaving exprs) ∨
    ((settings.fuse = true → (Plan.node t op [input]).FusesAlike) ∧
      b.lay settings t op input leaving = b.stack settings t op leaving) := by
  by_cases hfused : settings.fuse = true ∧ op.kind = .project ∧ input.kind = .filter
  · obtain ⟨hfuse, hop, hk⟩ := hfused
    cases op with
    | scan container s => cases hop
    | filter predicate => cases hop
    | root => cases hop
    | project exprs declared =>
      exact .inl ⟨exprs, declared, rfl, hfuse, hk, Builder.lay_eq_absorb hfuse hk⟩
  · refine .inr ⟨fun hfuse => ?_, Builder.lay_eq_stack fun hfuse hop hk => hfused ⟨hfuse, hop, hk⟩⟩
    cases op with
    | scan container s => trivial
    | filter predicate => trivial
    | root => trivial
    | project exprs declared =>
      exact fusesAlike_of_not_filter fun hk => hfused ⟨hfuse, rfl, hk⟩

theorem Assembled.topped {p : Plan} {b : Builder} (h : Assembled settings p b) :
    b.Topped p.distribution := by
  induction h with
  | scan physical => exact topped_scan
  | @laid t op input b entering leaving one physical below enters leaves ih =>
    rcases lay_cases b settings t op input leaving with
      ⟨exprs, declared, rfl, hfuse, hk, he⟩ | ⟨-, he⟩
    · obtain ⟨v, predicate, hv, hf⟩ := below.last_filter hk
      rw [he]
      exact topped_absorb ih hv hf
    · rw [he]
      exact topped_stack ih

/-- What was built is routed rightly unless a projection moved a filter's vertex onto the root
member or off it, while the edge into the vertex stayed as it was. -/
theorem Assembled.routed_iff : {p : Plan} → {b : Builder} → Assembled settings p b →
    (b.Routed ↔ (settings.fuse = true → ∀ q ∈ p.spine, q.FusesAlike))
  | _, _, .scan physical => by
    refine iff_of_true (by simp [Builder.Routed, stack, Builder.empty]) fun _ q hq => ?_
    rw [spine, List.mem_singleton] at hq
    subst q
    trivial
  | _, _, @Assembled.laid _ _ t op input b entering leaving one physical below enters leaves => by
    -- a fused projection has no edge of its own, so the step is from what is below the filter
    rw [spine_over one]
    rcases lay_cases b settings t op input leaving with
      ⟨exprs, declared, rfl, hfuse, hk, he⟩ | ⟨halike, he⟩
    · cases below with
      | scan physical => cases hk
      | @laid u filter input b entering kept one physical below enters leaves =>
        cases filter with
        | scan container s => cases hk
        | project exprs declared => cases hk
        | root => cases hk
        | filter predicate =>
          have hnode : (Plan.node t (.project exprs declared)
              [.node u (.filter predicate) [input]]).FusesAlike ↔ input.distribution = .root ∨
                (t.distribution = .root ↔ u.distribution = .root) := Iff.rfl
          have hbelow : (Plan.node u (.filter predicate) [input]).FusesAlike := trivial
          rw [he, spine_over one, List.forall_mem_cons, List.forall_mem_cons, hnode]
          refine (routed_absorb below.topped).trans ?_
          rw [below.routed_iff]
          exact ⟨fun h hon => ⟨h.2, hbelow, h.1 hon⟩,
            fun h => ⟨fun hon => (h hon).2.2, (h hfuse).1⟩⟩
    · rw [he, routed_stack below.topped, below.routed_iff]
      exact ⟨fun h hon => List.forall_mem_cons.mpr ⟨halike hon, h hon⟩,
        fun h hon => (List.forall_mem_cons.mp (h hon)).2⟩

end Plan

/-- Where vertices are numbered by position, one is found at the position of its number. -/
theorem Graph.vertex?_eq {g : Graph} (h : g.vertices.map (·.id) = List.range g.vertices.length)
    (id : VertexId) : g.vertex? id = g.vertices[id]? := by
  have hid : ∀ (i : Nat) (hi : i < g.vertices.length), g.vertices[i].id = i := by
    intro i hi
    have hat := congrArg (·[i]?) h
    simpa [hi] using hat
  rcases Nat.lt_or_ge id g.vertices.length with hlt | hge
  · rw [List.getElem?_eq_getElem hlt, vertex?, List.find?_eq_some_iff_getElem]
    refine ⟨by simp [hid], id, hlt, rfl, fun i hi => ?_⟩
    simpa [hid] using Nat.ne_of_lt hi
  · rw [List.getElem?_eq_none hge, vertex?, List.find?_eq_none]
    intro v hv
    obtain ⟨i, hi, rfl⟩ := List.mem_iff_getElem.mp hv
    simpa [hid] using Nat.ne_of_lt (Nat.lt_of_lt_of_le hi hge)

/-- The edges of a compiled graph gather as they should if and only if operators are not fused, or
every projection over a filter is on the root member exactly when the filter is, unless the rows
are there before them. -/
theorem gathered_iff_fuses_alike {ν : Type} {settings : Settings ν} {id : GraphId} {p : Plan}
    {g : Graph} (hg : compile settings id p = .ok g) :
    g.Gathered ↔ (settings.fuse = true → ∀ q ∈ p.spine, q.FusesAlike) := by
  rw [compile_eq] at hg
  obtain ⟨_, -, hg⟩ := bind_eq_ok.mp (mapError_eq_ok.mp hg)
  obtain ⟨_, -, hg⟩ := bind_eq_ok.mp hg
  obtain ⟨b, hb, hg⟩ := bind_eq_ok.mp hg
  cases hg
  have hb := Plan.assembled_of_eq_ok hb
  rw [← hb.routed_iff]
  have hat := Graph.vertex?_eq (g := ⟨id, plannerVersion, b.vertices, b.edges⟩) hb.topped.numbered
  simp only [Graph.Gathered, hat]
  exact Iff.rfl

/-- Large orders, found where they are and then gathered by the projection. -/
def Plan.gatheredOrders (d : Distribution) : Plan :=
  .node ⟨.physical, d⟩ (.project [.column 0] ⟨[⟨"amount", .int32, true⟩]⟩)
    [.node ⟨.physical, .partitioned⟩ (.filter (.compare .gt (.column 0) (.literal (.int32 10))))
      [.node ⟨.physical, .partitioned⟩ (.scan "orders" ⟨[⟨"amount", .int32, true⟩]⟩) []]]

/-- A projection that stays where its filter is may become a part of it. -/
theorem gathered_iff_fuses_alike_partitioned : ∃ g,
    compile { (Settings.default : Settings Double) with fuse := true } 0
      (.gatheredOrders .partitioned) = .ok g ∧ g.Gathered := by
  obtain ⟨g, hg⟩ : ∃ g, compile { (Settings.default : Settings Double) with fuse := true } 0
      (.gatheredOrders .partitioned) = .ok g := ⟨_, rfl⟩
  refine ⟨g, hg, (gathered_iff_fuses_alike hg).mpr fun _ q hq => ?_⟩
  simp only [Plan.gatheredOrders, Plan.spine, List.mem_cons, List.not_mem_nil, or_false] at hq
  rcases hq with rfl | rfl | rfl
  · exact .inr Iff.rfl
  · trivial
  · trivial

/-- One that gathers must not: the fused vertex is on the root member, and the scan, which is
spread out, feeds it where its rows are. -/
theorem fused_vertex_fed_locally : ∃ (g : Graph) (scan fused : Vertex) (e : Edge),
    compile { (Settings.default : Settings Double) with fuse := true } 0
      (.gatheredOrders .root) = .ok g ∧ g.edges = [e] ∧ g.vertex? e.source = some scan ∧
    g.vertex? e.target = some fused ∧ scan.distribution = .partitioned ∧
    fused.distribution = .root ∧ e.routing = .local ∧ ¬ g.Gathered := by
  refine ⟨_, _, _, _, rfl, rfl, rfl, rfl, rfl, rfl, rfl, fun h => ?_⟩
  obtain ⟨source, target, hs, ht, hr⟩ := h _ List.mem_cons_self
  cases hs
  cases ht
  cases hr

end FlowPlan
