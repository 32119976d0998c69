import FlowPlan.Graph.Calls
import FlowPlan.Proofs.Indexing
import FlowPlan.Proofs.Reachability

namespace FlowPlan

open Outcome

/-- Vertices and edges are numbered as they come, edges join vertices that are listed, a slot is fed
once, nothing goes in circles, and every vertex is on a way from a source to a sink. -/
structure Graph.WellMade (g : Graph) : Prop where
  vertexIds : g.vertices.map (·.id) = List.range g.vertices.length
  edgeIds : g.edges.map (·.id) = List.range g.edges.length
  listed : ∀ e ∈ g.edges, (∃ v ∈ g.vertices, v.id = e.source) ∧ ∃ v ∈ g.vertices, v.id = e.target
  slots : (g.edges.map fun e => (e.target, e.ordinal)).Nodup
  acyclic : ∀ id, ¬ Relation.TransGen g.Feeds id id
  sorted : ∀ id, (g.inputsOf id).Pairwise fun a b => a.ordinal < b.ordinal
  between : ∀ v ∈ g.vertices, ∃ source ∈ g.sources, ∃ sink ∈ g.sinks,
    Relation.ReflTransGen g.Feeds source.id v.id ∧ Relation.ReflTransGen g.Feeds v.id sink.id

namespace Builder

variable {b b' : Builder} {c : Call} {a : Answer}

/-- What a call can do, with all that it looked at. -/
inductive Does (b : Builder) : Call → Answer → Builder → Prop where
  | vertex (name : String) (processor : Processor) (schema : Schema)
      (distribution : Distribution) (parallelism : Option UInt32) :
      Does b (.addVertex name processor schema distribution parallelism) (.vertex b.nextVertex)
        (b.addVertex name processor schema distribution parallelism).2
  | edge (source target : VertexId) (ordinal : Nat) (routing : Routing)
      (hsource : b.has source = true) (htarget : b.has target = true)
      (free : ∀ e ∈ b.edges, e.target = target → e.ordinal ≠ ordinal) :
      Does b (.addEdge source target ordinal routing) (.edge b.nextEdge)
        { b with
          edges := b.edges ++ [⟨b.nextEdge, source, target, ordinal, routing⟩]
          nextEdge := b.nextEdge + 1 }
  | updated (id : VertexId) (change : Vertex → Vertex) (keeps : ∀ v, (change v).id = v.id)
      (i : Nat) : Does b (.update id change keeps) .updated
        { b with vertices := b.vertices.modify i change }
  | refused (c : Call) (f : GraphFault) : Does b c (.refused f) b

theorem does_call (b : Builder) (c : Call) : b.Does c (b.call c).1 (b.call c).2 := by
  cases c with
  | addVertex name processor schema distribution parallelism =>
    exact .vertex name processor schema distribution parallelism
  | addEdge source target ordinal routing =>
    rcases b.addEdge_cases source target ordinal routing with ⟨f, he⟩ | ⟨hs, ht, -, hfree, he⟩
    · simp only [call, he]
      exact .refused _ f
    · simp only [call, he]
      exact .edge source target ordinal routing hs ht hfree
  | update id change keeps =>
    simp only [call, Builder.update]
    cases b.position id with
    | error f => exact .refused _ f
    | ok i => exact .updated id change keeps i

theorem map_id_modify {change : Vertex → Vertex} (keeps : ∀ v, (change v).id = v.id)
    (l : List Vertex) (i : Nat) : (l.modify i change).map (·.id) = l.map (·.id) := by
  refine List.ext_getElem? fun j => ?_
  rw [List.getElem?_map, List.getElem?_map, List.getElem?_modify]
  split
  · cases l[j]? <;> simp [keeps]
  · simp

/-- A call adds the vertex it is answered with, or the edge, and otherwise none. -/
theorem Does.adds (h : b.Does c a b') :
    b'.vertices.map (·.id) = b.vertices.map (·.id) ++ (issued? (c, a)).toList ∧
      b'.edges = b.edges ++ (accepted? (c, a)).toList := by
  cases h with
  | vertex name processor schema distribution parallelism =>
    exact ⟨by simp [addVertex, issued?], by simp [addVertex, accepted?]⟩
  | edge source target ordinal routing hsource htarget free =>
    exact ⟨by simp [issued?], by simp [accepted?]⟩
  | updated id change keeps i =>
    exact ⟨by simp [issued?, map_id_modify keeps], by simp [accepted?]⟩
  | refused c f => exact ⟨by simp [issued?], by cases c <;> simp [accepted?]⟩

/-- What the calls so far have made, and nothing else, is there. -/
theorem callAll_adds (b : Builder) (calls : List Call) :
    (b.callAll calls).2.vertices.map (·.id) =
        b.vertices.map (·.id) ++ issued (b.callAll calls).1 ∧
      (b.callAll calls).2.edges = b.edges ++ accepted (b.callAll calls).1 := by
  induction calls generalizing b with
  | nil => simp [callAll, issued, accepted]
  | cons c rest ih =>
    obtain ⟨hvertices, hedges⟩ := (b.does_call c).adds
    obtain ⟨hlater, hmore⟩ := ih (b.call c).2
    simp only [callAll]
    rw [hlater, hmore, hvertices, hedges, List.append_assoc, List.append_assoc]
    simp only [issued, accepted, List.filterMap_cons]
    constructor
    · cases issued? (c, (b.call c).1) <;> rfl
    · cases accepted? (c, (b.call c).1) <;> rfl

/-- What holds of a graph under construction between two calls. -/
structure Sound (b : Builder) : Prop extends Indexed b where
  vertexIds : b.vertices.map (·.id) = List.range b.vertices.length
  edgeIds : b.edges.map (·.id) = List.range b.edges.length
  made : ∀ e ∈ b.edges, e.source < b.vertices.length ∧ e.target < b.vertices.length
  slots : (b.edges.map fun e => (e.target, e.ordinal)).Nodup

theorem sound_empty : empty.Sound :=
  ⟨indexed_empty, rfl, rfl, by simp [empty], by simp [empty]⟩

theorem Sound.addVertex (h : b.Sound) (name : String) (processor : Processor) (schema : Schema)
    (distribution : Distribution) (parallelism : Option UInt32) :
    (b.addVertex name processor schema distribution parallelism).2.Sound := by
  refine ⟨h.toIndexed.addVertex name processor schema distribution parallelism, ?_, h.edgeIds,
    fun e he => ?_, h.slots⟩
  · simp [Builder.addVertex, h.vertexIds, h.nextVertex, List.range_succ]
  · obtain ⟨hsource, htarget⟩ := h.made e he
    simp only [Builder.addVertex, List.length_append, List.length_singleton]
    exact ⟨Nat.lt_succ_of_lt hsource, Nat.lt_succ_of_lt htarget⟩

theorem Sound.addEdge (h : b.Sound) {source target : VertexId} {ordinal : Nat} {routing : Routing}
    (hsource : b.has source = true) (htarget : b.has target = true)
    (free : ∀ e ∈ b.edges, e.target = target → e.ordinal ≠ ordinal) :
    Sound { b with
      edges := b.edges ++ [⟨b.nextEdge, source, target, ordinal, routing⟩]
      nextEdge := b.nextEdge + 1 } := by
  rw [h.has_eq, decide_eq_true_eq] at hsource htarget
  refine ⟨⟨h.nextVertex, by simp [h.nextEdge], h.lookup⟩, h.vertexIds, ?_, fun e he => ?_, ?_⟩
  · simp [h.edgeIds, h.nextEdge, List.range_succ]
  · rcases List.mem_append.mp he with he | he
    · exact h.made e he
    · obtain rfl := List.mem_singleton.mp he
      exact ⟨hsource, htarget⟩
  · rw [List.map_append, List.map_singleton, List.nodup_append]
    refine ⟨h.slots, List.nodup_singleton _, fun slot hslot slot' hslot' heq => ?_⟩
    obtain ⟨e, he, rfl⟩ := List.mem_map.mp hslot
    rw [List.mem_singleton.mp hslot', Prod.mk.injEq] at heq
    exact free e he heq.1 heq.2

theorem Sound.modify (h : b.Sound) {change : Vertex → Vertex} (keeps : ∀ v, (change v).id = v.id)
    (i : Nat) : Sound { b with vertices := b.vertices.modify i change } := by
  refine ⟨⟨?_, h.nextEdge, fun id => ?_⟩, ?_, h.edgeIds, fun e he => ?_, h.slots⟩
  · simpa using h.nextVertex
  · simpa using h.lookup id
  · simpa [map_id_modify keeps] using h.vertexIds
  · simpa using h.made e he

theorem Sound.does (h : b.Sound) (hd : b.Does c a b') : b'.Sound := by
  cases hd with
  | vertex name processor schema distribution parallelism =>
    exact h.addVertex name processor schema distribution parallelism
  | edge source target ordinal routing hsource htarget free => exact h.addEdge hsource htarget free
  | updated id change keeps i => exact h.modify keeps i
  | refused c f => exact h

theorem Sound.callAll (h : b.Sound) (calls : List Call) : (b.callAll calls).2.Sound := by
  induction calls generalizing b with
  | nil => exact h
  | cons c rest ih => exact ih (h.does (b.does_call c))

/-- It can be finished when all edges lead forward, and is finished as it stands. -/
theorem Sound.build_eq_ok (h : b.Sound) {id : GraphId} {g : Graph} :
    b.build id = .ok g ↔ (∀ e ∈ b.edges, e.source < e.target) ∧
      g = ⟨id, plannerVersion, b.vertices, b.edges⟩ := by
  have hforward : b.edges.forM b.checkForward = .ok () ↔ ∀ e ∈ b.edges, e.source < e.target := by
    rw [forM_eq_ok]
    refine forall₂_congr fun e he => ?_
    obtain ⟨hsource, htarget⟩ := h.made e he
    exact h.checkForward_eq_ok hsource htarget
  rw [Builder.build, bind_eq_ok, ← hforward, pure_eq_ok, Except.ok.injEq]
  exact ⟨fun ⟨_, hok, hg⟩ => ⟨hok, hg.symm⟩, fun ⟨hok, hg⟩ => ⟨(), hok, hg.symm⟩⟩

theorem Sound.wellMade (h : b.Sound) {id : GraphId} {g : Graph} (hg : b.build id = .ok g) :
    g.WellMade := by
  obtain ⟨hforward, rfl⟩ := h.build_eq_ok.mp hg
  have hg : Graph.Forward ⟨id, plannerVersion, b.vertices, b.edges⟩ :=
    ⟨h.vertexIds, hforward, fun e he => (h.made e he).2⟩
  refine ⟨h.vertexIds, h.edgeIds, fun e he => hg.ends_listed he, h.slots, hg.acyclic,
    Graph.inputsOf_sorted h.slots, fun v hv => ?_⟩
  obtain ⟨source, hsource, hfrom⟩ := hg.exists_source hv
  obtain ⟨sink, hsink, hto⟩ := hg.exists_sink hv
  exact ⟨source, hsource, sink, hsink, hfrom, hto⟩

theorem Sound.getElem?_ids (h : b.Sound) {id : VertexId} {i : Nat} :
    (b.vertices.map (·.id))[i]? = some id ↔ i < b.vertices.length ∧ i = id := by
  rw [h.vertexIds, List.getElem?_eq_some_iff]
  simp

theorem Sound.exists_of_lookup (h : b.Sound) {id : VertexId} {i : Nat}
    (hi : b.index.lookup id = some i) : ∃ v, b.vertices[i]? = some v ∧ v.id = id := by
  have hat := h.getElem?_ids.mpr (h.lookup_eq_some.mp hi)
  rwa [List.getElem?_map, Option.map_eq_some_iff] at hat

/-- Whatever calls were made and whichever of them were refused: an edge that is refused leaves no
trace; the index has exactly the numbers that were given out, each with the position of its vertex;
and the graph can be finished if and only if every edge that was accepted leads from a vertex to one
that was made later. The finished graph consists of what was made, and is well made. -/
theorem calls_give_graph {calls : List Call} {log : List (Call × Answer)}
    (h : empty.callAll calls = (log, b)) :
    (∀ source target ordinal routing f, (b.addEdge source target ordinal routing).1 = .error f →
      (b.addEdge source target ordinal routing).2 = b) ∧
    (∀ id i, b.index.lookup id = some i ↔ (issued log)[i]? = some id) ∧
    (∀ id i, b.index.lookup id = some i → ∃ v, b.vertices[i]? = some v ∧ v.id = id) ∧
    (∀ id, (∃ g, b.build id = .ok g) ↔ ∀ e ∈ accepted log, ∃ i j : Nat, i < j ∧
      (issued log)[i]? = some e.source ∧ (issued log)[j]? = some e.target) ∧
    ∀ id g, b.build id = .ok g →
      g.vertices.map (·.id) = issued log ∧ g.edges = accepted log ∧ g.WellMade := by
  have hb : b.Sound := by
    have := sound_empty.callAll calls
    rwa [h] at this
  obtain ⟨hissued, haccepted⟩ : b.vertices.map (·.id) = issued log ∧ b.edges = accepted log := by
    have := callAll_adds empty calls
    rwa [h] at this
  have hat : ∀ id i, (issued log)[i]? = some id ↔ i < b.vertices.length ∧ i = id := by
    intro id i
    rw [← hissued, hb.getElem?_ids]
  refine ⟨fun source target ordinal routing f hf => addEdge_refused hf, fun id i => ?_,
    fun id i hi => hb.exists_of_lookup hi, fun id => ?_, fun id g hg => ?_⟩
  · rw [hb.lookup_eq_some, hat]
  · simp only [hb.build_eq_ok, exists_and_left, exists_eq, and_true, hat]
    rw [← haccepted]
    refine forall₂_congr fun e he => ?_
    obtain ⟨hsource, htarget⟩ := hb.made e he
    constructor
    · exact fun hlt => ⟨e.source, e.target, hlt, ⟨hsource, rfl⟩, htarget, rfl⟩
    · rintro ⟨i, j, hlt, ⟨-, rfl⟩, -, rfl⟩
      exact hlt
  · obtain ⟨-, rfl⟩ := hb.build_eq_ok.mp hg
    exact ⟨hissued, haccepted, hb.wellMade hg⟩

def Call.passing (name : String) : Call := .addVertex name .root ⟨[]⟩ .any none

/-- Two ways from one vertex to another, and calls that are refused: an edge to a vertex that was
not made and one into a slot that is taken. -/
def joinedCalls : List Call :=
  [.passing "source", .passing "middle", .addEdge 0 1 0 .local, .addEdge 0 9 0 .local,
    .passing "end", .addEdge 1 2 0 .allToOne, .addEdge 0 2 0 .local, .addEdge 0 2 1 .local,
    .update 2 (fun v => { v with name := "sink" }) fun _ => rfl]

/-- The two ways give a graph; one more edge, back to the first vertex, would not. -/
theorem calls_give_graph_joined :
    (∃ g, (empty.callAll joinedCalls).2.build 0 = .ok g ∧ g.WellMade ∧
      g.edges.map (fun e => (e.source, e.target)) = [(0, 1), (1, 2), (0, 2)]) ∧
    ¬ ∃ g, (empty.callAll (joinedCalls ++ [.addEdge 2 0 0 .local])).2.build 0 = .ok g := by
  have hpair (calls : List Call) :
      empty.callAll calls = ((empty.callAll calls).1, (empty.callAll calls).2) := rfl
  obtain ⟨-, -, -, -, hgraph⟩ := calls_give_graph (hpair joinedCalls)
  obtain ⟨-, -, -, hback, -⟩ :=
    calls_give_graph (hpair (joinedCalls ++ [.addEdge 2 0 0 .local]))
  constructor
  · obtain ⟨g, hg⟩ : ∃ g, (empty.callAll joinedCalls).2.build 0 = .ok g := ⟨_, rfl⟩
    obtain ⟨-, hedges, hmade⟩ := hgraph 0 g hg
    exact ⟨g, hg, hmade, by rw [hedges]; rfl⟩
  · rw [hback]
    intro h
    obtain ⟨i, j, hlt, hi, hj⟩ := h ⟨3, 2, 0, 0, .local⟩ (by decide)
    have hissued : issued (empty.callAll (joinedCalls ++ [.addEdge 2 0 0 .local])).1 =
        List.range 3 := rfl
    simp only [hissued, List.getElem?_eq_some_iff, List.getElem_range] at hi hj
    obtain ⟨-, rfl⟩ := hi
    obtain ⟨-, rfl⟩ := hj
    exact absurd hlt (by decide)

end Builder

end FlowPlan
