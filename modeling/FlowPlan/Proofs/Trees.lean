import FlowPlan.Graph.Shape
import FlowPlan.Proofs.Construction

namespace FlowPlan

open Outcome

namespace Graph

variable {g : Graph} {a b s : VertexId}

/-- Some vertex has this number. -/
def Lists (g : Graph) (id : VertexId) : Prop := ∃ v ∈ g.vertices, v.id = id

/-- Before every vertex with the second number there is one with the first. -/
def Precedes (g : Graph) (a b : VertexId) : Prop :=
  ∀ before v after, g.vertices = before ++ v :: after → v.id = b → ∃ w ∈ before, w.id = a

/-- A way along edges from one vertex to another. -/
inductive Path (g : Graph) : VertexId → List Edge → VertexId → Prop where
  | stay (id : VertexId) : Path g id [] id
  | step {e : Edge} {rest : List Edge} {s : VertexId} (edge : e ∈ g.edges)
      (onward : Path g e.target rest s) : Path g e.source (e :: rest) s

theorem mem_inputsOf {e : Edge} {id : VertexId} :
    e ∈ g.inputsOf id ↔ e ∈ g.edges ∧ e.target = id := by
  rw [inputsOf, List.mem_mergeSort, List.mem_filter, beq_iff_eq]

theorem mem_outputsOf {e : Edge} {id : VertexId} :
    e ∈ g.outputsOf id ↔ e ∈ g.edges ∧ e.source = id := by
  rw [outputsOf, List.mem_filter, beq_iff_eq]

/-- The check passes over vertices if their inputs were seen before, among them or earlier. -/
theorem checkOrderFrom_iff {seen : List VertexId} {vertices : List Vertex} :
    g.checkOrderFrom seen vertices = .ok () ↔
      ∀ before v after, vertices = before ++ v :: after → ∀ e ∈ g.edges, e.target = v.id →
        e.source ∈ seen ∨ ∃ w ∈ before, w.id = e.source := by
  induction vertices generalizing seen with
  | nil => simp [checkOrderFrom]
  | cons v rest ih =>
    have hfound : (g.inputsOf v.id).find? (fun e => !seen.contains e.source) = none ↔
        ∀ e ∈ g.edges, e.target = v.id → e.source ∈ seen := by
      simp [List.find?_eq_none, mem_inputsOf]
    constructor
    · intro h
      rw [checkOrderFrom] at h
      split at h
      · cases h
      next hnone =>
      intro before w after hsplit e he htarget
      cases before with
      | nil =>
        obtain ⟨rfl, rfl⟩ := List.cons.inj hsplit
        exact .inl (hfound.mp hnone e he htarget)
      | cons u before =>
        obtain ⟨rfl, rfl⟩ := List.cons.inj hsplit
        rcases ih.mp h before w after rfl e he htarget with hseen | ⟨x, hx, hid⟩
        · rcases List.mem_cons.mp hseen with hid | hseen
          · exact .inr ⟨v, List.mem_cons_self, hid.symm⟩
          · exact .inl hseen
        · exact .inr ⟨x, List.mem_cons_of_mem v hx, hid⟩
    · intro h
      have hnone := hfound.mpr fun e he htarget => by
        simpa using h [] v rest rfl e he htarget
      simp only [checkOrderFrom, hnone]
      refine ih.mpr fun before w after hsplit e he htarget => ?_
      rcases h (v :: before) w after (by rw [hsplit]; rfl) e he htarget with hseen | ⟨x, hx, hid⟩
      · exact .inl (List.mem_cons_of_mem v.id hseen)
      · rcases List.mem_cons.mp hx with rfl | hx
        · exact .inl (hid ▸ List.mem_cons_self)
        · exact .inr ⟨x, hx, hid⟩

/-- The order passes if the source of every edge is listed before its target is. -/
theorem checkOrder_eq_ok :
    g.checkOrder = .ok () ↔ ∀ e ∈ g.edges, g.Precedes e.source e.target := by
  rw [checkOrder, checkOrderFrom_iff]
  simp only [List.not_mem_nil, false_or]
  constructor
  · intro h e he before v after hsplit hid
    exact h before v after hsplit e he hid.symm
  · intro h before v after hsplit e he htarget
    exact h e he before v after hsplit htarget.symm

theorem Precedes.listed (h : g.Precedes a b) (hb : g.Lists b) : g.Lists a := by
  obtain ⟨v, hv, hid⟩ := hb
  obtain ⟨before, after, hsplit⟩ := List.append_of_mem hv
  obtain ⟨w, hw, hwid⟩ := h before v after hsplit hid
  exact ⟨w, hsplit ▸ List.mem_append_left _ hw, hwid⟩

/-- Where a number is listed first. -/
def place (g : Graph) (id : VertexId) : Nat := (g.vertices.map (·.id)).idxOf id

theorem place_lt (h : g.Lists a) : g.place a < g.vertices.length := by
  have hmem : a ∈ g.vertices.map (·.id) := List.mem_map.mpr h
  simpa [place] using List.idxOf_lt_length_of_mem hmem

theorem Precedes.place_lt (h : g.Precedes a b) (hb : g.Lists b) : g.place a < g.place b := by
  have hlt := Graph.place_lt hb
  have hat : (g.vertices[g.place b]).id = b := by
    have hmem : b ∈ g.vertices.map (·.id) := List.mem_map.mpr hb
    have hget := List.getElem_idxOf (List.idxOf_lt_length_of_mem hmem)
    rwa [List.getElem_map] at hget
  have hsplit : g.vertices = g.vertices.take (g.place b) ++
      g.vertices[g.place b] :: g.vertices.drop (g.place b + 1) := by
    rw [List.getElem_cons_drop, List.take_append_drop]
  obtain ⟨w, hw, hid⟩ := h _ _ _ hsplit hat
  have hmem : a ∈ (g.vertices.map (·.id)).take (g.place b) := by
    rw [← List.map_take]
    exact List.mem_map.mpr ⟨w, hw, hid⟩
  exact (List.mem_take_iff_idxOf_lt (List.mem_of_mem_take hmem)).mp hmem

/-- Nothing leads out of a sink. -/
theorem mem_sinks {v : Vertex} :
    v ∈ g.sinks ↔ v ∈ g.vertices ∧ ∀ e ∈ g.edges, e.source ≠ v.id := by
  simp [sinks]

theorem exists_edge_out {v : Vertex} (hv : v ∈ g.vertices) (hout : v ∉ g.sinks) :
    ∃ e ∈ g.edges, e.source = v.id := by
  simpa [mem_sinks, hv] using hout

/-- Every vertex, listed or not, has one edge out of it at most. -/
def Narrow (g : Graph) : Prop := ∀ id, (g.outputsOf id).length ≤ 1

theorem Narrow.edge_unique {d e : Edge} (h : g.Narrow) (hd : d ∈ g.edges) (he : e ∈ g.edges)
    (hs : d.source = e.source) : d = e := by
  have hd := mem_outputsOf.mpr ⟨hd, hs⟩
  have he : e ∈ g.outputsOf e.source := mem_outputsOf.mpr ⟨he, rfl⟩
  have hone := h e.source
  obtain ⟨f, hf⟩ : ∃ f, g.outputsOf e.source = [f] :=
    List.length_eq_one_iff.mp (Nat.le_antisymm hone (List.length_pos_of_mem he))
  rw [hf, List.mem_singleton] at hd he
  rw [hd, he]

/-- One edge leads out of a vertex that is no sink. -/
theorem Narrow.exists_output {v : Vertex} (h : g.Narrow) (hv : v ∈ g.vertices) (hout : v ∉ g.sinks) :
    ∃ e, g.outputsOf v.id = [e] := by
  obtain ⟨e, he, hsource⟩ := exists_edge_out hv hout
  have hpos := List.length_pos_of_mem (mem_outputsOf.mpr ⟨he, hsource⟩)
  exact List.length_eq_one_iff.mp (Nat.le_antisymm (h v.id) hpos)

theorem shared_eq_nil_iff : g.shared = [] ↔ g.Narrow := by
  rw [shared, List.filter_eq_nil_iff]
  simp only [List.mem_eraseDups, List.mem_map, decide_eq_true_eq, not_lt]
  constructor
  · intro h id
    by_cases hid : ∃ e ∈ g.edges, e.source = id
    · exact h id hid
    · have hnone : g.outputsOf id = [] := by
        rw [List.eq_nil_iff_forall_not_mem]
        intro e he
        exact hid ⟨e, mem_outputsOf.mp he⟩
      rw [hnone]
      exact Nat.zero_le 1
  · exact fun h id _ => h id

/-- Ways to a vertex that nothing leads out of do not branch. -/
theorem Path.unique {p q : List Edge} (h : g.Narrow) (hs : ∀ e ∈ g.edges, e.source ≠ s)
    (hp : g.Path a p s) (hq : g.Path a q s) : p = q := by
  induction hp generalizing q with
  | stay id =>
    cases hq with
    | stay => rfl
    | step edge onward => exact absurd rfl (hs _ edge)
  | step edge onward ih =>
    generalize ha : Edge.source _ = a at hq
    cases hq with
    | stay => exact absurd ha (hs _ edge)
    | step other further =>
      obtain rfl := h.edge_unique edge other ha
      rw [ih hs further]

/-- A way to a vertex that is listed leads over such vertices only. -/
theorem Path.listed {p : List Edge} (h : g.checkOrder = .ok ()) (hp : g.Path a p s)
    (hs : g.Lists s) : g.Lists a := by
  induction hp with
  | stay id => exact hs
  | step edge onward ih => exact (checkOrder_eq_ok.mp h _ edge).listed (ih hs)

/-- An edge out of a vertex is the first on the way from there to a vertex without such edges. -/
theorem Path.target_listed {e : Edge} {p : List Edge} (h : g.checkOrder = .ok ()) (hn : g.Narrow)
    (hs : g.Lists s) (hnone : ∀ e ∈ g.edges, e.source ≠ s) (he : e ∈ g.edges)
    (hp : g.Path e.source p s) : g.Lists e.target := by
  generalize ha : e.source = a at hp
  cases hp with
  | stay => exact absurd ha (hnone e he)
  | step edge onward =>
    obtain rfl := hn.edge_unique he edge ha
    exact onward.listed h hs

/-- While edges lead from listed vertices to listed ones, some way leads to the only sink. -/
theorem exists_path {sink v : Vertex} (h : g.checkOrder = .ok ()) (hsink : g.sinks = [sink])
    (hclosed : ∀ e ∈ g.edges, g.Lists e.source → g.Lists e.target) (hv : v ∈ g.vertices) :
    ∃ p, g.Path v.id p sink.id := by
  induction hn : g.vertices.length - g.place v.id using Nat.strong_induction_on generalizing v with
  | _ n ih =>
    subst hn
    by_cases hout : v ∈ g.sinks
    · rw [hsink, List.mem_singleton] at hout
      exact ⟨[], hout ▸ .stay _⟩
    · obtain ⟨e, he, hsource⟩ := exists_edge_out hv hout
      have hlisted : g.Lists e.source := ⟨v, hv, hsource.symm⟩
      obtain ⟨w, hw, htarget⟩ := hclosed e he hlisted
      have hlater : g.place v.id < g.place w.id := by
        rw [← hsource, htarget]
        exact (checkOrder_eq_ok.mp h e he).place_lt ⟨w, hw, htarget⟩
      have hless : g.vertices.length - g.place w.id < g.vertices.length - g.place v.id :=
        Nat.sub_lt_sub_left (Graph.place_lt ⟨v, hv, rfl⟩) hlater
      obtain ⟨p, hp⟩ := ih _ hless hw rfl
      exact ⟨e :: p, hsource ▸ .step he (htarget ▸ hp)⟩

theorem gap?_eq_none {slot : Nat} {inputs : List Edge} :
    gap? slot inputs = none ↔ inputs.map (·.ordinal) = List.range' slot inputs.length := by
  induction inputs generalizing slot with
  | nil => simp [gap?]
  | cons e rest ih =>
    rw [gap?, List.map_cons, List.length_cons, List.range'_succ, List.cons.injEq]
    split
    next hslot => simp [hslot, ih]
    next hslot => simp [hslot]

theorem checkSlots_eq_ok {v : Vertex} : g.checkSlots v = .ok () ↔
    (g.inputsOf v.id).map (·.ordinal) = List.range (g.inputsOf v.id).length := by
  rw [List.range_eq_range', ← gap?_eq_none, Graph.checkSlots]
  cases gap? 0 (g.inputsOf v.id) with
  | none => simp
  | some found => simp

/-- The second check passes if there is one sink, if edges do not part, and if slots have no gaps. -/
theorem checkTree_eq_ok : g.checkTree = .ok () ↔ (∃ sink, g.sinks = [sink]) ∧ g.Narrow ∧
    ∀ v ∈ g.vertices, (g.inputsOf v.id).map (·.ordinal) = List.range (g.inputsOf v.id).length := by
  rw [← List.length_eq_one_iff, ← shared_eq_nil_iff, Graph.checkTree]
  simp only [← checkSlots_eq_ok, ← forM_eq_ok]
  by_cases hsink : g.sinks.length = 1
  · simp only [hsink, bne_self_eq_false, Bool.false_eq_true, ↓reduceIte, true_and]
    match hshared : g.shared with
    | [] => simp
    | [id] => simp [throw, throwThe, MonadExceptOf.throw]
    | _ :: _ :: _ => simp [throw, throwThe, MonadExceptOf.throw]
  · simp [hsink, throw, throwThe, MonadExceptOf.throw]

end Graph

/-- What passes the first check leads forward, and what passes both is a tree over its sink, if and
only if no edge leads out of the graph: every target is listed, or at least those of the edges
between the vertices. A graph that was built has no such edge. -/
theorem checked_iff_closed {g : Graph} (h : g.checkOrder = .ok ()) :
    (∀ e ∈ g.edges, g.Precedes e.source e.target) ∧
    ((∀ e ∈ g.edges, g.Lists e.source ∧ g.Lists e.target) ↔ ∀ e ∈ g.edges, g.Lists e.target) ∧
    (g.checkTree = .ok () → ∃ sink, g.sinks = [sink] ∧
      (∀ v ∈ g.vertices, v = sink ∨ ∃ e, g.outputsOf v.id = [e]) ∧
      (∀ v ∈ g.vertices,
        (g.inputsOf v.id).map (·.ordinal) = List.range (g.inputsOf v.id).length) ∧
      ((∀ v ∈ g.vertices, ∃! p, g.Path v.id p sink.id) ↔
        ∀ e ∈ g.edges, g.Lists e.source → g.Lists e.target)) ∧
    ∀ calls id, (Builder.empty.callAll calls).2.build id = .ok g →
      ∀ e ∈ g.edges, g.Lists e.target := by
  have hordered := Graph.checkOrder_eq_ok.mp h
  refine ⟨hordered, ?_, fun htree => ?_, fun calls id hg e he => ?_⟩
  · constructor
    · exact fun hlisted e he => (hlisted e he).2
    · exact fun hlisted e he => ⟨(hordered e he).listed (hlisted e he), hlisted e he⟩
  · obtain ⟨⟨sink, hsink⟩, hnarrow, hslots⟩ := Graph.checkTree_eq_ok.mp htree
    obtain ⟨hlast, hnone⟩ := Graph.mem_sinks.mp (hsink ▸ List.mem_singleton_self sink)
    refine ⟨sink, hsink, fun v hv => ?_, hslots, fun hpaths e he hsource => ?_, fun hclosed v hv => ?_⟩
    · by_cases hout : v ∈ g.sinks
      · rw [hsink, List.mem_singleton] at hout
        exact .inl hout
      · exact .inr (hnarrow.exists_output hv hout)
    · obtain ⟨v, hv, hid⟩ := hsource
      obtain ⟨p, hp, -⟩ := hpaths v hv
      exact (hid ▸ hp).target_listed h hnarrow ⟨sink, hlast, rfl⟩ hnone he
    · obtain ⟨p, hp⟩ := Graph.exists_path h hsink hclosed hv
      exact ⟨p, hp, fun q hq => hq.unique hnarrow hnone hp⟩
  · have hmade := (Builder.sound_empty.callAll calls).wellMade hg
    exact (hmade.listed e he).2

def Vertex.passing (id : VertexId) : Vertex := ⟨id, "pass", none, .any, ⟨[]⟩, .root⟩

/-- Two vertices that feed a third one, one of them over a fourth. -/
def Graph.joined : Graph :=
  ⟨0, plannerVersion, [.passing 0, .passing 1, .passing 2, .passing 3],
    [⟨0, 0, 1, 0, .local⟩, ⟨1, 2, 3, 1, .local⟩, ⟨2, 1, 3, 0, .local⟩]⟩

/-- They are a tree: each of them has one way to the last. -/
theorem checked_iff_closed_joined : Graph.joined.checkOrder = .ok () ∧
    ∀ v ∈ Graph.joined.vertices, ∃! p, Graph.joined.Path v.id p 3 := by
  have horder : Graph.joined.checkOrder = .ok () := by cbv
  obtain ⟨-, -, htree, -⟩ := checked_iff_closed horder
  obtain ⟨sink, hsink, -, -, hpaths⟩ := htree (by cbv)
  obtain rfl : Vertex.passing 3 = sink := List.singleton_inj.mp hsink
  refine ⟨horder, hpaths.mpr ?_⟩
  simp [Graph.joined, Graph.Lists, Vertex.passing]

/-- Two vertices, the first of which feeds one that is not there. -/
def Graph.dangling : Graph :=
  ⟨0, plannerVersion, [.passing 0, .passing 1], [⟨0, 0, 7, 0, .local⟩]⟩

/-- Both checks pass, though the edge leads nowhere and the first vertex has no way to the sink. -/
theorem dangling_edge_passes : Graph.dangling.checkOrder = .ok () ∧
    Graph.dangling.checkTree = .ok () ∧ Graph.dangling.sinks = [.passing 1] ∧
    (∃ e ∈ Graph.dangling.edges, ¬ Graph.dangling.Lists e.target) ∧
    ¬ ∃ p, Graph.dangling.Path 0 p 1 := by
  have horder : Graph.dangling.checkOrder = .ok () := by cbv
  have hmissing : ¬ Graph.dangling.Lists 7 := by
    simp [Graph.dangling, Graph.Lists, Vertex.passing]
  refine ⟨horder, by cbv, rfl, ⟨_, List.mem_singleton_self _, hmissing⟩, ?_⟩
  rintro ⟨p, hp⟩
  generalize ha : (0 : VertexId) = a at hp
  cases hp with
  | stay => cases ha
  | step edge onward =>
    obtain rfl := List.mem_singleton.mp edge
    exact hmissing (onward.listed horder ⟨.passing 1, by simp [Graph.dangling], rfl⟩)

end FlowPlan
