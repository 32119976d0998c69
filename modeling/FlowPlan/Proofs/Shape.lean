import FlowPlan.Graph.Shape
import FlowPlan.Proofs.Outcome
import FlowPlan.Proofs.Reachability

namespace FlowPlan

open Outcome

/-- The numbers of an edge: its own, those of its ends, and the slot it feeds. -/
def Edge.ends (e : Edge) : EdgeId × VertexId × VertexId × Nat := (e.id, e.source, e.target, e.ordinal)

namespace Graph

variable {g : Graph}

theorem checkOrderFrom_eq_ok (h : g.Forward) (before : List Vertex) {after : List Vertex}
    {seen : List VertexId} (hg : g.vertices = before ++ after) (hseen : ∀ id < before.length, id ∈ seen) :
    g.checkOrderFrom seen after = .ok () := by
  induction after generalizing before seen with
  | nil => rfl
  | cons v rest ih =>
    have hid : v.id = before.length := by
      have := congrArg (·[before.length]?) h.numbered
      simpa [hg] using this
    have hfound : (g.inputsOf v.id).find? (fun e => !seen.contains e.source) = none := by
      rw [List.find?_eq_none]
      intro e he
      obtain ⟨he, htarget⟩ := List.mem_filter.mp (List.mem_mergeSort.mp he)
      rw [beq_iff_eq, hid] at htarget
      have hlt := h.forward e he
      rw [htarget] at hlt
      simpa using hseen e.source hlt
    simp only [checkOrderFrom, hfound]
    refine ih (before ++ [v]) (by simp [hg]) fun id hlt => ?_
    rw [List.length_append, List.length_singleton, Nat.lt_succ_iff_lt_or_eq] at hlt
    rcases hlt with hlt | rfl
    · exact List.mem_cons_of_mem _ (hseen id hlt)
    · rw [← hid]
      exact List.mem_cons_self

theorem Forward.checkOrder (h : g.Forward) : g.checkOrder = .ok () :=
  checkOrderFrom_eq_ok h [] rfl (by simp)

/-- The graph is one line of vertices, each of which feeds the next one. -/
structure Linear (g : Graph) : Prop where
  inhabited : g.vertices ≠ []
  numbered : g.vertices.map (·.id) = List.range g.vertices.length
  linked : g.edges.map Edge.ends =
    (List.range (g.vertices.length - 1)).map fun k => (k, k, k + 1, 0)

namespace Linear

variable {e : Edge}

/-- What the edges have in common with the numbers they were given. -/
theorem edges_map {α : Type} (h : g.Linear) (f : EdgeId × VertexId × VertexId × Nat → α) :
    g.edges.map (fun e => f e.ends) =
      (List.range (g.vertices.length - 1)).map fun k => f (k, k, k + 1, 0) := by
  have := congrArg (List.map f) h.linked
  rwa [List.map_map, List.map_map] at this

theorem ends_of_mem (h : g.Linear) (he : e ∈ g.edges) :
    e.source + 1 < g.vertices.length ∧ e.target = e.source + 1 ∧ e.ordinal = 0 := by
  have hends := List.mem_map_of_mem (f := Edge.ends) he
  rw [h.linked] at hends
  obtain ⟨k, hk, hends⟩ := List.mem_map.mp hends
  rw [Edge.ends, Prod.mk.injEq, Prod.mk.injEq, Prod.mk.injEq] at hends
  obtain ⟨-, hsource, htarget, hordinal⟩ := hends
  rw [← hsource, ← htarget, ← hordinal]
  exact ⟨Nat.add_lt_of_lt_sub (List.mem_range.mp hk), rfl, rfl⟩

theorem forward (h : g.Linear) : g.Forward := by
  refine ⟨h.numbered, fun e he => ?_, fun e he => ?_⟩
  · rw [(h.ends_of_mem he).2.1]
    exact Nat.lt_succ_self _
  · rw [(h.ends_of_mem he).2.1]
    exact (h.ends_of_mem he).1

theorem exists_edge (h : g.Linear) {k : Nat} : (∃ e ∈ g.edges, e.source = k) ↔
    k < g.vertices.length - 1 := by
  have hsources := h.edges_map fun ends => ends.2.1
  have : k ∈ g.edges.map (·.source) ↔ k < g.vertices.length - 1 := by
    change k ∈ g.edges.map (fun e => e.ends.2.1) ↔ _
    rw [hsources, List.map_id', List.mem_range]
  rw [← this, List.mem_map]

/-- Only the last vertex feeds none. -/
theorem sinks_length (h : g.Linear) : g.sinks.length = 1 := by
  obtain ⟨n, hn⟩ := Nat.exists_eq_succ_of_ne_zero (List.length_pos_iff.mpr h.inhabited).ne'
  have hsink : ∀ v : Vertex, (!g.edges.any fun e => e.source == v.id) = decide (n ≤ v.id) := by
    intro v
    rw [Bool.not_eq_eq_eq_not, ← decide_not, Bool.eq_iff_iff, List.any_eq_true, decide_eq_true_eq]
    simp only [beq_iff_eq, h.exists_edge]
    omega
  have hcount : g.sinks.length = (g.vertices.map (·.id)).countP fun k => n ≤ k := by
    rw [sinks, List.countP_map, List.countP_eq_length_filter]
    simp only [hsink]
    rfl
  rw [hcount, h.numbered, hn, List.range_succ, List.countP_append,
    List.countP_eq_zero.mpr fun k hk => by simpa using hk]
  simp

/-- No vertex feeds several. -/
theorem shared_eq_nil (h : g.Linear) : g.shared = [] := by
  refine List.filter_eq_nil_iff.mpr fun id _ => ?_
  have hsources := h.edges_map fun ends => ends.2.1
  have hnodup : (g.edges.map (·.source)).Nodup := by
    change (g.edges.map fun e => e.ends.2.1).Nodup
    rw [hsources, List.map_id']
    exact List.nodup_range
  have hcount : (g.outputsOf id).length = (g.edges.map (·.source)).count id := by
    rw [outputsOf, List.count, List.countP_map, List.countP_eq_length_filter]
    rfl
  rw [hcount]
  simpa using List.nodup_iff_count_le_one.mp hnodup id

theorem slots (h : g.Linear) : (g.edges.map fun e => (e.target, e.ordinal)).Nodup := by
  have hslots := h.edges_map fun ends => ends.2.2
  change (g.edges.map fun e => e.ends.2.2).Nodup
  rw [hslots]
  exact List.nodup_range.map fun a b hab => by simpa using hab

/-- Every vertex has one input at most, and that is in its first slot. -/
theorem checkSlots (h : g.Linear) (v : Vertex) : g.checkSlots v = .ok () := by
  have hsorted := inputsOf_sorted h.slots v.id
  have hfirst : ∀ e ∈ g.inputsOf v.id, e.ordinal = 0 := fun e he =>
    (h.ends_of_mem (List.mem_filter.mp (List.mem_mergeSort.mp he)).1).2.2
  unfold Graph.checkSlots
  match g.inputsOf v.id, hsorted, hfirst with
  | [], _, _ => rfl
  | [e], _, hfirst =>
    have := hfirst e List.mem_cons_self
    simp [gap?, this]
  | e :: e' :: rest, hsorted, hfirst =>
    have hlt := List.rel_of_pairwise_cons hsorted List.mem_cons_self
    rw [hfirst e' (by simp)] at hlt
    exact absurd hlt (Nat.not_lt_zero _)

theorem checkTree (h : g.Linear) : g.checkTree = .ok () := by
  have hslots : g.vertices.forM g.checkSlots = .ok () :=
    forM_eq_ok.mpr fun v _ => h.checkSlots v
  simp only [Graph.checkTree, h.sinks_length, h.shared_eq_nil, hslots]
  rfl

end Linear

end Graph

end FlowPlan
