import FlowPlan.Graph.Basic
import Mathlib

namespace FlowPlan.Graph

variable {g : Graph}

/-- Rows of one vertex go straight to another. -/
def Feeds (g : Graph) (source target : VertexId) : Prop :=
  ∃ e ∈ g.edges, e.source = source ∧ e.target = target

/-- Vertices are numbered by position, and every edge joins two of them, the earlier one to the
later one. -/
structure Forward (g : Graph) : Prop where
  numbered : g.vertices.map (·.id) = List.range g.vertices.length
  forward : ∀ e ∈ g.edges, e.source < e.target
  bounded : ∀ e ∈ g.edges, e.target < g.vertices.length

namespace Forward

theorem id_lt (h : g.Forward) {v : Vertex} (hv : v ∈ g.vertices) : v.id < g.vertices.length := by
  have hid : v.id ∈ g.vertices.map (·.id) := List.mem_map_of_mem hv
  rw [h.numbered, List.mem_range] at hid
  exact hid

theorem exists_vertex (h : g.Forward) {id : VertexId} (hid : id < g.vertices.length) :
    ∃ v ∈ g.vertices, v.id = id := by
  have hmem : id ∈ g.vertices.map (·.id) := by
    rw [h.numbered]
    exact List.mem_range.mpr hid
  exact List.mem_map.mp hmem

theorem ends_listed (h : g.Forward) {e : Edge} (he : e ∈ g.edges) :
    (∃ v ∈ g.vertices, v.id = e.source) ∧ ∃ v ∈ g.vertices, v.id = e.target :=
  ⟨h.exists_vertex (Nat.lt_trans (h.forward e he) (h.bounded e he)),
    h.exists_vertex (h.bounded e he)⟩

theorem lt_of_path (h : g.Forward) {a b : VertexId} (hp : Relation.TransGen g.Feeds a b) :
    a < b := by
  induction hp with
  | single hab =>
    obtain ⟨e, he, rfl, rfl⟩ := hab
    exact h.forward e he
  | tail _ hbc ih =>
    obtain ⟨e, he, rfl, rfl⟩ := hbc
    exact Nat.lt_trans ih (h.forward e he)

theorem acyclic (h : g.Forward) (id : VertexId) : ¬ Relation.TransGen g.Feeds id id :=
  fun hp => Nat.lt_irrefl id (h.lt_of_path hp)

/-- A vertex that is no source is fed by an earlier one. -/
theorem exists_source (h : g.Forward) {v : Vertex} (hv : v ∈ g.vertices) :
    ∃ s ∈ g.sources, Relation.ReflTransGen g.Feeds s.id v.id := by
  induction hn : v.id using Nat.strong_induction_on generalizing v with
  | _ n ih =>
    subst hn
    by_cases hs : v ∈ g.sources
    · exact ⟨v, hs, .refl⟩
    · simp only [sources, List.mem_filter, hv, true_and, Bool.not_eq_true', Bool.not_eq_false,
        List.any_eq_true, beq_iff_eq] at hs
      obtain ⟨e, he, htarget⟩ := hs
      obtain ⟨w, hw, hsource⟩ := (h.ends_listed he).1
      have hlt : w.id < v.id := by
        rw [hsource, ← htarget]
        exact h.forward e he
      obtain ⟨s, hs, hpath⟩ := ih w.id hlt hw rfl
      exact ⟨s, hs, hpath.tail ⟨e, he, hsource.symm, htarget⟩⟩

/-- A vertex that is no sink feeds a later one, and there are only so many. -/
theorem exists_sink (h : g.Forward) {v : Vertex} (hv : v ∈ g.vertices) :
    ∃ s ∈ g.sinks, Relation.ReflTransGen g.Feeds v.id s.id := by
  induction hn : g.vertices.length - v.id using Nat.strong_induction_on generalizing v with
  | _ n ih =>
    subst hn
    by_cases hs : v ∈ g.sinks
    · exact ⟨v, hs, .refl⟩
    · simp only [sinks, List.mem_filter, hv, true_and, Bool.not_eq_true', Bool.not_eq_false,
        List.any_eq_true, beq_iff_eq] at hs
      obtain ⟨e, he, hsource⟩ := hs
      obtain ⟨w, hw, htarget⟩ := (h.ends_listed he).2
      have hlt : v.id < w.id := by
        rw [htarget, ← hsource]
        exact h.forward e he
      have hless : g.vertices.length - w.id < g.vertices.length - v.id :=
        Nat.sub_lt_sub_left (h.id_lt hv) hlt
      obtain ⟨s, hs, hpath⟩ := ih _ hless hw rfl
      exact ⟨s, hs, hpath.head ⟨e, he, hsource, htarget.symm⟩⟩

end Forward

/-- The edges into a vertex come by slot, and each slot once where no two edges share one. -/
theorem inputsOf_sorted (h : (g.edges.map fun e => (e.target, e.ordinal)).Nodup) (id : VertexId) :
    (g.inputsOf id).Pairwise fun a b => a.ordinal < b.ordinal := by
  have hperm := List.mergeSort_perm (g.edges.filter (·.target == id)) fun a b => a.ordinal ≤ b.ordinal
  have hslots : (g.inputsOf id).Pairwise fun a b => a.ordinal ≠ b.ordinal := by
    have hedges : (g.edges.filter (·.target == id)).Pairwise fun a b => a.ordinal ≠ b.ordinal := by
      refine ((List.pairwise_map.mp h).filter _).imp_of_mem fun {a b} ha hb hne hordinal => hne ?_
      have ha : a.target = id := by simpa using (List.mem_filter.mp ha).2
      have hb : b.target = id := by simpa using (List.mem_filter.mp hb).2
      rw [ha, hb, hordinal]
    exact (hperm.pairwise_iff Ne.symm).mpr hedges
  have hsorted : (g.inputsOf id).Pairwise fun a b => decide (a.ordinal ≤ b.ordinal) = true := by
    refine List.pairwise_mergeSort (fun a b c hab hbc => ?_) (fun a b => ?_) _
    · simp only [decide_eq_true_eq] at *
      exact Nat.le_trans hab hbc
    · simpa using Nat.le_total a.ordinal b.ordinal
  exact hsorted.imp₂ (fun a b hle hne => Nat.lt_of_le_of_ne (of_decide_eq_true hle) hne) hslots

end FlowPlan.Graph
