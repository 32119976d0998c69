import FlowPlan.Graph.Builder
import FlowPlan.Proofs.Outcome

namespace FlowPlan.Builder

open Outcome

variable {b : Builder}

/-- Numbers are given out by position, and the index has exactly those that were. -/
structure Indexed (b : Builder) : Prop where
  nextVertex : b.nextVertex = b.vertices.length
  nextEdge : b.nextEdge = b.edges.length
  lookup : ∀ id, b.index.lookup id = if id < b.vertices.length then some id else none

theorem indexed_empty : empty.Indexed := ⟨rfl, rfl, fun _ => rfl⟩

/-- An index that knows the numbers below `n` and is told of `n` knows those up to `n`. -/
theorem lookup_next {index : List (VertexId × Nat)} {n : Nat}
    (h : ∀ id, index.lookup id = if id < n then some id else none) (id : VertexId) :
    ((n, n) :: index).lookup id = if id < n + 1 then some id else none := by
  by_cases hid : id = n
  · subst hid
    simp
  · have hne : (id == n) = false := beq_false_of_ne hid
    have hlt : id < n + 1 ↔ id < n := Nat.lt_succ_iff_lt_or_eq.trans (or_iff_left hid)
    simp only [List.lookup_cons, hne, h id, hlt]

namespace Indexed

variable {id : VertexId}

theorem position_eq (h : b.Indexed) (hid : id < b.vertices.length) : b.position id = .ok id := by
  simp only [position, h.lookup, hid, ↓reduceIte]

theorem lookup_eq_some (h : b.Indexed) {i : Nat} :
    b.index.lookup id = some i ↔ i < b.vertices.length ∧ i = id := by
  rw [h.lookup, Option.ite_none_right_eq_some, Option.some.injEq]
  constructor
  · rintro ⟨hlt, rfl⟩
    exact ⟨hlt, rfl⟩
  · rintro ⟨hlt, rfl⟩
    exact ⟨hlt, rfl⟩

theorem has_eq (h : b.Indexed) : b.has id = decide (id < b.vertices.length) := by
  rw [has, h.lookup]
  by_cases hid : id < b.vertices.length <;> simp [hid]

theorem vertex?_eq (h : b.Indexed) : b.vertex? id = b.vertices[id]? := by
  rw [vertex?, h.lookup]
  by_cases hid : id < b.vertices.length
  · simp [hid]
  · simp [hid]

/-- An edge between two vertices that were made passes if it leads to the later one. -/
theorem checkForward_eq_ok (h : b.Indexed) {e : Edge} (hs : e.source < b.vertices.length)
    (ht : e.target < b.vertices.length) : b.checkForward e = .ok () ↔ e.source < e.target := by
  simp [checkForward, h.position_eq hs, h.position_eq ht]

theorem addVertex (h : b.Indexed) (name : String) (processor : Processor) (schema : Schema)
    (distribution : Distribution) (parallelism : Option UInt32) :
    (b.addVertex name processor schema distribution parallelism).2.Indexed := by
  refine ⟨?_, h.nextEdge, fun id => ?_⟩
  · simp [Builder.addVertex, h.nextVertex]
  · simp only [Builder.addVertex, h.nextVertex, List.length_append, List.length_singleton]
    exact lookup_next h.lookup id

end Indexed

/-- An edge is refused without a trace, or it is added under the next number: then its ends are two
vertices that were made, and its slot was free. -/
theorem addEdge_cases (b : Builder) (source target : VertexId) (ordinal : Nat) (routing : Routing) :
    (∃ f, b.addEdge source target ordinal routing = (.error f, b)) ∨
    (b.has source = true ∧ b.has target = true ∧ source ≠ target ∧
      (∀ e ∈ b.edges, e.target = target → e.ordinal ≠ ordinal) ∧
      b.addEdge source target ordinal routing = (.ok b.nextEdge,
        { b with
          edges := b.edges ++ [⟨b.nextEdge, source, target, ordinal, routing⟩]
          nextEdge := b.nextEdge + 1 })) := by
  unfold addEdge
  cases hs : b.has source with
  | false => exact .inl ⟨_, rfl⟩
  | true =>
    cases ht : b.has target with
    | false => exact .inl ⟨_, rfl⟩
    | true =>
      by_cases hne : source = target
      · exact .inl ⟨.selfLoop source, by simp [hne]⟩
      · cases hslot : b.edges.any fun e => e.target == target && e.ordinal == ordinal with
        | true => exact .inl ⟨.slotTaken ordinal target, by simp [hne]⟩
        | false =>
          refine .inr ⟨rfl, rfl, hne, fun e he htarget hordinal => ?_, by simp [hne]⟩
          have := List.any_eq_false.mp hslot e he
          simp [htarget, hordinal] at this

theorem addEdge_refused {source target : VertexId} {ordinal : Nat} {routing : Routing}
    {f : GraphFault} (h : (b.addEdge source target ordinal routing).1 = .error f) :
    (b.addEdge source target ordinal routing).2 = b := by
  rcases b.addEdge_cases source target ordinal routing with ⟨f', he⟩ | ⟨-, -, -, -, he⟩
  · rw [he]
  · rw [he] at h
    cases h

end FlowPlan.Builder
