import FlowPlan.Proofs.Interpretation
import FlowPlan.Proofs.Typing

namespace FlowPlan

open Outcome

/-- The columns of the rows that the scan of a plan reads. -/
def Plan.scanned? : Plan → Option Schema
  | .node _ (.scan _ s) _ => some s
  | .node _ _ [input] => scanned? input
  | .node _ _ _ => none

/-- An operator turns rows of the columns that enter into rows of the columns that leave. -/
theorem Operator.apply_admits {op : Operator} {entering leaving : Schema} {row out : Values}
    (one : op.arity = 1) (hl : op.leaving entering = .ok leaving) (hr : entering.Admits row)
    (ho : op.apply row = .ok (some out)) : leaving.Admits out := by
  cases op with
  | scan container s => cases one
  | filter predicate =>
    obtain ⟨_, -, hl⟩ := bind_eq_ok.mp hl
    obtain ⟨kept, -, ho⟩ := bind_eq_ok.mp ho
    cases hl
    cases kept with
    | true =>
      cases ho
      exact hr
    | false => cases ho
  | project exprs declared =>
    obtain ⟨_, -, hl⟩ := bind_eq_ok.mp hl
    obtain ⟨fields, hfields, rfl⟩ := map_eq_ok.mp hl
    obtain ⟨values, hvalues, hsome⟩ := map_eq_ok.mp ho
    cases hsome
    exact Expr.evalEach_admits hr hfields hvalues
  | root =>
    cases hl
    cases ho
    exact hr

namespace Vertex

/-- A vertex that turns rows of a schema into rows of its own. -/
def Keeps (entering : Schema) (v : Vertex) : Prop :=
  ∀ row out, entering.Admits row → v.processor.process row = .ok (some out) → v.schema.Admits out

/-- Vertices each of which turns rows of the one before into rows of its own. -/
def AllKeep (entering : Schema) : List Vertex → Prop
  | [] => True
  | v :: rest => v.Keeps entering ∧ AllKeep v.schema rest

/-- The columns of the rows that leave the last vertex. -/
def emitted (entering : Schema) : List Vertex → Schema
  | [] => entering
  | v :: rest => emitted v.schema rest

@[simp] theorem emitted_concat (entering : Schema) (first : List Vertex) (v : Vertex) :
    emitted entering (first ++ [v]) = v.schema := by
  induction first generalizing entering with
  | nil => rfl
  | cons w first ih => exact ih w.schema

theorem allKeep_concat {entering : Schema} {first : List Vertex} {v : Vertex} :
    AllKeep entering (first ++ [v]) ↔
      AllKeep entering first ∧ v.Keeps (emitted entering first) := by
  induction first generalizing entering with
  | nil => simp [AllKeep, emitted]
  | cons w first ih => simp only [List.cons_append, AllKeep, emitted, ih, and_assoc]

/-- What is emitted after some of the vertices is a row of the last one of these. -/
theorem AllKeep.emits {entering : Schema} {before after : List Vertex} {v : Vertex}
    {row out : Values} (h : AllKeep entering (before ++ v :: after)) (hr : entering.Admits row)
    (ho : Processor.processAll row ((before ++ [v]).map (·.processor)) = .ok (some out)) :
    v.schema.Admits out := by
  induction before generalizing entering row with
  | nil =>
    rw [List.nil_append, List.map_cons, List.map_nil, Processor.processAll_cons] at ho
    exact h.1 row out hr ((onward_some_right _).symm.trans ho)
  | cons w before ih =>
    rw [List.cons_append, List.map_cons, Processor.processAll_cons] at ho
    cases hw : w.processor.process row with
    | error e => simp [hw] at ho
    | ok found =>
      cases found with
      | none => simp [hw] at ho
      | some mid =>
        rw [hw, onward_some] at ho
        exact ih h.2 (h.1 row mid hr hw) ho

end Vertex

namespace Plan

variable {ν : Type} {settings : Settings ν} {t : Traits} {op : Operator} {input : Plan}

open Vertex

theorem scanned?_over (one : op.arity = 1) :
    (Plan.node t op [input]).scanned? = input.scanned? := by
  cases op with
  | scan container s => cases one
  | filter predicate => rw [scanned?]; simp
  | project exprs declared => rw [scanned?]; simp
  | root => rw [scanned?]; simp

/-- A vertex over the others keeps their rows to its columns. -/
theorem allKeep_stack {s leaving : Schema} {b : Builder} (one : op.arity = 1)
    (h : AllKeep s b.vertices) (hl : op.leaving (emitted s b.vertices) = .ok leaving) :
    AllKeep s (b.stack settings t op leaving).vertices := by
  refine allKeep_concat.mpr ⟨h, ?_⟩
  intro row out hr ho
  rw [Processor.process_processor] at ho
  exact Operator.apply_admits one hl hr ho

/-- So does the last vertex when a projection becomes a part of it. -/
theorem allKeep_absorb {s leaving : Schema} {b : Builder} {p : Plan} {exprs : List Expr}
    {declared : Schema} {v : Vertex} {predicate : Expr} (h : AllKeep s b.vertices)
    (hv : b.vertices.getLast? = some v) (hf : v.processor = .filter predicate)
    (hl : (Operator.project exprs declared).leaving (emitted s b.vertices) = .ok leaving) :
    AllKeep s (b.absorb p leaving exprs).vertices ∧
      emitted s (b.absorb p leaving exprs).vertices = leaving := by
  obtain ⟨first, hfirst⟩ := List.getLast?_eq_some_iff.mp hv
  rw [hfirst] at h hl
  rw [Builder.absorb_vertices hfirst hf]
  refine ⟨allKeep_concat.mpr ⟨(allKeep_concat.mp h).1, ?_⟩, emitted_concat _ _ _⟩
  intro row out hr ho
  simp only [Processor.process_calc] at ho
  cases hkept : (Processor.filter predicate).process row with
  | error e => simp [hkept] at ho
  | ok found =>
    cases found with
    | none => simp [hkept] at ho
    | some mid =>
      rw [hkept, onward_some] at ho
      have hmid : v.schema.Admits mid := (allKeep_concat.mp h).2 row mid hr (by rw [hf, hkept])
      rw [emitted_concat] at hl
      exact Operator.apply_admits rfl hl hmid ((Processor.process_processor _ mid).symm.trans ho)

/-- Laying a checked operator over what was built keeps every vertex to its columns. -/
theorem allKeep_lay {s leaving : Schema} {b : Builder} (one : op.arity = 1)
    (ha : Assembled settings input b) (h : AllKeep s b.vertices)
    (hl : op.leaving (emitted s b.vertices) = .ok leaving) :
    AllKeep s (b.lay settings t op input leaving).vertices ∧
      emitted s (b.lay settings t op input leaving).vertices = leaving := by
  unfold Builder.lay
  split
  · split
    · rename_i hfuse
      have hk : input.kind = .filter := by simpa using (Bool.and_eq_true_iff.mp hfuse).2
      obtain ⟨v, predicate, hv, hf⟩ := ha.last_filter hk
      exact allKeep_absorb h hv hf hl
    · exact ⟨allKeep_stack one h hl, emitted_concat _ _ _⟩
  · exact ⟨allKeep_stack one h hl, emitted_concat _ _ _⟩

/-- The vertices built for a plan keep the rows of its scan to their columns, and the last of them
emits rows of the plan's own columns. -/
theorem allKeep_of_assemble {p : Plan} {b : Builder} (h : p.assemble settings = .ok b) :
    ∃ s, p.scanned? = some s ∧ AllKeep s b.vertices ∧ p.schema = .ok (emitted s b.vertices) := by
  replace h := assembled_of_eq_ok h
  induction h with
  | @scan t container s inputs physical =>
    refine ⟨s, by rw [scanned?], ⟨?_, trivial⟩, by rw [schema, physical]; rfl⟩
    intro row out hr ho
    cases ho
    exact hr
  | @laid t op input b entering leaving one physical below enters leaves ih =>
    obtain ⟨s, hs, hkeep, hschema⟩ := ih
    obtain rfl : entering = emitted s b.vertices := by
      rw [enters] at hschema
      exact Except.ok.inj hschema
    obtain ⟨hall, hlast⟩ := allKeep_lay (t := t) one below hkeep leaves
    refine ⟨s, by rw [scanned?_over one, hs], hall, ?_⟩
    rw [hlast]
    exact schema_of_leaving one (requirePhysical_eq_ok.mp physical) enters leaves

end Plan

/-- Every plan that compiles has a scan, and of a row of the scan's columns every vertex makes rows of
its own columns or none. What makes it so is true of expressions in general: over any row of any
schema they have values that fit the type and the nullability derived for them. -/
theorem emitted_rows_fit_schemas {ν : Type} {settings : Settings ν} {id : GraphId} {p : Plan}
    {g : Graph} (hg : compile settings id p = .ok g) :
    (∃ s, p.scanned? = some s ∧ ∀ (row out : Values) (before after : List Vertex) (v : Vertex),
      s.Admits row → g.vertices = before ++ v :: after →
      Processor.processAll row ((before ++ [v]).map (·.processor)) = .ok (some out) →
      v.schema.Admits out) ∧
    ∀ (s : Schema) (row : Values) (e : Expr) (type : DataType) (v : Scalar), s.Admits row →
      e.typeOver s = .ok type → e.eval row = .ok v → v.Fits type (e.nullableOver s) := by
  refine ⟨?_, fun s row e type v hr ht hv => Expr.eval_fits hr ht hv⟩
  rw [compile_eq] at hg
  obtain ⟨_, -, hg⟩ := bind_eq_ok.mp (mapError_eq_ok.mp hg)
  obtain ⟨_, -, hg⟩ := bind_eq_ok.mp hg
  obtain ⟨b, hb, hg⟩ := bind_eq_ok.mp hg
  cases hg
  obtain ⟨s, hs, hkeep, -⟩ := Plan.allKeep_of_assemble hb
  refine ⟨s, hs, ?_⟩
  intro row out before after v hr hv ho
  change b.vertices = before ++ v :: after at hv
  rw [hv] at hkeep
  exact hkeep.emits hr ho

/-- The fused vertex of the doubled orders emits one number that may be NULL. -/
theorem emitted_rows_fit_schemas_doubledOrders : ∃ (g : Graph) (scan fused root : Vertex),
    compile { (Settings.default : Settings Double) with fuse := true } 0
      Plan.doubledOrders.physicalForm = .ok g ∧
    g.vertices = [scan, fused, root] ∧ fused.schema = ⟨[⟨"double", .int32, true⟩]⟩ ∧
    fused.schema.Admits [.int32 24] := by
  obtain ⟨g, hg, scan, fused, root, hv, hf, hp⟩ : ∃ g,
      compile { (Settings.default : Settings Double) with fuse := true } 0
        Plan.doubledOrders.physicalForm = .ok g ∧ ∃ scan fused root,
      g.vertices = [scan, fused, root] ∧ fused.schema = ⟨[⟨"double", .int32, true⟩]⟩ ∧
      Processor.processAll [.int32 1, .int32 12] (([scan] ++ [fused]).map (·.processor)) =
        .ok (some [.int32 24]) := ⟨_, rfl, _, _, _, rfl, rfl, rfl⟩
  obtain ⟨s, hs, h⟩ := (emitted_rows_fit_schemas hg).1
  obtain rfl : s = ⟨[⟨"id", .int32, false⟩, ⟨"amount", .int32, true⟩]⟩ := (Option.some.inj hs).symm
  have hrow : Schema.Admits ⟨[⟨"id", .int32, false⟩, ⟨"amount", .int32, true⟩]⟩
      [.int32 1, .int32 12] := .cons rfl (.cons rfl .nil)
  exact ⟨g, scan, fused, root, hg, hv, hf, h _ _ [scan] [root] fused hrow hv hp⟩

end FlowPlan
