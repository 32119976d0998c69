import FlowPlan.Pipeline.Catalog
import FlowPlan.Pipeline.Plan
import FlowPlan.Proofs.Assembly
import FlowPlan.Proofs.Search

namespace FlowPlan

open Outcome

namespace Store

/-- Every container is one whose rows can be counted. -/
def Counted (s : Store) : Prop := ∀ c ∈ s.containers, ∃ n, c.rowCount = .ok n

theorem register_containers (s : Store) (id : ContainerId) :
    (s.register id).containers = s.containers := by
  unfold register
  split <;> rfl

theorem Counted.addRegistered {s : Store} {c : Container} {n : UInt64} (hs : s.Counted)
    (hc : c.rowCount = .ok n) : (s.addRegistered c).Counted := by
  intro d hd
  have hcontainers : (s.addRegistered c).containers = s.containers ++ [c] :=
    register_containers (s.add c).2 (s.add c).1
  rw [hcontainers] at hd
  rcases List.mem_append.mp hd with hd | hd
  · exact hs d hd
  · exact ⟨n, List.mem_singleton.mp hd ▸ hc⟩

theorem Counted.rowCount_eq_ok {s : Store} (hs : s.Counted) (name : String) :
    ∃ found, s.rowCount? name = .ok found := by
  unfold rowCount?
  split
  · next c hc =>
    obtain ⟨id, -, hat⟩ := Option.bind_eq_some_iff.mp hc
    obtain ⟨n, hn⟩ := hs c (List.mem_of_getElem? hat)
    exact ⟨some n, by rw [hn, Except.map_ok]⟩
  · exact ⟨none, rfl⟩

end Store

/-- Only maps are declared, and these count their entries. -/
theorem ContainerSpec.rowCount_of_container {c : ContainerSpec} {made : Container}
    (h : c.container = .ok made) : ∃ n, made.rowCount = .ok n := by
  cases hk : c.kind with
  | partitionedMap =>
    simp only [container, hk] at h
    split at h
    · cases h
    · cases h
      exact ⟨_, rfl⟩
  | replicatedMap =>
    simp only [container, hk] at h
    cases h
    exact ⟨_, rfl⟩
  | _ =>
    simp only [container, hk] at h
    cases h

namespace Pipeline

open Plan

theorem counted_of_register {s store : Store} {specs : List ContainerSpec} (hs : s.Counted)
    (h : register s specs = .ok store) : store.Counted := by
  induction specs generalizing s with
  | nil =>
    cases h
    exact hs
  | cons c rest ih =>
    obtain ⟨made, hmade, h⟩ := bind_eq_ok.mp h
    obtain ⟨n, hn⟩ := ContainerSpec.rowCount_of_container hmade
    exact ih (hs.addRegistered hn) h

theorem counts_ofStore {ν : Type} [Quantity ν] {settings : Settings ν} {store : Store}
    (hs : store.Counted) (p : Plan) : (Estimates.ofStore settings store).Counts p := by
  intro q _ hk
  obtain ⟨t, op, inputs⟩ := q
  cases op with
  | filter predicate => cases hk
  | project exprs declared => cases hk
  | root => cases hk
  | scan container s =>
    obtain ⟨found, hfound⟩ := hs.rowCount_eq_ok container
    simp only [Estimates.ofStore, Estimates.ofCounts, Plan.op, hfound]
    cases found with
    | none => exact ⟨_, rfl⟩
    | some n => exact ⟨_, rfl⟩

section Columns

variable {s declared : Schema}

theorem derivedField_name {name : String} {e : Expr} {f : Field} (h : s.derivedField name e = .ok f) :
    s.derivedField f.name e = .ok f := by
  obtain ⟨type, htype, hf⟩ := bind_eq_ok.mp h
  cases hf
  rw [Schema.derivedField, htype]
  rfl

/-- Columns are derived under the names that they were given when they were declared. -/
theorem derivedFields_of_outputs {items : List String} (before : List Field)
    {found : List (Expr × Field)} (h : outputs s before.length items = .ok found) :
    Schema.derivedFields ⟨before ++ found.map Prod.snd⟩ s before.length (found.map Prod.fst) =
      .ok (found.map Prod.snd) := by
  -- on the items, with the columns of those before as a growing front of the declared ones
  induction items generalizing before found with
  | nil =>
    cases h
    rfl
  | cons item rest ih =>
    obtain ⟨⟨e, f⟩, hfirst, h⟩ := bind_eq_ok.mp h
    obtain ⟨more, hmore, h⟩ := bind_eq_ok.mp h
    cases h
    obtain ⟨⟨e', given⟩, -, hfirst⟩ := bind_eq_ok.mp hfirst
    obtain ⟨f', hf, hfirst⟩ := bind_eq_ok.mp hfirst
    cases hfirst
    have hname : Schema.columnName ⟨before ++ f :: more.map Prod.snd⟩ before.length = f.name := by
      simp [Schema.columnName, Schema.field?]
    have hlater := ih (before ++ [f]) (by simpa using hmore)
    rw [List.append_assoc, List.singleton_append, List.length_append, List.length_singleton] at hlater
    simp only [List.map_cons, Schema.derivedFields, hname,
      derivedField_name (mapError_eq_ok.mp hf), ok_bind, hlater, pure_eq_ok]

theorem derive_of_outputs {items : List String} {found : List (Expr × Field)}
    (h : outputs s 0 items = .ok found) :
    Schema.derive ⟨found.map Prod.snd⟩ s (found.map Prod.fst) = .ok ⟨found.map Prod.snd⟩ :=
  map_eq_ok.mpr ⟨_, derivedFields_of_outputs [] h, rfl⟩

theorem asProjection_of_derivedFields {exprs : List Expr} {i : Nat} {fields : List Field}
    (h : declared.derivedFields s i exprs = .ok fields) :
    Expr.asProjection s exprs = .ok exprs := by
  have htypes : Expr.typesOver s exprs = .ok () := by
    induction exprs generalizing i fields with
    | nil => rfl
    | cons e rest ih =>
      obtain ⟨f, hf, h⟩ := bind_eq_ok.mp h
      obtain ⟨more, hmore, -⟩ := bind_eq_ok.mp h
      obtain ⟨type, htype, -⟩ := bind_eq_ok.mp hf
      rw [Expr.typesOver, mapError_eq_ok.mp htype, ok_bind, ih hmore]
  rw [Expr.asProjection, htypes]
  rfl

theorem checkPredicate_eq_ok {e : Expr} : e.checkPredicate s = .ok () ↔
    ∃ t, e.typeOver s = .ok t ∧ (t = .boolean ∨ t = .null) := by
  unfold Expr.checkPredicate
  cases e.typeOver s with
  | error cause => simp
  | ok t => cases t <;> simp

theorem exists_asPredicate {e : Expr} : (∃ found, e.asPredicate s = .ok found) ↔
    ∃ t, e.typeOver s = .ok t ∧ (t = .boolean ∨ t = .null) := by
  rw [← checkPredicate_eq_ok]
  constructor
  · rintro ⟨found, h⟩
    obtain ⟨_, hcheck, -⟩ := map_eq_ok.mp (mapError_eq_ok.mp h)
    exact hcheck
  · intro hcheck
    refine ⟨e, ?_⟩
    rw [Expr.asPredicate, hcheck]
    rfl

end Columns

/-- The plan of some steps as a relation to do induction on, one case per step. -/
inductive Follows : Plan → List Step → Plan → Prop where
  | done (input : Plan) : Follows input [] input.root
  | root (input : Plan) : Follows input [.root] input.root
  | filter {input plan : Plan} {text : String} {rest : List Step} {s : Schema} {e : Expr}
      (enters : input.rowType = .ok s) (reads : Expr.parse s text = .ok e)
      (follows : Follows (input.filter e) rest plan) : Follows input (.filter text :: rest) plan
  | project {input plan : Plan} {items : List String} {rest : List Step} {s : Schema}
      {found : List (Expr × Field)} (enters : input.rowType = .ok s)
      (reads : outputs s 0 items = .ok found)
      (follows : Follows (input.project (found.map Prod.fst) ⟨found.map Prod.snd⟩) rest plan) :
      Follows input (.project items :: rest) plan

theorem follow_filter {input : Plan} {text : String} {rest : List Step} {s : Schema} {e : Expr}
    (hs : input.rowType = .ok s) (he : Expr.parse s text = .ok e) :
    follow input (.filter text :: rest) = follow (input.filter e) rest := by
  rw [follow, entering, hs, mapError_ok, ok_bind, he, mapError_ok, ok_bind]

theorem follow_project {input : Plan} {items : List String} {rest : List Step} {s : Schema}
    {found : List (Expr × Field)} (hs : input.rowType = .ok s)
    (hf : outputs s 0 items = .ok found) : follow input (.project items :: rest) =
      follow (input.project (found.map Prod.fst) ⟨found.map Prod.snd⟩) rest := by
  rw [follow, entering, hs, mapError_ok, ok_bind, hf, ok_bind]

theorem follows_of_eq_ok {steps : List Step} {input plan : Plan}
    (h : follow input steps = .ok plan) : Follows input steps plan := by
  induction steps generalizing input with
  | nil =>
    cases h
    exact .done input
  | cons step rest ih =>
    cases step with
    | scan source specs => cases h
    | root =>
      cases rest with
      | nil =>
        cases h
        exact .root input
      | cons next more => cases h
    | filter text =>
      rw [follow] at h
      obtain ⟨s, hs, h⟩ := bind_eq_ok.mp h
      obtain ⟨e, he, h⟩ := bind_eq_ok.mp h
      exact .filter (mapError_eq_ok.mp hs) (mapError_eq_ok.mp he) (ih h)
    | project items =>
      rw [follow] at h
      obtain ⟨s, hs, h⟩ := bind_eq_ok.mp h
      obtain ⟨found, hf, h⟩ := bind_eq_ok.mp h
      exact .project (mapError_eq_ok.mp hs) hf (ih h)

/-- A plan of a front end whose rows have the given columns by declaration, and each of whose nodes
has the columns it declares when it is physical. -/
structure Typed (p : Plan) (s : Schema) : Prop where
  chain : Chain p
  unset : AllIn .unset p
  declared : p.rowType = .ok s
  derived : p.physicalForm.schema = .ok s
  agrees : List.Forall₂ (fun q r => ∃ columns, q.rowType = .ok columns ∧ r.schema = .ok columns)
    p.nodes p.physicalForm.nodes

namespace Typed

variable {p : Plan} {s leaving : Schema} {op : Operator}

theorem scan (source : String) (s : Schema) : Typed (.scan source s) s := by
  have hrow : (Plan.scan source s).rowType = .ok s := by rw [Plan.scan, rowType]
  have hschema : (Plan.scan source s).physicalForm.schema = .ok s := by
    rw [Plan.scan, physicalForm_scan, schema]
    rfl
  refine ⟨.scan _ source s, ?_, hrow, hschema, ?_⟩
  · simp [Plan.scan, AllIn, convention, traits, Traits.undecided]
  · have : Plan.scan source s = .node .undecided (.scan source s) [] := rfl
    rw [this] at hrow hschema ⊢
    rw [physicalForm_scan] at hschema ⊢
    rw [nodes_scan, nodes_scan]
    exact .cons ⟨s, hrow, hschema⟩ .nil

theorem laid (h : Typed p s) (one : op.arity = 1)
    (hrow : (Plan.node .undecided op [p]).rowType = .ok leaving)
    (hschema : (Plan.node .undecided op [p]).physicalForm.schema = .ok leaving) :
    Typed (.node .undecided op [p]) leaving := by
  refine ⟨.node _ op p one h.chain, allIn_over.mpr ⟨rfl, h.unset⟩, hrow, hschema, ?_⟩
  rw [physicalForm_over] at hschema ⊢
  rw [nodes_over, nodes_over]
  exact .cons ⟨leaving, hrow, hschema⟩ h.agrees

theorem filter (h : Typed p s) (e : Expr) : Typed (p.filter e) s := by
  refine h.laid rfl ?_ ?_
  · rw [rowType, h.declared]
  · rw [physicalForm_over, schema, h.derived]
    · rfl
    all_goals simp

theorem root (h : Typed p s) : Typed p.root s := by
  refine h.laid rfl ?_ ?_
  · rw [rowType, h.declared]
  · rw [physicalForm_over, schema, h.derived]
    · rfl
    all_goals simp

theorem project (h : Typed p s) {exprs : List Expr} {declared : Schema}
    (hd : declared.derive s exprs = .ok declared) : Typed (p.project exprs declared) declared := by
  refine h.laid rfl (by rw [rowType]) ?_
  rw [physicalForm_over, schema, h.derived, ok_bind, hd]
  rfl

end Typed

theorem Follows.typed {input plan : Plan} {steps : List Step} {s : Schema}
    (h : Follows input steps plan) (ht : Typed input s) : ∃ leaving, Typed plan leaving := by
  induction h generalizing s with
  | done input => exact ⟨s, ht.root⟩
  | root input => exact ⟨s, ht.root⟩
  | @filter input plan text rest s' e enters reads follows ih => exact ih (ht.filter e)
  | project enters reads follows ih =>
    obtain rfl := Except.ok.inj (ht.declared.symm.trans enters)
    exact ih (ht.project (derive_of_outputs reads))

section Compile

variable {ν : Type} {settings : Settings ν} {p : Plan} {s : Schema} {op : Operator}

/-- A graph can be built for the plan once it is physical. -/
def Builds (settings : Settings ν) (p : Plan) : Prop :=
  ∃ b, p.physicalForm.assemble settings = .ok b

theorem exists_compile_iff (id : GraphId) (h : Chain p) :
    (∃ g, compile settings id p.physicalForm = .ok g) ↔ Builds settings p := by
  have hphysical : p.physicalForm.requirePhysical = .ok () :=
    requirePhysical_eq_ok.mpr (by simp [isPhysical, physicalForm_convention])
  have hcheck := h.physicalForm.check_of_allIn h.physicalForm_allIn
  rw [compile_eq, hphysical, hcheck, Builds]
  cases p.physicalForm.assemble settings <;> simp

theorem builds_scan (source : String) (s : Schema) : Builds settings (.scan source s) := by
  rw [Builds, Plan.scan, physicalForm_scan, assemble]
  exact ⟨_, rfl⟩

/-- A graph for a node needs one for its input, and an operator that fits the columns there. -/
theorem Typed.builds_laid (h : Typed p s) (one : op.arity = 1) :
    Builds settings (.node .undecided op [p]) ↔
      Builds settings p ∧ ∃ leaving, op.leaving s = .ok leaving := by
  have hphysical (inputs : List Plan) (d : Distribution) :
      (Plan.node ⟨.physical, d⟩ op inputs).requirePhysical = .ok () :=
    requirePhysical_eq_ok.mpr rfl
  rw [Builds, physicalForm_over, assemble_over one, hphysical, ok_bind, Builds, h.derived]
  cases p.physicalForm.assemble settings with
  | error e => simp
  | ok b => cases hl : op.leaving s <;> simp [hl]

theorem Typed.builds_filter (h : Typed p s) {e : Expr} : Builds settings (p.filter e) ↔
    Builds settings p ∧ ∃ t, e.typeOver s = .ok t ∧ (t = .boolean ∨ t = .null) := by
  rw [Plan.filter, h.builds_laid rfl, ← exists_asPredicate]
  simp only [Operator.leaving]
  cases e.asPredicate s <;> simp

theorem Typed.builds_project (h : Typed p s) {exprs : List Expr} {declared : Schema}
    (hd : declared.derive s exprs = .ok declared) :
    Builds settings (p.project exprs declared) ↔ Builds settings p := by
  rw [Plan.project, h.builds_laid rfl]
  obtain ⟨fields, hfields, -⟩ := map_eq_ok.mp hd
  have hprojection := asProjection_of_derivedFields hfields
  exact and_iff_left ⟨declared, by rw [Operator.leaving, hprojection, ok_bind, hd]⟩

theorem Typed.builds_root (h : Typed p s) : Builds settings p.root ↔ Builds settings p := by
  rw [Plan.root, h.builds_laid rfl]
  exact and_iff_left ⟨s, rfl⟩

/-- Something holds of the text of every filter with the steps before it. -/
def EveryFilter (holds : List Step → String → Prop) (steps : List Step) : Prop :=
  ∀ before text after, steps = before ++ .filter text :: after → holds before text

/-- A text is a predicate over the columns of a plan: it is BOOLEAN there, or NULL. -/
def Decides (before : Except PipelineError Plan) (text : String) : Prop :=
  ∃ q s e t, before = .ok q ∧ q.rowType = .ok s ∧ Expr.parse s text = .ok e ∧
    e.typeOver s = .ok t ∧ (t = .boolean ∨ t = .null)

variable {holds : List Step → String → Prop}

theorem everyFilter_nil : EveryFilter holds [] := fun _ _ _ h => by simp at h

theorem everyFilter_cons {step : Step} {rest : List Step} : EveryFilter holds (step :: rest) ↔
    (∀ text, step = .filter text → holds [] text) ∧
      EveryFilter (fun before => holds (step :: before)) rest := by
  constructor
  · intro h
    exact ⟨fun text hstep => h [] text rest (by rw [hstep, List.nil_append]),
      fun before text after hrest => h (step :: before) text after (by rw [hrest, List.cons_append])⟩
  · rintro ⟨hfirst, hlater⟩ before text after h
    cases before with
    | nil => exact hfirst text (List.cons.inj h).1
    | cons x before =>
      obtain ⟨rfl, hrest⟩ := List.cons.inj h
      exact hlater before text after hrest

theorem decides_root (h : Typed p s) {text : String} {e : Expr} (he : Expr.parse s text = .ok e) :
    Decides (.ok p.root) text ↔ ∃ t, e.typeOver s = .ok t ∧ (t = .boolean ∨ t = .null) := by
  constructor
  · rintro ⟨q, s', e', t, hq, hrow, hparse, htype⟩
    cases hq
    obtain rfl := Except.ok.inj (h.root.declared.symm.trans hrow)
    obtain rfl := Except.ok.inj (he.symm.trans hparse)
    exact ⟨t, htype⟩
  · rintro ⟨t, htype⟩
    exact ⟨_, s, e, t, rfl, h.root.declared, he, htype⟩

/-- A graph can be built for what follows a plan if it can for the plan and the filters decide. -/
theorem Follows.builds_iff {input plan : Plan} {steps : List Step} (h : Follows input steps plan)
    (ht : Typed input s) : Builds settings plan ↔
      Builds settings input ∧
        EveryFilter (fun before => Decides (follow input before)) steps := by
  induction h generalizing s with
  | done input =>
    rw [ht.builds_root]
    exact (and_iff_left everyFilter_nil).symm
  | root input =>
    rw [ht.builds_root, everyFilter_cons]
    exact (and_iff_left ⟨by simp, everyFilter_nil⟩).symm
  | @filter input plan text rest s' e enters reads follows ih =>
    obtain rfl := Except.ok.inj (ht.declared.symm.trans enters)
    -- the filter itself is the first condition, over the plan that would end here
    simp only [ih (ht.filter e), ht.builds_filter, everyFilter_cons, follow_filter enters reads,
      Step.filter.injEq, forall_eq', and_assoc]
    rw [follow, decides_root ht reads]
  | @project input plan items rest s' found enters reads follows ih =>
    obtain rfl := Except.ok.inj (ht.declared.symm.trans enters)
    have hd := derive_of_outputs reads
    simp only [ih (ht.project hd), ht.builds_project hd, everyFilter_cons,
      follow_project enters reads, reduceCtorEq, false_implies, implies_true, true_and]

end Compile

theorem planOf_eq_ok {steps : List Step} {plan : Plan} (h : planOf steps = .ok plan) :
    ∃ source specs rest s, steps = .scan source specs :: rest ∧ columns specs = .ok s ∧
      follow (.scan source s) rest = .ok plan := by
  cases steps with
  | nil => cases h
  | cons step rest =>
    cases step with
    | scan source specs =>
      obtain ⟨s, hs, h⟩ := bind_eq_ok.mp h
      exact ⟨source, specs, rest, s, rfl, hs, h⟩
    | filter predicate => cases h
    | project items => cases h
    | root => cases h

/-- Every pipeline with a catalog is optimized under valid settings. The columns that it declares at
each step are those that are derived for the physical node, and it is compiled if and only if every
filter decides over the columns of the steps before it. -/
theorem plans_as_declared {ν : Type} [Quantity ν] {settings : Settings ν} {p : Pipeline}
    {plan : Plan} {store : Store} (hp : p.plan = .ok plan) (hc : p.catalog = .ok store)
    (hs : settings.validate = .ok ()) :
    ∃ o, Rules.default.optimize (.ofStore settings store) plan = .ok o ∧
      List.Forall₂ (fun q r => ∃ columns, q.rowType = .ok columns ∧ r.schema = .ok columns)
        plan.nodes o.physical.nodes ∧
      ∀ id, (∃ g, compile settings id o.physical = .ok g) ↔
        EveryFilter (fun before => Decides (planOf before)) p.steps := by
  obtain ⟨source, specs, rest, s, hsteps, hcolumns, hfollow⟩ := planOf_eq_ok hp
  have hfollows := follows_of_eq_ok hfollow
  obtain ⟨leaving, ht⟩ := hfollows.typed (.scan source s)
  have hcheck := ht.chain.check_of_allIn ht.unset
  have hunset : ∀ q ∈ plan.nodes, q.convention ≠ .physical := fun q hq => by simp [ht.unset q hq]
  have hstore : store.Counted := counted_of_register (by simp [Store.Counted, Store.empty]) hc
  obtain ⟨o, ho⟩ := Rules.repeats_default.optimize_eq_ok ht.chain hs hcheck hunset
    (counts_ofStore hstore _)
  refine ⟨o, ho, ?_, fun id => ?_⟩
  · rw [Rules.optimize_default ht.chain ht.unset ho]
    exact ht.agrees
  · have hplan (before : List Step) :
        planOf (.scan source specs :: before) = follow (.scan source s) before := by
      rw [planOf, hcolumns, ok_bind]
    rw [Rules.optimize_default ht.chain ht.unset ho, exists_compile_iff id ht.chain,
      hfollows.builds_iff (.scan source s), hsteps, everyFilter_cons]
    simp [builds_scan, hplan]

def orderColumns : Schema := ⟨[⟨"amount", .int32, true⟩]⟩

/-- The orders that a filter keeps. -/
def keptOrders (text : String) : Pipeline where
  overrides := .empty
  containers := [⟨"orders", .partitionedMap, some 2, 10⟩]
  steps := [.scan "orders" [⟨"amount", "i32", true⟩], .filter text, .root]

theorem plan_keptOrders {text : String} {e : Expr} (h : Expr.parse orderColumns text = .ok e) :
    (keptOrders text).plan = .ok ((Plan.scan "orders" orderColumns).filter e).root := by
  change follow (.scan "orders" orderColumns) [.filter text, .root] = _
  rw [follow_filter rfl h]
  rfl

theorem everyFilter_keptOrders {text : String} :
    EveryFilter (fun before => Decides (planOf before)) (keptOrders text).steps ↔
      Decides (.ok (Plan.scan "orders" orderColumns).root) text := by
  simp only [keptOrders, everyFilter_cons, everyFilter_nil, reduceCtorEq, false_implies,
    implies_true, true_and, and_true, Step.filter.injEq, forall_eq']
  rfl

/-- Both plans are optimized. The one that asks for large amounts is compiled, the one that takes an
amount for a predicate is not. -/
theorem plans_as_declared_keptOrders :
    (∃ plan store o g, (keptOrders "\"amount\" > 10").plan = .ok plan ∧
      (keptOrders "\"amount\" > 10").catalog = .ok store ∧
      Rules.default.optimize (.ofStore (Settings.default : Settings Double) store) plan = .ok o ∧
      compile (Settings.default : Settings Double) 0 o.physical = .ok g) ∧
    ∃ plan store o, (keptOrders "\"amount\"").plan = .ok plan ∧
      (keptOrders "\"amount\"").catalog = .ok store ∧
      Rules.default.optimize (.ofStore (Settings.default : Settings Double) store) plan = .ok o ∧
      ¬ ∃ g, compile (Settings.default : Settings Double) 0 o.physical = .ok g := by
  have hstore (text : String) : ∃ store, (keptOrders text).catalog = .ok store := ⟨_, rfl⟩
  have hlarge : Expr.parse orderColumns "\"amount\" > 10" =
      .ok (.compare .gt (.column 0) (.literal (.int32 10))) := by cbv
  have hamount : Expr.parse orderColumns "\"amount\"" = .ok (.column 0) := by cbv
  have hsettings : (Settings.default : Settings Double).validate = .ok () := rfl
  have hscan := Typed.scan "orders" orderColumns
  constructor
  · obtain ⟨store, hstore⟩ := hstore "\"amount\" > 10"
    obtain ⟨o, ho, -, hiff⟩ := plans_as_declared (plan_keptOrders hlarge) hstore hsettings
    obtain ⟨g, hg⟩ := (hiff 0).mpr (everyFilter_keptOrders.mpr
      ((decides_root hscan hlarge).mpr ⟨.boolean, rfl, .inl rfl⟩))
    exact ⟨_, store, o, g, plan_keptOrders hlarge, hstore, ho, hg⟩
  · obtain ⟨store, hstore⟩ := hstore "\"amount\""
    obtain ⟨o, ho, -, hiff⟩ := plans_as_declared (plan_keptOrders hamount) hstore hsettings
    refine ⟨_, store, o, plan_keptOrders hamount, hstore, ho, fun hg => ?_⟩
    obtain ⟨t, ht, hbool⟩ :=
      (decides_root hscan hamount).mp (everyFilter_keptOrders.mp ((hiff 0).mp hg))
    cases ht
    rcases hbool with h | h <;> cases h

end Pipeline

end FlowPlan
