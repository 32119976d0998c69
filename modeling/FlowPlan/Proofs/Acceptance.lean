import FlowPlan.Proofs.Pipelines

namespace FlowPlan

open Outcome

/-- Operators over a plan, the first of them lowest. -/
def Plan.stack (input : Plan) (ops : List Operator) : Plan :=
  ops.foldl (fun below op => .node .undecided op [below]) input

namespace Pipeline

variable {s t u entering leaving : Schema} {i : Nat} {given : Option String} {e : Expr}
  {name item : String} {items : List String} {step : Step} {steps middle before after : List Step}
  {op : Operator} {ops : List Operator} {specs : List ColumnSpec} {plan input : Plan}

/-- The columns of a source. -/
def Declares (specs : List ColumnSpec) (s : Schema) : Prop :=
  List.Forall₂ (fun c f => ∃ type, DataType.ofPipelineName? c.type = some type ∧
    f = ⟨c.name, type, c.nullable⟩) specs s.fields

/-- The name of an output column at position `i`, which may have been given one. -/
inductive Named (s : Schema) (i : Nat) : Option String → Expr → String → Prop where
  | chosen (name : String) (e : Expr) : Named s i (some name) e name
  | copied {c : Nat} {f : Field} (found : s.field? c = some f) : Named s i none (.column c) f.name
  | numbered {e : Expr} (computed : ∀ c, e ≠ .column c) : Named s i none e s!"EXPR${i}"

/-- The expression and the output column that an item at position `i` is written for. -/
inductive Item (s : Schema) (i : Nat) (item : String) : Expr × Field → Prop where
  | mk {e : Expr} {given : Option String} {type : DataType} {name : String}
      (reads : Expr.parseItem s item = .ok (e, given)) (typed : e.typeOver s = .ok type)
      (named : Named s i given e name) : Item s i item (e, ⟨name, type, e.nullableOver s⟩)

/-- The expressions and output columns of items from position `i` on. -/
inductive Items (s : Schema) : Nat → List String → List (Expr × Field) → Prop where
  | nil (i : Nat) : Items s i [] []
  | cons {i : Nat} {item : String} {rest : List String} {first : Expr × Field}
      {more : List (Expr × Field)} (reads : Item s i item first) (later : Items s (i + 1) rest more) :
      Items s i (item :: rest) (first :: more)

/-- The operator of a step over the columns that enter it, and the columns that leave. -/
inductive Lays (s : Schema) : Step → Operator → Schema → Prop where
  | filter {text : String} {e : Expr} (reads : Expr.parse s text = .ok e) :
      Lays s (.filter text) (.filter e) s
  | project {items : List String} {found : List (Expr × Field)} (reads : Items s 0 items found) :
      Lays s (.project items) (.project (found.map Prod.fst) ⟨found.map Prod.snd⟩)
        ⟨found.map Prod.snd⟩

/-- The operators of some steps, each over the columns that leave the one before. -/
inductive Stacks : Schema → List Step → List Operator → Schema → Prop where
  | nil (s : Schema) : Stacks s [] [] s
  | cons {s t u : Schema} {step : Step} {op : Operator} {rest : List Step} {ops : List Operator}
      (lays : Lays s step op t) (later : Stacks t rest ops u) :
      Stacks s (step :: rest) (op :: ops) u

/-- The columns that a scan and the steps after it leave. -/
def Arrives (before : List Step) (leaving : Schema) : Prop :=
  ∃ source specs middle s ops, before = .scan source specs :: middle ∧ Declares specs s ∧
    Stacks s middle ops leaving

/-- The plan of some steps: a scan, the operators of the steps between, and a root. -/
def Lists (steps : List Step) (plan : Plan) (leaving : Schema) : Prop :=
  ∃ source specs s middle ending ops, steps = .scan source specs :: (middle ++ ending) ∧
    (ending = [] ∨ ending = [.root]) ∧ Declares specs s ∧ Stacks s middle ops leaving ∧
    plan = ((Plan.scan source s).stack ops).root

theorem columns_eq_ok : columns specs = .ok s ↔ Declares specs s := by
  have hcolumn (c : ColumnSpec) (f : Field) : column c = .ok f ↔
      ∃ type, DataType.ofPipelineName? c.type = some type ∧ f = ⟨c.name, type, c.nullable⟩ := by
    rw [column]
    cases DataType.ofPipelineName? c.type <;> simp [eq_comm]
  simp only [columns, map_eq_ok, mapM_eq_ok, Declares, hcolumn]
  constructor
  · rintro ⟨fields, h, rfl⟩
    exact h
  · intro h
    exact ⟨s.fields, h, rfl⟩

/-- An expression that has a type copies a column that there is, if it copies one. -/
theorem named_iff {type : DataType} (h : e.typeOver s = .ok type) :
    Named s i given e name ↔ outputName s i given e = name := by
  constructor
  · intro hn
    cases hn with
    | chosen name e => rfl
    | copied found => simp [outputName, found]
    | numbered computed =>
      cases e with
      | column c => exact absurd rfl (computed c)
      | _ => rfl
  · rintro rfl
    cases given with
    | some name => exact .chosen name e
    | none =>
      cases e with
      | column c =>
        rw [Expr.typeOver] at h
        cases hf : s.field? c with
        | none =>
          rw [hf] at h
          cases h
        | some f =>
          simp only [outputName, hf, Option.map_some, Option.getD_some]
          exact .copied hf
      | _ => exact .numbered fun c hc => by cases hc

theorem output_eq_ok {found : Expr × Field} :
    output s i item = .ok found ↔ Item s i item found := by
  constructor
  · intro h
    obtain ⟨⟨e, given⟩, hreads, h⟩ := bind_eq_ok.mp h
    obtain ⟨f, hf, h⟩ := bind_eq_ok.mp h
    obtain ⟨type, htype, hf⟩ := bind_eq_ok.mp (mapError_eq_ok.mp hf)
    cases h
    cases hf
    have htyped := mapError_eq_ok.mp htype
    exact .mk (mapError_eq_ok.mp hreads) htyped ((named_iff htyped).mpr rfl)
  · intro h
    cases h with
    | mk reads typed named =>
      simp only [output, reads, mapError_ok, ok_bind, Schema.derivedField, typed,
        (named_iff typed).mp named, pure_eq_ok]

theorem outputs_eq_ok {found : List (Expr × Field)} :
    outputs s i items = .ok found ↔ Items s i items found := by
  induction items generalizing i found with
  | nil =>
    constructor
    · intro h
      cases h
      exact .nil i
    · intro h
      cases h
      rfl
  | cons item rest ih =>
    constructor
    · intro h
      obtain ⟨first, hfirst, h⟩ := bind_eq_ok.mp h
      obtain ⟨more, hmore, h⟩ := bind_eq_ok.mp h
      cases h
      exact .cons (output_eq_ok.mp hfirst) (ih.mp hmore)
    · intro h
      cases h with
      | cons reads later =>
        rw [outputs, output_eq_ok.mpr reads, ok_bind, ih.mpr later]
        rfl

/-- Items that are read and typed have their columns, at whatever position. -/
theorem exists_items (h : ∀ item ∈ items, ∃ e given type,
    Expr.parseItem s item = .ok (e, given) ∧ e.typeOver s = .ok type) (i : Nat) :
    ∃ found, Items s i items found := by
  induction items generalizing i with
  | nil => exact ⟨[], .nil i⟩
  | cons item rest ih =>
    obtain ⟨⟨e, given, type, hreads, htyped⟩, hrest⟩ := List.forall_mem_cons.mp h
    obtain ⟨more, hmore⟩ := ih hrest (i + 1)
    exact ⟨_, .cons (.mk hreads htyped ((named_iff htyped).mpr rfl)) hmore⟩

theorem Items.readable {found : List (Expr × Field)} (h : Items s i items found) :
    ∀ item ∈ items, ∃ e given type,
      Expr.parseItem s item = .ok (e, given) ∧ e.typeOver s = .ok type := by
  induction h with
  | nil i => simp
  | cons reads later ih =>
    refine List.forall_mem_cons.mpr ⟨?_, ih⟩
    cases reads with
    | mk reads typed named => exact ⟨_, _, _, reads, typed⟩

theorem Lays.unique (h : Lays s step op t) {op' : Operator} {t' : Schema}
    (h' : Lays s step op' t') : t = t' := by
  cases h with
  | filter reads =>
    cases h'
    rfl
  | project reads =>
    cases h' with
    | project reads' =>
      obtain rfl := Except.ok.inj ((outputs_eq_ok.mpr reads).symm.trans (outputs_eq_ok.mpr reads'))
      rfl

theorem Stacks.unique (h : Stacks s steps ops t) {ops' : List Operator} {t' : Schema}
    (h' : Stacks s steps ops' t') : t = t' := by
  induction h generalizing ops' with
  | nil s =>
    cases h'
    rfl
  | cons lays later ih =>
    cases h' with
    | cons lays' later' =>
      obtain rfl := lays.unique lays'
      exact ih later'

theorem Stacks.concat (h : Stacks s steps ops t) (next : Lays t step op u) :
    Stacks s (steps ++ [step]) (ops ++ [op]) u := by
  induction h with
  | nil s => exact .cons next (.nil u)
  | cons lays later ih => exact .cons lays (ih next)

/-- Every step of a stack is laid over what those before it leave. -/
theorem Stacks.split (h : Stacks s (before ++ step :: after) ops u) :
    ∃ ops' reached op leaving, Stacks s before ops' reached ∧ Lays reached step op leaving := by
  induction before generalizing s ops with
  | nil =>
    cases h with
    | cons lays later => exact ⟨[], s, _, _, .nil s, lays⟩
  | cons first rest ih =>
    cases h with
    | cons lays later =>
      obtain ⟨ops', reached, op, leaving, hbefore, hstep⟩ := ih later
      exact ⟨_, reached, op, leaving, .cons lays hbefore, hstep⟩

theorem Arrives.unique (h : Arrives before s) (h' : Arrives before t) : s = t := by
  obtain ⟨source, specs, middle, entering, ops, rfl, hspecs, hstacks⟩ := h
  obtain ⟨source', specs', middle', entering', ops', heq, hspecs', hstacks'⟩ := h'
  cases heq
  obtain rfl := Except.ok.inj ((columns_eq_ok.mpr hspecs).symm.trans (columns_eq_ok.mpr hspecs'))
  exact hstacks.unique hstacks'

theorem rowType_over (hs : input.rowType = .ok s) (h : Lays s step op t) :
    (Plan.node .undecided op [input]).rowType = .ok t := by
  cases h with
  | filter reads => rw [Plan.rowType, hs]
  | project reads => rw [Plan.rowType]

theorem rowType_stack (hs : input.rowType = .ok s) (h : Stacks s steps ops t) :
    (input.stack ops).rowType = .ok t := by
  induction h generalizing input with
  | nil s => exact hs
  | cons lays later ih => exact ih (rowType_over hs lays)

theorem Lays.follow_cons (h : Lays s step op t) (hs : input.rowType = .ok s) (rest : List Step) :
    follow input (step :: rest) = follow (.node .undecided op [input]) rest := by
  cases h with
  | filter reads => exact follow_filter hs reads
  | project reads => exact follow_project hs (outputs_eq_ok.mpr reads)

/-- The steps after a scan are followed to the end if each has its operator, and a root comes last if
one comes at all. -/
theorem follow_eq_ok (hs : input.rowType = .ok s) : follow input steps = .ok plan ↔
    ∃ middle ending ops t, steps = middle ++ ending ∧ (ending = [] ∨ ending = [.root]) ∧
      Stacks s middle ops t ∧ plan = (input.stack ops).root := by
  constructor
  · intro h
    induction follows_of_eq_ok h generalizing s with
    | done input => exact ⟨[], [], [], s, rfl, .inl rfl, .nil s, rfl⟩
    | root input => exact ⟨[], [.root], [], s, rfl, .inr rfl, .nil s, rfl⟩
    | @filter input plan text rest s' e enters reads follows ih =>
      obtain rfl := Except.ok.inj (hs.symm.trans enters)
      have hlays : Lays s (.filter text) (.filter e) s := .filter reads
      rw [hlays.follow_cons hs] at h
      obtain ⟨middle, ending, ops, t, rfl, hending, hstacks, rfl⟩ := ih (rowType_over hs hlays) h
      exact ⟨_ :: middle, ending, _ :: ops, t, rfl, hending, .cons hlays hstacks, rfl⟩
    | @project input plan items rest s' found enters reads follows ih =>
      obtain rfl := Except.ok.inj (hs.symm.trans enters)
      have hlays := Lays.project (outputs_eq_ok.mp reads)
      rw [hlays.follow_cons hs] at h
      obtain ⟨middle, ending, ops, t, rfl, hending, hstacks, rfl⟩ := ih (rowType_over hs hlays) h
      exact ⟨_ :: middle, ending, _ :: ops, t, rfl, hending, .cons hlays hstacks, rfl⟩
  · rintro ⟨middle, ending, ops, t, rfl, hending, hstacks, rfl⟩
    induction hstacks generalizing input with
    | nil s => rcases hending with rfl | rfl <;> rfl
    | cons lays later ih =>
      rw [List.cons_append, lays.follow_cons hs]
      exact ih (rowType_over hs lays)

theorem planOf_eq_ok_iff : planOf steps = .ok plan ↔ ∃ t, Lists steps plan t := by
  constructor
  · intro h
    obtain ⟨source, specs, rest, s, rfl, hs, h⟩ := planOf_eq_ok h
    obtain ⟨middle, ending, ops, t, rfl, hending, hstacks, rfl⟩ :=
      (follow_eq_ok (by rw [Plan.scan, Plan.rowType])).mp h
    exact ⟨t, source, specs, s, middle, ending, ops, rfl, hending, columns_eq_ok.mp hs, hstacks, rfl⟩
  · rintro ⟨t, source, specs, s, middle, ending, ops, rfl, hending, hs, hstacks, rfl⟩
    rw [planOf, columns_eq_ok.mpr hs, ok_bind]
    exact (follow_eq_ok (by rw [Plan.scan, Plan.rowType])).mpr
      ⟨middle, ending, ops, t, rfl, hending, hstacks, rfl⟩

/-- What is asked of the steps of a pipeline: each text is read over the columns that the steps before
it leave. -/
structure Acceptable (steps : List Step) : Prop where
  begins : ∃ source specs rest, steps = .scan source specs :: rest ∧
    ∀ c ∈ specs, ∃ type, DataType.ofPipelineName? c.type = some type
  scans : ∀ before source specs after, steps = before ++ .scan source specs :: after → before = []
  roots : ∀ before after, steps = before ++ .root :: after → after = []
  filters : ∀ before text after, steps = before ++ .filter text :: after →
    ∃ s e, Arrives before s ∧ Expr.parse s text = .ok e
  projections : ∀ before items after, steps = before ++ .project items :: after →
    ∃ s, Arrives before s ∧ ∀ item ∈ items, ∃ e given type,
      Expr.parseItem s item = .ok (e, given) ∧ e.typeOver s = .ok type

theorem exists_declares : (∃ s, Declares specs s) ↔
    ∀ c ∈ specs, ∃ type, DataType.ofPipelineName? c.type = some type := by
  constructor
  · rintro ⟨s, h⟩
    rw [Declares] at h
    generalize s.fields = fields at h
    induction h with
    | nil => simp
    | cons hfirst hlater ih =>
      obtain ⟨type, htype, -⟩ := hfirst
      exact List.forall_mem_cons.mpr ⟨⟨type, htype⟩, ih⟩
  · intro h
    induction specs with
    | nil => exact ⟨⟨[]⟩, .nil⟩
    | cons c rest ih =>
      obtain ⟨⟨type, htype⟩, hrest⟩ := List.forall_mem_cons.mp h
      obtain ⟨s, hs⟩ := ih hrest
      exact ⟨⟨⟨c.name, type, c.nullable⟩ :: s.fields⟩, .cons ⟨type, htype, rfl⟩ hs⟩

/-- A step is the scan, a root at the end, or has an operator over what the steps before it leave. -/
theorem Lists.split (h : Lists steps plan leaving) (hsteps : steps = before ++ step :: after) :
    (before = [] ∧ ∃ source specs, step = .scan source specs) ∨ (step = .root ∧ after = []) ∨
      ∃ s op t, Arrives before s ∧ Lays s step op t := by
  obtain ⟨source, specs, s, middle, ending, ops, rfl, hending, hspecs, hstacks, rfl⟩ := h
  cases before with
  | nil =>
    cases hsteps
    exact .inl ⟨rfl, source, specs, rfl⟩
  | cons first rest =>
    obtain ⟨rfl, hrest⟩ := List.cons.inj hsteps
    have hclosing (h : ending = step :: after) : step = .root ∧ after = [] := by
      rcases hending with rfl | rfl <;> cases h
      exact ⟨rfl, rfl⟩
    rcases List.append_eq_append_iff.mp hrest with ⟨more, -, hend⟩ | ⟨more, hmiddle, hend⟩
    · cases more with
      | nil => exact .inr (.inl (hclosing hend))
      | cons x more => rcases hending with rfl | rfl <;> simp at hend
    · cases more with
      | nil => exact .inr (.inl (hclosing hend.symm))
      | cons x more =>
        obtain ⟨rfl, -⟩ := List.cons.inj hend
        obtain ⟨ops', reached, op, leaving, hbefore, hstep⟩ := Stacks.split (hmiddle ▸ hstacks)
        exact .inr (.inr ⟨reached, op, leaving,
          ⟨source, specs, rest, s, ops', rfl, hspecs, hbefore⟩, hstep⟩)

theorem Lists.acceptable (h : Lists steps plan leaving) : Acceptable steps where
  begins := by
    obtain ⟨source, specs, s, middle, ending, ops, rfl, -, hspecs, -, -⟩ := h
    exact ⟨source, specs, _, rfl, exists_declares.mp ⟨s, hspecs⟩⟩
  scans := by
    intro before source specs after hsteps
    obtain ⟨hbefore, -⟩ | ⟨hroot, -⟩ | ⟨s, op, t, -, hlays⟩ := h.split hsteps
    · exact hbefore
    · cases hroot
    · cases hlays
  roots := by
    intro before after hsteps
    obtain ⟨-, source, specs, hscan⟩ | ⟨-, hafter⟩ | ⟨s, op, t, -, hlays⟩ := h.split hsteps
    · cases hscan
    · exact hafter
    · cases hlays
  filters := by
    intro before text after hsteps
    obtain ⟨-, source, specs, hscan⟩ | ⟨hroot, -⟩ | ⟨s, op, t, harrives, hlays⟩ := h.split hsteps
    · cases hscan
    · cases hroot
    · cases hlays with
      | filter reads => exact ⟨s, _, harrives, reads⟩
  projections := by
    intro before items after hsteps
    obtain ⟨-, source, specs, hscan⟩ | ⟨hroot, -⟩ | ⟨s, op, t, harrives, hlays⟩ := h.split hsteps
    · cases hscan
    · cases hroot
    · cases hlays with
      | project reads => exact ⟨s, harrives, reads.readable⟩

/-- The steps after some that are stacked can be stacked on them. -/
theorem Acceptable.exists_stacks {source : String}
    (h : Acceptable (.scan source specs :: (before ++ after))) (hs : Declares specs s)
    (hbefore : Stacks s before ops t) :
    ∃ middle ending ops' u, after = middle ++ ending ∧ (ending = [] ∨ ending = [.root]) ∧
      Stacks t middle ops' u := by
  -- on the steps that are left, with those that are stacked as a growing front
  induction after generalizing before ops t with
  | nil => exact ⟨[], [], [], t, rfl, .inl rfl, .nil t⟩
  | cons step rest ih =>
    have harrives : Arrives (.scan source specs :: before) t :=
      ⟨source, specs, before, s, ops, rfl, hs, hbefore⟩
    have hnext {op : Operator} {u : Schema} (hlays : Lays t step op u) :
        ∃ middle ending ops' u, step :: rest = middle ++ ending ∧
          (ending = [] ∨ ending = [.root]) ∧ Stacks t middle ops' u := by
      have hfront : before ++ step :: rest = (before ++ [step]) ++ rest := by simp
      obtain ⟨middle, ending, ops', u, rfl, hending, hstacks⟩ :=
        ih (hfront ▸ h) (hbefore.concat hlays)
      exact ⟨step :: middle, ending, _, u, rfl, hending, .cons hlays hstacks⟩
    cases step with
    | scan source' specs' => cases h.scans (.scan source specs :: before) source' specs' rest rfl
    | root =>
      obtain rfl := h.roots (.scan source specs :: before) rest rfl
      exact ⟨[], [.root], [], t, rfl, .inr rfl, .nil t⟩
    | filter text =>
      obtain ⟨s', e, hs', he⟩ := h.filters (.scan source specs :: before) text rest rfl
      obtain rfl := harrives.unique hs'
      exact hnext (.filter he)
    | project items =>
      obtain ⟨s', hs', hitems⟩ := h.projections (.scan source specs :: before) items rest rfl
      obtain rfl := harrives.unique hs'
      obtain ⟨found, hfound⟩ := exists_items hitems 0
      exact hnext (.project hfound)

theorem exists_lists_iff : (∃ plan t, Lists steps plan t) ↔ Acceptable steps := by
  constructor
  · rintro ⟨plan, t, h⟩
    exact h.acceptable
  · intro h
    obtain ⟨source, specs, rest, rfl, hspecs⟩ := h.begins
    obtain ⟨s, hs⟩ := exists_declares.mpr hspecs
    have hfront : Acceptable (.scan source specs :: ([] ++ rest)) := h
    obtain ⟨middle, ending, ops, t, rfl, hending, hstacks⟩ := hfront.exists_stacks hs (.nil s)
    exact ⟨_, t, source, specs, s, middle, ending, ops, rfl, hending, hs, hstacks, rfl⟩

/-- A stack over a plan has its operators above those of the plan, the last on top. -/
theorem nodes_stack : (input.stack ops).nodes.map (fun q => (q.traits, q.op)) =
    ops.reverse.map (Traits.undecided, ·) ++ input.nodes.map fun q => (q.traits, q.op) := by
  induction ops generalizing input with
  | nil => rfl
  | cons op rest ih =>
    have hnext : input.stack (op :: rest) = (Plan.node .undecided op [input]).stack rest := rfl
    rw [hnext, ih, Plan.nodes_over]
    simp [Plan.traits, Plan.op]

theorem Stacks.kind (h : Stacks s steps ops t) :
    ∀ op ∈ ops, op.kind = .filter ∨ op.kind = .project := by
  induction h with
  | nil s => simp
  | cons lays later ih =>
    refine List.forall_mem_cons.mpr ⟨?_, ih⟩
    cases lays with
    | filter reads => exact .inl rfl
    | project reads => exact .inr rfl

theorem Lists.rowType (h : Lists steps plan leaving) : plan.rowType = .ok leaving := by
  obtain ⟨source, specs, s, middle, ending, ops, -, -, -, hstacks, rfl⟩ := h
  have hscan : (Plan.scan source s).rowType = .ok s := by rw [Plan.scan, Plan.rowType]
  rw [Plan.root, Plan.rowType, rowType_stack hscan hstacks]

/-- What steps leave are the columns of the rows of their plan. -/
theorem Arrives.exists_plan (h : Arrives before s) :
    ∃ input, planOf before = .ok input ∧ input.rowType = .ok s := by
  obtain ⟨source, specs, middle, entering, ops, rfl, hspecs, hstacks⟩ := h
  have hlists : Lists (.scan source specs :: middle) _ s :=
    ⟨source, specs, entering, middle, [], ops, by simp, .inl rfl, hspecs, hstacks, rfl⟩
  exact ⟨_, planOf_eq_ok_iff.mpr ⟨s, hlists⟩, hlists.rowType⟩

/-- The steps of a pipeline are planned exactly if they are acceptable, each over the columns of the
plan of those before. The plan has one scan, which is lowest, and one root, which is on top; between
them stand the operators of the other steps, in the order of the steps. Nothing is decided about any
node, and the rows have the columns that the last step leaves. -/
theorem planned_as_written (p : Pipeline) :
    ((∃ plan, p.plan = .ok plan) ↔ Acceptable p.steps) ∧
    (∀ before s, Arrives before s → ∃ input, planOf before = .ok input ∧ input.rowType = .ok s) ∧
    ∀ plan, p.plan = .ok plan → ∃ source specs s middle ending ops leaving,
      p.steps = .scan source specs :: (middle ++ ending) ∧ (ending = [] ∨ ending = [.root]) ∧
      Declares specs s ∧ Stacks s middle ops leaving ∧
      plan = ((Plan.scan source s).stack ops).root ∧
      plan.nodes.map (fun q => (q.traits, q.op)) =
        (.root :: (ops.reverse ++ [.scan source s])).map (Traits.undecided, ·) ∧
      (∀ op ∈ ops, op.kind = .filter ∨ op.kind = .project) ∧ plan.rowType = .ok leaving := by
  refine ⟨?_, fun before s h => h.exists_plan, ?_⟩
  · simp only [← exists_lists_iff, plan, planOf_eq_ok_iff]
  · intro plan h
    obtain ⟨t, hlists⟩ := planOf_eq_ok_iff.mp h
    have hrow := hlists.rowType
    obtain ⟨source, specs, s, middle, ending, ops, hsteps, hending, hspecs, hstacks, rfl⟩ := hlists
    refine ⟨source, specs, s, middle, ending, ops, t, hsteps, hending, hspecs, hstacks, rfl, ?_,
      hstacks.kind, hrow⟩
    rw [Plan.root, Plan.nodes_over, List.map_cons, nodes_stack, Plan.scan, Plan.nodes_scan]
    simp [Plan.traits, Plan.op]

/-- Orders under a name that is given, one that is copied and one that is made. -/
def namedOrders : Pipeline where
  overrides := .empty
  containers := []
  steps := [.scan "orders" [⟨"amount", "i32", true⟩], .filter "\"amount\" > 10",
    .project ["\"amount\" AS \"paid\"", "\"amount\"", "7"]]

theorem planned_as_written_namedOrders : ∃ plan leaving, namedOrders.plan = .ok plan ∧
    Acceptable namedOrders.steps ∧ plan.nodes.map Plan.kind = [.root, .project, .filter, .scan] ∧
    plan.rowType = .ok leaving ∧ leaving.fields.map Field.name = ["paid", "amount", "EXPR$2"] := by
  have hlarge : Expr.parse orderColumns "\"amount\" > 10" =
      .ok (.compare .gt (.column 0) (.literal (.int32 10))) := by cbv
  have hitems : outputs orderColumns 0 ["\"amount\" AS \"paid\"", "\"amount\"", "7"] =
      .ok [(.column 0, ⟨"paid", .int32, true⟩), (.column 0, ⟨"amount", .int32, true⟩),
        (.literal (.int32 7), ⟨"EXPR$2", .int32, false⟩)] := by cbv
  have hplan : ∃ plan, namedOrders.plan = .ok plan ∧
      plan.nodes.map Plan.kind = [.root, .project, .filter, .scan] ∧
      plan.rowType =
        .ok ⟨[⟨"paid", .int32, true⟩, ⟨"amount", .int32, true⟩, ⟨"EXPR$2", .int32, false⟩]⟩ := by
    change ∃ plan, follow (.scan "orders" orderColumns) [.filter _, .project _] = .ok plan ∧ _
    rw [follow_filter rfl hlarge, follow_project rfl hitems]
    exact ⟨_, rfl, rfl, by simp [Plan.project, Plan.root, Plan.rowType]⟩
  obtain ⟨plan, hplan, hkinds, hrow⟩ := hplan
  obtain ⟨source, specs, s, middle, ending, ops, leaving, -, -, -, -, -, -, -, hleaving⟩ :=
    (planned_as_written namedOrders).2.2 plan hplan
  obtain rfl := Except.ok.inj (hleaving.symm.trans hrow)
  exact ⟨plan, _, hplan, (planned_as_written namedOrders).1.mp ⟨plan, hplan⟩, hkinds, hleaving, rfl⟩

end Pipeline

end FlowPlan
