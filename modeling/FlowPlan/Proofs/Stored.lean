import FlowPlan.Graph.Builder
import FlowPlan.Proofs.Indented
import FlowPlan.Proofs.ReadBack

namespace FlowPlan

open Json

def Json.ofText? {α : Type} (read : Reader α) (text : String) : Option α := do
  read .top (← parse? text)

/-- The values with a condition are read back from both of their texts, compact and indented, unless
they are nested more deeply than a reader goes. -/
def Json.FindsAll {α : Type} (rereads : α → Prop) (write : α → Json) (read : Reader α) : Prop :=
  ∀ v, rereads v → (write v).depth ≤ Room.top.levels →
    ofText? read (write v).compact = some v ∧ ofText? read ((write v).pretty 0) = some v

/-- What is written so that it can be read is found in the texts. -/
theorem Json.findsAll {α : Type} {rereads : α → Prop} {write : α → Json} {read : Reader α}
    (hrecovers : ∀ v, rereads v → Recovers read (write v) v) (hw : ∀ v, (write v).Writable) :
    FindsAll rereads write read := by
  intro v hv hdepth
  have hfound := hrecovers v hv .top hdepth
  constructor
  · rw [ofText?, parse?_compact (hw v)]
    exact hfound
  · rw [ofText?, parse?_pretty (hw v)]
    exact hfound

theorem Json.writable_ofOption {α : Type} {write : α → Json} (h : ∀ a, (write a).Writable)
    (v : Option α) : (ofOption write v).Writable := by
  cases v with
  | none => exact writable_null
  | some a => exact h a

theorem CostOrdering.writable_toJson (o : CostOrdering) : o.toJson.Writable :=
  writable_string o.name

theorem Settings.writable_toJson (s : Settings Double) : s.toJson.Writable := by
  simp [toJson, settingNames, CostOrdering.writable_toJson, writable_ofOption]

theorem Overrides.writable_toJson (o : Overrides Double) : o.toJson.Writable := by
  simp [toJson, settingNames, CostOrdering.writable_toJson, writable_ofOption]

theorem Cost.writable_toJson (c : Cost Double) : c.toJson.Writable := by
  simp [toJson]

theorem Graph.writable_toJson (g : Graph) : g.toJson.Writable := by
  simp [toJson]

/-- Values, expressions, schemas, plans, settings, costs, the work of vertices and whole graphs are
read back from their texts, and a graph that is read back has the fingerprint of the one that was
written. -/
theorem texts_read_back :
    FindsAll Scalar.Rereads Scalar.toJson Scalar.ofJson? ∧
    FindsAll Expr.Rereads Expr.toJson Expr.ofJson? ∧
    FindsAll (fun _ => True) Schema.toJson Schema.ofJson? ∧
    FindsAll Plan.Rereads Plan.toJson Plan.ofJson? ∧
    FindsAll Settings.Rereads Settings.toJson Settings.ofJson? ∧
    FindsAll Overrides.Rereads Overrides.toJson Overrides.ofJson? ∧
    FindsAll Cost.Rereads Cost.toJson Cost.ofJson? ∧
    FindsAll Processor.Rereads Processor.toJson Processor.ofJson? ∧
    FindsAll Graph.Rereads Graph.toJson Graph.ofJson? ∧
    ∀ g : Graph, g.Rereads → g.toJson.depth ≤ Room.top.levels →
      ∀ text ∈ [g.toJson.compact, g.toJson.pretty 0], ∃ read,
        ofText? Graph.ofJson? text = some read ∧ read.fingerprintText = g.fingerprintText := by
  have hgraphs : FindsAll Graph.Rereads Graph.toJson Graph.ofJson? :=
    findsAll (fun _ => Graph.recovers_toJson) Graph.writable_toJson
  refine ⟨findsAll (fun _ => Scalar.recovers_toJson) Scalar.writable_toJson,
    findsAll (fun _ => Expr.recovers_toJson) Expr.writable_toJson,
    findsAll (fun s _ => s.recovers_toJson) Schema.writable_toJson,
    findsAll (fun _ => Plan.recovers_toJson) Plan.writable_toJson,
    findsAll (fun _ => Settings.recovers_toJson) Settings.writable_toJson,
    findsAll (fun _ => Overrides.recovers_toJson) Overrides.writable_toJson,
    findsAll (fun _ => Cost.recovers_toJson) Cost.writable_toJson,
    findsAll (fun _ => Processor.recovers_toJson) Processor.writable_toJson, hgraphs, ?_⟩
  intro g hg hdepth text htext
  obtain ⟨hcompact, hpretty⟩ := hgraphs g hg hdepth
  simp only [List.mem_cons, List.not_mem_nil, or_false] at htext
  rcases htext with rfl | rfl
  · exact ⟨g, hcompact, rfl⟩
  · exact ⟨g, hpretty, rfl⟩

/-- A tenth, which no double is exactly. -/
def tenth : Double := .ofQuotient false 1 10

theorem rereads_tenth : Double.Rereads tenth := by
  unfold Double.Rereads Binary.Rereads
  decide +kernel

/-- Work on rows whose first column is a number: those below a tenth get a name in quotes. -/
def Processor.nameSmall : Processor :=
  .calc (.and [.isNotNull (.column 0), .compare .lt (.column 0) (.literal (.float64 tenth))])
    [.literal (.text "\"small\"\n"), .arithmetic .div (.column 0) (.literal (.int64 (-2)))]

theorem Processor.rereads_nameSmall : nameSmall.Rereads := by
  simp [nameSmall, Rereads, Expr.Rereads, Expr.RereadsItems, Scalar.Rereads, rereads_tenth]

/-- The making of a graph of one source and that work. -/
def Builder.nameSmall : Builder :=
  let source := (empty.addVertex "scan(a/b)" (.scan "a/b") ⟨[⟨"x", .float64, true⟩]⟩ .partitioned
    (some 4)).2
  let both := (source.addVertex "calc" .nameSmall
    ⟨[⟨"name", .utf8, false⟩, ⟨"half", .float64, true⟩]⟩ .any none).2
  (both.addEdge 0 1 0 .allToOne).2

def Graph.nameSmall : Graph :=
  ⟨0x1f, plannerVersion,
    [⟨0, "scan(a/b)", some 4, .partitioned, ⟨[⟨"x", .float64, true⟩]⟩, .scan "a/b"⟩,
      ⟨1, "calc", none, .any, ⟨[⟨"name", .utf8, false⟩, ⟨"half", .float64, true⟩]⟩, .nameSmall⟩],
    [⟨0, 0, 1, 0, .allToOne⟩]⟩

theorem Graph.rereads_nameSmall : nameSmall.Rereads := by
  constructor
  · simp only [nameSmall, List.forall_mem_cons]
    exact ⟨⟨by decide, trivial⟩, ⟨by decide, Processor.rereads_nameSmall⟩, by simp⟩
  · simp only [nameSmall, List.forall_mem_cons]
    exact ⟨⟨by decide, by decide, by decide, by decide⟩, by simp⟩

/-- The orders of which an expression holds. -/
def Plan.ordersWhere (predicate : Expr) : Plan :=
  .node .undecided (.filter predicate) [.node .undecided (.scan "orders" ⟨[]⟩) []]

theorem Plan.rereads_ordersWhere {predicate : Expr} (h : predicate.Rereads) :
    (ordersWhere predicate).Rereads := by
  simp [ordersWhere, Rereads, nodes, nodesOf, op, Operator.Rereads, h]

/-- The graph that was built is found in both texts, with its fingerprint, and so are its work, a
plan, a tenth, and settings and a cost of tenths in theirs. -/
theorem texts_read_back_nameSmall :
    Builder.nameSmall.build 0x1f = .ok .nameSmall ∧
    ofText? Graph.ofJson? Graph.nameSmall.toJson.compact = some .nameSmall ∧
    ofText? Graph.ofJson? (Graph.nameSmall.toJson.pretty 0) = some .nameSmall ∧
    (∃ read, ofText? Graph.ofJson? (Graph.nameSmall.toJson.pretty 0) = some read ∧
      read.fingerprintText = Graph.nameSmall.fingerprintText) ∧
    ofText? Processor.ofJson? Processor.nameSmall.toJson.compact = some .nameSmall ∧
    ofText? Plan.ofJson? (Plan.ordersWhere (.not (.column 3))).toJson.compact =
      some (.ordersWhere (.not (.column 3))) ∧
    ofText? Expr.ofJson? (Expr.not (.column 3)).toJson.compact = some (.not (.column 3)) ∧
    ofText? Scalar.ofJson? (Scalar.float64 tenth).toJson.compact = some (.float64 tenth) ∧
    ofText? Settings.ofJson? (⟨.total, tenth, tenth, tenth, true, some 4, 0⟩ :
      Settings Double).toJson.compact = some ⟨.total, tenth, tenth, tenth, true, some 4, 0⟩ ∧
    ofText? Overrides.ofJson? (⟨none, some tenth, none, none, some false, none, some 7⟩ :
      Overrides Double).toJson.compact =
        some ⟨none, some tenth, none, none, some false, none, some 7⟩ ∧
    ofText? Cost.ofJson? (⟨tenth, tenth, tenth⟩ : Cost Double).toJson.compact =
      some ⟨tenth, tenth, tenth⟩ := by
  obtain ⟨hscalar, hexpr, -, hplan, hsettings, hoverrides, hcost, hprocessor, hgraph, hsame⟩ :=
    texts_read_back
  have hnot : (Expr.not (.column 3)).Rereads := by simp [Expr.Rereads]
  have hdepth : Graph.nameSmall.toJson.depth ≤ Room.top.levels := by decide +kernel
  obtain ⟨hcompact, hpretty⟩ := hgraph _ Graph.rereads_nameSmall hdepth
  refine ⟨rfl, hcompact, hpretty, hsame _ Graph.rereads_nameSmall hdepth _ (by simp),
    (hprocessor _ Processor.rereads_nameSmall (by decide +kernel)).1,
    (hplan _ (Plan.rereads_ordersWhere hnot) (by decide +kernel)).1,
    (hexpr _ hnot (by decide +kernel)).1,
    (hscalar (.float64 tenth) rereads_tenth (by decide +kernel)).1,
    (hsettings _ ⟨rereads_tenth, rereads_tenth, rereads_tenth⟩ (by decide +kernel)).1,
    (hoverrides _ ⟨?_, by simp, by simp⟩ (by decide +kernel)).1,
    (hcost _ ⟨rereads_tenth, rereads_tenth, rereads_tenth⟩ (by decide +kernel)).1⟩
  rintro x ⟨⟩
  exact rereads_tenth

end FlowPlan
