import FlowPlan.Graph.Compile
import FlowPlan.Plan.Defaults
import FlowPlan.Plan.Optimize
import FlowPlan.Proofs.Encoding
import FlowPlan.Proofs.Outcome

namespace FlowPlan

open Outcome

theorem version_of_compile {ν : Type} {settings : Settings ν} {id : GraphId} {p : Plan} {g : Graph}
    (h : compile settings id p = .ok g) : g.version = plannerVersion := by
  obtain ⟨_, -, h⟩ := bind_eq_ok.mp h
  obtain ⟨_, -, h⟩ := bind_eq_ok.mp h
  rw [mapError_eq_ok, Builder.build, bind_eq_ok] at h
  obtain ⟨_, -, h⟩ := h
  obtain rfl := Except.ok.inj h
  rfl

namespace Rules

/-- The digest of a candidate is noted for the candidates after it. -/
theorem noted_of_candidate {ν : Type} {seen : List Digest} {c : Candidate ν} {more : List (Candidate ν)}
    {digest : Digest} (h : digest ∈ seen ++ [c.plan.digest] ∨ ∃ d ∈ more, d.plan.digest = digest) :
    digest ∈ seen ∨ ∃ d ∈ c :: more, d.plan.digest = digest := by
  rcases h with h | ⟨d, hd, h⟩
  · rcases List.mem_append.mp h with h | h
    · exact .inl h
    · exact .inr ⟨c, List.mem_cons_self, (List.mem_singleton.mp h).symm⟩
  · exact .inr ⟨d, List.mem_cons_of_mem c hd, h⟩

variable {ν : Type} [Quantity ν] {rs : Rules} {m : Estimates ν} {p q : Plan}

/-- What some rule of a list makes of a node. -/
def Makes (rs : Rules) (rules : List Rule) (p q : Plan) : Prop := ∃ r ∈ rules, rs.apply r p = .ok q

/-- A rule adds its result to what the others give, unless that was seen. -/
theorem candidates_cons_eq_ok {r : Rule} {rest : List Rule} {seen : List Digest}
    {found : List (Candidate ν)} : rs.candidates m p seen (r :: rest) = .ok found ↔
      ∃ q, rs.apply r p = .ok q ∧
        (q.digest ∈ seen ∧ rs.candidates m p seen rest = .ok found ∨
          q.digest ∉ seen ∧ ∃ cost more, m.cost q = .ok cost ∧
            rs.candidates m p (seen ++ [q.digest]) rest = .ok more ∧ ⟨q, cost⟩ :: more = found) := by
  rw [candidates, bind_eq_ok]
  refine exists_congr fun q => and_congr_right fun _ => ?_
  by_cases hseen : q.digest ∈ seen
  · rw [if_pos (List.contains_iff_mem.mpr hseen)]
    simp [hseen]
  · rw [if_neg (mt List.contains_iff_mem.mp hseen)]
    simp [hseen, bind_eq_ok]

/-- A result that is left out has the digest of one that was seen or kept, and what is kept was
made by a rule. -/
theorem candidates_keep {rules : List Rule} {seen : List Digest} {found : List (Candidate ν)}
    (h : rs.candidates m p seen rules = .ok found) :
    (∀ r ∈ rules, ∃ q, rs.apply r p = .ok q ∧
      (q.digest ∈ seen ∨ ∃ c ∈ found, c.plan.digest = q.digest)) ∧
    ∀ c ∈ found, rs.Makes rules p c.plan := by
  induction rules generalizing seen found with
  | nil =>
    rw [candidates] at h
    obtain rfl := Except.ok.inj h
    simp
  | cons r rest ih =>
    obtain ⟨q, hq, ⟨hseen, h⟩ | ⟨-, cost, more, -, hmore, rfl⟩⟩ := candidates_cons_eq_ok.mp h
    · obtain ⟨hkept, hmade⟩ := ih h
      refine ⟨List.forall_mem_cons.mpr ⟨⟨q, hq, .inl hseen⟩, hkept⟩, fun c hc => ?_⟩
      obtain ⟨s, hs, hc⟩ := hmade c hc
      exact ⟨s, List.mem_cons_of_mem r hs, hc⟩
    · obtain ⟨hkept, hmade⟩ := ih hmore
      refine ⟨List.forall_mem_cons.mpr ⟨⟨q, hq, .inr ⟨_, List.mem_cons_self, rfl⟩⟩, fun s hs => ?_⟩,
        List.forall_mem_cons.mpr ⟨⟨r, List.mem_cons_self, hq⟩, fun c hc => ?_⟩⟩
      · obtain ⟨q', hq', hdigest⟩ := hkept s hs
        exact ⟨q', hq', noted_of_candidate hdigest⟩
      · obtain ⟨s, hs, hc⟩ := hmade c hc
        exact ⟨s, List.mem_cons_of_mem r hs, hc⟩

theorem candidates_seen {r : Rule} {rest : List Rule} {seen : List Digest}
    (hr : rs.apply r p = .ok q) (hseen : q.digest ∈ seen) :
    rs.candidates m p seen (r :: rest) = rs.candidates m p seen rest := by
  rw [candidates, hr, ok_bind, if_pos (List.contains_iff_mem.mpr hseen)]

theorem candidates_new {r : Rule} {rest : List Rule} {seen : List Digest} {cost : Cost ν}
    {more : List (Candidate ν)} (hr : rs.apply r p = .ok q) (hnew : q.digest ∉ seen)
    (hc : m.cost q = .ok cost) (hmore : rs.candidates m p (seen ++ [q.digest]) rest = .ok more) :
    rs.candidates m p seen (r :: rest) = .ok (⟨q, cost⟩ :: more) :=
  candidates_cons_eq_ok.mpr ⟨q, hr, .inr ⟨hnew, cost, more, hc, hmore, rfl⟩⟩

/-- A rule that is given twice keeps its result once. -/
theorem candidates_twice {r : Rule} {cost : Cost ν} (hr : rs.apply r p = .ok q)
    (hc : m.cost q = .ok cost) : rs.candidates m p [] [r, r] = .ok [⟨q, cost⟩] := by
  refine candidates_new hr List.not_mem_nil hc ?_
  rw [candidates_seen hr (by simp), candidates]

/-- Of the results with one text one is kept. -/
theorem exists_kept {rules : List Rule} {found : List (Candidate ν)}
    (h : rs.candidates m p [] rules = .ok found)
    (hd : ∀ q q', rs.Makes rules p q → rs.Makes rules p q' → q.digest = q'.digest →
      q.toJson.compact = q'.toJson.compact) (hq : rs.Makes rules p q) :
    ∃ c ∈ found, rs.Makes rules p c.plan ∧ c.plan.toJson.compact = q.toJson.compact := by
  obtain ⟨hkept, hmade⟩ := candidates_keep h
  obtain ⟨r, hr, hr'⟩ := hq
  obtain ⟨q', hq', hdigest⟩ := hkept r hr
  rw [hr'] at hq'
  obtain rfl := Except.ok.inj hq'
  rcases hdigest with hnil | ⟨c, hc, hdigest⟩
  · cases hnil
  · exact ⟨c, hc, hmade c hc, hd c.plan q (hmade c hc) ⟨r, hr, hr'⟩ hdigest⟩

end Rules

/-- What is hashed tells compiled graphs and plans apart as far as `blur` does, so all of them where
every literal is finite. A search whose digests do not collide keeps every result of a rule, or one
that `blur` does not tell from it. -/
theorem hashed_text_identifies {μ κ ν : Type} [Quantity ν] {settings : Settings μ}
    {other : Settings κ} {id id' : GraphId} {p q : Plan} {g h : Graph}
    (hg : compile settings id p = .ok g) (hh : compile other id' q = .ok h) (a b : Plan)
    (rs : Rules) (m : Estimates ν) (node : Plan) (rules : List Rule) :
    ((g.fingerprintText = h.fingerprintText ↔
        g.vertices.map Vertex.blur = h.vertices.map Vertex.blur ∧ g.edges = h.edges) ∧
      (g.Finite → h.Finite → g.fingerprintText = h.fingerprintText →
        g.vertices = h.vertices ∧ g.edges = h.edges)) ∧
    ((a.toJson.compact = b.toJson.compact ↔ a.blur = b.blur) ∧
      (a.Finite → b.Finite → a.toJson.compact = b.toJson.compact → a = b)) ∧
    ∀ found : List (Candidate ν), rs.candidates m node [] rules = .ok found →
      (∀ c d, rs.Makes rules node c → rs.Makes rules node d → c.digest = d.digest →
        c.toJson.compact = d.toJson.compact) →
      ∀ d, rs.Makes rules node d → (∃ c ∈ found, c.plan.blur = d.blur) ∧
        ((∀ c, rs.Makes rules node c → c.Finite) → ∃ c ∈ found, c.plan = d) := by
  have hplans : ∀ {a b : Plan}, a.Finite → b.Finite → a.toJson.compact = b.toJson.compact →
      a = b := by
    intro a b ha hb htext
    rw [Plan.compact_inj, a.blur_of_finite ha, b.blur_of_finite hb] at htext
    exact htext
  have hgraphs : g.fingerprintText = h.fingerprintText ↔
      g.vertices.map Vertex.blur = h.vertices.map Vertex.blur ∧ g.edges = h.edges := by
    rw [Graph.fingerprintText_inj, version_of_compile hg, version_of_compile hh]
    exact and_iff_right rfl
  refine ⟨⟨hgraphs, ?_⟩, ⟨Plan.compact_inj, hplans⟩, ?_⟩
  · intro hfg hfh htext
    rw [hgraphs, Graph.blur_of_finite hfg, Graph.blur_of_finite hfh] at htext
    exact htext
  · intro found hfound hdigest d hd
    obtain ⟨c, hc, hmade, htext⟩ := Rules.exists_kept hfound hdigest hd
    refine ⟨⟨c, hc, Plan.compact_inj.mp htext⟩, ?_⟩
    intro hfinite
    exact ⟨c, hc, hplans (hfinite _ hmade) (hfinite _ hd) htext⟩

def Plan.orders (t : Traits) : Plan := .node t (.scan "orders" ⟨[⟨"amount", .float64, true⟩]⟩) []

/-- The orders whose amount is below a bound. -/
def Plan.ordersBelow (bound : Double) : Plan :=
  .node ⟨.physical, .any⟩ (.filter (.compare .lt (.column 0) (.literal (.float64 bound))))
    [.orders ⟨.physical, .any⟩]

def Graph.ordersBelow (bound : Double) : Graph :=
  ⟨0, plannerVersion,
    [⟨0, "scan(orders)", none, .any, ⟨[⟨"amount", .float64, true⟩]⟩, .scan "orders"⟩,
      ⟨1, "filter", none, .any, ⟨[⟨"amount", .float64, true⟩]⟩,
        .filter (.compare .lt (.column 0) (.literal (.float64 bound)))⟩],
    [⟨0, 0, 1, 0, .local⟩]⟩

theorem compile_ordersBelow (bound : Double) :
    compile (Settings.default : Settings Double) 0 (.ordersBelow bound) = .ok (.ordersBelow bound) :=
  rfl

theorem finite_ordersBelow {bound : Double} (h : bound.isFinite = true) :
    (Graph.ordersBelow bound).Finite := by
  intro v hv
  simp only [Graph.ordersBelow, List.mem_cons, List.not_mem_nil, or_false] at hv
  rcases hv with rfl | rfl
  · trivial
  · simp [Processor.Finite, Expr.Finite, Scalar.Finite, h]

theorem apply_orders : Rules.default.apply (physicalRule .scan) (.orders ⟨.logical, .any⟩) =
    .ok (.orders ⟨.physical, .partitioned⟩) := rfl

theorem cost_orders : ∃ cost, (Estimates.fixed (Settings.default : Settings Double) (.ofInt 1000)
    none).cost (.orders ⟨.physical, .partitioned⟩) = .ok cost := ⟨_, rfl⟩

/-- Bounds of one and two are told apart, and a rule that is registered twice keeps its result. -/
theorem hashed_text_identifies_ordersBelow :
    (Graph.ordersBelow (.ofInt 1)).fingerprintText ≠
      (Graph.ordersBelow (.ofInt 2)).fingerprintText ∧
    ∃ found : List (Candidate Double),
      Rules.default.candidates (.fixed Settings.default (.ofInt 1000) none)
        (.orders ⟨.logical, .any⟩) [] [physicalRule .scan, physicalRule .scan] = .ok found ∧
      ∃ c ∈ found, c.plan = .orders ⟨.physical, .partitioned⟩ := by
  obtain ⟨⟨-, hgraphs⟩, -, hsearch⟩ := hashed_text_identifies (compile_ordersBelow (.ofInt 1))
    (compile_ordersBelow (.ofInt 2)) (.ordersBelow (.ofInt 1)) (.ordersBelow (.ofInt 2))
    Rules.default (.fixed (Settings.default : Settings Double) (.ofInt 1000) none)
    (.orders ⟨.logical, .any⟩) [physicalRule .scan, physicalRule .scan]
  constructor
  · intro htext
    have h := hgraphs (finite_ordersBelow rfl) (finite_ordersBelow rfl) htext
    have hne : (Binary.ofInt 1 : Double) ≠ Binary.ofInt 2 := by decide
    simp [Graph.ordersBelow, hne] at h
  · have hmakes : ∀ c, Rules.default.Makes [physicalRule .scan, physicalRule .scan]
        (.orders ⟨.logical, .any⟩) c → c = .orders ⟨.physical, .partitioned⟩ := by
      rintro c ⟨r, hr, hc⟩
      obtain rfl : r = physicalRule .scan := by simpa using hr
      rw [apply_orders] at hc
      exact (Except.ok.inj hc).symm
    obtain ⟨cost, hcost⟩ := cost_orders
    have hfound := Rules.candidates_twice apply_orders hcost
    refine ⟨_, hfound, (hsearch _ hfound ?_ _ ⟨_, List.mem_cons_self, apply_orders⟩).2 ?_⟩
    · intro c d hc hd _
      rw [hmakes c hc, hmakes d hd]
    · intro c hc
      rw [hmakes c hc]
      simp [Plan.orders, Plan.Finite, Plan.FiniteInputs, Operator.Finite]

/-- Every finite amount is below infinity and none below minus infinity, yet the two filters have
one text, as plans and as graphs. -/
theorem infinite_bounds_collide :
    ∃ g h : Graph,
      compile (Settings.default : Settings Double) 0 (.ordersBelow (.infinity false)) = .ok g ∧
      compile (Settings.default : Settings Double) 0 (.ordersBelow (.infinity true)) = .ok h ∧
      g.fingerprintText = h.fingerprintText ∧ g.vertices ≠ h.vertices ∧
      (Plan.ordersBelow (.infinity false)).toJson.compact =
        (Plan.ordersBelow (.infinity true)).toJson.compact ∧
      Plan.ordersBelow (.infinity false) ≠ Plan.ordersBelow (.infinity true) := by
  have hblur : (Binary.infinity true : Double).blur = (Binary.infinity false : Double).blur := by
    simp [Binary.blur, Binary.isFinite_infinity]
  have hne : (Binary.infinity false : Double) ≠ Binary.infinity true := by
    intro h
    have hsign := congrArg Binary.signBit h
    rw [Binary.infinity, Binary.infinity, Binary.signBit_signed Format.infinity_lt_signWeight,
      Binary.signBit_signed Format.infinity_lt_signWeight] at hsign
    cases hsign
  refine ⟨_, _, compile_ordersBelow _, compile_ordersBelow _, ?_, ?_, ?_, ?_⟩
  · rw [Graph.fingerprintText_inj]
    simp [Graph.ordersBelow, Vertex.blur, Processor.blur, Expr.blur, Scalar.blur, hblur]
  · simp [Graph.ordersBelow, hne]
  · rw [Plan.compact_inj]
    simp [Plan.ordersBelow, Plan.blur, Operator.blur, Expr.blur, Scalar.blur, hblur]
  · simp [Plan.ordersBelow, hne]

end FlowPlan
