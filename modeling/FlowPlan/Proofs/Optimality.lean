import FlowPlan.Proofs.Choice
import FlowPlan.Proofs.Costing
import FlowPlan.Proofs.Conversion
import FlowPlan.Proofs.Exact
import FlowPlan.Proofs.Search

namespace FlowPlan

open Outcome

theorem Operator.arity_congr {op other : Operator} (h : op.kind = other.kind) :
    op.arity = other.arity := by
  cases op <;> cases other <;> first | rfl | cases h

/-- Rules towards PHYSICAL that keep the kind and the physical inputs of a node, which has as many
as it needs, and make the parameters of the operator from the old ones alone. -/
def Rules.Reshape (rs : Rules) : Prop :=
  ∀ r ∈ rs.all, r.source = .logical → r.target = .physical → ∃ f : Operator → Operator,
    ∀ p q, p.inputs.length = p.op.arity → (∀ input ∈ p.inputs, input.convention = .physical) →
      rs.apply r p = .ok q → q.kind = p.kind ∧ q.op = f p.op ∧ q.inputs = p.inputs

/-- A plan that is got by picking at each node some rule that makes it physical over what was picked
for its inputs. -/
inductive Rules.Picks (rs : Rules) : Plan → Plan → Prop where
  | node {t : Traits} {op : Operator} {inputs found : List Plan} {q : Plan}
    (below : List.Forall₂ rs.Picks inputs found)
    (made : rs.Makes (rs.rulesFor op.kind .logical .physical) (.node t op found) q) :
    rs.Picks (.node t op inputs) q

/-- What the rules make of a node that the search meets is told apart by its digests. -/
def Rules.TellsApart {ν : Type} [Quantity ν] (rs : Rules) (m : Estimates ν) (p : Plan) : Prop :=
  ∀ t op inputs found, Plan.node t op inputs ∈ p.nodes → rs.bestInputs m inputs = .ok found →
    ∀ q q', rs.Makes (rs.rulesFor op.kind .logical .physical) (.node t op found) q →
      rs.Makes (rs.rulesFor op.kind .logical .physical) (.node t op found) q' →
        q.digest = q'.digest → q = q'

namespace Estimates

/-- Estimates that look at operators only: at that of a scan, and at the predicate of a filter. -/
structure ByOperator {ν : Type} (m : Estimates ν) : Prop where
  scan : ∀ p q : Plan, p.kind = .scan → p.op = q.op → m.scanRows p = m.scanRows q
  filter : ∀ (p q : Plan) (predicate : Expr), m.selectivity p predicate = m.selectivity q predicate

variable {m : Estimates ℚ} {p q r : Plan} {t u : Traits} {op other : Operator} {input input' : Plan}
  {c d : Cost ℚ}

/-- A plan of no more rows than another and no more cost, in any of the parts. -/
def AtMost (m : Estimates ℚ) (p q : Plan) : Prop :=
  ∃ n c n' c', m.rows p = .ok n ∧ m.cost p = .ok c ∧ m.rows q = .ok n' ∧ m.cost q = .ok c' ∧
    max 0 n ≤ max 0 n' ∧ c.Within c'

theorem AtMost.trans (h : m.AtMost p q) (k : m.AtMost q r) : m.AtMost p r := by
  obtain ⟨n, c, n', c', hn, hc, hn', hc', hrows, hcost⟩ := h
  obtain ⟨n₁, c₁, n'', c'', hn₁, hc₁, hn'', hc'', hrows', hcost'⟩ := k
  cases hn'.symm.trans hn₁
  cases hc'.symm.trans hc₁
  exact ⟨n, c, n'', c'', hn, hc, hn'', hc'', hrows.trans hrows', hcost.trans hcost'⟩

theorem nonneg_chargeOver (read : ℚ) : (m.chargeOver input read op).Nonneg := by
  cases op <;> exact Cost.nonneg_make _ _ _

theorem nonneg_of_selfCost (h : m.selfCost p = .ok c) : c.Nonneg := by
  rw [selfCost] at h
  split at h
  · cases h
  · cases hop : p.op <;> simp only [hop, bind_eq_ok] at h
    case scan =>
      obtain ⟨n, -, h⟩ := h
      cases h
      exact Cost.nonneg_make _ _ _
    case filter =>
      obtain ⟨read, -, n, -, h⟩ := h
      cases h
      exact Cost.nonneg_make _ _ _
    case project =>
      obtain ⟨read, -, h⟩ := h
      cases h
      exact Cost.nonneg_make _ _ _
    case root =>
      obtain ⟨read, -, h⟩ := h
      cases h
      exact Cost.nonneg_make _ _ _

theorem nonneg_of_addCosts {sum : Cost ℚ} {plans : List Plan} (hs : sum.Nonneg)
    (h : m.addCosts sum plans = .ok c) : c.Nonneg := by
  induction plans generalizing sum with
  | nil =>
    cases h
    exact hs
  | cons p rest ih =>
    rw [addCosts] at h
    obtain ⟨cost, -, h⟩ := bind_eq_ok.mp h
    exact ih (Cost.nonneg_make _ _ _) h

theorem nonneg_of_cost (h : m.cost p = .ok c) : c.Nonneg := by
  obtain ⟨t, op, inputs⟩ := p
  rw [cost] at h
  obtain ⟨own, hown, h⟩ := bind_eq_ok.mp h
  exact nonneg_of_addCosts (nonneg_of_selfCost hown) h

/-- What an operator is charged for rows is what leaves it. -/
theorem chargeOver_rows (read : ℚ) :
    (m.chargeOver input read op).rows = max 0 (m.rowsOver input read op) := by
  cases op <;> simp [chargeOver, rowsOver, Cost.make_rat]

/-- Over an input of no more rows an operator lets out no more rows and is charged no more. -/
theorem chargeOver_within {read read' : ℚ} (hm : m.ByOperator)
    (hs : 0 ≤ m.settings.projectCpuPerExpr) (h : max 0 read ≤ max 0 read') :
    max 0 (m.rowsOver input read op) ≤ max 0 (m.rowsOver input' read' op) ∧
      (m.chargeOver input read op).Within (m.chargeOver input' read' op) := by
  cases op with
  | scan container s => exact ⟨h, by simp only [chargeOver, Cost.make_rat]; exact ⟨h, h, le_rfl⟩⟩
  | filter predicate =>
    have hrows : m.rowsOver input read (.filter predicate) ≤
        m.rowsOver input' read' (.filter predicate) := by
      simp only [rowsOver, hm.filter input input']
      exact filteredRows_mono h
    refine ⟨max_le_max_left 0 hrows, ?_⟩
    simp only [chargeOver, Cost.make_rat, Quantity.sanitize_rat]
    exact ⟨max_le_max_left 0 hrows, max_le_max_left 0 h, le_rfl⟩
  | project exprs declared =>
    refine ⟨h, ?_⟩
    simp only [chargeOver, Cost.make_rat, Quantity.sanitize_rat, Quantity.ofNat_rat]
    refine ⟨max_le_max_left 0 h, max_le_max_left 0 ?_, le_rfl⟩
    exact mul_le_mul_of_nonneg_right (mul_le_mul_of_nonneg_right h (Nat.cast_nonneg _)) hs
  | root => exact ⟨h, by simp only [chargeOver, Cost.make_rat]; exact ⟨h, h, le_rfl⟩⟩

/-- Operators of one kind over one input differ in one part of what they are charged. -/
theorem chargeOver_total (read : ℚ) (hk : op.kind = other.kind) :
    (m.chargeOver input read op).Within (m.chargeOver input read other) ∨
      (m.chargeOver input read other).Within (m.chargeOver input read op) := by
  cases op with
  | scan container s =>
    cases other <;> first | exact .inl (Cost.Within.refl _) | cases hk
  | filter predicate =>
    cases other with
    | filter predicate' =>
      simp only [chargeOver, Cost.make_rat]
      exact (le_total _ _).imp (⟨·, le_rfl, le_rfl⟩) (⟨·, le_rfl, le_rfl⟩)
    | _ => cases hk
  | project exprs declared =>
    cases other with
    | project exprs' declared' =>
      simp only [chargeOver, Cost.make_rat]
      exact (le_total _ _).imp (⟨le_rfl, ·, le_rfl⟩) (⟨le_rfl, ·, le_rfl⟩)
    | _ => cases hk
  | root => cases other <;> first | exact .inl (Cost.Within.refl _) | cases hk

/-- An operator over an input that is no more than another is no more. -/
theorem AtMost.over (hm : m.ByOperator) (hs : 0 ≤ m.settings.projectCpuPerExpr)
    (one : op.arity = 1) (ht : t.convention = .physical) (hu : u.convention = .physical)
    (h : m.AtMost input input') : m.AtMost (.node t op [input]) (.node u op [input']) := by
  obtain ⟨n, c, n', c', hn, hc, hn', hc', hrows, hcost⟩ := h
  obtain ⟨hout, hcharge⟩ : max 0 (m.rowsOver input n op) ≤ max 0 (m.rowsOver input' n' op) ∧
      (m.chargeOver input n op).Within (m.chargeOver input' n' op) := chargeOver_within hm hs hrows
  exact ⟨_, _, _, _, rows_over one hn, (cost_over_eq_ok one).mpr ⟨ht, n, c, hn, hc, rfl⟩,
    rows_over one hn', (cost_over_eq_ok one).mpr ⟨hu, n', c', hn', hc', rfl⟩, hout,
    hcharge.plus hcost⟩

/-- Scans of one operator are no more than each other. -/
theorem AtMost.scan (hm : m.ByOperator) {container : String} {s : Schema}
    (hu : u.convention = .physical) (hc : m.cost (.node t (.scan container s) []) = .ok c) :
    m.AtMost (.node t (.scan container s) []) (.node u (.scan container s) []) := by
  obtain ⟨-, n, hn, rfl⟩ := cost_scan_eq_ok.mp hc
  have hn' : m.scanRows (.node u (.scan container s) []) = .ok n := by
    rw [← hn]
    exact hm.scan _ _ rfl rfl
  exact ⟨n, _, n, _, by rw [rows, hn], hc, by rw [rows, hn'],
    cost_scan_eq_ok.mpr ⟨hu, n, hn', rfl⟩, le_rfl, Cost.Within.refl _⟩

/-- Of two operators over one input the one that is not dearer is no more. -/
theorem AtMost.of_key_le {ordering : CostOrdering} (one : op.arity = 1)
    (hk : op.kind = other.kind)
    (hc : m.cost (.node t op [input]) = .ok c) (hd : m.cost (.node u other [input]) = .ok d)
    (h : c.key ordering ≤ d.key ordering) :
    m.AtMost (.node t op [input]) (.node u other [input]) := by
  have other_one : other.arity = 1 := (Operator.arity_congr hk).symm.trans one
  obtain ⟨-, n, below, hn, hbelow, rfl⟩ := (cost_over_eq_ok one).mp hc
  obtain ⟨-, n', below', hn', hbelow', rfl⟩ := (cost_over_eq_ok other_one).mp hd
  cases hn.symm.trans hn'
  cases hbelow.symm.trans hbelow'
  have hwithin : (m.chargeOver input n op).Within (m.chargeOver input n other) := by
    have htotal : (m.chargeOver input n op).Within (m.chargeOver input n other) ∨
        (m.chargeOver input n other).Within (m.chargeOver input n op) := chargeOver_total n hk
    rcases htotal with hle | hge
    · exact hle
    · have hsum := (hge.plus (Cost.Within.refl below)).of_key_le h
      exact hsum.of_plus (nonneg_chargeOver n) (nonneg_chargeOver n) (nonneg_of_cost hbelow)
  refine ⟨_, _, _, _, rows_over one hn, hc, rows_over other_one hn, hd, ?_,
    hwithin.plus (Cost.Within.refl below)⟩
  rw [← chargeOver_rows, ← chargeOver_rows]
  exact hwithin.rows

/-- Of two scans the one that is not dearer is no more. -/
theorem AtMost.of_key_le_scan {ordering : CostOrdering} {container container' : String}
    {s s' : Schema} (hc : m.cost (.node t (.scan container s) []) = .ok c)
    (hd : m.cost (.node u (.scan container' s') []) = .ok d)
    (h : c.key ordering ≤ d.key ordering) :
    m.AtMost (.node t (.scan container s) []) (.node u (.scan container' s') []) := by
  obtain ⟨-, n, hn, rfl⟩ := cost_scan_eq_ok.mp hc
  obtain ⟨-, n', hn', rfl⟩ := cost_scan_eq_ok.mp hd
  have hwithin : (Cost.make n n n).Within (Cost.make n' n' n') := by
    rcases le_total (max 0 n) (max 0 n') with hle | hge
    · simp only [Cost.make_rat]
      exact ⟨hle, hle, hle⟩
    · refine Cost.Within.of_key_le ?_ h
      simp only [Cost.make_rat]
      exact ⟨hge, hge, hge⟩
  refine ⟨n, _, n', _, by rw [rows, hn], hc, by rw [rows, hn'], hd, ?_, hwithin⟩
  simpa only [Cost.make_rat] using hwithin.rows

end Estimates

namespace Rules

open Plan

section Search

variable {rs : Rules} {m : Estimates ℚ} {p q : Plan} {t : Traits} {op : Operator}
  {inputs found : List Plan} {c : Candidate ℚ}

theorem length_bestInputs {ν : Type} [Quantity ν] {m : Estimates ν}
    (h : rs.bestInputs m inputs = .ok found) : found.length = inputs.length := by
  induction inputs generalizing found with
  | nil =>
    cases h
    rfl
  | cons p rest ih =>
    simp only [bestInputs, bind_eq_ok] at h
    obtain ⟨_, -, more, hmore, h⟩ := h
    cases h
    rw [List.length_cons, List.length_cons, ih hmore]

/-- The search over a node with one input goes by the input. -/
theorem bestInputs_singleton {ν : Type} [Quantity ν] {m : Estimates ν} {input : Plan} :
    rs.bestInputs m [input] = .ok found ↔ ∃ first, rs.best m input = .ok first ∧
      found = [first.plan] := by
  cases h : rs.best m input <;> simp [bestInputs, h, eq_comm]

/-- Whatever the rules, the search goes through for chains only. -/
theorem chain_of_best {ν : Type} [Quantity ν] {m : Estimates ν} : {p : Plan} →
    {c : Candidate ν} → rs.best m p = .ok c → Chain p
  | .node t op inputs, c, h => by
    rw [best] at h
    obtain ⟨found, hfound, h⟩ := bind_eq_ok.mp h
    have harity := (length_bestInputs hfound).symm.trans (bestOver_eq_ok h).1
    rcases op.scan_or_over with ⟨container, s, rfl⟩ | one
    · obtain rfl := List.length_eq_zero_iff.mp harity
      exact .scan t container s
    · obtain ⟨input, rfl⟩ := List.length_eq_one_iff.mp (harity.trans one)
      obtain ⟨first, hfirst, -⟩ := bestInputs_singleton.mp hfound
      exact .node t op input one (chain_of_best hfirst)

theorem mem_rulesFor {kind : OperatorKind} {r : Rule} (h : r ∈ rs.rulesFor kind .logical .physical) :
    r ∈ rs.all ∧ r.source = .logical ∧ r.target = .physical := by
  obtain ⟨hr, hfits⟩ := List.mem_filter.mp h
  simp only [Bool.and_eq_true, beq_iff_eq] at hfits
  exact ⟨hr, hfits.1.2, hfits.2⟩

/-- What the best over some inputs is: made by a rule, and with its cost. -/
theorem best_of_bestOver {ν : Type} [Quantity ν] {m : Estimates ν} {c : Candidate ν}
    (h : rs.bestOver m t op found = .ok c) :
    rs.Makes (rs.rulesFor op.kind .logical .physical) (.node t op found) c.plan ∧
      m.cost c.plan = .ok c.cost := by
  obtain ⟨-, candidates, hcandidates, hcheapest⟩ := bestOver_eq_ok h
  have hmem := Candidate.mem_of_cheapest? hcheapest
  exact ⟨(candidates_keep hcandidates).2 c hmem, candidates_cost hcandidates c hmem⟩

/-- What the search finds is one of the plans that may be picked, and carries its cost. -/
theorem best_picks {ν : Type} [Quantity ν] {m : Estimates ν} {c : Candidate ν}
    (h : rs.best m p = .ok c) : rs.Picks p c.plan ∧ m.cost c.plan = .ok c.cost := by
  have hc := chain_of_best h
  induction hc generalizing c with
  | scan t container s =>
    rw [best, bestInputs, ok_bind] at h
    obtain ⟨hmade, hcost⟩ := best_of_bestOver h
    exact ⟨.node .nil hmade, hcost⟩
  | node t op input one below ih =>
    rw [best] at h
    obtain ⟨found, hfound, h⟩ := bind_eq_ok.mp h
    obtain ⟨first, hfirst, rfl⟩ := bestInputs_singleton.mp hfound
    obtain ⟨hmade, hcost⟩ := best_of_bestOver h
    exact ⟨.node (.cons (ih hfirst).1 .nil) hmade, hcost⟩

theorem Picks.convention_eq (h : rs.Picks p q) : q.convention = .physical := by
  cases h with
  | node below made => exact made.isPhysical

theorem picks_scan : rs.Picks (.node t op []) q ↔
    rs.Makes (rs.rulesFor op.kind .logical .physical) (.node t op []) q := by
  constructor
  · rintro ⟨⟨⟩, made⟩
    exact made
  · exact .node .nil

theorem picks_over {input : Plan} : rs.Picks (.node t op [input]) q ↔ ∃ below,
    rs.Picks input below ∧ rs.Makes (rs.rulesFor op.kind .logical .physical) (.node t op [below]) q := by
  constructor
  · rintro ⟨inputs, made⟩
    cases inputs with
    | cons hbelow hrest =>
      cases hrest
      exact ⟨_, hbelow, made⟩
  · rintro ⟨below, hbelow, made⟩
    exact .node (.cons hbelow .nil) made

/-- A rule that reshapes operators makes one operator of a node, whatever the inputs. -/
theorem Reshape.exists_operator (hr : rs.Reshape) {r : Rule}
    (hrule : r ∈ rs.rulesFor op.kind .logical .physical) : ∃ other : Operator,
      ∀ t found q, found.length = op.arity → (∀ input ∈ found, input.convention = .physical) →
        rs.apply r (.node t op found) = .ok q →
          other.kind = op.kind ∧ ∃ u, u.convention = .physical ∧ q = .node u other found := by
  obtain ⟨hall, hsource, htarget⟩ := mem_rulesFor hrule
  obtain ⟨f, hf⟩ := hr r hall hsource htarget
  refine ⟨f op, fun t found q harity hfound happly => ?_⟩
  obtain ⟨hkind, hop, hinputs⟩ := hf (.node t op found) q harity hfound happly
  obtain ⟨u, other, inputs⟩ := q
  obtain rfl : other = f op := hop
  obtain rfl : inputs = found := hinputs
  exact ⟨hkind, u, (convention_of_apply happly).trans htarget, rfl⟩

/-- What a rule makes over other inputs it also makes over those that were chosen, where the best is
not dearer. -/
theorem exists_rival {found' : List Plan} (hr : rs.Reshape)
    (hbest : rs.bestOver m t op found = .ok c)
    (hfound : ∀ input ∈ found, input.convention = .physical)
    (harity' : found'.length = op.arity) (hfound' : ∀ input ∈ found', input.convention = .physical)
    (htell : ∀ a b, rs.Makes (rs.rulesFor op.kind .logical .physical) (.node t op found) a →
      rs.Makes (rs.rulesFor op.kind .logical .physical) (.node t op found) b →
        a.digest = b.digest → a = b)
    (hq : rs.Makes (rs.rulesFor op.kind .logical .physical) (.node t op found') q) :
    ∃ best other, best.kind = op.kind ∧ other.kind = op.kind ∧
      (∃ u, c.plan = .node u best found) ∧
      (∃ v, v.convention = .physical ∧ q = .node v other found') ∧
      ∃ w d, w.convention = .physical ∧ m.cost (.node w other found) = .ok d ∧
        c.cost.key m.settings.ordering ≤ d.key m.settings.ordering := by
  obtain ⟨harity, candidates, hcandidates, hcheapest⟩ := bestOver_eq_ok hbest
  obtain ⟨hkept, hmade⟩ := candidates_keep hcandidates
  obtain ⟨r, hrule, happly⟩ := hq
  obtain ⟨rival, hrival, hdigest⟩ := hkept r hrule
  obtain ⟨d, hd, hsame⟩ := hdigest.resolve_left List.not_mem_nil
  obtain rfl : d.plan = rival := htell _ _ (hmade d hd) ⟨r, hrule, hrival⟩ hsame
  obtain ⟨other, hother⟩ := hr.exists_operator hrule
  obtain ⟨hkind, v, hv, hq⟩ := hother _ _ _ harity' hfound' happly
  obtain ⟨-, w, hw, hplan⟩ := hother _ _ _ harity hfound hrival
  obtain ⟨s, hs, hmadeBest⟩ := hmade c (Candidate.mem_of_cheapest? hcheapest)
  obtain ⟨best, hoperator⟩ := hr.exists_operator hs
  obtain ⟨hkindBest, u, -, hplanBest⟩ := hoperator _ _ _ harity hfound hmadeBest
  have hleast := Candidate.not_below_cheapest? Cost.not_isBelow_trans Cost.isBelow_asymm
    hcheapest d hd
  exact ⟨best, other, hkindBest, hkind, ⟨u, hplanBest⟩, ⟨v, hv, hq⟩, w, d.cost, hw,
    hplan ▸ candidates_cost hcandidates d hd, Cost.not_isBelow_iff.mp hleast⟩

theorem TellsApart.below {ν : Type} [Quantity ν] {m : Estimates ν} {input : Plan}
    (h : rs.TellsApart m (.node t op [input])) : rs.TellsApart m input :=
  fun u other inputs found hmem => h u other inputs found (by simp [hmem])

/-- What the search finds is no more than any plan that may be picked, in rows and in every part of
the cost. -/
theorem best_atMost (hr : rs.Reshape) (hm : m.ByOperator) (hs : 0 ≤ m.settings.projectCpuPerExpr)
    (h : rs.best m p = .ok c) (hd : rs.TellsApart m p) (hq : rs.Picks p q) : m.AtMost c.plan q := by
  have hchain := chain_of_best h
  induction hchain generalizing c q with
  | scan t container s =>
    have hcost := (best_picks h).2
    rw [best, bestInputs, ok_bind] at h
    obtain ⟨best, other, hbest, hother, ⟨u, hplan⟩, ⟨v, hv, rfl⟩, w, d, hw, hrival, hle⟩ :=
      exists_rival hr h (by simp) rfl (by simp) (hd _ _ _ _ (mem_nodes_self _) rfl) (picks_scan.mp hq)
    rw [hplan] at hcost ⊢
    cases best with
    | scan container₁ s₁ =>
      cases other with
      | scan container₂ s₂ =>
        exact (Estimates.AtMost.of_key_le_scan hcost hrival hle).trans (.scan hm hv hrival)
      | _ => cases hother
    | _ => cases hbest
  | node t op input one below ih =>
    obtain ⟨hpicks, hcost⟩ := best_picks h
    rw [best] at h
    obtain ⟨found, hfound, h⟩ := bind_eq_ok.mp h
    obtain ⟨first, hfirst, rfl⟩ := bestInputs_singleton.mp hfound
    obtain ⟨input', hinput', made⟩ := picks_over.mp hq
    have hphysical := (best_picks hfirst).1.convention_eq
    obtain ⟨best, other, hbest, hother, ⟨u, hplan⟩, ⟨v, hv, rfl⟩, w, d, hw, hrival, hle⟩ :=
      exists_rival hr h (by simpa using hphysical) (by simpa using one.symm)
        (by simpa using hinput'.convention_eq)
        (hd _ _ _ _ (mem_nodes_self _) hfound) made
    rw [hplan] at hcost ⊢
    have hbestOne : best.arity = 1 := (Operator.arity_congr hbest).trans one
    have hotherOne : other.arity = 1 := (Operator.arity_congr hother).trans one
    have hleast := Estimates.AtMost.of_key_le hbestOne (hbest.trans hother.symm)
      hcost hrival hle
    exact hleast.trans (.over hm hs hotherOne hw hv (ih hfirst hd.below hinput'))

/-- Under exact arithmetic choosing greedily is optimal. Where rules only reshape operators, estimates
look at operators alone and digests tell results apart, the plan that is found is one of those that
may be picked node by node, and none of these has a cost that it is dearer than. -/
theorem greedy_choice_optimal {o : Optimized ℚ} (hr : rs.Reshape) (hm : m.ByOperator)
    (ho : rs.optimize m p = .ok o) (hd : rs.TellsApart m o.logical) :
    (p.convention = .logical → o.logical = p) ∧
    rs.Picks o.logical o.physical ∧ m.cost o.physical = .ok o.cost ∧
    ∀ q, rs.Picks o.logical q → ∃ c, m.cost q = .ok c ∧
      (o.cost.compare m.settings.ordering c).isLE = true := by
  obtain ⟨_, hvalid, ho⟩ := bind_eq_ok.mp ho
  obtain ⟨logical, hlogical, ho⟩ := bind_eq_ok.mp ho
  obtain ⟨found, hfound, ho⟩ := bind_eq_ok.mp ho
  obtain ⟨_, -, ho⟩ := bind_eq_ok.mp ho
  cases ho
  obtain ⟨hpicks, hcost⟩ := best_picks hfound
  refine ⟨fun hp => ?_, hpicks, hcost, fun q hq => ?_⟩
  · rw [convert_reached hp] at hlogical
    exact (Except.ok.inj hlogical).symm
  · obtain ⟨n, c, n', c', -, hc, -, hc', -, hwithin⟩ :=
      best_atMost hr hm (Settings.projectCpuPerExpr_nonneg (mapError_eq_ok.mp hvalid)) hfound hd hq
    cases hc.symm.trans hcost
    exact ⟨c', hc', hwithin.compare_isLE⟩

end Search

/-- A rule that reads a copy in place of a container. -/
def copyRule : Rule where
  name := "CopyRule"
  kind := .scan
  source := .logical
  target := .physical
  rebuild _ inputs := Plan.rebuild (fun _ => ⟨.physical, .any⟩) (.scan "copy" ⟨[]⟩) inputs

def withCopy : Rules := Rules.default.register copyRule

theorem apply_copyRule {rs : Rules} {t : Traits} {op : Operator} (ht : t.convention = .logical)
    (hk : op.kind = .scan) :
    rs.apply copyRule (.node t op []) = .ok (.node ⟨.physical, .any⟩ (.scan "copy" ⟨[]⟩) []) := by
  have ha : copyRule.accepts (.node t op []) = true := by
    simp [Rule.accepts, copyRule, Plan.kind, Plan.op, hk, Plan.convention, Plan.traits, ht]
  exact Rule.run_of_rebuild ha rfl rfl

theorem reshape_withCopy : withCopy.Reshape := by
  intro r hr hsource htarget
  rw [withCopy, register, List.mem_append, List.mem_singleton] at hr
  rcases hr with hr | rfl
  · obtain ⟨kind, rfl⟩ : ∃ kind, physicalRule kind = r := by
      rcases List.mem_append.mp hr with hr | hr
      · obtain ⟨kind, -, rfl⟩ := List.mem_map.mp hr
        cases hsource
      · obtain ⟨kind, -, hkind⟩ := List.mem_map.mp hr
        exact ⟨kind, hkind⟩
    refine ⟨id, fun p q harity hinputs happly => ?_⟩
    obtain ⟨t, op, inputs⟩ := p
    obtain ⟨rfl, ht⟩ : op.kind = kind ∧ t.convention = .logical := accepts_of_apply happly
    cases (apply_physicalRule withCopy ht harity hinputs).symm.trans happly
    exact ⟨rfl, rfl, rfl⟩
  · refine ⟨fun _ => .scan "copy" ⟨[]⟩, fun p q harity hinputs happly => ?_⟩
    obtain ⟨t, op, inputs⟩ := p
    obtain ⟨hk, ht⟩ : op.kind = .scan ∧ t.convention = .logical := accepts_of_apply happly
    have hnone : inputs = [] := by
      cases op <;> first | exact List.length_eq_zero_iff.mp harity | cases hk
    subst hnone
    rw [apply_copyRule ht hk] at happly
    cases happly
    exact ⟨hk.symm, rfl, rfl⟩

/-- The orders as the default rule reads them, and their copy. -/
def wholeOrders : Plan := .node ⟨.physical, .partitioned⟩ (.scan "orders" ⟨[]⟩) []

def copiedOrders : Plan := .node ⟨.physical, .any⟩ (.scan "copy" ⟨[]⟩) []

theorem digest_copiedOrders : wholeOrders.digest ≠ copiedOrders.digest := by decide +kernel

/-- A thousand orders, ten of which are in the copy. -/
def orderCounts : Estimates ℚ where
  settings := .default
  scanRows p :=
    match p.op with
    | .scan "orders" _ => .ok 1000
    | _ => .ok 10
  selectivity _ _ := none

theorem byOperator_orderCounts : orderCounts.ByOperator where
  scan p q _ hop := by simp only [orderCounts, hop]
  filter _ _ _ := rfl

/-- A scan of the orders, and a filter over it. -/
def logicalOrders : Plan := .node ⟨.logical, .any⟩ (.scan "orders" ⟨[]⟩) []

def filteredOrders : Plan := .node ⟨.logical, .any⟩ (.filter (.literal (.bool true))) [logicalOrders]

theorem apply_logicalOrders : withCopy.apply (physicalRule .scan) logicalOrders = .ok wholeOrders ∧
    withCopy.apply copyRule logicalOrders = .ok copiedOrders := ⟨rfl, rfl⟩

theorem rulesFor_withCopy :
    withCopy.rulesFor .scan .logical .physical = [physicalRule .scan, copyRule] ∧
      withCopy.rulesFor .filter .logical .physical = [physicalRule .filter] := ⟨rfl, rfl⟩

/-- The copy is read, for it is cheaper. -/
theorem best_logicalOrders :
    withCopy.best orderCounts logicalOrders = .ok ⟨copiedOrders, .make 10 10 10⟩ := by
  have hcosts : orderCounts.cost wholeOrders = .ok (.make 1000 1000 1000) ∧
      orderCounts.cost copiedOrders = .ok (.make 10 10 10) :=
    ⟨Estimates.cost_scan_eq_ok.mpr ⟨rfl, 1000, rfl, rfl⟩,
      Estimates.cost_scan_eq_ok.mpr ⟨rfl, 10, rfl, rfl⟩⟩
  have hfound : withCopy.candidates orderCounts logicalOrders [] [physicalRule .scan, copyRule] =
      .ok [⟨wholeOrders, .make 1000 1000 1000⟩, ⟨copiedOrders, .make 10 10 10⟩] :=
    candidates_new apply_logicalOrders.1 List.not_mem_nil hcosts.1
      (candidates_new apply_logicalOrders.2 (by simpa using digest_copiedOrders.symm) hcosts.2 rfl)
  have hbelow : (Cost.make 10 10 10 : Cost ℚ).isBelow orderCounts.settings.ordering
      (.make 1000 1000 1000) = true := by
    rw [Cost.isBelow_iff]
    refine Prod.Lex.toLex_lt_toLex.mpr (.inl ?_)
    norm_num [Cost.make_rat]
  rw [logicalOrders, best, bestInputs, ok_bind]
  refine bestOver_of_candidates rfl hfound ?_
  rw [Candidate.cheapest?, List.foldl_cons, Candidate.cheaper, if_pos hbelow]
  rfl

/-- A filter over what became of the scan. -/
def filterOf (input : Plan) : Plan :=
  .node ⟨.physical, input.distribution⟩ (.filter (.literal (.bool true))) [input]

theorem apply_filter {input : Plan} (hp : input.convention = .physical) :
    withCopy.apply (physicalRule .filter)
      (.node ⟨.logical, .any⟩ (.filter (.literal (.bool true))) [input]) = .ok (filterOf input) :=
  apply_physicalRule withCopy rfl rfl (by simpa using hp)

theorem picks_filteredOrders (input : Plan) (h : input ∈ [wholeOrders, copiedOrders]) :
    withCopy.Picks filteredOrders (filterOf input) := by
  have hinput : withCopy.Picks logicalOrders input ∧ input.convention = .physical := by
    simp only [List.mem_cons, List.not_mem_nil, or_false] at h
    rcases h with rfl | rfl
    · exact ⟨picks_scan.mpr ⟨_, List.mem_cons_self, apply_logicalOrders.1⟩, rfl⟩
    · exact ⟨picks_scan.mpr ⟨copyRule, show copyRule ∈ [physicalRule .scan, copyRule] by simp,
        apply_logicalOrders.2⟩, rfl⟩
  exact picks_over.mpr ⟨input, hinput.1, physicalRule .filter, List.mem_singleton_self _,
    apply_filter hinput.2⟩

/-- What the search finds for the filter reads the copy. -/
theorem optimize_filteredOrders : ∃ c,
    withCopy.optimize orderCounts filteredOrders = .ok ⟨filteredOrders, filterOf copiedOrders, c⟩ := by
  obtain ⟨c, hc⟩ : ∃ c, orderCounts.cost (filterOf copiedOrders) = .ok c :=
    ⟨_, (Estimates.cost_over_eq_ok rfl).mpr ⟨rfl, 10, _, rfl,
      Estimates.cost_scan_eq_ok.mpr ⟨rfl, 10, rfl, rfl⟩, rfl⟩⟩
  have hbest : withCopy.best orderCounts filteredOrders = .ok ⟨filterOf copiedOrders, c⟩ := by
    have hmake : Plan.make ⟨.logical, .any⟩ (.filter (.literal (.bool true))) [copiedOrders] =
      .ok (.node ⟨.logical, .any⟩ (.filter (.literal (.bool true))) [copiedOrders]) := rfl
    rw [filteredOrders, best, bestInputs, best_logicalOrders, ok_bind, bestInputs, ok_bind,
      pure_eq_ok, ok_bind, bestOver, hmake, mapError_ok, ok_bind,
      show (Operator.filter (.literal (.bool true))).kind = .filter from rfl, rulesFor_withCopy.2,
      candidates, apply_filter rfl, ok_bind, if_neg (by simp), hc, ok_bind, candidates]
    rfl
  have hvalid : orderCounts.settings.validate = .ok () := by
    norm_num [Settings.validate, orderCounts, Settings.default, Quantity.isAmount, Quantity.inUnit,
      Quantity.isFinite, Quantity.below, Quantity.isNaN, Quantity.ofRatio]
    simp
  have hlogical : withCopy.convert .logical filteredOrders = .ok filteredOrders := convert_reached rfl
  refine ⟨c, ?_⟩
  rw [optimize, hvalid, mapError_ok, ok_bind, hlogical, ok_bind, hbest]
  rfl

/-- The orders and their copy have different digests, however many rules make the one or the other
of the scan. -/
theorem tellsApart_logicalOrders {rs : Rules} {rules : List Rule}
    (hrules : ∀ r ∈ rules, rs.apply r logicalOrders = .ok wholeOrders ∨
      rs.apply r logicalOrders = .ok copiedOrders) (q q' : Plan)
    (hq : rs.Makes rules logicalOrders q) (hq' : rs.Makes rules logicalOrders q')
    (hdigest : q.digest = q'.digest) : q = q' := by
  have heither : ∀ {q}, rs.Makes rules logicalOrders q → q = wholeOrders ∨ q = copiedOrders := by
    rintro q ⟨r, hr, hq⟩
    exact (hrules r hr).imp (fun h => Except.ok.inj (hq.symm.trans h))
      fun h => Except.ok.inj (hq.symm.trans h)
  rcases heither hq with rfl | rfl <;> rcases heither hq' with rfl | rfl
  · rfl
  · exact absurd hdigest digest_copiedOrders
  · exact absurd hdigest.symm digest_copiedOrders
  · rfl

theorem tellsApart_filteredOrders : withCopy.TellsApart orderCounts filteredOrders := by
  intro t op inputs found hmem hfound q q' hq hq' hdigest
  simp only [filteredOrders, logicalOrders, nodes_over, nodes_scan, List.mem_cons, List.not_mem_nil,
    or_false, Plan.node.injEq] at hmem
  rcases hmem with ⟨rfl, rfl, rfl⟩ | ⟨rfl, rfl, rfl⟩
  · obtain ⟨r, hr, hq⟩ := hq
    obtain ⟨r', hr', hq'⟩ := hq'
    obtain rfl := List.mem_singleton.mp (rulesFor_withCopy.2 ▸ hr)
    obtain rfl := List.mem_singleton.mp (rulesFor_withCopy.2 ▸ hr')
    exact Except.ok.inj (hq.symm.trans hq')
  · cases hfound
    refine tellsApart_logicalOrders (fun r hr => ?_) q q' hq hq' hdigest
    have hr : r ∈ [physicalRule .scan, copyRule] := hr
    simp only [List.mem_cons, List.not_mem_nil, or_false] at hr
    rcases hr with rfl | rfl
    · exact .inl apply_logicalOrders.1
    · exact .inr apply_logicalOrders.2

/-- With a rule that reads a copy registered, a filter over the orders is found to cost no more than
over either of what the orders may be read from. -/
theorem greedy_choice_optimal_copy : ∃ o, withCopy.optimize orderCounts filteredOrders = .ok o ∧
    ∀ input ∈ [wholeOrders, copiedOrders], withCopy.Picks filteredOrders (filterOf input) ∧
      ∃ c, orderCounts.cost (filterOf input) = .ok c ∧
        (o.cost.compare .rowsThenCpu c).isLE = true := by
  obtain ⟨c, ho⟩ := optimize_filteredOrders
  obtain ⟨-, -, -, hleast⟩ := greedy_choice_optimal reshape_withCopy byOperator_orderCounts ho
    tellsApart_filteredOrders
  refine ⟨_, ho, fun input hinput => ?_⟩
  exact ⟨picks_filteredOrders input hinput, hleast _ (picks_filteredOrders input hinput)⟩

end Rules

end FlowPlan
