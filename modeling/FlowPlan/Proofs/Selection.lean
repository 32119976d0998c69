import FlowPlan.Proofs.Optimality

namespace FlowPlan

open Outcome

/-- The place of a number in the order of all patterns. -/
def Binary.orderPlace {f : Format} (x : Binary f) : Int :=
  if x.signBit then x.rank - 1 else x.rank

namespace Cost

variable {ν : Type} [Quantity ν] {ordering : CostOrdering} {a b c : Cost ν}

/-- Patterns are in line by their places, so costs are by those of their parts. -/
instance (ordering : CostOrdering) :
    Std.TransCmp (compare ordering : Cost Double → Cost Double → Ordering) := by
  cases ordering with
  | rowsThenCpu =>
    exact inferInstanceAs (Std.TransCmp (compareLex (compareLex
      (compareOn fun a : Cost Double => a.rows.orderPlace) (compareOn fun a => a.cpu.orderPlace))
      (compareOn fun a => a.io.orderPlace)))
  | cpuThenRows =>
    exact inferInstanceAs (Std.TransCmp (compareLex (compareLex
      (compareOn fun a : Cost Double => a.cpu.orderPlace) (compareOn fun a => a.rows.orderPlace))
      (compareOn fun a => a.io.orderPlace)))
  | total =>
    exact inferInstanceAs (Std.TransCmp (compareLex
      (compareOn fun a : Cost Double => a.total.orderPlace) (compareOn fun a => a.rows.orderPlace)))

theorem isBelow_iff_compare : a.isBelow ordering b = true ↔ compare ordering a b = .lt :=
  Ordering.isLT_iff_eq_lt

section Ordered

variable [Std.TransCmp (compare ordering : Cost ν → Cost ν → Ordering)]

theorem not_isBelow_iff_compare : b.isBelow ordering a = false ↔
    (compare ordering a b).isLE = true := by
  rw [← Bool.not_eq_true, isBelow_iff_compare, Ordering.isLE_iff_ne_gt]
  exact not_congr Std.OrientedCmp.gt_iff_lt.symm

theorem isBelow_of_isBelow_of_not (h : a.isBelow ordering b = true)
    (k : c.isBelow ordering b = false) : a.isBelow ordering c = true :=
  isBelow_iff_compare.mpr (Std.TransCmp.lt_of_lt_of_isLE (isBelow_iff_compare.mp h)
    (not_isBelow_iff_compare.mp k))

theorem not_isBelow_of_isBelow (h : a.isBelow ordering b = true) : b.isBelow ordering a = false := by
  rw [not_isBelow_iff_compare, isBelow_iff_compare.mp h]
  rfl

theorem not_isBelow_self : a.isBelow ordering a = false := by
  have heq : compare ordering a a = .eq := Std.ReflCmp.compare_self
  rw [not_isBelow_iff_compare, heq]
  rfl

end Ordered

end Cost

namespace Candidate

variable {ν : Type} [Quantity ν] {ordering : CostOrdering} {best : Candidate ν}
  {found : List (Candidate ν)} [Std.TransCmp (Cost.compare ordering : Cost ν → Cost ν → Ordering)]

/-- The cheapest candidate divides the others: those before it are dearer, those after it are not
cheaper. By induction on the candidates from the left, as they are looked at. -/
theorem cheapest?_divides (h : cheapest? ordering found = some best) :
    ∃ front back, found = front ++ best :: back ∧
      (∀ c ∈ front, best.cost.isBelow ordering c.cost = true) ∧
      ∀ c ∈ back, c.cost.isBelow ordering best.cost = false := by
  cases found with
  | nil => cases h
  | cons first rest =>
    simp only [cheapest?, Option.some.injEq] at h
    induction rest using List.reverseRecOn generalizing best with
    | nil =>
      subst h
      exact ⟨[], [], rfl, by simp, by simp⟩
    | append_singleton rest next ih =>
      obtain ⟨front, back, hsplit, hfront, hback⟩ := ih rfl
      rw [List.foldl_append, List.foldl_cons, List.foldl_nil] at h
      generalize rest.foldl (cheaper ordering) first = sofar at h hsplit hfront hback
      rw [← List.cons_append, hsplit]
      subst h
      rw [cheaper]
      split
      next hbelow =>
        refine ⟨front ++ sofar :: back, [], rfl, ?_, by simp⟩
        intro c hc
        have hle : c.cost.isBelow ordering sofar.cost = false := by
          rcases List.mem_append.mp hc with hc | hc
          · exact Cost.not_isBelow_of_isBelow (hfront c hc)
          · rcases List.mem_cons.mp hc with rfl | hc
            · exact Cost.not_isBelow_self
            · exact hback c hc
        exact Cost.isBelow_of_isBelow_of_not hbelow hle
      next hbelow =>
        refine ⟨front, back ++ [next], by simp, hfront, ?_⟩
        intro c hc
        rcases List.mem_append.mp hc with hc | hc
        · exact hback c hc
        · rw [List.mem_singleton.mp hc]
          exact Bool.eq_false_iff.mpr hbelow

end Candidate

namespace Rules

open Plan

variable {ν : Type} [Quantity ν] {rs : Rules} {m : Estimates ν} {p : Plan} {t : Traits}
  {op : Operator} {inputs found : List Plan} {c best : Candidate ν}

/-- What a rule makes of a node, and its cost. -/
def Offers (rs : Rules) (m : Estimates ν) (p : Plan) (r : Rule) (c : Candidate ν) : Prop :=
  rs.apply r p = .ok c.plan ∧ m.cost c.plan = .ok c.cost

/-- The offer of some rule for a node: every rule for the node has an offer, none of them cheaper,
and those of the rules that are registered earlier are dearer. -/
def FirstCheapest (rs : Rules) (m : Estimates ν) (p : Plan) (best : Candidate ν) : Prop :=
  ∃ before r after, rs.rulesFor p.kind .logical .physical = before ++ r :: after ∧
    rs.Offers m p r best ∧
    (∀ s ∈ before ++ r :: after, ∃ c, rs.Offers m p s c ∧
      c.cost.isBelow m.settings.ordering best.cost = false) ∧
    ∀ s ∈ before, ∃ c, rs.Offers m p s c ∧ best.cost.isBelow m.settings.ordering c.cost = true

/-- A candidate comes from a rule before which every rule made something that was seen, or one of the
earlier candidates. -/
theorem candidates_divide {rules : List Rule} {seen : List Digest} {front back : List (Candidate ν)}
    (h : rs.candidates m p seen rules = .ok (front ++ c :: back)) :
    ∃ before r after, rules = before ++ r :: after ∧ rs.apply r p = .ok c.plan ∧
      ∀ s ∈ before, ∃ q, rs.apply s p = .ok q ∧
        (q.digest ∈ seen ∨ ∃ d ∈ front, d.plan.digest = q.digest) := by
  induction rules generalizing seen front with
  | nil => simp [candidates] at h
  | cons r rest ih =>
    obtain ⟨q, hq, ⟨hseen, h⟩ | ⟨-, cost, more, -, hmore, hfound⟩⟩ := candidates_cons_eq_ok.mp h
    · obtain ⟨before, s, after, rfl, hs, hbefore⟩ := ih h
      exact ⟨r :: before, s, after, rfl, hs,
        List.forall_mem_cons.mpr ⟨⟨q, hq, .inl hseen⟩, hbefore⟩⟩
    · cases front with
      | nil =>
        cases hfound
        exact ⟨[], r, rest, rfl, hq, by simp⟩
      | cons d front =>
        cases hfound
        obtain ⟨before, s, after, rfl, hs, hbefore⟩ := ih hmore
        refine ⟨r :: before, s, after, rfl, hs, List.forall_mem_cons.mpr ⟨?_, fun u hu => ?_⟩⟩
        · exact ⟨q, hq, .inr ⟨_, List.mem_cons_self, rfl⟩⟩
        · obtain ⟨q', hq', hdigest⟩ := hbefore u hu
          exact ⟨q', hq', noted_of_candidate hdigest⟩

/-- What is left out has been kept before, so the rules that made it have offers as well. -/
theorem bestOver_firstCheapest
    [Std.TransCmp (Cost.compare m.settings.ordering : Cost ν → Cost ν → Ordering)]
    (h : rs.bestOver m t op found = .ok best)
    (hd : ∀ q q', rs.Makes (rs.rulesFor op.kind .logical .physical) (.node t op found) q →
      rs.Makes (rs.rulesFor op.kind .logical .physical) (.node t op found) q' →
        q.digest = q'.digest → q = q') : rs.FirstCheapest m (.node t op found) best := by
  obtain ⟨-, all, hall, hcheapest⟩ := bestOver_eq_ok h
  obtain ⟨hkept, hmade⟩ := candidates_keep hall
  obtain ⟨front, back, rfl, hfront, hback⟩ := Candidate.cheapest?_divides hcheapest
  have hoffer : ∀ {s q c}, s ∈ rs.rulesFor op.kind .logical .physical →
      rs.apply s (.node t op found) = .ok q → c ∈ front ++ best :: back →
      c.plan.digest = q.digest → rs.Offers m (.node t op found) s c := by
    intro s q c hs hq hc hdigest
    obtain rfl : c.plan = q := hd _ _ (hmade c hc) ⟨s, hs, hq⟩ hdigest
    exact ⟨hq, candidates_cost hall c hc⟩
  have hleast : ∀ c ∈ front ++ best :: back,
      c.cost.isBelow m.settings.ordering best.cost = false := by
    intro c hc
    rcases List.mem_append.mp hc with hc | hc
    · exact Cost.not_isBelow_of_isBelow (hfront c hc)
    · rcases List.mem_cons.mp hc with rfl | hc
      · exact Cost.not_isBelow_self
      · exact hback c hc
  obtain ⟨before, r, after, hrules, hr, hbefore⟩ := candidates_divide hall
  refine ⟨before, r, after, hrules, ⟨hr, candidates_cost hall best (by simp)⟩, fun s hs => ?_,
    fun s hs => ?_⟩
  · have hs : s ∈ rs.rulesFor op.kind .logical .physical := hrules ▸ hs
    obtain ⟨q, hq, hdigest⟩ := hkept s hs
    obtain ⟨c, hc, hdigest⟩ := hdigest.resolve_left List.not_mem_nil
    exact ⟨c, hoffer hs hq hc hdigest, hleast c hc⟩
  · have hmem : s ∈ rs.rulesFor op.kind .logical .physical := by
      rw [hrules]
      exact List.mem_append_left _ hs
    obtain ⟨q, hq, hdigest⟩ := hbefore s hs
    obtain ⟨c, hc, hdigest⟩ := hdigest.resolve_left List.not_mem_nil
    exact ⟨c, hoffer hmem hq (List.mem_append_left _ hc) hdigest, hfront c hc⟩

theorem bestInputs_eq_ok : rs.bestInputs m inputs = .ok found ↔
    List.Forall₂ (fun input plan => ∃ b, rs.best m input = .ok b ∧ b.plan = plan) inputs found := by
  induction inputs generalizing found with
  | nil => simp [bestInputs, eq_comm]
  | cons p rest ih =>
    simp only [bestInputs, bind_eq_ok, pure_eq_ok, Except.ok.injEq, List.forall₂_cons_left_iff, ih]
    constructor
    · rintro ⟨b, hb, more, hmore, rfl⟩
      exact ⟨b.plan, more, ⟨b, hb, rfl⟩, hmore, rfl⟩
    · rintro ⟨_, more, ⟨b, hb, rfl⟩, hmore, rfl⟩
      exact ⟨b, hb, more, hmore, rfl⟩

theorem bestInputs_of_best (h : rs.best m (.node t op inputs) = .ok best) :
    ∃ found, rs.bestInputs m inputs = .ok found ∧ rs.bestOver m t op found = .ok best := by
  rw [Rules.best] at h
  exact bind_eq_ok.mp h

/-- A search that goes through does so at every node. -/
theorem best_of_mem_nodes {q : Plan} (h : rs.best m p = .ok c) (hq : q ∈ p.nodes) :
    ∃ b, rs.best m q = .ok b := by
  have hchain := chain_of_best h
  induction hchain generalizing c with
  | scan t container s =>
    rw [nodes_scan, List.mem_singleton] at hq
    exact ⟨c, hq ▸ h⟩
  | node t op input one below ih =>
    rw [nodes_over, List.mem_cons] at hq
    rcases hq with rfl | hq
    · exact ⟨c, h⟩
    · obtain ⟨found, hfound, -⟩ := bestInputs_of_best h
      obtain ⟨first, hfirst, -⟩ := bestInputs_singleton.mp hfound
      exact ih hfirst hq

/-- In each ordering any two costs compare, from both sides alike, and comparisons can be chained. At
each node that the search goes through, over the best plans of the inputs, it keeps what some rule for
the node makes, with its cost. No rule makes anything cheaper there, left out or not, and what earlier
rules make is dearer. -/
theorem search_keeps_first_cheapest :
    (∀ (ordering : CostOrdering) (a b c : Cost Double),
      ((Cost.compare ordering a b).isLE = true ∨ (Cost.compare ordering b a).isLE = true) ∧
      Cost.compare ordering b a = (Cost.compare ordering a b).swap ∧
      ((Cost.compare ordering a b).isLE = true → (Cost.compare ordering b c).isLE = true →
        (Cost.compare ordering a c).isLE = true)) ∧
    ∀ (rs : Rules) (m : Estimates Double) (p : Plan) (c : Candidate Double),
      rs.best m p = .ok c → rs.TellsApart m p →
      ∀ t op inputs, .node t op inputs ∈ p.nodes → ∃ found best,
        List.Forall₂ (fun input plan => ∃ b, rs.best m input = .ok b ∧ b.plan = plan) inputs found ∧
        rs.best m (.node t op inputs) = .ok best ∧
        rs.FirstCheapest m (.node t op found) best := by
  constructor
  · intro ordering a b c
    have hswap : Cost.compare ordering b a = (Cost.compare ordering a b).swap :=
      Std.OrientedCmp.eq_swap
    refine ⟨?_, hswap, Std.TransCmp.isLE_trans⟩
    rw [hswap]
    cases Cost.compare ordering a b with
    | lt => exact .inl rfl
    | eq => exact .inl rfl
    | gt => exact .inr rfl
  · intro rs m p c h hd t op inputs hmem
    obtain ⟨best, hbest⟩ := best_of_mem_nodes h hmem
    obtain ⟨found, hfound, hover⟩ := bestInputs_of_best hbest
    exact ⟨found, best, bestInputs_eq_ok.mp hfound, hbest,
      bestOver_firstCheapest hover (hd t op inputs found hmem hfound)⟩

/-- The default rules and the copy, with both ways to read a scan registered once more. -/
def withCopyAgain : Rules := (withCopy.register (physicalRule .scan)).register copyRule

/-- A thousand orders, ten of which are in the copy. -/
def orderRows : Estimates Double where
  settings := .default
  scanRows p :=
    match p.op with
    | .scan "orders" _ => .ok (.ofInt 1000)
    | _ => .ok (.ofInt 10)
  selectivity _ _ := none

theorem apply_withCopyAgain : withCopyAgain.apply (physicalRule .scan) logicalOrders =
    .ok wholeOrders ∧ withCopyAgain.apply copyRule logicalOrders = .ok copiedOrders := ⟨rfl, rfl⟩

theorem tellsApart_withCopyAgain : withCopyAgain.TellsApart orderRows logicalOrders := by
  intro t op inputs found hmem hfound q q' hq hq' hdigest
  simp only [logicalOrders, nodes_scan, List.mem_singleton, Plan.node.injEq] at hmem
  obtain ⟨rfl, rfl, rfl⟩ := hmem
  cases hfound
  refine tellsApart_logicalOrders (fun r hr => ?_) q q' hq hq' hdigest
  have hr : r ∈ [physicalRule .scan, copyRule, physicalRule .scan, copyRule] := hr
  simp only [List.mem_cons, List.not_mem_nil, or_false] at hr
  rcases hr with rfl | rfl | rfl | rfl
  · exact .inl apply_withCopyAgain.1
  · exact .inr apply_withCopyAgain.2
  · exact .inl apply_withCopyAgain.1
  · exact .inr apply_withCopyAgain.2

/-- What is made for the second time is left out, and of the two candidates the copy is cheaper. -/
theorem best_withCopyAgain : withCopyAgain.best orderRows logicalOrders =
    .ok ⟨copiedOrders, .make (.ofInt 10) (.ofInt 10) (.ofInt 10)⟩ := by
  have hcosts : orderRows.cost wholeOrders =
        .ok (.make (.ofInt 1000) (.ofInt 1000) (.ofInt 1000)) ∧
      orderRows.cost copiedOrders = .ok (.make (.ofInt 10) (.ofInt 10) (.ofInt 10)) :=
    ⟨Estimates.cost_scan_eq_ok.mpr ⟨rfl, _, rfl, rfl⟩,
      Estimates.cost_scan_eq_ok.mpr ⟨rfl, _, rfl, rfl⟩⟩
  have hrepeated : withCopyAgain.candidates orderRows logicalOrders
      [wholeOrders.digest, copiedOrders.digest] [physicalRule .scan, copyRule] = .ok [] := by
    rw [candidates_seen apply_withCopyAgain.1 (by simp),
      candidates_seen apply_withCopyAgain.2 (by simp), candidates]
  have hfound : withCopyAgain.candidates orderRows logicalOrders []
      [physicalRule .scan, copyRule, physicalRule .scan, copyRule] =
        .ok [⟨wholeOrders, .make (.ofInt 1000) (.ofInt 1000) (.ofInt 1000)⟩,
          ⟨copiedOrders, .make (.ofInt 10) (.ofInt 10) (.ofInt 10)⟩] :=
    candidates_new apply_withCopyAgain.1 List.not_mem_nil hcosts.1
      (candidates_new apply_withCopyAgain.2 (by simpa using digest_copiedOrders.symm) hcosts.2
        hrepeated)
  have hbelow : (Cost.make (.ofInt 10) (.ofInt 10) (.ofInt 10) : Cost Double).isBelow
      orderRows.settings.ordering (.make (.ofInt 1000) (.ofInt 1000) (.ofInt 1000)) = true := by
    decide +kernel
  rw [logicalOrders, best, bestInputs, ok_bind]
  refine bestOver_of_candidates rfl hfound ?_
  rw [Candidate.cheapest?, List.foldl_cons, Candidate.cheaper, if_pos hbelow]
  rfl

/-- The copy is kept although the scan of the orders was registered before it. -/
theorem search_keeps_first_cheapest_copy :
    (∃ best, withCopyAgain.best orderRows logicalOrders = .ok best ∧ best.plan = copiedOrders ∧
      withCopyAgain.FirstCheapest orderRows logicalOrders best) ∧
    ((Cost.compare .total ⟨.infinity false, .infinity true, .ofInt 0⟩
        (⟨.infinity true, .ofInt 1, .infinity false⟩ : Cost Double)).isLE = true ∨
      (Cost.compare .total ⟨.infinity true, .ofInt 1, .infinity false⟩
        (⟨.infinity false, .infinity true, .ofInt 0⟩ : Cost Double)).isLE = true) := by
  obtain ⟨hcosts, hsearch⟩ := search_keeps_first_cheapest
  refine ⟨?_, (hcosts .total _ _ ⟨.ofInt 0, .ofInt 0, .ofInt 0⟩).1⟩
  obtain ⟨found, best, hfound, hbest, hfirst⟩ := hsearch withCopyAgain orderRows logicalOrders _
    best_withCopyAgain tellsApart_withCopyAgain ⟨.logical, .any⟩ (.scan "orders" ⟨[]⟩) []
    List.mem_cons_self
  obtain rfl := List.forall₂_nil_left_iff.mp hfound
  refine ⟨best, hbest, ?_, hfirst⟩
  cases best_withCopyAgain.symm.trans hbest
  rfl

end Rules

end FlowPlan
