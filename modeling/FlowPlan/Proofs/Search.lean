import FlowPlan.Proofs.Costing
import FlowPlan.Proofs.Placement

namespace FlowPlan

open Outcome

namespace Rules

open Plan

/-- The default rules with some of them once more. -/
def Repeats (rs : Rules) : Prop :=
  ∃ extra, rs.all = Rules.default.all ++ extra ∧ ∀ r ∈ extra, r ∈ Rules.default.all

theorem repeats_default : Rules.default.Repeats := ⟨[], (List.append_nil _).symm, by simp⟩

theorem register_all (rs : Rules) (extra : List Rule) :
    (extra.foldl register rs).all = rs.all ++ extra := by
  induction extra generalizing rs with
  | nil => exact (List.append_nil _).symm
  | cons r rest ih => rw [List.foldl_cons, ih, register, List.append_assoc, List.singleton_append]

namespace Repeats

variable {rs : Rules}

/-- The rules for a step are those of the default rules, and repetitions of them. -/
theorem rulesFor (h : rs.Repeats) (kind : OperatorKind) (source target : Convention) :
    ∃ more, rs.rulesFor kind source target = Rules.default.rulesFor kind source target ++ more ∧
      ∀ r ∈ more, r ∈ Rules.default.rulesFor kind source target := by
  obtain ⟨extra, hall, hextra⟩ := h
  refine ⟨extra.filter _, by rw [Rules.rulesFor, hall, List.filter_append]; rfl, fun r hr => ?_⟩
  obtain ⟨hr, hfits⟩ := List.mem_filter.mp hr
  exact List.mem_filter.mpr ⟨hextra r hr, hfits⟩

theorem step_eq (h : rs.Repeats) (convertInput : Plan → Except Error Plan) (p : Plan)
    (next : Convention) : rs.step convertInput p next = Rules.default.step convertInput p next := by
  obtain ⟨more, hrules, hmore⟩ := h.rulesFor p.kind p.convention next
  rw [step, step, hrules]
  cases hd : Rules.default.rulesFor p.kind p.convention next with
  | nil =>
    rw [hd] at hmore
    rw [List.eq_nil_iff_forall_not_mem.mpr fun r hr => List.not_mem_nil (hmore r hr)]
    rfl
  | cons r rest => rfl

theorem convertWithin_eq (h : rs.Repeats) (n : Nat) :
    rs.convertWithin n = Rules.default.convertWithin n := by
  induction n with
  | zero => rfl
  | succ n ih =>
    funext target p
    simp only [convertWithin, ih, h.step_eq]

/-- A conversion takes the first rule for each step, so it does not see repetitions. -/
theorem convert_eq (h : rs.Repeats) : rs.convert = Rules.default.convert := by
  funext target p
  rw [convert, convert, h.convertWithin_eq]

end Repeats

section Search

variable {ν : Type} [Quantity ν] {m : Estimates ν} {rs : Rules} {t : Traits} {op : Operator}
  {found : List Plan} {p q : Plan} {c : Candidate ν}

theorem apply_physicalRule (rs : Rules) (ht : t.convention = .logical)
    (h : found.length = op.arity) (hp : ∀ q ∈ found, q.convention = .physical) :
    rs.apply (physicalRule op.kind) (.node t op found) =
      .ok (.node ⟨.physical, physicalDistribution op.kind found⟩ op found) := by
  have hin : found.mapM (rs.convert .physical) = .ok found := mapM_convert_reached hp
  rw [apply]
  exact hin ▸ run_physicalRule ht h

/-- What a repeated rule makes of a node was seen before. -/
theorem candidates_repeated {r : Rule} {seen : List Digest} {more : List Rule}
    (hr : rs.apply r p = .ok q) (hseen : q.digest ∈ seen) (hmore : ∀ x ∈ more, x = r) :
    rs.candidates m p seen more = .ok [] := by
  induction more with
  | nil => rfl
  | cons x rest ih =>
    obtain rfl := hmore x List.mem_cons_self
    have hcontains : seen.contains q.digest = true := List.contains_iff_mem.mpr hseen
    rw [candidates, hr, ok_bind, if_pos hcontains]
    exact ih fun y hy => hmore y (List.mem_cons_of_mem _ hy)

/-- Over physical inputs there is one candidate, which is therefore the best. -/
theorem Repeats.bestOver_eq (hrs : rs.Repeats) (found : List Plan) (ht : t.convention = .logical)
    (h : found.length = op.arity) (hp : ∀ q ∈ found, q.convention = .physical) :
    rs.bestOver m t op found = (do
      let cost ← m.cost (.node ⟨.physical, physicalDistribution op.kind found⟩ op found)
      pure ⟨.node ⟨.physical, physicalDistribution op.kind found⟩ op found, cost⟩) := by
  obtain ⟨more, hrules, hmore⟩ := hrs.rulesFor op.kind .logical .physical
  rw [rulesFor_default_physical] at hrules hmore
  have happly := apply_physicalRule rs ht h hp
  have hmake : Plan.make t op found = .ok (.node t op found) := by simp [Plan.make, h]
  -- the first rule's candidate is in, so the repetitions of the rule add none
  have hnone : rs.candidates m (.node t op found)
      ([] ++ [(Plan.node ⟨.physical, physicalDistribution op.kind found⟩ op found).digest]) more =
        .ok [] :=
    candidates_repeated happly (by simp) fun r hr => List.mem_singleton.mp (hmore r hr)
  rw [bestOver, hmake, mapError_ok, ok_bind, hrules, List.singleton_append, candidates, happly,
    ok_bind, hnone]
  cases m.cost (.node ⟨.physical, physicalDistribution op.kind found⟩ op found) <;> rfl

/-- What the search finds for a logical chain is its physical form, with the cost of that. -/
theorem Repeats.best_eq (hrs : rs.Repeats) (hc : Chain p) (hl : AllIn .logical p)
    (hb : rs.best m p = .ok c) : c.plan = p.physicalForm ∧ m.cost c.plan = .ok c.cost := by
  induction hc generalizing c with
  | scan t container s =>
    have ht : t.convention = .logical := hl.top
    rw [best, bestInputs, ok_bind, hrs.bestOver_eq [] ht rfl (by simp)] at hb
    obtain ⟨cost, hcost, hone⟩ := bind_eq_ok.mp hb
    cases hone
    exact ⟨(physicalForm_scan t _).symm, hcost⟩
  | node t op input one below ih =>
    simp only [best, bestInputs, ok_bind, pure_eq_ok] at hb
    obtain ⟨chosen, hchosen, hb⟩ := bind_eq_ok.mp hb
    obtain ⟨first, hfirst, hone⟩ := bind_eq_ok.mp hchosen
    cases hone
    have ht : t.convention = .logical := hl.top
    rw [(ih hl.below hfirst).1, hrs.bestOver_eq [input.physicalForm] ht one.symm
      (by simpa using physicalForm_convention input)] at hb
    obtain ⟨cost, hcost, hone⟩ := bind_eq_ok.mp hb
    cases hone
    exact ⟨(physicalForm_over t op input).symm, hcost⟩

/-- The search fails only where a cost is not to be had. -/
theorem Repeats.best_eq_ok (hrs : rs.Repeats) (hc : Chain p) (hl : AllIn .logical p)
    (hm : m.Counts p.physicalForm) : ∃ c, rs.best m p = .ok c := by
  induction hc with
  | scan t container s =>
    have ht : t.convention = .logical := hl.top
    have hcost := (Chain.scan t container s).physicalForm.cost_eq_ok
      (Chain.scan t container s).physicalForm_allIn hm
    obtain ⟨cost, hcost⟩ := hcost
    rw [physicalForm_scan] at hcost
    rw [best, bestInputs, ok_bind, hrs.bestOver_eq [] ht rfl (by simp), hcost]
    exact ⟨_, rfl⟩
  | node t op input one below ih =>
    have ht : t.convention = .logical := hl.top
    have hchain := Chain.node t op input one below
    obtain ⟨cost, hcost⟩ := hchain.physicalForm.cost_eq_ok hchain.physicalForm_allIn hm
    rw [physicalForm_over] at hm hcost
    obtain ⟨first, hfirst⟩ := ih hl.below (counts_below hm)
    simp only [best, bestInputs, hfirst, ok_bind, pure_eq_ok]
    rw [(hrs.best_eq below hl.below hfirst).1, hrs.bestOver_eq [input.physicalForm] ht one.symm
      (by simpa using physicalForm_convention input), hcost]
    exact ⟨_, rfl⟩

/-- A plan that can become logical ends in its physical form. -/
theorem Repeats.optimize_eq (hrs : rs.Repeats) {o : Optimized ν} (hc : Chain p)
    (hv : p.checkConventions = .ok ()) (hp : ∀ q ∈ p.nodes, q.convention ≠ .physical)
    (ho : rs.optimize m p = .ok o) :
    o.logical = p.logicalForm ∧ o.physical = p.physicalForm ∧ m.cost o.physical = .ok o.cost := by
  have hlogical : rs.convert .logical p = .ok p.logicalForm := by
    rw [hrs.convert_eq]
    exact convertWithin_logical hc hv hp (Nat.le_refl _)
  simp only [optimize, hlogical, ok_bind, pure_eq_ok] at ho
  obtain ⟨_, -, ho⟩ := bind_eq_ok.mp ho
  obtain ⟨found, hfound, ho⟩ := bind_eq_ok.mp ho
  obtain ⟨_, -, ho⟩ := bind_eq_ok.mp ho
  cases ho
  obtain ⟨hplan, hcost⟩ := hrs.best_eq hc.logicalForm hc.logicalForm_allIn hfound
  exact ⟨rfl, hplan.trans hc.physicalForm_logicalForm, hcost⟩

theorem Repeats.optimize_eq_ok (hrs : rs.Repeats) (hc : Chain p)
    (hs : m.settings.validate = .ok ()) (hv : p.checkConventions = .ok ())
    (hp : ∀ q ∈ p.nodes, q.convention ≠ .physical) (hm : m.Counts p.physicalForm) :
    ∃ o, rs.optimize m p = .ok o := by
  have hlogical : rs.convert .logical p = .ok p.logicalForm := by
    rw [hrs.convert_eq]
    exact convertWithin_logical hc hv hp (Nat.le_refl _)
  rw [← hc.physicalForm_logicalForm] at hm
  obtain ⟨c, hbest⟩ := hrs.best_eq_ok hc.logicalForm hc.logicalForm_allIn hm
  have hcheck : c.plan.checkConventions = .ok () := by
    rw [(hrs.best_eq hc.logicalForm hc.logicalForm_allIn hbest).1]
    exact hc.logicalForm.physicalForm.check_of_allIn hc.logicalForm.physicalForm_allIn
  simp only [optimize, hs, mapError_ok, hlogical, hbest, hcheck, ok_bind]
  exact ⟨_, rfl⟩

/-- A chain with nothing decided ends in its physical form. -/
theorem optimize_default {o : Optimized ν} (hc : Chain p) (hu : AllIn .unset p)
    (ho : Rules.default.optimize m p = .ok o) : o.physical = p.physicalForm :=
  (repeats_default.optimize_eq hc (hc.check_of_allIn hu) (fun q hq => by simp [hu q hq]) ho).2.1

/-- Registering default rules again, any of them and any number of times, does no harm: under valid
settings and with the rows of scans known, every plan that can be converted is optimized. The search
gives what conversion gives, and the cost of it. -/
theorem optimize_agrees_with_convert {extra : List Rule}
    (hextra : ∀ r ∈ extra, r ∈ Rules.default.all) (hs : m.settings.validate = .ok ())
    (hm : ∀ q : Plan, q.kind = .scan → ∃ n, m.scanRows q = .ok n) (ha : p.ArityCorrect)
    (hv : p.checkConventions = .ok ()) (hp : ∀ q ∈ p.nodes, q.convention ≠ .physical) :
    ∃ o, (extra.foldl register Rules.default).optimize m p = .ok o ∧
      (extra.foldl register Rules.default).convert .logical p = .ok o.logical ∧
      (extra.foldl register Rules.default).convert .physical p = .ok o.physical ∧
      m.cost o.physical = .ok o.cost := by
  have hrs : (extra.foldl register Rules.default).Repeats :=
    ⟨extra, register_all Rules.default extra, hextra⟩
  have hc := ha.chain
  obtain ⟨o, ho⟩ := hrs.optimize_eq_ok hc hs hv hp fun q _ => hm q
  obtain ⟨hlogical, hphysical, hcost⟩ := hrs.optimize_eq hc hv hp ho
  refine ⟨o, ho, ?_, ?_, hcost⟩
  · rw [hrs.convert_eq, hlogical]
    exact convertWithin_logical hc hv hp (Nat.le_refl _)
  · rw [hrs.convert_eq, hphysical]
    exact convert_physical hc hv hp

end Search

/-- With both rules for filters registered again, one of them twice, a filter over a logical scan is
optimized into what conversion makes of it. -/
theorem optimize_agrees_with_convert_filterOver : ∃ o : Optimized Double,
    ([physicalRule .filter, logicalRule .filter, physicalRule .filter].foldl register
      Rules.default).optimize (.fixed Settings.default (.ofInt 1000) none)
        (.filterOver .logical) = .ok o ∧
    ([physicalRule .filter, logicalRule .filter, physicalRule .filter].foldl register
      Rules.default).convert .physical (.filterOver .logical) = .ok o.physical ∧
    (Estimates.fixed (Settings.default : Settings Double) (.ofInt 1000) none).cost o.physical = .ok o.cost := by
  obtain ⟨ha, hv⟩ := Plan.filterOver_valid .logical
  have hextra : ∀ r ∈ [physicalRule .filter, logicalRule .filter, physicalRule .filter],
      r ∈ Rules.default.all := by
    intro r hr
    simp only [List.mem_cons, List.not_mem_nil, or_false] at hr
    rcases hr with rfl | rfl | rfl <;> simp [Rules.default, OperatorKind.all]
  obtain ⟨o, ho, -, hphysical, hcost⟩ := optimize_agrees_with_convert
    (m := .fixed (Settings.default : Settings Double) (.ofInt 1000) none) hextra rfl (fun q _ => ⟨_, rfl⟩) ha hv
    (by simp [Plan.filterOver, Plan.convention, Plan.traits, Traits.undecided])
  exact ⟨o, ho, hphysical, hcost⟩

end Rules

end FlowPlan
