import FlowPlan.Proofs.Fingerprint

namespace FlowPlan

open Outcome

variable {ν : Type} [Quantity ν]

namespace Candidate

variable {ordering : CostOrdering} {best c : Candidate ν} {found : List (Candidate ν)}

theorem mem_of_cheapest? (h : cheapest? ordering found = some best) : best ∈ found := by
  cases found with
  | nil => cases h
  | cons first rest =>
    simp only [cheapest?, Option.some.injEq] at h
    subst h
    induction rest generalizing first with
    | nil => simp
    | cons next rest ih =>
      rw [List.foldl_cons]
      rcases List.mem_cons.mp (ih (cheaper ordering first next)) with hmem | hmem
      · rw [hmem, cheaper]
        split <;> simp
      · exact List.mem_cons_of_mem _ (List.mem_cons_of_mem _ hmem)

/-- No candidate is cheaper than the cheapest, where costs are ordered at all. -/
theorem not_below_cheapest?
    (htrans : ∀ a b c : Cost ν, a.isBelow ordering b = false → b.isBelow ordering c = false →
      a.isBelow ordering c = false)
    (hasymm : ∀ a b : Cost ν, a.isBelow ordering b = true → b.isBelow ordering a = false)
    (h : cheapest? ordering found = some best) :
    ∀ c ∈ found, c.cost.isBelow ordering best.cost = false := by
  cases found with
  | nil => cases h
  | cons first rest =>
    simp only [cheapest?, Option.some.injEq] at h
    subst h
    induction rest generalizing first with
    | nil =>
      have hself : first.cost.isBelow ordering first.cost = false :=
        Bool.eq_false_iff.mpr fun hbelow => Bool.eq_false_iff.mp (hasymm _ _ hbelow) hbelow
      simp [hself]
    | cons next rest ih =>
      rw [List.foldl_cons]
      have hleast := ih (cheaper ordering first next)
      have hfirst := hleast _ List.mem_cons_self
      rw [cheaper] at hleast hfirst ⊢
      split
      next hbelow =>
        rw [if_pos hbelow] at hleast hfirst
        exact List.forall_mem_cons.mpr ⟨htrans _ _ _ (hasymm _ _ hbelow) hfirst, hleast⟩
      next hbelow =>
        rw [if_neg hbelow] at hleast hfirst
        refine List.forall_mem_cons.mpr ⟨hfirst, List.forall_mem_cons.mpr ⟨?_, ?_⟩⟩
        · exact htrans _ _ _ (Bool.eq_false_iff.mpr hbelow) hfirst
        · exact (List.forall_mem_cons.mp hleast).2

end Candidate

namespace Rules

variable {rs : Rules} {m : Estimates ν} {p q : Plan} {t : Traits} {op : Operator}
  {inputs : List Plan} {c : Candidate ν} {rules : List Rule} {found : List (Candidate ν)}

/-- Every candidate carries its cost. -/
theorem candidates_cost {seen : List Digest} (h : rs.candidates m p seen rules = .ok found) :
    ∀ c ∈ found, m.cost c.plan = .ok c.cost := by
  induction rules generalizing seen found with
  | nil =>
    cases h
    simp
  | cons r rest ih =>
    obtain ⟨q, -, ⟨-, h⟩ | ⟨-, cost, more, hcost, hmore, rfl⟩⟩ := candidates_cons_eq_ok.mp h
    · exact ih h
    · exact List.forall_mem_cons.mpr ⟨hcost, ih hmore⟩

/-- What rules make of a node is as physical as they promise. -/
theorem convention_of_apply {r : Rule} (h : rs.apply r p = .ok q) : q.convention = r.target := by
  rw [apply, Rule.run] at h
  split at h
  · cases h
  · split at h
    · cases h
    · split at h
      next hc =>
        cases h
        exact hc
      next => cases h

theorem accepts_of_apply {r : Rule} (h : rs.apply r (.node t op inputs) = .ok q) :
    op.kind = r.kind ∧ t.convention = r.source := by
  rw [apply, Rule.run] at h
  split at h
  · cases h
  next haccepts =>
    rw [Bool.not_eq_true', Bool.not_eq_false, Rule.accepts, Bool.and_eq_true, beq_iff_eq,
      beq_iff_eq] at haccepts
    exact haccepts

theorem Makes.isPhysical (h : rs.Makes (rs.rulesFor op.kind .logical .physical) p q) :
    q.convention = .physical := by
  obtain ⟨r, hr, hq⟩ := h
  obtain ⟨-, hfits⟩ := List.mem_filter.mp hr
  simp only [Bool.and_eq_true, beq_iff_eq] at hfits
  rw [convention_of_apply hq, hfits.2]

/-- The rules for a node all apply to it, over the inputs that were chosen, and the best is the
cheapest of what they make. -/
theorem bestOver_eq_ok (h : rs.bestOver m t op inputs = .ok c) : inputs.length = op.arity ∧
    ∃ found, rs.candidates m (.node t op inputs) [] (rs.rulesFor op.kind .logical .physical) =
      .ok found ∧ Candidate.cheapest? m.settings.ordering found = some c := by
  rw [bestOver, bind_eq_ok] at h
  obtain ⟨staged, hstaged, h⟩ := h
  rw [mapError_eq_ok, Plan.make] at hstaged
  split at hstaged
  next hlength =>
    cases hstaged
    obtain ⟨found, hfound, h⟩ := bind_eq_ok.mp h
    refine ⟨hlength, found, hfound, ?_⟩
    split at h
    next best hbest =>
      cases h
      exact hbest
    next => cases h
  next => cases hstaged

/-- The cheapest of what the rules make is the best. -/
theorem bestOver_of_candidates {found : List (Candidate ν)} (h : inputs.length = op.arity)
    (hfound : rs.candidates m (.node t op inputs) [] (rs.rulesFor op.kind .logical .physical) =
      .ok found) (hbest : Candidate.cheapest? m.settings.ordering found = some c) :
    rs.bestOver m t op inputs = .ok c := by
  have hmake : Plan.make t op inputs = .ok (.node t op inputs) := by simp [Plan.make, h]
  rw [bestOver, hmake, mapError_ok, ok_bind, hfound, ok_bind, hbest]
  rfl

end Rules

end FlowPlan
