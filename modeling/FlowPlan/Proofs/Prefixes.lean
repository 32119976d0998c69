import FlowPlan.Proofs.RoundTrip

namespace FlowPlan

open Outcome

/-- What other keywords a keyword is, is seen on its usual spelling. -/
theorem Token.isKeyword_congr {t : Token} {a b : String} (h : t.isKeyword a = true) :
    t.isKeyword b = Text.sameWord a b := by
  cases t with
  | word w =>
    have hw : Text.lowerAscii w.toList = Text.lowerAscii a.toList := eq_of_beq h
    rw [isKeyword, Text.sameWord, Text.sameWord, hw]
  | _ => cases h

namespace Expr

variable {s : Schema} {level k : Nat} {e left : Expr} {ts rest more : List Token}
  {found : Expr × List Token}

theorem rest_of_further_nil (h : further s level left [] = .ok (e, rest)) : rest = [] := by
  rw [further_nil] at h
  cases h
  rfl

theorem nullTest_append (h : Parsed.pair <$> nullTest left ts = .ok (e, rest)) :
    Parsed.pair <$> nullTest left (ts ++ more) = .ok (e, rest ++ more) := by
  obtain ⟨p, hp, hpair⟩ := map_eq_ok.mp h
  cases hpair
  unfold nullTest at hp
  split at hp
  · cases hp
  · next t =>
    split at hp
    next hnull =>
      cases hp
      have hnot : t.isKeyword "NOT" = false := Token.isKeyword_congr hnull
      cases more with
      | nil => simp [nullTest, hnull, Parsed.pair]
      | cons u more => simp [nullTest, hnull, hnot, Parsed.pair]
    next => split at hp <;> cases hp
  · next t u tail =>
    split at hp
    next hnot =>
      split at hp
      next hnull =>
        cases hp
        simp [nullTest, hnot, hnull, Parsed.pair]
      next => cases hp
    next hnot =>
      split at hp
      next hnull =>
        cases hp
        simp [nullTest, hnot, hnull, Parsed.pair]
      next => cases hp

/-- What is read from fewer than `n` tokens is read from them with more after them, unless these go
on with the last operand. An operand of NOT or of a minus sign goes on at the level of NOT. -/
def AppendsBelow (s : Schema) (n : Nat) : Prop :=
  ∀ us : List Token, us.length < n → ∀ (level : Nat) (e : Expr) (rest more : List Token),
    whole s level us = .ok (e, rest) → (rest = [] → Stops (min level notLevel) more) →
    whole s level (us ++ more) = .ok (e, rest ++ more)

theorem primary_append (ih : AppendsBelow s ts.length) (h : primary s ts = .ok (e, rest))
    (hstop : rest = [] → Stops notLevel more) :
    primary s (ts ++ more) = .ok (e, rest ++ more) := by
  cases ts with
  | nil => simp at h
  | cons t ts =>
    have hwhole := ih ts (Nat.lt_succ_self _)
    rw [List.cons_append]
    rcases start_cases t with rfl | rfl | rfl | hn | ha
    · rw [primary_minus] at h ⊢
      obtain ⟨⟨inner, rest⟩, hinner, h⟩ := bind_eq_ok.mp h
      cases h
      rw [hwhole _ _ _ _ hinner hstop]
      rfl
    · rw [primary_plus] at h ⊢
      exact hwhole _ _ _ _ h hstop
    · rw [primary_leftParen] at h ⊢
      obtain ⟨⟨inner, rest'⟩, hinner, h⟩ := bind_eq_ok.mp h
      change closing inner rest' = .ok (e, rest) at h
      unfold closing at h
      split at h
      · cases h
        rw [hwhole _ _ _ _ hinner (by simp)]
        rfl
      · cases h
      · cases h
    · rw [primary_not hn] at h ⊢
      obtain ⟨⟨inner, rest⟩, hinner, h⟩ := bind_eq_ok.mp h
      cases h
      rw [hwhole _ _ _ _ hinner hstop]
      rfl
    · rw [primary_atom ha] at h ⊢
      obtain ⟨atom, hatom, h⟩ := bind_eq_ok.mp h
      cases h
      rw [hatom]
      rfl

theorem follow_append {op : Infix} (ih : AppendsBelow s (ts.length + 1))
    (h : op.follow s left ts = .ok (e, rest))
    (hstop : rest = [] → Stops (min op.level notLevel) more) :
    op.follow s left (ts ++ more) = .ok (e, rest ++ more) := by
  cases op with
  | isNull => exact nullTest_append h
  | binary k combine =>
    obtain ⟨⟨right, rest⟩, hright, h⟩ := bind_eq_ok.mp h
    cases h
    rw [Infix.follow, ih ts (Nat.lt_succ_self _) k _ _ _ hright hstop]
    rfl

/-- By induction on the tokens, for each operator leaves fewer of them. -/
theorem further_append {n : Nat} : (ts : List Token) → {left : Expr} → AppendsBelow s n →
    ts.length ≤ n → further s level left ts = .ok (e, rest) →
    (rest = [] → Stops (min level notLevel) more) →
    further s level left (ts ++ more) = .ok (e, rest ++ more)
  | [], left, ih, hn, h, hstop => by
    rw [further_nil] at h
    cases h
    exact ((hstop rfl).mono (Nat.min_le_left _ _)).further
  | t :: ts, left, ih, hn, h, hstop => by
    rw [List.cons_append]
    cases ho : Infix.ofToken? t with
    | none =>
      rw [further_none ho] at h ⊢
      cases h
      rfl
    | some op =>
      by_cases htight : level < op.level
      · rw [further_tight ho htight] at h ⊢
        obtain ⟨⟨next, rest'⟩, hnext, h⟩ := bind_eq_ok.mp h
        have hlen : rest'.length < ts.length := follow_length hnext
        have hstop' : rest' = [] → Stops (min op.level notLevel) more := by
          rintro rfl
          exact (hstop (rest_of_further_nil h)).mono (by omega)
        rw [follow_append (fun us hu => ih us (Nat.lt_of_lt_of_le hu hn)) hnext hstop', ok_bind]
        exact further_append rest' ih (by simp only [List.length_cons] at hn; omega) h hstop
      · rw [further_loose ho (Nat.le_of_not_lt htight)] at h ⊢
        cases h
        rfl
termination_by ts => ts.length

theorem appendsBelow (s : Schema) : (n : Nat) → AppendsBelow s n
  | 0 => fun us hu => absurd hu (Nat.not_lt_zero _)
  | n + 1 => by
    intro us hu level e rest more h hstop
    have ih : AppendsBelow s us.length := fun vs hv =>
      appendsBelow s n vs (Nat.lt_of_lt_of_le hv (Nat.le_of_lt_succ hu))
    rw [whole_eq] at h ⊢
    obtain ⟨⟨first, rest'⟩, hfirst, h⟩ := bind_eq_ok.mp h
    have hstop' : rest' = [] → Stops notLevel more := by
      rintro rfl
      exact (hstop (rest_of_further_nil h)).mono (Nat.min_le_right _ _)
    rw [primary_append ih hfirst hstop', ok_bind]
    exact further_append rest' ih (Nat.le_of_lt (length_of_pair hfirst)) h hstop

theorem whole_append (h : whole s level ts = .ok (e, rest))
    (hstop : rest = [] → Stops (min level notLevel) more) :
    whole s level (ts ++ more) = .ok (e, rest ++ more) :=
  appendsBelow s (ts.length + 1) ts (Nat.lt_succ_self _) level e rest more h hstop

/-- By induction on the tokens: where the higher level stops, the lower one goes on. -/
theorem further_further (hk : k ≤ level) : (ts : List Token) → (left : Expr) →
    further s k left ts = (do
      let (e, rest) ← further s level left ts
      further s k e rest)
  | [], left => by
    simp only [further_nil, ok_bind]
  | t :: ts, left => by
    cases ho : Infix.ofToken? t with
    | none =>
      have hend : further s level left (t :: ts) = .ok (left, t :: ts) := further_none ho
      rw [hend, ok_bind]
    | some op =>
      by_cases htight : level < op.level
      · rw [further_tight ho htight, further_tight ho (Nat.lt_of_le_of_lt hk htight)]
        cases hnext : op.follow s left ts with
        | error x => rfl
        | ok found =>
          obtain ⟨e, rest⟩ := found
          have hlen : rest.length < ts.length := follow_length hnext
          exact further_further hk rest e
      · have hend : further s level left (t :: ts) = .ok (left, t :: ts) :=
          further_loose ho (Nat.le_of_not_lt htight)
        rw [hend, ok_bind]
termination_by ts => ts.length

theorem whole_lower (hk : k ≤ level) : whole s k ts = (do
    let (e, rest) ← whole s level ts
    further s k e rest) := by
  rw [whole_eq, whole_eq]
  cases primary s ts with
  | error x => rfl
  | ok found => exact further_further hk found.2 found.1

end Expr

end FlowPlan
