import FlowPlan.Proofs.NormalForm

namespace FlowPlan

open Outcome

namespace Expr

/-- A call of the reader. -/
inductive Call where
  | operand (ts : List Token)
  | extend (level : Nat) (left : Expr) (ts : List Token)
  | expression (level : Nat) (ts : List Token)

namespace Call

/-- The tokens that a call starts at. -/
def tokens : Call → List Token
  | .operand ts => ts
  | .extend _ _ ts => ts
  | .expression _ ts => ts

/-- What a call gives: an expression, and the tokens that it leaves. -/
def result (s : Schema) : Call → Except SyntaxError (Expr × List Token)
  | .operand ts => primary s ts
  | .extend level left ts => further s level left ts
  | .expression level ts => whole s level ts

/-- One call makes another, which may have to wait for what earlier ones gave. -/
inductive Makes (s : Schema) : Call → Call → Prop where
  | minus (ts : List Token) : Makes s (.operand (.minus :: ts)) (.expression signLevel ts)
  | plus (ts : List Token) : Makes s (.operand (.plus :: ts)) (.expression signLevel ts)
  | parenthesis (ts : List Token) : Makes s (.operand (.leftParen :: ts)) (.expression 0 ts)
  | not {t : Token} (keyword : t.isKeyword "NOT" = true) (ts : List Token) :
      Makes s (.operand (t :: ts)) (.expression notLevel ts)
  | first (level : Nat) (ts : List Token) : Makes s (.expression level ts) (.operand ts)
  | onward {ts rest : List Token} {e : Expr} (read : primary s ts = .ok (e, rest)) (level : Nat) :
      Makes s (.expression level ts) (.extend level e rest)
  | right {t : Token} {l level : Nat} {combine : Expr → Expr → Expr}
      (operator : Infix.ofToken? t = some (.binary l combine)) (tight : level < l) (left : Expr)
      (ts : List Token) : Makes s (.extend level left (t :: ts)) (.expression l ts)
  | again {t : Token} {op : Infix} {level : Nat} {left e : Expr} {ts rest : List Token}
      (operator : Infix.ofToken? t = some op) (tight : level < op.level)
      (read : op.follow s left ts = .ok (e, rest)) :
      Makes s (.extend level left (t :: ts)) (.extend level e rest)

/-- A bound on the calls below a call. -/
def size : Call → Nat
  | .operand ts => 2 * ts.length
  | .extend _ _ ts => 2 * ts.length
  | .expression _ ts => 2 * ts.length + 1

variable {s : Schema} {c made : Call} {found : Expr × List Token} {e left : Expr}
  {ts rest : List Token} {t : Token} {op : Infix}

theorem Makes.size_lt (h : Makes s c made) : made.size < c.size := by
  cases h with
  | minus ts | plus ts | parenthesis ts | not keyword ts | right operator tight left ts =>
    simp only [size, List.length_cons]
    omega
  | first level ts => exact Nat.lt_succ_self _
  | onward read level =>
    have hlen := length_of_pair read
    simp only [size] at hlen ⊢
    omega
  | again operator tight read =>
    have hlen := follow_length read
    simp only [size, List.length_cons] at hlen ⊢
    omega

/-- Calls do not go on calling forever. -/
theorem wellFounded_makes (s : Schema) : WellFounded fun made c => Makes s c made :=
  Subrelation.wf Makes.size_lt (measure size).wf

theorem nullTest_suffix (h : Parsed.pair <$> nullTest left ts = .ok found) : found.2 <:+ ts := by
  obtain ⟨p, hp, rfl⟩ := map_eq_ok.mp h
  unfold nullTest at hp
  split at hp
  · cases hp
  · split at hp
    · cases hp
      exact List.nil_suffix
    · split at hp <;> cases hp
  · split at hp
    · split at hp
      · cases hp
        exact (List.suffix_cons _ _).trans (List.suffix_cons _ _)
      · cases hp
    · split at hp
      · cases hp
        exact List.suffix_cons _ _
      · cases hp

theorem closing_suffix (h : closing e ts = .ok found) : found.2 <:+ ts := by
  unfold closing at h
  split at h
  · cases h
    exact List.suffix_cons _ _
  · cases h
  · cases h

/-- What a call leaves are the last of its tokens. By induction on the calls that it makes. -/
theorem result_suffix (h : c.result s = .ok found) : found.2 <:+ c.tokens := by
  induction c using (wellFounded_makes s).induction generalizing found with
  | _ c ih =>
    cases c with
    | operand ts =>
      change primary s ts = .ok found at h
      cases ts with
      | nil => simp at h
      | cons t ts =>
        rcases start_cases t with rfl | rfl | rfl | hn | ha
        · rw [primary_minus] at h
          obtain ⟨inner, hinner, h⟩ := bind_eq_ok.mp h
          cases h
          exact (ih _ (.minus ts) hinner).trans (List.suffix_cons _ _)
        · rw [primary_plus] at h
          exact (ih _ (.plus ts) h).trans (List.suffix_cons _ _)
        · rw [primary_leftParen] at h
          obtain ⟨⟨e, rest⟩, hinner, h⟩ := bind_eq_ok.mp h
          exact ((closing_suffix h).trans (ih _ (.parenthesis ts) hinner)).trans
            (List.suffix_cons _ _)
        · rw [primary_not hn] at h
          obtain ⟨inner, hinner, h⟩ := bind_eq_ok.mp h
          cases h
          exact (ih _ (.not hn ts) hinner).trans (List.suffix_cons _ _)
        · rw [primary_atom ha] at h
          obtain ⟨e, -, h⟩ := bind_eq_ok.mp h
          cases h
          exact List.suffix_cons t ts
    | extend level left ts =>
      change further s level left ts = .ok found at h
      cases ts with
      | nil =>
        rw [further_nil] at h
        cases h
        exact List.suffix_refl _
      | cons t ts =>
        cases ho : Infix.ofToken? t with
        | none =>
          rw [further_none ho] at h
          cases h
          exact List.suffix_refl _
        | some op =>
          by_cases htight : level < op.level
          · rw [further_tight ho htight] at h
            obtain ⟨⟨e, rest⟩, hop, h⟩ := bind_eq_ok.mp h
            have hrest : rest <:+ ts := by
              cases op with
              | isNull => exact nullTest_suffix hop
              | binary l combine =>
                obtain ⟨right, hright, hop⟩ := bind_eq_ok.mp hop
                cases hop
                exact ih _ (.right ho htight left ts) hright
            exact ((ih _ (.again ho htight hop) h).trans hrest).trans (List.suffix_cons t ts)
          · rw [further_loose ho (Nat.le_of_not_lt htight)] at h
            cases h
            exact List.suffix_refl _
    | expression level ts =>
      change whole s level ts = .ok found at h
      rw [whole_eq] at h
      obtain ⟨⟨e, rest⟩, hfirst, h⟩ := bind_eq_ok.mp h
      exact (ih _ (.onward hfirst level) h).trans (ih _ (.first level ts) hfirst)

theorem follow_suffix (h : op.follow s left ts = .ok found) : found.2 <:+ ts := by
  cases op with
  | isNull => exact nullTest_suffix h
  | binary l combine =>
    obtain ⟨right, hright, h⟩ := bind_eq_ok.mp h
    cases h
    have hrest : right.2 <:+ ts := result_suffix (c := .expression l ts) hright
    exact hrest

/-- A call starts at some of the last tokens of the call that makes it. -/
theorem Makes.suffix (h : Makes s c made) : made.tokens <:+ c.tokens := by
  cases h with
  | minus ts | plus ts | parenthesis ts | not keyword ts | right operator tight left ts =>
    exact List.suffix_cons _ _
  | first level ts => exact List.suffix_refl _
  | onward read level => exact result_suffix (c := .operand _) read
  | again operator tight read => exact (follow_suffix read).trans (List.suffix_cons _ _)

theorem suffix_of_reached (h : Relation.ReflTransGen (Makes s) c made) :
    made.tokens <:+ c.tokens := by
  induction h with
  | refl => exact List.suffix_refl _
  | tail _ hmade ih => exact hmade.suffix.trans ih

end Call

/-- A shorter list of last tokens comes after at least one token. -/
theorem exists_taken {ts rest : List Token} (h : rest <:+ ts) (hlen : rest.length < ts.length) :
    ∃ taken, taken ≠ [] ∧ ts = taken ++ rest := by
  obtain ⟨taken, rfl⟩ := h
  refine ⟨taken, ?_, rfl⟩
  rintro rfl
  simp at hlen

/-- The opposite of the integer of a literal is an integer of its type. -/
def HasOpposite : Expr → Prop
  | .literal (.int32 v) => v ≠ Int32.minValue ∧ (-v).toInt = -v.toInt
  | .literal (.int64 v) => v ≠ Int64.minValue ∧ (-v).toInt = -v.toInt
  | _ => True

theorem Normal.hasOpposite {s : Schema} {e : Expr} (h : Normal s e) : e.HasOpposite := by
  unfold HasOpposite
  split
  · next v =>
    cases h with
    | literal spelled =>
      have hv : v.toInt.natAbs < 2 ^ 31 := spelled
      refine ⟨?_, Scalar.toInt_neg_int32 hv⟩
      rintro rfl
      exact absurd hv (by decide)
  · next v =>
    cases h with
    | literal spelled =>
      have hv : v.toInt.natAbs < 2 ^ 63 := spelled.2
      refine ⟨?_, Scalar.toInt_neg_int64 hv⟩
      rintro rfl
      exact absurd hv (by decide)
  · trivial

/-- However deep in an expression a minus sign stands, the integer after it has an opposite, if the
number tokens are as texts give them. Every operand takes at least one token, and so does what an
operator does with the tokens after it; no chain of calls goes on forever, and none leaves the list
of tokens. -/
theorem descent_sound (s : Schema) (ts : List Token) :
    ((∀ t ∈ ts, t.Lexed) → ∀ level rest e more,
      Relation.ReflTransGen (Call.Makes s) (.expression level ts) (.operand (.minus :: rest)) →
      whole s signLevel rest = .ok (e, more) →
      primary s (.minus :: rest) = .ok (e.negated, more) ∧ e.HasOpposite) ∧
    (∀ text, Token.ofChars text = .ok ts → ∀ t ∈ ts, t.Lexed) ∧
    (∀ e rest, primary s ts = .ok (e, rest) → ∃ taken, taken ≠ [] ∧ ts = taken ++ rest) ∧
    (∀ t op left e rest, Infix.ofToken? t = some op → op.follow s left ts = .ok (e, rest) →
      ∃ taken, taken ≠ [] ∧ ts = taken ++ rest) ∧
    WellFounded (fun made c => Call.Makes s c made) ∧
    ∀ c made, Relation.ReflTransGen (Call.Makes s) c made → made.tokens <:+ c.tokens := by
  refine ⟨fun ht level rest e more hreached hinner => ?_, fun text h => Token.ofChars_lexed _ h,
    fun e rest h => ?_, fun t op left e rest _ h => ?_, Call.wellFounded_makes s,
    fun c made h => Call.suffix_of_reached h⟩
  · have hsuffix : .minus :: rest <:+ ts := Call.suffix_of_reached hreached
    have hrest : ∀ t ∈ rest, t.Lexed :=
      lexed_of_suffix ht ((List.suffix_cons _ _).trans hsuffix)
    refine ⟨?_, (whole_normal hrest hinner).hasOpposite⟩
    rw [primary_minus, hinner]
    rfl
  · exact exists_taken (Call.result_suffix (c := .operand ts) h) (length_of_pair h)
  · exact exists_taken (Call.follow_suffix h) (follow_length h)

/-- A number in parentheses after two signs, one of them inside. -/
def twiceSigned : List Token := [.minus, .leftParen, .minus, .number "2147483647", .rightParen]

theorem lexed_twiceSigned : ∀ t ∈ twiceSigned, t.Lexed := by
  simp only [twiceSigned, List.forall_mem_cons, List.not_mem_nil, false_imp_iff, implies_true,
    and_true]
  exact ⟨trivial, trivial, trivial, ⟨'2', _, rfl, rfl⟩, trivial⟩

/-- The call that reads the inner sign. -/
theorem reached_twiceSigned : Relation.ReflTransGen (Call.Makes ⟨[]⟩) (.expression 0 twiceSigned)
    (.operand [.minus, .number "2147483647", .rightParen]) :=
  .tail (.tail (.tail (.tail (.tail .refl (.first _ _)) (.minus _)) (.first _ _))
    (.parenthesis _)) (.first _ _)

/-- The inner sign stands before the largest integer of its type, and the outer one before the
least integer that has an opposite. All tokens are taken. -/
theorem descent_sound_twiceSigned :
    primary ⟨[]⟩ [.minus, .number "2147483647", .rightParen] =
        .ok (.literal (.int32 (-2147483647)), [.rightParen]) ∧
      HasOpposite (.literal (.int32 2147483647)) ∧
      ∃ taken, taken ≠ [] ∧ twiceSigned = taken ++ [] := by
  have hnumber : Scalar.ofNumber? "2147483647" = .ok (.int32 2147483647) := by decide +kernel
  have hinner : whole ⟨[]⟩ signLevel [.number "2147483647", .rightParen] =
      .ok (.literal (.int32 2147483647), [.rightParen]) := by
    rw [whole_eq, primary_atom rfl, atom, hnumber]
    exact further_none rfl
  obtain ⟨hsigned, -, htaken, -⟩ := descent_sound ⟨[]⟩ twiceSigned
  obtain ⟨hprimary, hopposite⟩ := hsigned lexed_twiceSigned 0 _ _ _ reached_twiceSigned hinner
  have hwithin : whole ⟨[]⟩ 0 [.minus, .number "2147483647", .rightParen] =
      .ok (.literal (.int32 (-2147483647)), [.rightParen]) := by
    rw [whole_eq, hprimary]
    exact further_none rfl
  have hbracket : whole ⟨[]⟩ signLevel [.leftParen, .minus, .number "2147483647", .rightParen] =
      .ok (.literal (.int32 (-2147483647)), []) := by
    rw [whole_eq, primary_leftParen, hwithin]
    exact further_nil
  have houter : primary ⟨[]⟩ twiceSigned = .ok (.literal (.int32 2147483647), []) := by
    rw [twiceSigned, primary_minus, hbracket]
    rfl
  exact ⟨hprimary, hopposite, htaken _ _ houter⟩

end Expr

end FlowPlan
