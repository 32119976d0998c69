import FlowPlan.Plan.Explain
import FlowPlan.Proofs.LeftToRight

namespace FlowPlan

namespace Expr

variable {op : Comparison} {e l r other : Expr} {number : DataType}

/-- Neither a comparison nor a null test. -/
def isTerm : Expr → Bool
  | .compare .. => false
  | .isNull _ => false
  | .isNotNull _ => false
  | _ => true

/-- Null tests, if any, of something that is no comparison. -/
def isTested : Expr → Bool
  | .compare .. => false
  | .isNull e => isTested e
  | .isNotNull e => isTested e
  | _ => true

mutual

/-- An expression whose text shows how it is grouped: the right side of a comparison is a term, the
left side and what is tested for NULL holds no comparison outside of parentheses, and AND and OR have
two items at least. -/
def Grouped : Expr → Prop
  | .column _ => True
  | .literal _ => True
  | .compare _ l r => l.isTested = true ∧ r.isTerm = true ∧ Grouped l ∧ Grouped r
  | .arithmetic _ l r => Grouped l ∧ Grouped r
  | .and items => 2 ≤ items.length ∧ GroupedItems items
  | .or items => 2 ≤ items.length ∧ GroupedItems items
  | .not e => Grouped e
  | .isNull e => e.isTested = true ∧ Grouped e
  | .isNotNull e => e.isTested = true ∧ Grouped e

def GroupedItems : List Expr → Prop
  | [] => True
  | e :: rest => Grouped e ∧ GroupedItems rest

end

theorem chained_of_isTerm (h : r.isTerm = true) : chained op l r = .compare op l r := by
  cases r <;> first | rfl | cases h

theorem isTested_chained (op : Comparison) (l : Expr) : (r : Expr) → (chained op l r).isTested = false
  | .compare .. => rfl
  | .isNull a => by rw [chained, isTested, isTested_chained op l a]
  | .isNotNull a => by rw [chained, isTested, isTested_chained op l a]
  | .column _ | .literal _ | .arithmetic .. | .and _ | .or _ | .not _ => rfl

theorem isTerm_chained (op : Comparison) (l r : Expr) : (chained op l r).isTerm = false := by
  cases r <;> rfl

theorem isTerm_asRead (e : Expr) : e.asRead.isTerm = e.isTerm := by
  cases e with
  | compare op l r => rw [asRead, isTerm_chained, isTerm]
  | or items =>
    rw [asRead]
    split <;> rfl
  | _ => rfl

theorem isTested_asRead : (e : Expr) → e.asRead.isTested = e.isTested
  | .compare op l r => by rw [asRead, isTested_chained, isTested]
  | .isNull e => by rw [asRead, isTested, isTested, isTested_asRead e]
  | .isNotNull e => by rw [asRead, isTested, isTested, isTested_asRead e]
  | .or items => by
    rw [asRead]
    split <;> rfl
  | .column _ | .literal _ | .arithmetic .. | .and _ | .not _ => rfl

/-- A chain is grouped exactly if it is one comparison of grouped sides. -/
theorem grouped_chained : (chained op l r).Grouped ↔
    l.isTested = true ∧ r.isTerm = true ∧ l.Grouped ∧ r.Grouped := by
  constructor
  · intro h
    have hchain {a : Expr} : (chained op l a).isTested ≠ true := by
      rw [isTested_chained]
      exact Bool.false_ne_true
    cases r with
    | compare next a b =>
      rw [chained, Grouped] at h
      exact absurd h.1 hchain
    | isNull a =>
      rw [chained, Grouped] at h
      exact absurd h.1 hchain
    | isNotNull a =>
      rw [chained, Grouped] at h
      exact absurd h.1 hchain
    | _ => rwa [chained, Grouped] at h <;> simp
  · intro h
    rwa [chained_of_isTerm h.2.1, Grouped]

mutual

theorem grouped_asRead : (e : Expr) → (e.asRead.Grouped ↔ e.Grouped)
  | .column i => by rw [asRead]
  | .literal v => by simp [asRead, Grouped]
  | .compare op l r => by
    rw [asRead, grouped_chained, grouped_asRead l, grouped_asRead r, isTested_asRead, isTerm_asRead,
      Grouped]
  | .arithmetic op l r => by rw [asRead, Grouped, grouped_asRead l, grouped_asRead r, Grouped]
  | .and items => by
    rw [asRead, Grouped, length_asReadItems, groupedItems_asRead items, Grouped]
  | .or items => by
    rw [asRead]
    split <;> rw [Grouped, length_asReadItems, groupedItems_asRead items, Grouped]
  | .not e => by rw [asRead, Grouped, grouped_asRead e, Grouped]
  | .isNull e => by rw [asRead, Grouped, grouped_asRead e, isTested_asRead, Grouped]
  | .isNotNull e => by rw [asRead, Grouped, grouped_asRead e, isTested_asRead, Grouped]

theorem groupedItems_asRead : (items : List Expr) →
    (GroupedItems (asReadItems items) ↔ GroupedItems items)
  | [] => by rw [asReadItems]
  | e :: rest => by
    rw [asReadItems, GroupedItems, grouped_asRead e, groupedItems_asRead rest, GroupedItems]

end

mutual

/-- An expression with the texts of its literals in place of their values. -/
def labelled : Expr → Expr
  | .column i => .column i
  | .literal v => .literal (.text v.literalText)
  | .compare op l r => .compare op (labelled l) (labelled r)
  | .arithmetic op l r => .arithmetic op (labelled l) (labelled r)
  | .and items => .and (labelledItems items)
  | .or items => .or (labelledItems items)
  | .not e => .not (labelled e)
  | .isNull e => .isNull (labelled e)
  | .isNotNull e => .isNotNull (labelled e)

def labelledItems : List Expr → List Expr
  | [] => []
  | e :: rest => labelled e :: labelledItems rest

end

mutual

/-- A grouped expression is read as it is, but for its literals. -/
theorem asRead_of_grouped : (e : Expr) → e.Grouped → e.asRead = e.labelled
  | .column i, _ => rfl
  | .literal v, _ => rfl
  | .compare op l r, h => by
    rw [Grouped] at h
    have hterm : r.asRead.isTerm = true := by rw [isTerm_asRead, h.2.1]
    rw [asRead, chained_of_isTerm hterm, asRead_of_grouped l h.2.2.1, asRead_of_grouped r h.2.2.2,
      labelled]
  | .arithmetic op l r, h => by
    rw [Grouped] at h
    rw [asRead, asRead_of_grouped l h.1, asRead_of_grouped r h.2, labelled]
  | .and items, h => by
    rw [Grouped] at h
    rw [asRead, asReadItems_of_grouped items h.2, labelled]
  | .or items, h => by
    rw [Grouped] at h
    rw [asRead, if_neg (by omega), asReadItems_of_grouped items h.2, labelled]
  | .not e, h => by
    rw [Grouped] at h
    rw [asRead, asRead_of_grouped e h, labelled]
  | .isNull e, h => by
    rw [Grouped] at h
    rw [asRead, asRead_of_grouped e h.2, labelled]
  | .isNotNull e, h => by
    rw [Grouped] at h
    rw [asRead, asRead_of_grouped e h.2, labelled]

theorem asReadItems_of_grouped : (items : List Expr) → GroupedItems items →
    asReadItems items = labelledItems items
  | [], _ => rfl
  | e :: rest, h => by
    rw [GroupedItems] at h
    rw [asReadItems, asRead_of_grouped e h.1, asReadItems_of_grouped rest h.2, labelledItems]

end

mutual

/-- The texts of literals stand for their values, where all numbers are of one type. -/
theorem labelled_inj : (a b : Expr) → (∀ v ∈ a.literals, v.Shown number) →
    (∀ v ∈ b.literals, v.Shown number) → a.labelled = b.labelled → a = b
  | .column _, b, _, _, h => by
    cases b <;> simp_all [labelled]
  | .literal v, b, ha, hb, h => by
    cases b with
    | literal w =>
      rw [labelled, labelled, literal.injEq, Scalar.text.injEq] at h
      rw [(ha v (by simp [literals])).literalText_injective (hb w (by simp [literals])) h]
    | _ => simp [labelled] at h
  | .compare op l r, b, ha, hb, h => by
    cases b with
    | compare next c d =>
      simp only [labelled, compare.injEq] at h
      simp only [literals, List.forall_mem_append] at ha hb
      rw [h.1, labelled_inj l c ha.1 hb.1 h.2.1, labelled_inj r d ha.2 hb.2 h.2.2]
    | _ => simp [labelled] at h
  | .arithmetic op l r, b, ha, hb, h => by
    cases b with
    | arithmetic next c d =>
      simp only [labelled, arithmetic.injEq] at h
      simp only [literals, List.forall_mem_append] at ha hb
      rw [h.1, labelled_inj l c ha.1 hb.1 h.2.1, labelled_inj r d ha.2 hb.2 h.2.2]
    | _ => simp [labelled] at h
  | .and items, b, ha, hb, h => by
    cases b with
    | and others =>
      simp only [labelled, and.injEq] at h
      rw [labelledItems_inj items others ha hb h]
    | _ => simp [labelled] at h
  | .or items, b, ha, hb, h => by
    cases b with
    | or others =>
      simp only [labelled, or.injEq] at h
      rw [labelledItems_inj items others ha hb h]
    | _ => simp [labelled] at h
  | .not e, b, ha, hb, h => by
    cases b with
    | not d =>
      simp only [labelled, not.injEq] at h
      rw [labelled_inj e d ha hb h]
    | _ => simp [labelled] at h
  | .isNull e, b, ha, hb, h => by
    cases b with
    | isNull d =>
      simp only [labelled, isNull.injEq] at h
      rw [labelled_inj e d ha hb h]
    | _ => simp [labelled] at h
  | .isNotNull e, b, ha, hb, h => by
    cases b with
    | isNotNull d =>
      simp only [labelled, isNotNull.injEq] at h
      rw [labelled_inj e d ha hb h]
    | _ => simp [labelled] at h

theorem labelledItems_inj : (as bs : List Expr) → (∀ v ∈ literalsOf as, v.Shown number) →
    (∀ v ∈ literalsOf bs, v.Shown number) → labelledItems as = labelledItems bs → as = bs
  | [], bs, _, _, h => by
    cases bs with
    | nil => rfl
    | cons b bs => simp [labelledItems] at h
  | a :: as, bs, ha, hb, h => by
    cases bs with
    | nil => simp [labelledItems] at h
    | cons b bs =>
      simp only [labelledItems, List.cons.injEq] at h
      simp only [literalsOf, List.forall_mem_append] at ha hb
      rw [labelled_inj a b ha.1 hb.1 h.1, labelledItems_inj as bs ha.2 hb.2 h.2]

end

/-- Nothing else is read like a grouped expression. -/
theorem Grouped.eq_of_asRead (h : e.Grouped) (he : ∀ v ∈ e.literals, v.Shown number)
    (ho : ∀ v ∈ other.literals, v.Shown number) (heq : other.asRead = e.asRead) : other = e := by
  have hother : other.Grouped := by
    rwa [← grouped_asRead, heq, grouped_asRead]
  rw [asRead_of_grouped other hother, asRead_of_grouped e h] at heq
  exact labelled_inj other e ho he heq

/-- Another expression, over some of the same literals, that is read like this one. -/
def HasDouble (e : Expr) : Prop :=
  ∃ other, other ≠ e ∧ other.asRead = e.asRead ∧ ∀ v ∈ other.literals, v ∈ e.literals

/-- The comparison that is outermost in a grouped expression which is tested for NULL or compared
without a right to be. -/
theorem Grouped.exists_compare (h : e.Grouped) (ht : e.isTested = false) :
    ∃ op l r, e = .compare op l r := by
  cases e with
  | compare op l r => exact ⟨op, l, r, rfl⟩
  | isNull e =>
    rw [Grouped] at h
    rw [isTested, h.1] at ht
    cases ht
  | isNotNull e =>
    rw [Grouped] at h
    rw [isTested, h.1] at ht
    cases ht
  | _ => cases ht

theorem hasDouble_of_right (h : r.isTerm = false) : HasDouble (.compare op l r) := by
  cases r with
  | compare next a b =>
    refine ⟨.compare next (.compare op l a) b, ?_, ?_, ?_⟩
    · intro heq
      have hsize := congrArg sizeOf (Expr.compare.inj heq).2.2
      simp +arith at hsize
    · simp only [asRead, chained_assoc]
    · simp [literals]
  | isNull a =>
    refine ⟨.isNull (.compare op l a), by simp, ?_, by simp [literals]⟩
    simp only [asRead, chained]
  | isNotNull a =>
    refine ⟨.isNotNull (.compare op l a), by simp, ?_, by simp [literals]⟩
    simp only [asRead, chained]
  | _ => cases h

theorem hasDouble_of_left {next : Comparison} {a b : Expr} (hr : r.isTerm = true) :
    HasDouble (.compare op (.compare next a b) r) := by
  refine ⟨.compare next a (.compare op b r), ?_, ?_, by simp [literals]⟩
  · intro heq
    rw [← (Expr.compare.inj heq).2.2] at hr
    cases hr
  · simp only [asRead, chained_assoc]

/-- What is read like a part makes something that is read like the whole. -/
theorem HasDouble.within {c : Expr → Expr} (h : HasDouble e) (hinj : ∀ a, c a = c e → a = e)
    (hread : ∀ a : Expr, a.asRead = e.asRead → (c a).asRead = (c e).asRead)
    (hliterals : ∀ a : Expr, a.literals ⊆ e.literals → (c a).literals ⊆ (c e).literals) :
    HasDouble (c e) := by
  obtain ⟨other, hne, hother, hl⟩ := h
  exact ⟨c other, fun heq => hne (hinj other heq), hread other hother, hliterals other hl⟩

mutual

/-- Every expression that is not grouped has a double, by induction on the expression: within one of
its operands, or by grouping it in another way. -/
theorem exists_double : (e : Expr) → ¬e.Grouped → HasDouble e
  | .column i, h => absurd trivial h
  | .literal v, h => absurd trivial h
  | .compare op l r, h => by
    by_cases hl : l.Grouped
    · by_cases hr : r.Grouped
      · cases hterm : r.isTerm with
        | false => exact hasDouble_of_right hterm
        | true =>
          cases htested : l.isTested with
          | false =>
            obtain ⟨next, a, b, rfl⟩ := hl.exists_compare htested
            exact hasDouble_of_left hterm
          | true => exact absurd ⟨htested, hterm, hl, hr⟩ h
      · refine (exists_double r hr).within (c := fun a => .compare op l a) ?_ ?_ ?_
        · simp
        · intro a ha
          simp only [asRead, ha]
        · intro a ha v hv
          rw [literals, List.mem_append] at hv ⊢
          exact hv.imp_right fun hv => ha hv
    · refine (exists_double l hl).within (c := fun a => .compare op a r) ?_ ?_ ?_
      · simp
      · intro a ha
        simp only [asRead, ha]
      · intro a ha v hv
        rw [literals, List.mem_append] at hv ⊢
        exact hv.imp_left fun hv => ha hv
  | .arithmetic op l r, h => by
    by_cases hl : l.Grouped
    · have hr : ¬r.Grouped := fun hr => h ⟨hl, hr⟩
      refine (exists_double r hr).within (c := fun a => .arithmetic op l a) ?_ ?_ ?_
      · simp
      · intro a ha
        simp only [asRead, ha]
      · intro a ha v hv
        rw [literals, List.mem_append] at hv ⊢
        exact hv.imp_right fun hv => ha hv
    · refine (exists_double l hl).within (c := fun a => .arithmetic op a r) ?_ ?_ ?_
      · simp
      · intro a ha
        simp only [asRead, ha]
      · intro a ha v hv
        rw [literals, List.mem_append] at hv ⊢
        exact hv.imp_left fun hv => ha hv
  | .and items, h => by
    by_cases hseveral : 2 ≤ items.length
    · obtain ⟨others, hne, hread, hl⟩ := exists_doubles items fun hitems => h ⟨hseveral, hitems⟩
      exact ⟨.and others, by simpa using hne, by simp only [asRead, hread], hl⟩
    · refine ⟨.or items, by simp, ?_, fun v hv => hv⟩
      simp only [asRead, if_pos (show items.length < 2 by omega)]
  | .or items, h => by
    by_cases hseveral : 2 ≤ items.length
    · obtain ⟨others, hne, hread, hl⟩ := exists_doubles items fun hitems => h ⟨hseveral, hitems⟩
      have hlength : others.length = items.length := by
        rw [← length_asReadItems, hread, length_asReadItems]
      exact ⟨.or others, by simpa using hne, by simp only [asRead, hread, hlength], hl⟩
    · refine ⟨.and items, by simp, ?_, fun v hv => hv⟩
      rw [asRead, asRead, if_pos (by omega)]
  | .not e, h => by
    refine (exists_double e h).within (c := .not) ?_ ?_ fun a ha => ha
    · simp
    · intro a ha
      simp only [asRead, ha]
  | .isNull e, h => by
    by_cases he : e.Grouped
    · cases htested : e.isTested with
      | false =>
        obtain ⟨op, l, r, rfl⟩ := he.exists_compare htested
        refine ⟨.compare op l (.isNull r), by simp, ?_, by simp [literals]⟩
        simp only [asRead, chained]
      | true => exact absurd ⟨htested, he⟩ h
    · refine (exists_double e he).within (c := .isNull) ?_ ?_ fun a ha => ha
      · simp
      · intro a ha
        simp only [asRead, ha]
  | .isNotNull e, h => by
    by_cases he : e.Grouped
    · cases htested : e.isTested with
      | false =>
        obtain ⟨op, l, r, rfl⟩ := he.exists_compare htested
        refine ⟨.compare op l (.isNotNull r), by simp, ?_, by simp [literals]⟩
        simp only [asRead, chained]
      | true => exact absurd ⟨htested, he⟩ h
    · refine (exists_double e he).within (c := .isNotNull) ?_ ?_ fun a ha => ha
      · simp
      · intro a ha
        simp only [asRead, ha]

theorem exists_doubles : (items : List Expr) → ¬GroupedItems items →
    ∃ others, others ≠ items ∧ asReadItems others = asReadItems items ∧
      ∀ v ∈ literalsOf others, v ∈ literalsOf items
  | [], h => absurd trivial h
  | e :: rest, h => by
    by_cases he : e.Grouped
    · obtain ⟨others, hne, hread, hl⟩ := exists_doubles rest fun hrest => h ⟨he, hrest⟩
      refine ⟨e :: others, by simpa using hne, by simp only [asReadItems, hread], ?_⟩
      intro v hv
      rw [literalsOf, List.mem_append] at hv ⊢
      exact hv.imp_right (hl v)
    · obtain ⟨other, hne, hread, hl⟩ := exists_double e he
      refine ⟨other :: rest, by simpa using hne, by simp only [asReadItems, hread], ?_⟩
      intro v hv
      rw [literalsOf, List.mem_append] at hv ⊢
      exact hv.imp_left (hl v)

end

/-- No string holds a quote. -/
def Unquoted (e : Expr) : Prop := ∀ v ∈ e.literals, v.Unquoted

/-- The literals are shown by their texts. -/
def Shown (number : DataType) (e : Expr) : Prop := ∀ v ∈ e.literals, v.Shown number

theorem Shown.unquoted (h : e.Shown number) : e.Unquoted := fun v hv => (h v hv).unquoted

end Expr

theorem Distribution.label_inj {c d : Distribution} : c.label = d.label ↔ c = d := by
  cases c <;> cases d <;> simp [label]

namespace Plan

variable {s t : Traits} {d e : Expr} {input : Plan}

theorem terms_filter_eq_iff : (node s (.filter d) [input]).terms = (node t (.filter e) [input]).terms ↔
    s.convention = t.convention ∧ (s.convention = .physical → s.distribution = t.distribution) ∧
      d.toText = e.toText := by
  obtain ⟨c, distribution⟩ := s
  obtain ⟨c', distribution'⟩ := t
  cases c <;> cases c' <;>
    simp [terms, kind, op, Operator.kind, OperatorKind.name, convention, traits, Convention.suffix,
      isPhysical, Operator.terms, Plan.distribution, Distribution.label_inj, and_comm]

/-- Two filters over one input have equal terms exactly if they are alike otherwise and their predicates
are read alike from left to right, as long as no string holds a quote. So the terms identify a
predicate exactly if it is grouped as its text shows, among those whose literals are shown by their
texts; then equal terms have equal values and errors on every row. -/
theorem filter_terms_identify (input : Plan) :
    (∀ (s t : Traits) (d e : Expr), d.Unquoted → e.Unquoted →
      ((node s (.filter d) [input]).terms = (node t (.filter e) [input]).terms ↔
        s.convention = t.convention ∧ (s.convention = .physical → s.distribution = t.distribution) ∧
          d.asRead = e.asRead)) ∧
    ∀ (number : DataType) (e : Expr), e.Shown number →
      (e.Grouped ↔ ∀ (s t : Traits) (d : Expr), d.Shown number →
        (node s (.filter d) [input]).terms = (node t (.filter e) [input]).terms → d = e) ∧
      (e.Grouped → ∀ (s t : Traits) (d : Expr), d.Shown number →
        (node s (.filter d) [input]).terms = (node t (.filter e) [input]).terms →
          ∀ row, d.eval row = e.eval row) := by
  have hterms {s t : Traits} {d e : Expr} (hd : d.Unquoted) (he : e.Unquoted) :
      (node s (.filter d) [input]).terms = (node t (.filter e) [input]).terms ↔
        s.convention = t.convention ∧ (s.convention = .physical → s.distribution = t.distribution) ∧
          d.asRead = e.asRead := by
    rw [terms_filter_eq_iff, Expr.toText_eq_iff_asRead hd he]
  refine ⟨fun s t d e hd he => hterms hd he, ?_⟩
  intro number e he
  have hidentified (hgrouped : e.Grouped) (s t : Traits) (d : Expr) (hd : d.Shown number)
      (h : (node s (.filter d) [input]).terms = (node t (.filter e) [input]).terms) : d = e :=
    hgrouped.eq_of_asRead he hd ((hterms hd.unquoted he.unquoted).mp h).2.2
  refine ⟨⟨hidentified, ?_⟩, ?_⟩
  · intro halone
    by_contra hgrouped
    obtain ⟨d, hne, hread, hliterals⟩ := Expr.exists_double e hgrouped
    have hd : d.Shown number := fun v hv => he v (hliterals v hv)
    have hequal := (hterms (s := .undecided) (t := .undecided) hd.unquoted he.unquoted).mpr
      ⟨rfl, fun _ => rfl, hread⟩
    exact hne (halone .undecided .undecided d hd hequal)
  · intro hgrouped s t d hd h row
    rw [hidentified hgrouped s t d hd h]

/-- Rows of three flags. -/
def flags : Plan :=
  .scan "flags" ⟨[⟨"a", .boolean, false⟩, ⟨"b", .boolean, false⟩, ⟨"c", .boolean, false⟩]⟩

/-- A comparison whose left side is tested for NULL. -/
def testedFlag : Expr := .compare .eq (.isNull (.column 0)) (.literal (.bool true))

/-- Two comparisons, the first of which is made first. -/
def leftFirst : Expr := .compare .eq (.compare .lt (.column 0) (.column 1)) (.column 2)

/-- The same comparisons, the second of which is made first. -/
def rightFirst : Expr := .compare .lt (.column 0) (.compare .eq (.column 1) (.column 2))

theorem filter_terms_identify_testedFlag : leftFirst.asRead = rightFirst.asRead ∧
    testedFlag.Grouped ∧ testedFlag.Shown .int32 ∧
    ∀ d : Expr, d.Shown .int32 → (flags.filter d).terms = (flags.filter testedFlag).terms →
      d = testedFlag := by
  have hleft : leftFirst.Unquoted := by
    simp [Expr.Unquoted, leftFirst, Expr.literals]
  have hright : rightFirst.Unquoted := by
    simp [Expr.Unquoted, rightFirst, Expr.literals]
  have hread := ((filter_terms_identify flags).1 .undecided .undecided leftFirst rightFirst hleft
    hright).mp (by decide +kernel)
  have hshown : testedFlag.Shown .int32 := by
    simp [Expr.Shown, testedFlag, Expr.literals, Scalar.Shown]
  have hgrouped : testedFlag.Grouped := by
    simp [testedFlag, Expr.Grouped, Expr.isTested, Expr.isTerm]
  refine ⟨hread.2.2, hgrouped, hshown, fun d hd h => ?_⟩
  exact ((filter_terms_identify flags).2 .int32 testedFlag hshown).1.mp hgrouped .undecided .undecided
    d hd h

/-- Two filters have equal terms, but their predicates differ on a row. -/
def Collide (d e : Expr) (row : Values) : Prop :=
  (flags.filter d).terms = (flags.filter e).terms ∧ d.eval row ≠ e.eval row

instance (d e : Expr) (row : Values) : Decidable (Collide d e row) :=
  inferInstanceAs (Decidable (_ ∧ _))

/-- Predicates are taken for each other by how comparisons are grouped, by a quote in a string, by the
type of a number, and as AND or OR of nothing. -/
theorem filter_terms_collide :
    Collide leftFirst rightFirst [.bool true, .bool true, .bool false] ∧
    Collide (.compare .eq (.column 0) (.literal (.text "a' = 'a")))
      (.compare .eq (.compare .eq (.column 0) (.literal (.text "a"))) (.literal (.text "a")))
      [.text "a"] ∧
    Collide (.compare .eq (.arithmetic .div (.column 0) (.literal (.int32 2))) (.column 1))
      (.compare .eq (.arithmetic .div (.column 0) (.literal (.float64 (.ofInt 2)))) (.column 1))
      [.int32 3, .int32 1] ∧
    Collide (.and []) (.or []) [] := by
  decide +kernel

end Plan

end FlowPlan
