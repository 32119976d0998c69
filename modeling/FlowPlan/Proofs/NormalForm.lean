import FlowPlan.Proofs.Lexer
import FlowPlan.Proofs.Parser
import FlowPlan.Proofs.Pattern

namespace FlowPlan

open Outcome

/-- Literals with a spelling. A number is written as its magnitude, so the least value of either
integer type has none. -/
def Scalar.Spelled : Scalar → Prop
  | .null => True
  | .bool _ => True
  | .text _ => True
  | .int32 v => v.toInt.natAbs < 2 ^ 31
  | .int64 v => 2 ^ 31 ≤ v.toInt.natAbs ∧ v.toInt.natAbs < 2 ^ 63
  | .float64 v => v.isNaN = false
  | .float32 _ => False
  | .binary _ => False

/-- Expressions in the form in which they are read. -/
inductive Expr.Normal (s : Schema) : Expr → Prop where
  | column {i : Nat} {f : Field} (found : s.field? i = some f)
      (first : s.indexOf? f.name = some i) : Normal s (.column i)
  | literal {v : Scalar} (spelled : v.Spelled) : Normal s (.literal v)
  | compare {op : Comparison} {l r : Expr} (left : Normal s l) (right : Normal s r) :
      Normal s (.compare op l r)
  | arithmetic {op : Arithmetic} {l r : Expr} (left : Normal s l) (right : Normal s r) :
      Normal s (.arithmetic op l r)
  | and {items : List Expr} (several : 2 ≤ items.length) (flat : ∀ inner, Expr.and inner ∉ items)
      (all : ∀ e ∈ items, Normal s e) : Normal s (.and items)
  | or {items : List Expr} (several : 2 ≤ items.length) (flat : ∀ inner, Expr.or inner ∉ items)
      (all : ∀ e ∈ items, Normal s e) : Normal s (.or items)
  | not {e : Expr} (inner : Normal s e) : Normal s (.not e)
  | isNull {e : Expr} (inner : Normal s e) : Normal s (.isNull e)
  | isNotNull {e : Expr} (inner : Normal s e) : Normal s (.isNotNull e)

namespace Decimal

theorem splitSign_unsigned {c : Char} {rest : List Char} (h : Token.startsNumber c = true) :
    splitSign (c :: rest) = (false, c :: rest) := by
  unfold splitSign
  split
  · rename_i hc
    cases hc
    cases h
  · rename_i hc
    cases hc
    cases h
  · rfl

theorem signed?_unsigned {least most v : Int} {c : Char} {rest : List Char}
    (h : Token.startsNumber c = true) (hv : signed? least most (c :: rest) = some v) :
    0 ≤ v ∧ v ≤ most := by
  simp only [signed?, splitSign_unsigned h, Bool.false_eq_true, ↓reduceIte, Option.bind_eq_bind,
    Option.bind_eq_some_iff] at hv
  obtain ⟨n, -, hv⟩ := hv
  split at hv
  · rename_i hrange
    cases hv
    exact ⟨Int.natCast_nonneg n, hrange.2⟩
  · cases hv

end Decimal

namespace Binary

variable {f : Format}

theorem toLower_unsigned {c : Char} (h : Token.startsNumber c = true) : c.toLower = c := by
  unfold Char.toLower
  split
  · rename_i hu
    rcases Bool.or_eq_true_iff.mp h with hd | hp
    · have hnine : c.toNat ≤ 57 := (Char.isDigit_iff_toNat.mp hd).2
      have hupper : 65 ≤ c.toNat := UInt32.le_iff_toNat_le.mp hu.1
      omega
    · obtain rfl := eq_of_beq hp
      exact absurd hu (by decide)
  · rfl

/-- A numeral without a sign is none of the words for what is no finite number. -/
theorem parse?_unsigned {c : Char} {rest : List Char} (h : Token.startsNumber c = true) :
    (parse? (c :: rest) : Option (Binary f)) =
      (Decimal.numeral? (c :: rest)).map (ofNumeral false) := by
  have hword : ∀ d : Char, ∀ w : List Char, Token.startsNumber d = false →
      (String.ofList (c :: rest)).toLower ≠ String.ofList (d :: w) := by
    intro d w hd he
    have hc := congrArg String.toList he
    rw [String.toLower, String.toList_map, String.toList_ofList, String.toList_ofList,
      List.map_cons, List.cons.injEq, toLower_unsigned h] at hc
    rw [hc.1, hd] at h
    cases h
  simp only [parse?, Decimal.splitSign_unsigned h]
  split
  · rename_i he
    exact absurd he (hword 'i' ['n', 'f'] (by decide))
  · rename_i he
    exact absurd he (hword 'i' ['n', 'f', 'i', 'n', 'i', 't', 'y'] (by decide))
  · rename_i he
    exact absurd he (hword 'n' ['a', 'n'] (by decide))
  · rfl

end Binary

theorem Scalar.toInt_neg_int32 {v : Int32} (h : v.toInt.natAbs < 2 ^ 31) :
    (-v).toInt = -v.toInt := by
  rw [Int32.toInt_neg]
  exact Int.bmod_eq_of_le (by omega) (by omega)

theorem Scalar.toInt_neg_int64 {v : Int64} (h : v.toInt.natAbs < 2 ^ 63) :
    (-v).toInt = -v.toInt := by
  rw [Int64.toInt_neg]
  exact Int.bmod_eq_of_le (by omega) (by omega)

/-- The narrowest integer literal of a number that is not negative. -/
def Scalar.ofNat (n : Nat) : Scalar :=
  if fitsInt32 n then .int32 (.ofInt n) else .int64 (.ofInt n)

theorem fitsInt32_iff {n : Nat} : fitsInt32 n = true ↔ n < 2 ^ 31 := by
  have hmin : Int32.minValue.toInt = -2 ^ 31 := rfl
  have hmax : Int32.maxValue.toInt = 2 ^ 31 - 1 := rfl
  simp only [fitsInt32, hmin, hmax, Bool.and_eq_true, decide_eq_true_eq]
  omega

theorem Scalar.ofNat_spelled {n : Nat} (h : n < 2 ^ 63) : (ofNat n).Spelled := by
  unfold ofNat
  split
  · rename_i hfits
    have hn := fitsInt32_iff.mp hfits
    have hv : (Int32.ofInt n).toInt = n := Int32.toInt_ofInt_of_le (by omega) (by omega)
    simpa only [Spelled, hv, Int.natAbs_natCast] using hn
  · rename_i hfits
    have hn : ¬n < 2 ^ 31 := fun hn => hfits (fitsInt32_iff.mpr hn)
    have hv : (Int64.ofInt n).toInt = n := Int64.toInt_ofInt_of_le (by omega) (by omega)
    simp only [Spelled, hv, Int.natAbs_natCast]
    omega

/-- A number token stands for a literal that has a spelling. -/
theorem Scalar.ofNumber?_spelled {text : String} {v : Scalar} (ht : (Token.number text).Lexed)
    (h : Scalar.ofNumber? text = .ok v) : v.Spelled := by
  obtain ⟨c, rest, hc, hd⟩ := ht
  simp only [ofNumber?, hc] at h
  split at h
  · rw [Binary.parse?_unsigned hd] at h
    cases hn : Decimal.numeral? (c :: rest) with
    | none => simp [hn] at h
    | some n =>
      simp only [hn, Option.map_some] at h
      cases h
      exact Binary.isNaN_ofNumeral n
  · split at h
    · rename_i n hn
      obtain ⟨hpos, hmost⟩ := Decimal.signed?_unsigned hd hn
      have hmost : n ≤ 2 ^ 63 - 1 := hmost
      obtain ⟨k, rfl⟩ := Int.eq_ofNat_of_zero_le hpos
      cases h
      exact ofNat_spelled (by omega)
    · cases h

/-- The two connectives that keep their items in one list. -/
inductive Connective where
  | and
  | or

namespace Connective

def join : Connective → List Expr → Expr
  | .and => .and
  | .or => .or

/-- The items of an expression of this kind, or the expression alone. -/
def items : Connective → Expr → List Expr
  | .and => Expr.conjuncts
  | .or => Expr.disjuncts

def combine : Connective → Expr → Expr → Expr
  | .and => Expr.conjoin
  | .or => Expr.disjoin

def word : Connective → String
  | .and => "AND"
  | .or => "OR"

def level : Connective → Nat
  | .and => andLevel
  | .or => orLevel

variable (c : Connective) {e : Expr}

theorem items_join (xs : List Expr) : c.items (c.join xs) = xs := by
  cases c <;> rfl

theorem combine_eq (l r : Expr) : c.combine l r = c.join (c.items l ++ c.items r) := by
  cases c <;> rfl

theorem items_of_ne (h : ∀ inner, e ≠ c.join inner) : c.items e = [e] := by
  cases c with
  | and =>
    rw [items, Expr.conjuncts]
    exact h
  | or =>
    rw [items, Expr.disjuncts]
    exact h

theorem ofToken?_word : Infix.ofToken? (.word c.word) = some (.binary c.level c.combine) := by
  cases c <;> rfl

end Connective

namespace Expr

variable {s : Schema} {level : Nat} {left e l r : Expr} {t : Token} {ts : List Token}
  {found : Expr × List Token}

theorem Normal.join {c : Connective} {items : List Expr} (several : 2 ≤ items.length)
    (flat : ∀ inner, c.join inner ∉ items) (all : ∀ e ∈ items, Normal s e) :
    Normal s (c.join items) := by
  cases c with
  | and => exact .and several flat all
  | or => exact .or several flat all

theorem Normal.of_join {c : Connective} {items : List Expr} (h : Normal s (c.join items)) :
    2 ≤ items.length ∧ (∀ inner, c.join inner ∉ items) ∧ ∀ e ∈ items, Normal s e := by
  cases c with
  | and =>
    cases h with
    | and several flat all => exact ⟨several, flat, all⟩
  | or =>
    cases h with
    | or several flat all => exact ⟨several, flat, all⟩

theorem Normal.items (c : Connective) (h : Normal s e) : 1 ≤ (c.items e).length ∧
    (∀ inner, c.join inner ∉ c.items e) ∧ ∀ item ∈ c.items e, Normal s item := by
  by_cases hj : ∃ inner, e = c.join inner
  · obtain ⟨inner, rfl⟩ := hj
    obtain ⟨several, flat, all⟩ := h.of_join
    rw [c.items_join]
    exact ⟨Nat.le_of_succ_le several, flat, all⟩
  · have hne : ∀ inner, e ≠ c.join inner := fun inner he => hj ⟨inner, he⟩
    rw [c.items_of_ne hne]
    simp only [List.mem_singleton, forall_eq]
    exact ⟨Nat.le_refl 1, fun inner he => hne inner he.symm, h⟩

/-- The items of both sides go into one list, so the connective never holds its own kind. -/
theorem Normal.connect (c : Connective) (hl : Normal s l) (hr : Normal s r) :
    Normal s (c.combine l r) := by
  obtain ⟨hlone, hlflat, hlall⟩ := hl.items c
  obtain ⟨hrone, hrflat, hrall⟩ := hr.items c
  rw [c.combine_eq]
  refine .join ?_ ?_ ?_
  · rw [List.length_append]
    omega
  · intro inner hm
    exact (List.mem_append.mp hm).elim (hlflat inner) (hrflat inner)
  · intro item hm
    exact (List.mem_append.mp hm).elim (hlall item) (hrall item)

/-- A minus sign keeps the form: literals have their opposites among them. -/
theorem Normal.negated (h : Normal s e) : Normal s e.negated := by
  have hsub : Normal s (.arithmetic .sub (.literal (.int32 0)) e) :=
    .arithmetic (.literal (show (Int32.toInt 0).natAbs < 2 ^ 31 by decide)) h
  unfold Expr.negated
  split
  · cases h with
    | literal spelled =>
      refine .literal ?_
      simpa only [Scalar.Spelled, Scalar.toInt_neg_int32 spelled, Int.natAbs_neg] using spelled
  · cases h with
    | literal spelled =>
      refine .literal ?_
      simpa only [Scalar.Spelled, Scalar.toInt_neg_int64 spelled.2, Int.natAbs_neg] using spelled
  · cases h with
    | literal spelled =>
      refine .literal ?_
      simpa only [Scalar.Spelled, Binary.isNaN_neg] using spelled
  · exact hsub

theorem Normal.named {name : String} {i : Nat} (h : s.indexOf? name = some i) :
    Normal s (.column i) := by
  obtain ⟨hi, hname, -⟩ := List.findIdx?_eq_some_iff_getElem.mp h
  refine .column (f := s.fields[i]) (List.getElem?_eq_getElem hi) ?_
  rw [eq_of_beq hname]
  exact h

theorem Normal.atom (ht : t.Lexed) (h : atom s t = .ok e) : Normal s e := by
  unfold Expr.atom at h
  split at h
  · split at h
    · cases h
      exact .literal trivial
    · split at h
      · cases h
        exact .literal trivial
      · split at h
        · cases h
          exact .literal trivial
        · dsimp only at h
          split at h
          · next i hi =>
            cases h
            exact .named hi
          · cases h
  · dsimp only at h
    split at h
    · next i hi =>
      cases h
      exact .named hi
    · cases h
  · obtain ⟨v, hv, rfl⟩ := map_eq_ok.mp h
    exact .literal (Scalar.ofNumber?_spelled ht hv)
  · cases h
    exact .literal trivial
  · cases h

/-- What is read from some tokens: an expression in normal form and some of the last tokens. -/
def Reads (s : Schema) (ts : List Token) (found : Expr × List Token) : Prop :=
  Normal s found.1 ∧ found.2 <:+ ts

theorem Reads.cons (h : Reads s ts found) (t : Token) : Reads s (t :: ts) found :=
  ⟨h.1, h.2.trans (List.suffix_cons t ts)⟩

theorem lexed_of_suffix {rest : List Token} (h : ∀ t ∈ ts, t.Lexed) (hs : rest <:+ ts) :
    ∀ t ∈ rest, t.Lexed :=
  fun t ht => h t (hs.subset ht)

/-- The words of a test for NULL. -/
theorem nullTest_reads (hl : Normal s left) (h : Parsed.pair <$> nullTest left ts = .ok found) :
    Reads s ts found := by
  obtain ⟨p, hp, rfl⟩ := map_eq_ok.mp h
  unfold nullTest at hp
  split at hp
  · cases hp
  · split at hp
    · cases hp
      exact ⟨.isNull hl, List.nil_suffix⟩
    · split at hp <;> cases hp
  · split at hp
    · split at hp
      · cases hp
        exact ⟨.isNotNull hl, (List.suffix_cons _ _).trans (List.suffix_cons _ _)⟩
      · cases hp
    · split at hp
      · cases hp
        exact ⟨.isNull hl, List.suffix_cons _ _⟩
      · cases hp

/-- Every operator that combines two operands keeps the form. -/
theorem Normal.combine {op : Infix} {k : Nat} {combine : Expr → Expr → Expr}
    (ho : Infix.ofToken? t = some op) (hop : op = .binary k combine) (hl : Normal s l)
    (hr : Normal s r) : Normal s (combine l r) := by
  subst hop
  unfold Infix.ofToken? at ho
  split at ho
  · cases ho
    exact .compare hl hr
  · cases ho
    exact .arithmetic hl hr
  · cases ho
    exact .arithmetic hl hr
  · cases ho
    exact .arithmetic hl hr
  · cases ho
    exact .arithmetic hl hr
  · split at ho
    · cases ho
      exact hl.connect .or hr
    · split at ho
      · cases ho
        exact hl.connect .and hr
      · split at ho <;> cases ho

/-- Whatever is read from fewer than `n` tokens is in normal form. -/
def ReadsBelow (s : Schema) (n : Nat) : Prop :=
  ∀ us : List Token, us.length < n → (∀ t ∈ us, t.Lexed) → ∀ (level : Nat)
    (found : Expr × List Token), whole s level us = .ok found → Reads s us found

theorem primary_reads (ih : ReadsBelow s ts.length) (ht : ∀ t ∈ ts, t.Lexed)
    (h : primary s ts = .ok found) : Reads s ts found := by
  cases ts with
  | nil => simp at h
  | cons t ts =>
    have hlast : ∀ u ∈ ts, u.Lexed := fun u hu => ht u (List.mem_cons_of_mem t hu)
    have hwhole : ∀ level found, whole s level ts = .ok found → Reads s ts found :=
      ih ts (Nat.lt_succ_self _) hlast
    rcases start_cases t with rfl | rfl | rfl | hn | ha
    · rw [primary_minus] at h
      obtain ⟨inner, hinner, h⟩ := bind_eq_ok.mp h
      cases h
      have hr := hwhole _ _ hinner
      exact ⟨hr.1.negated, hr.2.trans (List.suffix_cons _ _)⟩
    · rw [primary_plus] at h
      exact (hwhole _ _ h).cons _
    · rw [primary_leftParen] at h
      obtain ⟨⟨e, rest⟩, hinner, h⟩ := bind_eq_ok.mp h
      have hr := hwhole _ _ hinner
      change closing e rest = .ok found at h
      unfold closing at h
      split at h
      · cases h
        exact ⟨hr.1, ((List.suffix_cons _ _).trans hr.2).trans (List.suffix_cons _ _)⟩
      · cases h
      · cases h
    · rw [primary_not hn] at h
      obtain ⟨inner, hinner, h⟩ := bind_eq_ok.mp h
      cases h
      have hr := hwhole _ _ hinner
      exact ⟨.not hr.1, hr.2.trans (List.suffix_cons _ _)⟩
    · rw [primary_atom ha] at h
      obtain ⟨e, he, h⟩ := bind_eq_ok.mp h
      cases h
      exact ⟨.atom (ht t List.mem_cons_self) he, List.suffix_cons t ts⟩

theorem follow_reads {op : Infix} (ih : ReadsBelow s (ts.length + 1)) (ht : ∀ t ∈ ts, t.Lexed)
    (ho : Infix.ofToken? t = some op) (hl : Normal s left)
    (h : op.follow s left ts = .ok found) : Reads s ts found := by
  cases hop : op with
  | isNull =>
    subst hop
    exact nullTest_reads hl h
  | binary k combine =>
    rw [hop] at h
    obtain ⟨right, hright, h⟩ := bind_eq_ok.mp h
    cases h
    have hr := ih ts (Nat.lt_succ_self _) ht k right hright
    exact ⟨hl.combine ho hop hr.1, hr.2⟩

/-- By induction on the tokens: each operator leaves fewer of them and an operand that is again in
normal form. -/
theorem further_reads {n : Nat} : (ts : List Token) → {left : Expr} → ReadsBelow s n →
    ts.length ≤ n → (∀ t ∈ ts, t.Lexed) → Normal s left → {found : Expr × List Token} →
    further s level left ts = .ok found → Reads s ts found
  | [], left, ih, hn, ht, hl, found, h => by
    rw [further_nil] at h
    cases h
    exact ⟨hl, List.suffix_refl _⟩
  | t :: ts, left, ih, hn, ht, hl, found, h => by
    cases ho : Infix.ofToken? t with
    | none =>
      rw [further_none ho] at h
      cases h
      exact ⟨hl, List.suffix_refl _⟩
    | some op =>
      by_cases htight : level < op.level
      · rw [further_tight ho htight] at h
        obtain ⟨next, hnext, h⟩ := bind_eq_ok.mp h
        have hlast : ∀ u ∈ ts, u.Lexed := fun u hu => ht u (List.mem_cons_of_mem t hu)
        have hr := follow_reads (fun us hu => ih us (Nat.lt_of_lt_of_le hu hn)) hlast ho hl hnext
        have hlen : next.2.length < ts.length + 1 := Nat.lt_succ_of_le hr.2.length_le
        have hrest := further_reads next.2 ih (Nat.le_trans (Nat.le_of_lt hlen) hn)
          (lexed_of_suffix hlast hr.2) hr.1 h
        exact Reads.cons ⟨hrest.1, hrest.2.trans hr.2⟩ t
      · rw [further_loose ho (Nat.le_of_not_lt htight)] at h
        cases h
        exact ⟨hl, List.suffix_refl _⟩
termination_by ts => ts.length

theorem readsBelow (s : Schema) : (n : Nat) → ReadsBelow s n
  | 0 => fun us hu => absurd hu (Nat.not_lt_zero _)
  | n + 1 => by
    intro us hu ht level found h
    have ih : ReadsBelow s us.length := fun vs hv =>
      readsBelow s n vs (Nat.lt_of_lt_of_le hv (Nat.le_of_lt_succ hu))
    rw [whole_eq] at h
    obtain ⟨first, hfirst, h⟩ := bind_eq_ok.mp h
    have hr := primary_reads ih ht hfirst
    have hrest := further_reads first.2 ih hr.2.length_le (lexed_of_suffix ht hr.2) hr.1 h
    exact ⟨hrest.1, hrest.2.trans hr.2⟩

theorem whole_normal (ht : ∀ t ∈ ts, t.Lexed) (h : whole s level ts = .ok found) :
    Normal s found.1 :=
  (readsBelow s (ts.length + 1) ts (Nat.lt_succ_self _) ht level found h).1

theorem ofTokens_normal (ht : ∀ t ∈ ts, t.Lexed) (h : ofTokens s ts = .ok e) : Normal s e := by
  rw [ofTokens_eq] at h
  obtain ⟨⟨e', rest⟩, hfound, h⟩ := bind_eq_ok.mp h
  cases rest with
  | nil =>
    cases h
    exact whole_normal ht hfound
  | cons t rest => cases h

theorem itemOfTokens_normal {name : Option String} (ht : ∀ t ∈ ts, t.Lexed)
    (h : itemOfTokens s ts = .ok (e, name)) : Normal s e := by
  unfold itemOfTokens at h
  obtain ⟨p, hp, h⟩ := bind_eq_ok.mp h
  have hfound : whole s 0 ts = .ok p.pair := map_eq_ok.mpr ⟨p, hp, rfl⟩
  have hn : Normal s p.expr := whole_normal ht hfound
  split at h
  · cases h
    exact hn
  · split at h
    · -- The name after AS changes nothing about the expression before it.
      dsimp only at h
      split at h
      · split at h <;> cases h
        exact hn
      · split at h <;> cases h
        exact hn
      · cases h
      · cases h
    · cases h

end Expr

namespace Expr

theorem parse_normal {s : Schema} {text : String} {e : Expr} (h : parse s text = .ok e) :
    Normal s e := by
  obtain ⟨ts, hts, h⟩ := bind_eq_ok.mp (mapError_eq_ok.mp h)
  exact ofTokens_normal (Token.ofChars_lexed _ hts) h

theorem parseItem_normal {s : Schema} {text : String} {e : Expr} {name : Option String}
    (h : parseItem s text = .ok (e, name)) : Normal s e := by
  obtain ⟨ts, hts, h⟩ := bind_eq_ok.mp (mapError_eq_ok.mp h)
  exact itemOfTokens_normal (Token.ofChars_lexed _ hts) h

end Expr

end FlowPlan
