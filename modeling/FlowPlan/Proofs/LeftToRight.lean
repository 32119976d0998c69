import FlowPlan.Proofs.Glyphs

namespace FlowPlan.Expr

/-- A comparison with a chain of comparisons and null tests: it is the first of them. -/
def chained (op : Comparison) (l : Expr) : Expr → Expr
  | .compare next a b => .compare next (chained op l a) b
  | .isNull a => .isNull (chained op l a)
  | .isNotNull a => .isNotNull (chained op l a)
  | e => .compare op l e

mutual

/-- The expression that is read from the text of another. -/
def asRead : Expr → Expr
  | .column i => .column i
  | .literal v => .literal (.text v.literalText)
  | .compare op l r => chained op (asRead l) (asRead r)
  | .arithmetic op l r => .arithmetic op (asRead l) (asRead r)
  | .and items => .and (asReadItems items)
  | .or items => if items.length < 2 then .and (asReadItems items) else .or (asReadItems items)
  | .not e => .not (asRead e)
  | .isNull e => .isNull (asRead e)
  | .isNotNull e => .isNotNull (asRead e)

def asReadItems : List Expr → List Expr
  | [] => []
  | e :: rest => asRead e :: asReadItems rest

end

theorem length_asReadItems (items : List Expr) : (asReadItems items).length = items.length := by
  induction items with
  | nil => rfl
  | cons e rest ih => rw [asReadItems, List.length_cons, List.length_cons, ih]

theorem chained_assoc (op next : Comparison) (l a : Expr) : (b : Expr) →
    chained op l (chained next a b) = chained next (chained op l a) b
  | .compare last b c => by rw [chained, chained, chained, chained_assoc op next l a b]
  | .isNull b => by rw [chained, chained, chained, chained_assoc op next l a b]
  | .isNotNull b => by rw [chained, chained, chained, chained_assoc op next l a b]
  | .column _ | .literal _ | .arithmetic .. | .and _ | .or _ | .not _ => rfl

/-- What has been read since a parenthesis was opened: complete operands, what separates them, the
left side of a comparison whose right side is due, and the operand that was read last. -/
structure Level where
  negated : Bool
  complete : List Expr
  separator : Option Mark
  left : Option (Expr × Comparison)
  last : Option Expr

namespace Level

variable {v : Level}

def empty (negated : Bool) : Level := ⟨negated, [], none, none, none⟩

def operands (v : Level) : List Expr := v.complete ++ v.last.toList

/-- Goes on with an expression, which a comparison may be waiting for. -/
def take (v : Level) (e : Expr) : Level :=
  let read := match v.left with
    | none => e
    | some (l, op) => chained op l e
  { v with left := none, last := some read }

/-- What stood between the parentheses. -/
def closed (v : Level) : Expr :=
  match v.negated, v.separator, v.operands with
  | true, _, [e] => .not e
  | _, some (.computes op), [l, r] => .arithmetic op l r
  | _, some .or, items => .or items
  | _, _, items => .and items

/-- Reads a mark that is no parenthesis. -/
def mark (v : Level) : Mark → Level
  | .compares op => { v with left := v.last.map (·, op), last := none }
  | .isNull => { v with last := v.last.map isNull }
  | .isNotNull => { v with last := v.last.map isNotNull }
  | m => { v with complete := v.operands, separator := some m, last := none }

/-- Goes back to the level around. -/
def leave (v : Level) : List Level → Level × List Level
  | [] => (v, [])
  | outer :: below => (outer.take v.closed, below)

/-- Reads a glyph at the innermost level, over those around it. -/
def step : Level × List Level → Glyph → Level × List Level
  | (v, below), .column i => (v.take (.column i), below)
  | (v, below), .literal text => (v.take (.literal (.text text)), below)
  | (v, below), .mark .opens => (empty false, v :: below)
  | (v, below), .mark .negates => (empty true, v :: below)
  | (v, below), .mark .closes => v.leave below
  | (v, below), .mark m => (v.mark m, below)

def run (s : Level × List Level) (row : List Glyph) : Level × List Level := row.foldl step s

theorem run_cons (s : Level × List Level) (g : Glyph) (row : List Glyph) :
    run s (g :: row) = run (step s g) row := rfl

theorem run_append (s : Level × List Level) (row other : List Glyph) :
    run s (row ++ other) = run (run s row) other := List.foldl_append

/-- A comparison whose sides are taken one after the other is taken whole. -/
theorem take_compare (v : Level) (op : Comparison) (l r : Expr) :
    ((v.take l).mark (.compares op)).take r = v.take (chained op l r) := by
  cases hleft : v.left with
  | none => simp [take, mark, hleft]
  | some waiting =>
    obtain ⟨first, before⟩ := waiting
    simp [take, mark, hleft, chained_assoc]

theorem take_isNull (v : Level) (e : Expr) : (v.take e).mark .isNull = v.take (.isNull e) := by
  cases hleft : v.left with
  | none => simp [take, mark, hleft]
  | some waiting => simp [take, mark, hleft, chained]

theorem take_isNotNull (v : Level) (e : Expr) :
    (v.take e).mark .isNotNull = v.take (.isNotNull e) := by
  cases hleft : v.left with
  | none => simp [take, mark, hleft]
  | some waiting => simp [take, mark, hleft, chained]

theorem closed_and (hn : v.negated = false) (hs : v.separator = none ∨ v.separator = some .and) :
    v.closed = .and v.operands := by
  unfold closed
  rcases hs with hs | hs <;> rw [hn, hs]

theorem closed_or (hn : v.negated = false) (hs : v.separator = some .or) :
    v.closed = .or v.operands := by
  unfold closed
  rw [hn, hs]

mutual

/-- The glyphs of an expression are taken as the expression that is read from them. -/
theorem run_textGlyphs : (e : Expr) → (v : Level) → (below : List Level) →
    run (v, below) (e.glyphs Scalar.literalText) = (v.take e.asRead, below)
  | .column i, v, below => rfl
  | .literal w, v, below => rfl
  | .compare op l r, v, below => by
    rw [glyphs, run_append, run_textGlyphs l, run_cons]
    change run ((v.take l.asRead).mark (.compares op), below) _ = _
    rw [run_textGlyphs r, take_compare, asRead]
  | .arithmetic op l r, v, below => by
    rw [glyphs, run_cons, step, run_append, run_textGlyphs l, run_cons]
    change run (((empty false).take l.asRead).mark (.computes op), v :: below) _ = _
    rw [run_append, run_textGlyphs r, asRead]
    rfl
  | .and items, v, below => by
    obtain ⟨w, hrun, hn, hoperands, hs⟩ :=
      run_textGlyphsOf .and (.inl rfl) items (empty false) (v :: below) rfl rfl
    have hclosed : w.closed = .and (asReadItems items) := by
      have hseparator : w.separator = none ∨ w.separator = some .and := by
        rw [hs]
        split
        · exact .inl rfl
        · exact .inr rfl
      rw [closed_and hn hseparator, hoperands]
      rfl
    rw [glyphs, run_cons, step, run_append, hrun, asRead, ← hclosed]
    rfl
  | .or items, v, below => by
    obtain ⟨w, hrun, hn, hoperands, hs⟩ :=
      run_textGlyphsOf .or (.inr rfl) items (empty false) (v :: below) rfl rfl
    have hclosed : w.closed = (Expr.or items).asRead := by
      rw [asRead]
      split at hs
      · next hshort =>
        rw [if_pos hshort, closed_and hn (.inl hs), hoperands]
        rfl
      · next hshort =>
        rw [if_neg hshort, closed_or hn hs, hoperands]
        rfl
    rw [glyphs, run_cons, step, run_append, hrun, ← hclosed]
    rfl
  | .not e, v, below => by
    rw [glyphs, run_cons, step, run_append, run_textGlyphs e, asRead]
    rfl
  | .isNull e, v, below => by
    rw [glyphs, run_append, run_textGlyphs e, asRead, ← take_isNull]
    rfl
  | .isNotNull e, v, below => by
    rw [glyphs, run_append, run_textGlyphs e, asRead, ← take_isNotNull]
    rfl

/-- Operands with a separator between them are all kept. -/
theorem run_textGlyphsOf (m : Mark) (hm : m = .and ∨ m = .or) : (items : List Expr) → (v : Level) →
    (below : List Level) → v.left = none → v.last = none →
    ∃ w, run (v, below) (glyphsOf Scalar.literalText m items) = (w, below) ∧
      w.negated = v.negated ∧ w.operands = v.operands ++ asReadItems items ∧
      w.separator = if items.length < 2 then v.separator else some m
  | [], v, below, _, _ => ⟨v, rfl, rfl, by simp [asReadItems], rfl⟩
  | [e], v, below, hleft, hlast => by
    refine ⟨v.take e.asRead, run_textGlyphs e v below, rfl, ?_, rfl⟩
    simp [operands, take, hleft, hlast, asReadItems]
  | e :: next :: rest, v, below, hleft, hlast => by
    have hstep : step (v.take e.asRead, below) (.mark m) = ((v.take e.asRead).mark m, below) := by
      rcases hm with rfl | rfl <;> rfl
    have hmark : (v.take e.asRead).mark m =
        ⟨v.negated, v.operands ++ [e.asRead], some m, none, none⟩ := by
      rcases hm with rfl | rfl <;> simp [mark, operands, take, hleft, hlast]
    obtain ⟨w, hrun, hn, hoperands, hs⟩ := run_textGlyphsOf m hm (next :: rest)
      ⟨v.negated, v.operands ++ [e.asRead], some m, none, none⟩ below rfl rfl
    refine ⟨w, ?_, hn, ?_, ?_⟩
    · rw [glyphsOf_several, run_append, run_textGlyphs e, run_cons, hstep, hmark, hrun]
    · rw [hoperands]
      simp [operands, asReadItems]
    · rw [hs]
      simp

end

end Level

/-- Expressions with the same glyphs are read alike. -/
theorem asRead_of_textGlyphs {e other : Expr} (h : e.textGlyphs = other.textGlyphs) :
    e.asRead = other.asRead := by
  have hread (e : Expr) : (Level.run (.empty false, []) e.textGlyphs).1.last = some e.asRead := by
    rw [textGlyphs, Level.run_textGlyphs]
    rfl
  rw [← Option.some_inj, ← hread, h, hread]

theorem glyphs_chained (spell : Scalar → String) (op : Comparison) (l : Expr) : (r : Expr) →
    (chained op l r).glyphs spell = l.glyphs spell ++ .mark (.compares op) :: r.glyphs spell
  | .compare next a b => by simp [chained, glyphs, glyphs_chained spell op l a]
  | .isNull a => by simp [chained, glyphs, glyphs_chained spell op l a]
  | .isNotNull a => by simp [chained, glyphs, glyphs_chained spell op l a]
  | .column _ | .literal _ | .arithmetic .. | .and _ | .or _ | .not _ => rfl

theorem glyphsOf_of_short {spell : Scalar → String} {m n : Mark} {items : List Expr}
    (h : items.length < 2) : glyphsOf spell m items = glyphsOf spell n items := by
  match items with
  | [] => rfl
  | [e] => rfl
  | e :: next :: rest => simp at h

/-- The text of a literal that has been read. -/
def spelling : Scalar → String
  | .text s => s
  | _ => ""

mutual

theorem glyphs_asRead : (e : Expr) → e.asRead.glyphs spelling = e.textGlyphs
  | .column i => rfl
  | .literal v => rfl
  | .compare op l r => by
    rw [asRead, glyphs_chained, glyphs_asRead l, glyphs_asRead r]
    rfl
  | .arithmetic op l r => by
    rw [asRead, glyphs, glyphs_asRead l, glyphs_asRead r]
    rfl
  | .and items => by
    rw [asRead, glyphs, glyphsOf_asRead .and items]
    rfl
  | .or items => by
    rw [asRead]
    split
    · next hshort =>
      rw [glyphs, glyphsOf_asRead .and items, glyphsOf_of_short hshort]
      rfl
    · rw [glyphs, glyphsOf_asRead .or items]
      rfl
  | .not e => by
    rw [asRead, glyphs, glyphs_asRead e]
    rfl
  | .isNull e => by
    rw [asRead, glyphs, glyphs_asRead e]
    rfl
  | .isNotNull e => by
    rw [asRead, glyphs, glyphs_asRead e]
    rfl

theorem glyphsOf_asRead (m : Mark) : (items : List Expr) →
    glyphsOf spelling m (asReadItems items) = glyphsOf Scalar.literalText m items
  | [] => rfl
  | [e] => glyphs_asRead e
  | e :: next :: rest => by
    have hrest := glyphsOf_asRead m (next :: rest)
    rw [asReadItems] at hrest
    rw [asReadItems, asReadItems, glyphsOf_several, glyphs_asRead e, hrest]
    rfl

end

/-- Without quotes in strings, expressions have the same text exactly if they are read alike. -/
theorem toText_eq_iff_asRead {e other : Expr} (he : ∀ v ∈ e.literals, v.Unquoted)
    (ho : ∀ v ∈ other.literals, v.Unquoted) : e.toText = other.toText ↔ e.asRead = other.asRead := by
  rw [toText_eq_iff he ho]
  constructor
  · exact asRead_of_textGlyphs
  · intro h
    rw [← glyphs_asRead, h, glyphs_asRead]

end FlowPlan.Expr
