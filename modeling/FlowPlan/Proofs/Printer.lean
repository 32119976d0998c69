import FlowPlan.Proofs.NormalForm

namespace FlowPlan

/-- How tightly something that is no operator holds together. -/
def atomLevel : Nat := signLevel + 1

namespace Arithmetic

/-- How tightly an operation binds. -/
def level : Arithmetic → Nat
  | .add => additiveLevel
  | .sub => additiveLevel
  | .mul => multiplicativeLevel
  | .div => multiplicativeLevel

def token : Arithmetic → Token
  | .add => .plus
  | .sub => .minus
  | .mul => .times
  | .div => .over

end Arithmetic

/-- A number without its sign. -/
def Binary.magnitude {f : Format} (x : Binary f) : Binary f := if x.signBit then x.neg else x

/-- What a spelling of numbers has to do for one of them: it has no sign, not even in an exponent; it
has a point or an exponent, as no integer has; and it reads back as the number without its sign. -/
structure Spells (digits : Double → String) (v : Double) : Prop where
  unsigned : (Token.number (digits v)).Spellable
  marked : ((digits v).toList.any fun c => c == '.' || c == 'e' || c == 'E') = true
  exact : Binary.parse? (digits v).toList = some v.magnitude

namespace Piece

def enclosed (ps : List Piece) : List Piece := ⟨false, .leftParen⟩ :: (ps ++ [⟨false, .rightParen⟩])

/-- The pieces of an operand of some level, in parentheses where that is below the least one. -/
def operand (least level : Nat) (ps : List Piece) : List Piece :=
  if least ≤ level then ps else enclosed ps

/-- The same pieces after a blank. -/
def spaced : List Piece → List Piece
  | [] => []
  | p :: rest => { p with gap := true } :: rest

end Piece

namespace Scalar

/-- Literals that are written with a minus sign. -/
def isMinus : Scalar → Bool
  | .int32 v => v.toInt < 0
  | .int64 v => v.toInt < 0
  | .float64 v => v.signBit
  | _ => false

/-- The token of a literal without its sign. -/
def token? (digits : Double → String) : Scalar → Option Token
  | .null => some (.word "NULL")
  | .bool true => some (.word "TRUE")
  | .bool false => some (.word "FALSE")
  | .text s => some (.string s)
  | .int32 v => some (.number v.toInt.natAbs.repr)
  | .int64 v => some (.number v.toInt.natAbs.repr)
  | .float64 v => some (.number (digits v))
  | .float32 _ => none
  | .binary _ => none

def pieces (digits : Double → String) (v : Scalar) : List Piece :=
  (if v.isMinus then [⟨false, .minus⟩] else []) ++ ((v.token? digits).map (Piece.mk false)).toList

end Scalar

namespace Expr

def level : Expr → Nat
  | .column _ => atomLevel
  | .literal v => if v.isMinus then signLevel else atomLevel
  | .compare _ _ _ => comparisonLevel
  | .arithmetic op _ _ => op.level
  | .and _ => andLevel
  | .or _ => orLevel
  | .not _ => notLevel
  | .isNull _ => isLevel
  | .isNotNull _ => isLevel

mutual

def literals : Expr → List Scalar
  | .column _ => []
  | .literal v => [v]
  | .compare _ l r => literals l ++ literals r
  | .arithmetic _ l r => literals l ++ literals r
  | .and items => literalsOf items
  | .or items => literalsOf items
  | .not e => literals e
  | .isNull e => literals e
  | .isNotNull e => literals e

def literalsOf : List Expr → List Scalar
  | [] => []
  | e :: rest => literals e ++ literalsOf rest

end

section Pieces

variable (digits : Double → String) (s : Schema)

mutual

/-- The pieces of an expression. Operators group to the left, so a right operand has to bind more
tightly than its operator and a left one only as tightly. -/
def pieces : Expr → List Piece
  | .column i => [⟨false, .quoted (s.columnName i)⟩]
  | .literal v => v.pieces digits
  | .compare op l r =>
    Piece.operand comparisonLevel l.level (pieces l) ++
      ⟨true, .compare op⟩ :: Piece.spaced (Piece.operand (comparisonLevel + 1) r.level (pieces r))
  | .arithmetic op l r =>
    Piece.operand op.level l.level (pieces l) ++
      ⟨true, op.token⟩ :: Piece.spaced (Piece.operand (op.level + 1) r.level (pieces r))
  | .and [] => []
  | .and (e :: rest) =>
    Piece.operand (andLevel + 1) e.level (pieces e) ++ following "AND" andLevel rest
  | .or [] => []
  | .or (e :: rest) =>
    Piece.operand (orLevel + 1) e.level (pieces e) ++ following "OR" orLevel rest
  | .not e => ⟨false, .word "NOT"⟩ :: Piece.spaced (Piece.operand notLevel e.level (pieces e))
  | .isNull e =>
    Piece.operand isLevel e.level (pieces e) ++ [⟨true, .word "IS"⟩, ⟨true, .word "NULL"⟩]
  | .isNotNull e =>
    Piece.operand isLevel e.level (pieces e) ++
      [⟨true, .word "IS"⟩, ⟨true, .word "NOT"⟩, ⟨true, .word "NULL"⟩]

/-- The pieces of all items of an AND or OR but the first, each after the word. -/
def following (word : String) (level : Nat) : List Expr → List Piece
  | [] => []
  | e :: rest =>
    ⟨true, .word word⟩ :: Piece.spaced (Piece.operand (level + 1) e.level (pieces e)) ++
      following word level rest

end

/-- The text of an expression over the columns of a schema. -/
def source (e : Expr) : String := String.ofList ((e.pieces digits s).flatMap Piece.chars)

def tokens (e : Expr) : List Token := (e.pieces digits s).map Piece.token

end Pieces

end Expr

namespace Piece

variable {ps : List Piece}

@[simp] theorem map_token_spaced (ps : List Piece) : (spaced ps).map token = ps.map token := by
  cases ps <;> rfl

@[simp] theorem map_token_enclosed (ps : List Piece) :
    (enclosed ps).map token = .leftParen :: (ps.map token ++ [.rightParen]) := by
  simp [enclosed]

theorem WellSpaced.spaced (h : WellSpaced ps) : WellSpaced (spaced ps) := by
  cases ps with
  | nil => exact h
  | cons p rest =>
    have hs : p.token.Spellable := h.spellable p List.mem_cons_self
    have hrest : WellSpaced rest :=
      ⟨fun q hq => h.spellable q (List.mem_cons_of_mem p hq), h.joins.tail⟩
    exact hrest.cons hs (List.isChain_cons.mp h.joins).1

theorem WellSpaced.before {p : Piece} (h : p.token.Spellable) (hp : WellSpaced ps) :
    WellSpaced (p :: Piece.spaced ps) := by
  refine hp.spaced.cons h ?_
  intro q hq
  cases ps with
  | nil => cases hq
  | cons q rest =>
    cases hq
    exact .inl rfl

theorem WellSpaced.enclosed (h : WellSpaced ps) : WellSpaced (enclosed ps) := by
  refine (h.append (.single (p := ⟨false, .rightParen⟩) trivial) ?_).cons trivial ?_
  · intro q hq
    cases hq
    exact .inr rfl
  · intro q _
    exact .inr (.inl rfl)

theorem WellSpaced.operand (h : WellSpaced ps) (least level : Nat) :
    WellSpaced (operand least level ps) := by
  unfold Piece.operand
  split
  · exact h
  · exact h.enclosed

end Piece

end FlowPlan
