import FlowPlan.Expr.Parse
import FlowPlan.Proofs.Outcome

namespace FlowPlan

open Outcome

/-- An expression and what follows it. -/
def Parsed.pair {n : Nat} (p : Parsed n) : Expr × List Token := (p.expr, p.rest)

theorem Parsed.pair_weaken {m n : Nat} (x : Except SyntaxError (Parsed m)) (h : m ≤ n) :
    Parsed.pair <$> (do let p ← x; pure (p.weaken h)) = Parsed.pair <$> x := by
  cases x <;> rfl

namespace Expr

/-- One operand from the front of a list of tokens. -/
def primary (s : Schema) (ts : List Token) : Except SyntaxError (Expr × List Token) :=
  Parsed.pair <$> operand s ts

/-- An operand with the operators that follow it and bind more tightly than `level`. -/
def further (s : Schema) (level : Nat) (left : Expr) (ts : List Token) :
    Except SyntaxError (Expr × List Token) :=
  Parsed.pair <$> extend s level left ts

/-- An expression of operators that bind more tightly than `level`. -/
def whole (s : Schema) (level : Nat) (ts : List Token) : Except SyntaxError (Expr × List Token) :=
  Parsed.pair <$> expression s level ts

end Expr

/-- What an operator makes of the operand on its left and the tokens on its right. -/
def Infix.follow (s : Schema) (left : Expr) (ts : List Token) :
    Infix → Except SyntaxError (Expr × List Token)
  | .isNull => Parsed.pair <$> Expr.nullTest left ts
  | .binary level combine => do
    let (right, rest) ← Expr.whole s level ts
    pure (combine left right, rest)

namespace Expr

variable {s : Schema} {level : Nat} {left : Expr} {t : Token} {ts : List Token}

theorem length_of_pair {n : Nat} {x : Except SyntaxError (Parsed n)} {found : Expr × List Token}
    (h : Parsed.pair <$> x = .ok found) : found.2.length < n := by
  obtain ⟨p, -, rfl⟩ := map_eq_ok.mp h
  exact p.short

theorem follow_length {op : Infix} {found : Expr × List Token}
    (h : op.follow s left ts = .ok found) : found.2.length < ts.length := by
  cases op with
  | isNull => exact length_of_pair h
  | binary k combine =>
    obtain ⟨right, hright, h⟩ := bind_eq_ok.mp h
    cases h
    have hlen : right.2.length < ts.length := length_of_pair hright
    exact hlen

theorem whole_eq (s : Schema) (level : Nat) (ts : List Token) : whole s level ts = (do
    let (e, rest) ← primary s ts
    further s level e rest) := by
  rw [whole, expression, primary]
  cases operand s ts with
  | error e => rfl
  | ok p =>
    exact Parsed.pair_weaken (extend s level p.expr p.rest) _

@[simp] theorem further_nil : further s level left [] = .ok (left, []) := by
  rw [further, extend]
  rfl

theorem further_none (h : Infix.ofToken? t = none) :
    further s level left (t :: ts) = .ok (left, t :: ts) := by
  rw [further, extend]
  split
  · rfl
  · rename_i op ho
    simp [h] at ho

theorem further_loose {op : Infix} (h : Infix.ofToken? t = some op) (hl : op.level ≤ level) :
    further s level left (t :: ts) = .ok (left, t :: ts) := by
  rw [further, extend]
  split
  · rfl
  · rename_i op' ho
    obtain rfl : op = op' := by simpa [h] using ho
    simp [Nat.not_lt.mpr hl, Parsed.pair]

theorem further_tight {op : Infix} (h : Infix.ofToken? t = some op) (hl : level < op.level) :
    further s level left (t :: ts) = (do
      let (e, rest) ← op.follow s left ts
      further s level e rest) := by
  rw [further, extend]
  split
  · rename_i ho
    simp [h] at ho
  · rename_i op' ho
    obtain rfl : op = op' := by simpa [h] using ho
    simp only [hl, ↓reduceIte]
    cases op with
    | isNull =>
      simp only [Infix.follow]
      cases nullTest left ts with
      | error e => rfl
      | ok p => exact Parsed.pair_weaken (extend s level p.expr p.rest) _
    | binary l combine =>
      simp only [Infix.follow, whole]
      cases expression s l ts with
      | error e => rfl
      | ok p => exact Parsed.pair_weaken (extend s level (combine left p.expr) p.rest) _

theorem primary_minus : primary s (.minus :: ts) = (do
    let (e, rest) ← whole s signLevel ts
    pure (e.negated, rest)) := by
  rw [primary, operand, whole]
  cases expression s signLevel ts with
  | error e => rfl
  | ok p => rfl

theorem primary_plus : primary s (.plus :: ts) = whole s signLevel ts := by
  rw [primary, operand, whole]
  cases expression s signLevel ts with
  | error e => rfl
  | ok p => rfl

/-- What closes a parenthesis. -/
def closing (e : Expr) : List Token → Except SyntaxError (Expr × List Token)
  | .rightParen :: rest => .ok (e, rest)
  | [] => .error (.expectedRightParen none)
  | t :: _ => .error (.expectedRightParen (some t))

theorem primary_leftParen : primary s (.leftParen :: ts) = (do
    let (e, rest) ← whole s 0 ts
    closing e rest) := by
  rw [primary, operand, whole]
  cases expression s 0 ts with
  | error e => rfl
  | ok p =>
    simp only [ok_bind, Except.map_ok]
    split
    · rename_i rest h
      simp [Parsed.pair, h, closing]
    · rename_i h
      simp [Parsed.pair, h, closing]
    · rename_i u rest h hu
      simp only [Parsed.pair, hu, Except.map_error]
      cases u with
      | rightParen => exact (h rfl).elim
      | _ => rfl

theorem primary_not (h : t.isKeyword "NOT" = true) : primary s (t :: ts) = (do
    let (e, rest) ← whole s notLevel ts
    pure (.not e, rest)) := by
  cases t with
  | word name =>
    rw [primary, operand, whole] <;> try simp
    simp only [h, ↓reduceIte]
    cases expression s notLevel ts with
    | error e => rfl
    | ok p => rfl
  | _ => cases h

/-- Tokens that start an operand of their own. -/
def isOperandStart (t : Token) : Bool :=
  match t with
  | .minus | .plus | .leftParen => false
  | t => !t.isKeyword "NOT"

theorem start_cases (t : Token) : t = .minus ∨ t = .plus ∨ t = .leftParen ∨
    t.isKeyword "NOT" = true ∨ isOperandStart t = true := by
  cases hn : t.isKeyword "NOT" with
  | true => exact .inr (.inr (.inr (.inl rfl)))
  | false => cases t <;> simp_all [isOperandStart]

@[simp] theorem primary_nil : primary s [] = .error (.expectedOperand none) := by
  rw [primary, operand]
  rfl

theorem primary_atom (h : isOperandStart t = true) : primary s (t :: ts) = (do
    let e ← atom s t
    pure (e, ts)) := by
  have hn : t.isKeyword "NOT" = false := by
    cases t <;> simp_all [isOperandStart, Token.isKeyword]
  rw [primary, operand]
  · simp only [hn, Bool.false_eq_true, ↓reduceIte]
    cases atom s t with
    | error e => rfl
    | ok e => rfl
  all_goals
    rintro rfl
    cases h

theorem ofTokens_eq (s : Schema) (ts : List Token) : ofTokens s ts = (do
    let (e, rest) ← whole s 0 ts
    match rest with
    | [] => pure e
    | t :: _ => .error (.trailing t)) := by
  rw [ofTokens, whole]
  cases expression s 0 ts with
  | error e => rfl
  | ok p => rfl

end Expr

end FlowPlan
