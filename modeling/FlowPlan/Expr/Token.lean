import FlowPlan.Expr.Basic
import FlowPlan.Text.Class

namespace FlowPlan

/-- A word or sign of expression text. A quoted name is never a keyword. -/
inductive Token where
  | word (text : String)
  | quoted (name : String)
  | number (text : String)
  | string (text : String)
  | compare (op : Comparison)
  | plus
  | minus
  | times
  | over
  | leftParen
  | rightParen
  deriving DecidableEq, Repr

/-- Why a text is no expression. What was found instead is a token, or nothing at the end. -/
inductive SyntaxError where
  | loneBang
  | unterminated (delimiter : Char) (text : List Char)
  | unexpectedCharacter (c : Char)
  | invalidNumber (text : String)
  | unknownColumn (name : String)
  | expectedOperand (found : Option Token)
  | expectedRightParen (found : Option Token)
  | expectedNull (found : Option Token)
  | expectedAlias (found : Option Token)
  | trailing (found : Token)
  deriving DecidableEq, Repr

namespace Token

def toText : Token → String
  | .word s => s
  | .quoted s => "\"" ++ s ++ "\""
  | .number s => s
  | .string s => "'" ++ s ++ "'"
  | .compare op => op.symbol
  | .plus => "+"
  | .minus => "-"
  | .times => "*"
  | .over => "/"
  | .leftParen => "("
  | .rightParen => ")"

/-- Whether the token is a keyword, in any case of letters. -/
def isKeyword (t : Token) (keyword : String) : Bool :=
  match t with
  | .word s => Text.sameWord s keyword
  | _ => false

end Token

namespace SyntaxError

/-- A token that was found, or the end of the text. -/
def foundText : Option Token → String
  | some t => t.toText
  | none => "end of input"

def message : SyntaxError → String
  | .loneBang => "expected '=' after '!'"
  | .unterminated d text => "unterminated " ++ String.ofList (d :: text)
  | .unexpectedCharacter c => "unexpected character '" ++ String.ofList [c] ++ "'"
  | .invalidNumber text => "invalid number " ++ text
  | .unknownColumn name => "unknown column \"" ++ name ++ "\""
  | .expectedOperand t => "expected an operand, found " ++ foundText t
  | .expectedRightParen t => "expected ')', found " ++ foundText t
  | .expectedNull t => "expected NULL, found " ++ foundText t
  | .expectedAlias t => "expected alias after AS, found " ++ foundText t
  | .trailing t => "unexpected " ++ t.toText ++ " after expression"

end SyntaxError

namespace Token

/-- The inside of a quoted run and what follows it. A doubled delimiter stands for one. -/
def delimited (d : Char) (read : List Char) : List Char → Except SyntaxError (List Char × List Char)
  | [] => .error (.unterminated d read)
  | [c] => if c = d then .ok (read, []) else .error (.unterminated d (read ++ [c]))
  | c :: e :: rest =>
    if c = d then
      if e = d then delimited d (read ++ [d]) rest else .ok (read, e :: rest)
    else delimited d (read ++ [c]) (e :: rest)

def isNumberPart (c : Char) : Bool := c.isAlphanum || c == '.'

def isWordPart (c : Char) : Bool := Text.isLetterOrNumber c || c == '_'

/-- A comparison that an equals sign may extend. -/
def comparison (bare extended : Comparison) : List Char → Token × List Char
  | '=' :: rest => (.compare extended, rest)
  | rest => (.compare bare, rest)

/-- The token that starts with the character `c`, which is no blank, and what follows it. -/
def first (c : Char) (rest : List Char) : Except SyntaxError (Token × List Char) :=
  match c with
  | '(' => .ok (.leftParen, rest)
  | ')' => .ok (.rightParen, rest)
  | '+' => .ok (.plus, rest)
  | '-' => .ok (.minus, rest)
  | '*' => .ok (.times, rest)
  | '/' => .ok (.over, rest)
  | '=' => .ok (comparison .eq .eq rest)
  | '!' =>
    match rest with
    | '=' :: tail => .ok (.compare .notEq, tail)
    | _ => .error .loneBang
  | '<' =>
    match rest with
    | '>' :: tail => .ok (.compare .notEq, tail)
    | _ => .ok (comparison .lt .ltEq rest)
  | '>' => .ok (comparison .gt .gtEq rest)
  | '\'' => (fun (s, tail) => (.string (String.ofList s), tail)) <$> delimited '\'' [] rest
  | '"' => (fun (s, tail) => (.quoted (String.ofList s), tail)) <$> delimited '"' [] rest
  | _ =>
    if c.isDigit || c == '.' then
      .ok (.number (String.ofList (c :: rest.takeWhile isNumberPart)), rest.dropWhile isNumberPart)
    else if Text.isLetter c || c == '_' then
      .ok (.word (String.ofList (c :: rest.takeWhile isWordPart)), rest.dropWhile isWordPart)
    else .error (.unexpectedCharacter c)

theorem length_of_delimited {d : Char} {read l s tail : List Char}
    (h : delimited d read l = .ok (s, tail)) : tail.length ≤ l.length := by
  fun_induction delimited d read l with
  | case1 => cases h
  | case2 => cases h; simp
  | case3 => cases h
  | case4 read rest ih => have := ih h; simp; omega
  | case5 => cases h; simp
  | case6 read c e rest _ ih => have := ih h; simp at this ⊢; omega

theorem length_of_quoted {d : Char} {rest tail : List Char} {t : Token}
    {make : List Char × List Char → Token × List Char} (keeps : ∀ p, (make p).2 = p.2)
    (h : make <$> delimited d [] rest = .ok (t, tail)) : tail.length ≤ rest.length := by
  cases hd : delimited d [] rest with
  | error => rw [hd] at h; cases h
  | ok p =>
    rw [hd] at h
    have htail : tail = p.2 := (congrArg Prod.snd (Except.ok.inj h)).symm.trans (keeps p)
    rw [htail]
    exact length_of_delimited hd

theorem length_of_comparison {a b : Comparison} {l tail : List Char} {t : Token}
    (h : comparison a b l = (t, tail)) : tail.length ≤ l.length := by
  unfold comparison at h
  split at h <;> cases h <;> simp

/-- A token never gives back more characters than it was offered. -/
theorem length_of_first {c : Char} {rest tail : List Char} {t : Token}
    (h : first c rest = .ok (t, tail)) : tail.length ≤ rest.length := by
  unfold first at h
  split at h
  case h_7 | h_10 => exact length_of_comparison (Except.ok.inj h)
  case h_8 => split at h <;> cases h; simp
  case h_9 =>
    split at h
    · cases h; simp
    · exact length_of_comparison (Except.ok.inj h)
  case h_11 | h_12 => exact length_of_quoted (fun _ => rfl) h
  case h_13 =>
    split at h
    · cases h; exact (List.dropWhile_suffix _).length_le
    · split at h
      · cases h; exact (List.dropWhile_suffix _).length_le
      · cases h
  all_goals (cases h; exact Nat.le_refl _)

/-- The tokens of a text, which blanks may separate. -/
def ofChars : List Char → Except SyntaxError (List Token)
  | [] => .ok []
  | c :: rest =>
    if Text.isBlank c then ofChars rest
    else
      match h : first c rest with
      | .error e => .error e
      | .ok (t, tail) =>
        have : tail.length ≤ rest.length := length_of_first h
        (t :: ·) <$> ofChars tail
termination_by text => text.length

end Token

end FlowPlan
