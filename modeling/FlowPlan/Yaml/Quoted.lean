import FlowPlan.Yaml.Plain
import FlowPlan.Text.Hex

namespace FlowPlan.Yaml

/-- The character that an escape of one letter stands for. -/
def shortEscape? : Char → Option Char
  | '0' => some '\x00'
  | 'a' => some '\x07'
  | 'b' => some '\x08'
  | 't' => some '\t'
  | '\t' => some '\t'
  | 'n' => some '\n'
  | 'v' => some '\x0b'
  | 'f' => some '\x0c'
  | 'r' => some '\r'
  | 'e' => some '\x1b'
  | ' ' => some ' '
  | '"' => some '"'
  | '/' => some '/'
  | '\\' => some '\\'
  | 'N' => some '\u0085'
  | '_' => some '\u00a0'
  | 'L' => some '\u2028'
  | 'P' => some '\u2029'
  | _ => none

/-- How many digits follow the letter of a numbered escape. -/
def escapeDigits? : Char → Option Nat
  | 'x' => some 2
  | 'u' => some 4
  | 'U' => some 8
  | _ => none

/-- The character that a run of hexadecimal digits numbers. -/
def numbered? (digits : List Char) : Option Char := do
  let n ← Text.hexNatural? digits
  if n.isValidChar then some (Char.ofNat n) else none

def escape? : List Placed → Option (Char × List Placed)
  | [] => none
  | p :: rest =>
    match escapeDigits? p.char with
    | some n =>
      let digits := chars (rest.take n)
      if digits.length == n then (numbered? digits).map (·, rest.drop n) else none
    | none => (shortEscape? p.char).map (·, rest)

/-- Reads a scalar after its opening quote, at most `fuel` steps far, with the gap since its last
word: its text and what follows the closing quote. -/
def quoted? (quote : Char) : (fuel : Nat) → Gap → List Placed → Option (List Char × List Placed)
  | fuel + 1, gap, p :: rest =>
    let onward (text : List Char) (tail : List Placed) : Option (List Char × List Placed) := do
      let (more, after) ← quoted? quote fuel .none tail
      pure (gap.text ++ text ++ more, after)
    if isWhite p.char || isBreak p.char then quoted? quote fuel (gap.add p.char) rest
    else if isBoundary (p :: rest) then none
    else if p.char == quote then
      match quote, rest with
      | '\'', ⟨'\'', _, _, _⟩ :: tail => onward ['\''] tail
      | _, _ => some (gap.text, rest)
    else if quote == '"' && p.char == '\\' then
      match rest with
      | [] => none
      | q :: tail =>
        if isBreak q.char then do
          let (more, after) ← quoted? quote fuel (.broken none []) tail
          pure (gap.text ++ more, after)
        else do
          let (c, tail) ← escape? rest
          onward [c] tail
    else onward [p.char] rest
  | _, _, _ => none

end FlowPlan.Yaml
