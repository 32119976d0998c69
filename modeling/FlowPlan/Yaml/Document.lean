import FlowPlan.Yaml.Layout
import FlowPlan.Yaml.Node

namespace FlowPlan.Yaml

/-- What is left to read, and the anchors so far with their numbers. A new anchor gets the number of
names that are known before it. -/
structure Pending where
  tokens : List Token
  anchors : List (String × Nat)

/-- Reading of a part of a document. -/
abbrev Parse := StateT Pending Option

def commonTagRules : List (String × Tag) :=
  [("!", .ofText "!"), ("!!", .ofText "tag:yaml.org,2002:")]

namespace Parse

def peek : Parse (Option Token) := do return (← get).tokens.head?

def advance : Parse Unit := modify fun s => { s with tokens := s.tokens.drop 1 }

def refuse {α : Type} : Parse α := fun _ => none

def define (name : String) : Parse Nat := do
  let known := (← get).anchors
  let id := known.length
  modify fun s => { s with anchors := (name, id) :: known.filter fun (other, _) => other != name }
  pure id

def numberOf (name : String) : Parse Nat := do
  match (← get).anchors.lookup name with
  | some id => pure id
  | none => refuse

def anchor : Parse (Option Nat) := do
  match ← peek with
  | some (.anchor name) =>
    advance
    some <$> define name
  | _ => pure none

def fullTag (rules : List (String × Tag)) (mark : TagMark) : Parse Tag :=
  if mark.handle.isEmpty then pure mark.suffix
  else
    match rules.lookup mark.handle with
    | some start => pure (start.append mark.suffix)
    | none => refuse

def tag (rules : List (String × Tag)) : Parse (Option Tag) := do
  match ← peek with
  | some (.tag mark) =>
    advance
    some <$> fullTag rules mark
  | _ => pure none

def properties (rules : List (String × Tag)) : Parse Properties := do
  match ← tag rules with
  | some t => return ⟨some t, ← anchor⟩
  | none =>
    let id ← anchor
    return ⟨← tag rules, id⟩

def blank : Node := .scalar ⟨none, none⟩ .plain ""

/-- Whether a block ends or goes on, so that nothing stands here. -/
def isBlockMark (dash : Bool) : Option Token → Bool
  | some .dash => dash
  | some .key => true
  | some .value => true
  | some .closeBlock => true
  | _ => false

/-- A node of which only a tag or an anchor is written. -/
def bare (ps : Properties) : Parse Node :=
  if ps.tag.isSome || ps.anchor.isSome then pure (.scalar ps .plain "") else refuse

mutual

/-- Reads a node. Only in a block may blocks start, and items without a block of their own only
where `loose`. -/
def node (rules : List (String × Tag)) : (fuel : Nat) → (block loose : Bool) → Parse Node
  | 0, _, _ => refuse
  | fuel + 1, block, loose => do
    if let some (.alias name) ← peek then
      advance
      return .alias (← numberOf name)
    let ps ← properties rules
    match ← peek with
    | some (.scalar style text) =>
      advance
      return .scalar ps style text
    | some .openSquare =>
      advance
      return .sequence ps (← squareItems rules fuel true)
    | some .openCurly =>
      advance
      return .mapping ps (← curlyEntries rules fuel true)
    | some .openItems =>
      if block then
        advance
        return .sequence ps (← blockItems rules fuel)
      else bare ps
    | some .openEntries =>
      if block then
        advance
        return .mapping ps (← blockEntries rules fuel)
      else bare ps
    | some .dash => if loose then return .sequence ps (← looseItems rules fuel) else bare ps
    | _ => bare ps

def blockItems (rules : List (String × Tag)) : (fuel : Nat) → Parse (List Node)
  | 0 => refuse
  | fuel + 1 => do
    match ← peek with
    | some .dash =>
      advance
      let item ← match ← peek with
        | some .dash => pure blank
        | some .closeBlock => pure blank
        | _ => node rules fuel true false
      return item :: (← blockItems rules fuel)
    | some .closeBlock =>
      advance
      return []
    | _ => refuse

def looseItems (rules : List (String × Tag)) : (fuel : Nat) → Parse (List Node)
  | 0 => refuse
  | fuel + 1 => do
    match ← peek with
    | some .dash =>
      advance
      let item ← if isBlockMark true (← peek) then pure blank else node rules fuel true false
      return item :: (← looseItems rules fuel)
    | _ => return []

def blockEntries (rules : List (String × Tag)) : (fuel : Nat) → Parse (List (Node × Node))
  | 0 => refuse
  | fuel + 1 => do
    match ← peek with
    | some .key =>
      advance
      let key ← if isBlockMark false (← peek) then pure blank else node rules fuel true true
      let value ← blockValue rules fuel
      return (key, value) :: (← blockEntries rules fuel)
    | some .closeBlock =>
      advance
      return []
    | _ => refuse

def blockValue (rules : List (String × Tag)) : (fuel : Nat) → Parse Node
  | 0 => refuse
  | fuel + 1 => do
    match ← peek with
    | some .value =>
      advance
      if isBlockMark false (← peek) then return blank else node rules fuel true true
    | _ => return blank

/-- Reads the items between square brackets, the first of them or a later one. -/
def squareItems (rules : List (String × Tag)) : (fuel : Nat) → (first : Bool) → Parse (List Node)
  | 0, _ => refuse
  | fuel + 1, first => do
    if let some .closeSquare ← peek then
      advance
      return []
    if !first then
      let some .comma ← peek | refuse
      advance
    match ← peek with
    | some .closeSquare =>
      advance
      return []
    | some .key =>
      advance
      let item ← pair rules fuel
      return item :: (← squareItems rules fuel false)
    | _ =>
      let item ← node rules fuel false false
      return item :: (← squareItems rules fuel false)

/-- Reads a mapping of one entry that stands between square brackets. What follows a mark without
a key is skipped. -/
def pair (rules : List (String × Tag)) : (fuel : Nat) → Parse Node
  | 0 => refuse
  | fuel + 1 => do
    let key ← match ← peek with
      | some .value => advance *> pure blank
      | some .comma => advance *> pure blank
      | some .closeSquare => advance *> pure blank
      | _ => node rules fuel false false
    let value ← bracketValue rules fuel true
    return .mapping ⟨none, none⟩ [(key, value)]

/-- Reads the entries between curly brackets, the first of them or a later one. -/
def curlyEntries (rules : List (String × Tag)) :
    (fuel : Nat) → (first : Bool) → Parse (List (Node × Node))
  | 0, _ => refuse
  | fuel + 1, first => do
    if let some .closeCurly ← peek then
      advance
      return []
    if !first then
      let some .comma ← peek | refuse
      advance
    match ← peek with
    | some .closeCurly =>
      advance
      return []
    | some .key =>
      advance
      let key ← match ← peek with
        | some .value => pure blank
        | some .comma => pure blank
        | some .closeCurly => pure blank
        | _ => node rules fuel false false
      let value ← bracketValue rules fuel false
      return (key, value) :: (← curlyEntries rules fuel false)
    | _ =>
      let key ← node rules fuel false false
      return (key, blank) :: (← curlyEntries rules fuel false)

/-- Reads the value of an entry between square or curly brackets. -/
def bracketValue (rules : List (String × Tag)) : (fuel : Nat) → (square : Bool) → Parse Node
  | 0, _ => refuse
  | fuel + 1, square => do
    match ← peek with
    | some .value =>
      advance
      match ← peek, square with
      | some .comma, _ => return blank
      | some .closeSquare, true => return blank
      | some .closeCurly, false => return blank
      | _, _ => node rules fuel false false
    | _ => return blank

end

end Parse

/-- What the directives before a document say. -/
structure Preface where
  version : Option (Nat × Nat)
  rules : List (String × Tag)

/-- Reads directives: one version that is known, and rules for tags, one for each name. -/
def preface? : Preface → List Token → Option (Preface × List Token)
  | p, .version major minor :: rest =>
    if p.version.isNone && major == 1 && (minor == 1 || minor == 2) then
      preface? { p with version := some (major, minor) } rest
    else none
  | p, .tagRule handle start :: rest =>
    if (p.rules.lookup handle).isNone then
      preface? { p with rules := (handle, start) :: p.rules } rest
    else none
  | p, rest => some (p, rest)

/-- Reads the root of a document without directives. -/
def root? (rules : List (String × Tag)) (ts : List Token) : Option (Node × List Token) := do
  let (n, s) ← Parse.node (rules ++ commonTagRules) (4 * (ts.length + 1)) true false ⟨ts, []⟩
  pure (n, s.tokens)

def firstDocument? (ts : List Token) : Option (Node × List Token) := do
  let (p, rest) ← preface? ⟨none, []⟩ ts
  match rest with
  | .documentStart :: rest =>
    match rest with
    | [] => some (Parse.blank, [])
    | .documentEnd :: _ => some (Parse.blank, rest)
    | _ => root? p.rules rest
  | _ => if p.version.isNone && p.rules.isEmpty then root? [] rest else none

def Token.isDocumentEnd : Token → Bool
  | .documentEnd => true
  | _ => false

def document? (text : String) : Option Node := do
  let (n, rest) ← firstDocument? (← tokens? text)
  if rest.all Token.isDocumentEnd then some n else none

end FlowPlan.Yaml
