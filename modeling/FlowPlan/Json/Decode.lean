import FlowPlan.Json.Number
import FlowPlan.Json.Value

namespace FlowPlan.Json

/-- How a value is read: through how many more containers, and whether it was already taken in as
a part of a larger one. -/
structure Room where
  levels : Nat
  buffered : Bool

namespace Room

def top : Room := ⟨127, false⟩

/-- The room inside a container. -/
def enter (r : Room) : Option Room :=
  match r.levels with
  | 0 => none
  | n + 1 => some ⟨n, r.buffered⟩

end Room

abbrev Reader (α : Type) := Room → Json → Option α

def bool? : Reader Bool
  | _, .bool b => some b
  | _, _ => none

def text? : Reader String
  | _, .string s => some s
  | _, _ => none

def integer? (least most : Int) : Reader Int
  | _, .number lexeme => do
    let v ← (← numeric? lexeme).integer?
    if least ≤ v && v ≤ most then some v else none
  | _, _ => none

def natural? (bits : Nat) : Reader Nat := fun r j =>
  Int.toNat <$> integer? 0 (Nat.pow 2 bits - 1) r j

def binary? {f : Format} : Reader (Binary f)
  | _, .number lexeme => Numeric.toBinary <$> numeric? lexeme
  | _, _ => none

def orNull? {α : Type} (read : Reader α) : Reader (Option α)
  | _, .null => some none
  | r, j => some <$> read r j

def list? {α : Type} (read : Reader α) : Reader (List α)
  | r, .array items => do
    let inner ← r.enter
    items.mapM (read inner)
  | _, _ => none

structure Members where
  room : Room
  found : List (String × Json)

/-- Keeps the members with the given names, each of which may occur once. The others are not looked
at. -/
def known (names : List String) (members : List (String × Json)) : Option (List (String × Json)) :=
  let found := members.filter fun (key, _) => names.contains key
  if (found.map Prod.fst).Nodup then some found else none

def members? (names : List String) : Reader Members
  | r, .object members => do
    let inner ← r.enter
    (Members.mk inner) <$> known names members
  | r, .array items => do
    let inner ← r.enter
    if items.length ≤ names.length then some ⟨inner, names.zip items⟩ else none
  | _, _ => none

namespace Members

def field? {α : Type} (m : Members) (name : String) (read : Reader α) : Option α := do
  read m.room (← m.found.lookup name)

/-- Reads a field, or takes a given value where it is missing. -/
def fieldOr? {α : Type} (m : Members) (name : String) (missing : α) (read : Reader α) : Option α :=
  match m.found.lookup name with
  | some j => read m.room j
  | none => some missing

end Members

/-- A choice by its name, with its content if it has one. -/
structure Choice where
  name : String
  content : Option (Room × Json)

def choice? : Reader Choice
  | _, .string name => some ⟨name, none⟩
  | r, .object [(name, content)] => do
    let inner ← r.enter
    some ⟨name, some (inner, content)⟩
  | _, _ => none

namespace Choice

def read? {α : Type} (c : Choice) (read : Reader α) : Option α := do
  let (r, j) ← c.content
  read r j

/-- Gives the value of a choice without content, which null may stand for. -/
def bare? {α : Type} (c : Choice) (value : α) : Option α :=
  match c.content with
  | none => some value
  | some (_, .null) => some value
  | some (r, .object []) => if r.buffered then some value else none
  | _ => none

end Choice

def oneOf? {α : Type} (find : String → Option α) : Reader α := fun r j => do
  let c ← choice? r j
  c.bare? (← find c.name)

mutual

/-- Whether a whole value can be taken in: every text is readable, every number in range, and
containers are at most `levels` deep. -/
def isSound (levels : Nat) : Json → Bool
  | .number lexeme => (numeric? lexeme).isSome
  | .array items => levels != 0 && areSound (levels - 1) items
  | .object members => levels != 0 && areSoundMembers (levels - 1) members
  | .unreadable => false
  | _ => true

def areSound (levels : Nat) : List Json → Bool
  | [] => true
  | j :: rest => isSound levels j && areSound levels rest

/-- Whether the members of an object can be taken in. -/
def areSoundMembers (levels : Nat) : List (String × Json) → Bool
  | [] => true
  | (_, j) :: rest => isSound levels j && areSoundMembers levels rest

end

/-- Reads a structure with its kind in the field `tag`, or first in an array: the kind, and the
structure without it. -/
def kind? (tag : String) : Reader (String × Room × Json) := fun r j =>
  if !isSound r.levels j then none
  else
    let inside : Room := ⟨r.levels, true⟩
    match j with
    | .object members =>
      match members.filter fun (key, _) => key == tag with
      | [(_, .string kind)] => some (kind, inside, .object (members.filter fun (key, _) => key != tag))
      | _ => none
    | .array (.string kind :: rest) => some (kind, inside, .array rest)
    | _ => none

/-- Gives the value of a kind without fields. -/
def noFields? {α : Type} (value : α) : Reader α
  | _, .object _ => some value
  | _, .array [] => some value
  | _, _ => none

end FlowPlan.Json
