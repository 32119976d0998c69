import FlowPlan.Yaml.Document
import FlowPlan.Yaml.Word

namespace FlowPlan.Yaml

abbrev Reader (α : Type) := Node → Resolve α

namespace Reader

/-- Reads what a node or the alias of a node stands for. -/
def at? {α : Type} (read : Reader α) : Reader α := fun n => do read (← n.follow)

def root? {α : Type} (read : Reader α) (n : Node) : Option α := (read n).run' (.ofNode n)

end Reader

/-- The tag of a kind of scalars that every document knows. -/
def commonTag (name : String) : Tag := .ofText ("tag:yaml.org,2002:" ++ name)

/-- Reads the text of a scalar, however it is written. -/
def text? : Reader String := Reader.at? fun n =>
  match n with
  | .scalar _ _ text => pure text
  | _ => failure

/-- Reads the word of a scalar that is no text: without quotes, or as literal lines under the tag of
its kind. -/
def word? (kind : String) : Reader String := Reader.at? fun n =>
  match n with
  | .scalar _ .plain text => pure text
  | .scalar p .literal text => if p.tag == some (commonTag kind) then pure text else failure
  | _ => failure

def bool? : Reader Bool := fun n => do wordBool? (← word? "bool" n)

def natural? (bits : Nat) : Reader Nat := fun n => do
  let v ← wordNatural? (← word? "int" n).toList
  if v < Nat.pow 2 bits then pure v else failure

def double? : Reader Double := fun n => do wordDouble? (← word? "float" n)

def Node.isBlank : Node → Bool
  | .scalar _ .plain "" => true
  | _ => false

def isNothing (word : String) : Bool := word.isEmpty || isNull word

/-- Reads a value or null. Only a word without quotes can be null, and no tag other than that of
null may stand before it. -/
def orNull? {α : Type} (read : Reader α) : Reader (Option α) := Reader.at? fun n =>
  match n with
  | .scalar ⟨none, _⟩ .plain text => if isNothing text then pure none else some <$> read n
  | .scalar ⟨some tag, _⟩ .plain text =>
    if tag != commonTag "null" then some <$> read n
    else if isNull text then pure none
    else failure
  | _ => some <$> read n

def list? {α : Type} (read : Reader α) : Reader (List α) := Reader.at? fun n =>
  match n with
  | .sequence _ items => items.mapM read
  | n => if n.isBlank then pure [] else failure

/-- Reads one of several names. The name may also be the tag of nothing. -/
def oneOf? {α : Type} (find : String → Option α) : Reader α := Reader.at? fun n =>
  match n with
  | .scalar p style text =>
    match p.tag.bind Tag.ownName? with
    | some name => if style == .plain && isNothing text then find name else none
    | none => find text
  | _ => failure

structure Members where
  found : List (String × Node)

def members? (names : List String) : Reader Members := Reader.at? fun n =>
  match n with
  | .mapping _ entries => do
    let members ← entries.mapM fun (key, value) => (·, value) <$> text? key
    let found := members.filter fun (key, _) => names.contains key
    if (found.map Prod.fst).Nodup then pure ⟨found⟩ else failure
  | n => if n.isBlank then pure ⟨[]⟩ else failure

namespace Members

def field? {α : Type} (m : Members) (name : String) (read : Reader α) : Resolve α := do
  read (← m.found.lookup name)

/-- Reads a field, or takes a given value where it is missing. -/
def fieldOr? {α : Type} (m : Members) (name : String) (missing : α) (read : Reader α) : Resolve α :=
  match m.found.lookup name with
  | some n => read n
  | none => pure missing

end Members

end FlowPlan.Yaml
