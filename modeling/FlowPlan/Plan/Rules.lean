import FlowPlan.Error

namespace FlowPlan

/-- A rule for nodes of one kind. It is given a node and what became of the node's inputs, and
builds the node over those, or says why it cannot. -/
structure Rule where
  name : String
  kind : OperatorKind
  source : Convention
  target : Convention
  rebuild : Plan → Except Error (List Plan) → Except Error Plan

namespace Rule

/-- The rule in one line, without what it builds. -/
def toText (r : Rule) : String :=
  "ConverterRule \x7b name: \"" ++ r.name ++ "\", kind: " ++ r.kind.name ++ ", from: " ++
    r.source.name ++ ", to: " ++ r.target.name ++ " \x7d"

def accepts (r : Rule) (p : Plan) : Bool := p.kind == r.kind && p.convention == r.source

/-- Rebuilds a node over its converted inputs and checks that the rule kept its promise. -/
def run (r : Rule) (p : Plan) (inputs : Except Error (List Plan)) : Except Error Plan :=
  if !r.accepts p then .error (.ruleMismatch r.name p.kind p.convention)
  else
    match r.rebuild p inputs with
    | .error e => .error e
    | .ok q =>
      if q.convention = r.target then .ok q
      else .error (.broken (.ruleResult r.name q.convention r.target))

end Rule

/-- The conventions that lie on the way from one to another, the last included. -/
def Convention.path? : (source target : Convention) → Option (List Convention)
  | .unset, .unset => some []
  | .logical, .logical => some []
  | .physical, .physical => some []
  | .unset, .logical => some [.logical]
  | .unset, .physical => some [.logical, .physical]
  | .logical, .physical => some [.physical]
  | _, _ => none

/-- Rules in the order of their registration. A conversion takes the first rule for each step; the
others are alternatives for the optimizer. -/
structure Rules where
  all : List Rule

namespace Rules

def empty : Rules := ⟨[]⟩

def register (rs : Rules) (r : Rule) : Rules := ⟨rs.all ++ [r]⟩

/-- The rules for one step of one kind of node. -/
def rulesFor (rs : Rules) (kind : OperatorKind) (source target : Convention) : List Rule :=
  rs.all.filter fun r => r.kind == kind && r.source == source && r.target == target

/-- Converts a node by one step, its inputs being converted by `convertInput`. -/
def step (rs : Rules) (convertInput : Plan → Except Error Plan) (p : Plan) (next : Convention) :
    Except Error Plan :=
  match rs.rulesFor p.kind p.convention next with
  | [] => .error (.planning (.noRule p.kind p.convention next))
  | r :: _ => r.run p (p.inputs.mapM convertInput)

/-- Converts a plan whose nodes lie at most `levels` deep. -/
def convertWithin (rs : Rules) : (levels : Nat) → Convention → Plan → Except Error Plan
  | 0, target, p =>
    if p.convention = target then .ok p
    else .error (.broken (.endlessConversion p.kind p.convention))
  | levels + 1, target, p =>
    match p.convention.path? target with
    | none => .error (.planning (.noConversion p.kind p.convention target))
    | some path => path.foldlM (fun q next => rs.step (rs.convertWithin levels next) q next) p

/-- Converts a plan to a convention. A subtree that is there already is left alone. A plan is no
deeper than it has nodes, so rules that keep its shape never run out of levels. -/
def convert (rs : Rules) (target : Convention) (p : Plan) : Except Error Plan :=
  rs.convertWithin p.size target p

/-- Applies one rule to a node, whose inputs are converted to the rule's convention first. -/
def apply (rs : Rules) (r : Rule) (p : Plan) : Except Error Plan :=
  r.run p (p.inputs.mapM (rs.convert r.target))

end Rules

end FlowPlan
