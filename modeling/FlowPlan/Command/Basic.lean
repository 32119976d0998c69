import FlowPlan.Settings

namespace FlowPlan

/-- What a command does with a pipeline. -/
inductive Task where
  | validate
  | explain
  | compile
  deriving DecidableEq, Repr

structure Options where
  pipeline : Option String
  ordering : Option String
  fuse : Option Bool
  parallelism : Option UInt32
  json : Bool
  deriving DecidableEq, Repr

/-- A command with the path of its pipeline. -/
structure Command where
  task : Task
  path : String
  options : Options
  deriving DecidableEq, Repr

/-- What there is a description of: the program, a command, or the descriptions themselves. -/
inductive Topic where
  | program
  | task (task : Task)
  | help
  deriving DecidableEq, Repr

/-- What arguments ask for: a command, or a description. -/
inductive Request where
  | run (command : Command)
  | help (topic : Topic)
  deriving DecidableEq, Repr

namespace Task

def all : List Task := [.validate, .explain, .compile]

def name : Task → String
  | .validate => "validate"
  | .explain => "explain"
  | .compile => "compile"

def ofName? (s : String) : Option Task := all.find? (·.name == s)

/-- The long names of the options that a task takes, besides that for help. -/
def optionNames : Task → List String
  | .validate => ["pipeline"]
  | .explain => ["pipeline", "cost-ordering", "fuse", "local-parallelism"]
  | .compile => ["pipeline", "json", "cost-ordering", "fuse", "local-parallelism"]

end Task

namespace Options

def empty : Options := ⟨none, none, none, none, false⟩

/-- The value of an option, once and in its form. -/
def once {α : Type} (old : Option α) (value : Option α) : Option (Option α) :=
  if old.isSome || value.isNone then none else some value

def set? (o : Options) (name value : String) : Option Options :=
  match name with
  | "pipeline" => do
    let path ← once o.pipeline (if value.isEmpty then none else some value)
    pure { o with pipeline := path }
  | "cost-ordering" => do
    let ordering ← once o.ordering (some value)
    pure { o with ordering }
  | "fuse" => do
    let fuse ← once o.fuse (bool? value)
    pure { o with fuse }
  | "local-parallelism" => do
    let n := (Decimal.signed? 0 (Nat.pow 2 32 - 1) value.toList).map fun v => UInt32.ofNat v.toNat
    let parallelism ← once o.parallelism n
    pure { o with parallelism }
  | _ => none

end Options

/-- What an argument is: an option with its value where that is in the same argument, the switch for
JSON, the wish for help, the end of options, or a value of its own. -/
inductive Argument where
  | option (name : String) (value : Option String)
  | json
  | help
  | endOfOptions
  | word

namespace Argument

/-- The kind of an argument; nothing when no command has it. A single dash is a value. -/
def ofText? (text : String) : Option Argument :=
  match text.toList with
  | ['-', '-'] => some .endOfOptions
  | '-' :: '-' :: body =>
    let name := String.ofList (body.takeWhile (· != '='))
    match name, body.dropWhile (· != '=') with
    | "help", [] => some .help
    | "json", [] => some .json
    | "help", _ => none
    | "json", _ => none
    | name, _ :: value => some (.option name (some (String.ofList value)))
    | name, [] => some (.option name none)
  | '-' :: 'h' :: _ => some .help
  | ['-', 'p'] => some (.option "pipeline" none)
  | '-' :: 'p' :: '=' :: value => some (.option "pipeline" (some (String.ofList value)))
  | '-' :: 'p' :: value => some (.option "pipeline" (some (String.ofList value)))
  | '-' :: _ :: _ => none
  | _ => some .word

/-- Whether an argument can be the value of the option before it. -/
def isValue (text : String) : Bool :=
  match ofText? text with
  | some .word => true
  | _ => false

end Argument

namespace Options

/-- Sets an option of a task; nothing when the task does not take it. -/
def setFor? (task : Task) (o : Options) (name value : String) : Option Options :=
  if task.optionNames.contains name then o.set? name value else none

/-- Sets the switch for JSON, once. -/
def setJson? (task : Task) (o : Options) : Option Options :=
  if task.optionNames.contains "json" && !o.json then some { o with json := true } else none

/-- Reads the options of a task, or the wish for help among them. An option has its value in the
same argument or in the next one. -/
def read? (task : Task) : Options → List String → Option (Option Options)
  | o, [] => some (some o)
  | o, [text] =>
    match Argument.ofText? text with
    | some (.option name (some value)) => some <$> o.setFor? task name value
    | some .json => some <$> o.setJson? task
    | some .help => some none
    | some .endOfOptions => some (some o)
    | _ => none
  | o, text :: next :: rest =>
    match Argument.ofText? text with
    | some (.option name (some value)) =>
      (o.setFor? task name value).bind fun o => read? task o (next :: rest)
    | some (.option name none) =>
      if Argument.isValue next then
        (o.setFor? task name next).bind fun o => read? task o rest
      else none
    | some .json => (o.setJson? task).bind fun o => read? task o (next :: rest)
    | some .help => some none
    | _ => none

end Options

/-- What the arguments of the program ask for; nothing when they are refused. -/
def Request.ofArguments? : List String → Option Request
  | [] => none
  | ["help"] => some (.help .program)
  | ["help", "help"] => some (.help .help)
  | ["help", topic] => (Task.ofName? topic).map fun t => .help (.task t)
  | word :: rest =>
    if word == "--help" || word.startsWith "-h" then some (.help .program)
    else do
      let task ← Task.ofName? word
      match ← Options.read? task .empty rest with
      | none => pure (.help (.task task))
      | some o => pure (.run ⟨task, ← o.pipeline, o⟩)

end FlowPlan
