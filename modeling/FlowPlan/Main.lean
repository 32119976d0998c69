import FlowPlan.Command.Help
import FlowPlan.Command.Run

namespace FlowPlan

def FileError.ofIO : IO.Error → FileError
  | .noFileOrDirectory .. => .missing
  | .permissionDenied .. => .denied
  | .inappropriateType _ code _ => if code == 21 then .isDirectory else .notDirectory
  | .invalidArgument .. => .nameTooLong
  | e => .other (toString e)

/-- The text of a file, or why there is none. -/
def contentsOf (path : String) : IO (Except FileError String) := do
  try
    let bytes ← IO.FS.readBinFile path
    match String.fromUTF8? bytes with
    | some text => pure (.ok text)
    | none => pure (.error .notText)
  catch e => pure (.error (.ofIO e))

def runOnFile (c : Command) : IO UInt32 := do
  let given ← Overrides.variableNames.filterMapM fun name => do
    return (← IO.getEnv name).map (name, ·)
  let random ← IO.getRandomBytes 16
  let bits := random.toList.foldl (fun n b => 256 * n + b.toNat) 0
  let outcome := c.run (fun name => given.lookup name) (.ofRandom (.ofNat 128 bits)) (← contentsOf c.path)
  IO.print outcome.output
  IO.eprint outcome.complaint
  pure outcome.status.toUInt32

end FlowPlan

open FlowPlan in
def main (args : List String) : IO UInt32 := do
  match Request.ofArguments? args with
  | some (.run c) => runOnFile c
  | some (.help topic) =>
    IO.print (help topic)
    pure 0
  | none =>
    IO.eprint (help .program)
    pure 2
