import FlowPlan.Command.Basic

namespace FlowPlan

namespace Task

def about : Task → String
  | .validate => "Check that a pipeline parses and its containers are scannable"
  | .explain => "Show the logical and chosen physical plan with costs"
  | .compile => "Compile a pipeline into an execution graph"

/-- The options that change settings, with what they mean. -/
def settingsHelp : List (String × String) :=
  [("    --cost-ordering <COST_ORDERING>", "Cost ordering: rows_then_cpu, cpu_then_rows or total"),
    ("    --fuse <FUSE>",
      "Fuse a project over a filter into one vertex [possible values: true, false]"),
    ("    --local-parallelism <LOCAL_PARALLELISM>", "Parallelism hint for every vertex")]

/-- The options of a task that need not be given, with what they mean. -/
def optionalHelp : Task → List (String × String)
  | .validate => []
  | .explain => settingsHelp
  | .compile => ("    --json", "Print the graph as JSON") :: settingsHelp

def help (t : Task) : String :=
  let about := t.about ++ "\n\nUsage: relplan " ++ t.name
  let required := " --pipeline <PIPELINE>\n\nOptions:\n"
  let pipeline := "  -p, --pipeline <PIPELINE>"
  let path := "Path to the pipeline YAML file\n"
  match t.optionalHelp with
  | [] =>
    about ++ required ++ pipeline ++ "  " ++ path ++ "  -h, --help                 Print help\n"
  | options =>
    let line (item : String × String) : String :=
      "  " ++ item.1 ++ "\n          " ++ item.2 ++ "\n"
    about ++ " [OPTIONS]" ++ required ++ pipeline ++ "\n          " ++ path ++
      String.join (options.map line) ++ "  -h, --help\n          Print help\n"

end Task

def aboutHelp : String := "Print this message or the help of the given subcommand(s)"

def help : Topic → String
  | .task t => t.help
  | .help =>
    aboutHelp ++ "\n\nUsage: relplan help [COMMAND]...\n\nArguments:\n" ++
      "  [COMMAND]...  Print help for the subcommand(s)\n"
  | .program =>
    "relplan: cost-based planning of linear pipelines into execution graphs\n\n" ++
      "Usage: relplan <COMMAND>\n\nCommands:\n" ++
      String.join (Task.all.map fun t =>
        "  " ++ t.name ++ String.ofList (List.replicate (10 - t.name.length) ' ') ++ t.about ++ "\n") ++
      "  help      " ++ aboutHelp ++ "\n\n" ++
      "Options:\n  -h, --help  Print help\n"

end FlowPlan
