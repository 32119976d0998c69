import FlowPlan.Json.Expr
import FlowPlan.Graph.Basic
import FlowPlan.Digest.Basic

namespace FlowPlan

namespace Processor

def toJson (p : Processor) : Json :=
  let fields := match p with
    | .scan container => [("container", .string container)]
    | .filter predicate => [("predicate", predicate.toJson)]
    | .project exprs => [("exprs", .array (exprs.map Expr.toJson))]
    | .calc predicate exprs =>
      [("predicate", predicate.toJson), ("exprs", .array (exprs.map Expr.toJson))]
    | .root => []
  .object (("type", .string p.kindName) :: fields)

def exprsOf? (m : Json.Members) : Option (List Expr) := m.field? "exprs" (Json.list? Expr.ofJson?)

def ofJson? : Json.Reader Processor := fun r j => do
  let (kind, r, j) ← Json.kind? "type" r j
  match kind with
  | "scan" => do
    let m ← Json.members? ["container"] r j
    .scan <$> m.field? "container" Json.text?
  | "filter" => do
    let m ← Json.members? ["predicate"] r j
    .filter <$> m.field? "predicate" Expr.ofJson?
  | "project" => do
    let m ← Json.members? ["exprs"] r j
    .project <$> exprsOf? m
  | "calc" => do
    let m ← Json.members? ["predicate", "exprs"] r j
    let predicate ← m.field? "predicate" Expr.ofJson?
    .calc predicate <$> exprsOf? m
  | "root" => Json.noFields? .root r j
  | _ => none

end Processor

namespace Vertex

def toJson (v : Vertex) : Json :=
  .object
    [("id", .ofNat v.id), ("name", .string v.name),
      ("local_parallelism", .ofOption (fun n => .ofNat n.toNat) v.parallelism),
      ("distribution", .string v.distribution.name), ("schema", v.schema.toJson),
      ("processor", v.processor.toJson)]

/-- Reads a vertex. The number of workers may be missing. -/
def ofJson? : Json.Reader Vertex := fun r j => do
  let m ← Json.members? ["id", "name", "local_parallelism", "distribution", "schema", "processor"] r j
  let id ← m.field? "id" (Json.natural? 64)
  let name ← m.field? "name" Json.text?
  let parallelism ← m.fieldOr? "local_parallelism" none (Json.orNull? (Json.natural? 32))
  let distribution ← m.field? "distribution" (Json.oneOf? Distribution.ofName?)
  let schema ← m.field? "schema" Schema.ofJson?
  let processor ← m.field? "processor" Processor.ofJson?
  pure ⟨id, name, parallelism.map UInt32.ofNat, distribution, schema, processor⟩

end Vertex

namespace Edge

def toJson (e : Edge) : Json :=
  .object
    [("id", .ofNat e.id), ("from", .ofNat e.source), ("to", .ofNat e.target),
      ("ordinal", .ofNat e.ordinal), ("routing", .string e.routing.name)]

def ofJson? : Json.Reader Edge := fun r j => do
  let m ← Json.members? ["id", "from", "to", "ordinal", "routing"] r j
  let id ← m.field? "id" (Json.natural? 64)
  let source ← m.field? "from" (Json.natural? 64)
  let target ← m.field? "to" (Json.natural? 64)
  let ordinal ← m.field? "ordinal" (Json.natural? 64)
  let routing ← m.field? "routing" (Json.oneOf? Routing.ofName?)
  pure ⟨id, source, target, ordinal, routing⟩

end Edge

/-- The digits of a graph's number, with or without hyphens between their groups. -/
def graphIdDigits? (text : List Char) : Option (List Char) :=
  let hyphens := [8, 13, 18, 23]
  if text.length = 32 then some text
  else if text.length = 36 && hyphens.all fun i => text[i]? == some '-' then
    some (((text.zipIdx).filter fun (_, i) => !hyphens.contains i).map Prod.fst)
  else none

/-- The text of a graph's number without what may stand around it. -/
def graphIdBody (text : String) : List Char :=
  match text.toList with
  | '\x7b' :: rest =>
    if rest.getLast? == some '\x7d' && rest.length == 37 then rest.dropLast else text.toList
  | 'u' :: 'r' :: 'n' :: ':' :: 'u' :: 'u' :: 'i' :: 'd' :: ':' :: rest =>
    if rest.length == 36 then rest else text.toList
  | all => all

def graphIdOfText? (text : String) : Option GraphId := do
  let digits ← graphIdDigits? (graphIdBody text)
  let n ← Text.hexNatural? digits
  pure (BitVec.ofNat 128 n)

namespace Graph

def toJson (g : Graph) : Json :=
  .object
    [("id", .string (graphIdText g.id)), ("version", .string g.version),
      ("vertices", .array (g.vertices.map Vertex.toJson)), ("edges", .array (g.edges.map Edge.toJson))]

def ofJson? : Json.Reader Graph := fun r j => do
  let m ← Json.members? ["id", "version", "vertices", "edges"] r j
  let id ← graphIdOfText? (← m.field? "id" Json.text?)
  let version ← m.field? "version" Json.text?
  let vertices ← m.field? "vertices" (Json.list? Vertex.ofJson?)
  let edges ← m.field? "edges" (Json.list? Edge.ofJson?)
  pure ⟨id, version, vertices, edges⟩

/-- The text that the fingerprint is made from: everything but the graph's own number. -/
def fingerprintText (g : Graph) : String :=
  (Json.array
    [.string g.version, .array (g.vertices.map Vertex.toJson),
      .array (g.edges.map Edge.toJson)]).compact

/-- The digest of a graph's shape and work. Two compilations of one plan have the same. -/
def fingerprint (g : Graph) : Digest := .ofText g.fingerprintText

end Graph

end FlowPlan
