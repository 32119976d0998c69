import FlowPlan.Yaml.Token

namespace FlowPlan.Yaml

/-- What is written before a node: its tag in full, and the number of its anchor. -/
structure Properties where
  tag : Option Tag
  anchor : Option Nat

inductive Node where
  | scalar (properties : Properties) (style : Style) (text : String)
  | sequence (properties : Properties) (items : List Node)
  | mapping (properties : Properties) (entries : List (Node × Node))
  | alias (anchor : Nat)

namespace Node

def named (properties : Properties) (n : Node) : List (Nat × Node) :=
  match properties.anchor with
  | some id => [(id, n)]
  | none => []

mutual

/-- The nodes with anchors, each before those inside it. -/
def anchored : Node → List (Nat × Node)
  | .scalar properties style text => named properties (.scalar properties style text)
  | .sequence properties items =>
    named properties (.sequence properties items) ++ anchoredItems items
  | .mapping properties entries =>
    named properties (.mapping properties entries) ++ anchoredEntries entries
  | .alias _ => []

def anchoredItems : List Node → List (Nat × Node)
  | [] => []
  | n :: rest => anchored n ++ anchoredItems rest

def anchoredEntries : List (Node × Node) → List (Nat × Node)
  | [] => []
  | (key, value) :: rest => anchored key ++ anchored value ++ anchoredEntries rest

end

mutual

/-- How much is written of a node: its parts, and one mark for each scalar, alias and end of a list
or a mapping. -/
def size : Node → Nat
  | .scalar .. => 1
  | .sequence _ items => itemsSize items + 2
  | .mapping _ entries => entriesSize entries + 2
  | .alias _ => 1

def itemsSize : List Node → Nat
  | [] => 0
  | n :: rest => size n + itemsSize rest

def entriesSize : List (Node × Node) → Nat
  | [] => 0
  | (key, value) :: rest => size key + size value + entriesSize rest

end

end Node

/-- The nodes that aliases stand for, and how often one of these may still be followed. Where a
number was given twice, the node that starts last has it. -/
structure Anchors where
  nodes : List (Nat × Node)
  left : Nat

/-- The anchors of a document. Aliases inside aliases repeat what is written, so that there is a
limit to them. -/
def Anchors.ofNode (n : Node) : Anchors := ⟨n.anchored.reverse, 100 * n.size⟩

/-- Reading that follows aliases. -/
abbrev Resolve := StateT Anchors Option

/-- The node itself, or what an alias stands for. -/
def Node.follow : Node → Resolve Node
  | .alias id => do
    let a ← get
    match a.nodes.lookup id, a.left with
    | some n, left + 1 => do
      set { a with left }
      pure n
    | _, _ => failure
  | n => pure n

end FlowPlan.Yaml
