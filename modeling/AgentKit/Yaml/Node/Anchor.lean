/-
# Anchors of a document

The names of anchors are replaced by numbers: an anchor gets the number of
different names that were used before it. An alias gets the number that its name
has at that place; a name that has none is refused. Where a name is used again,
several anchors can have one number. An alias then stands for the last of them in
the document.
-/

import AgentKit.Yaml.Error
import AgentKit.Yaml.Node

namespace AgentKit.Yaml

/-- A node with numbered anchors. -/
abbrev NumberedNode := Node Nat

/-- The numbers that names have at a place, an entry for every name. -/
abbrev AnchorNumbers := List (List Char × Nat)

/-- The numbers after an anchor with a name. -/
def AnchorNumbers.define (numbers : AnchorNumbers) (name : List Char) : AnchorNumbers :=
  (name, numbers.length) :: numbers.filter (·.1 != name)

namespace Node

/-- Number the anchor among the properties of a node. -/
def numberProperties (numbers : AnchorNumbers) (properties : Properties (List Char)) :
    Properties Nat × AnchorNumbers :=
  match properties.anchor with
  | some name => (⟨some numbers.length, properties.tag⟩, numbers.define name)
  | none => (⟨none, properties.tag⟩, numbers)

mutual

/-- Number the anchors and aliases of a node. -/
def number (numbers : AnchorNumbers) :
    Node (List Char) → Except Error (NumberedNode × AnchorNumbers)
  | .scalar properties style text =>
    let (properties, numbers) := numberProperties numbers properties
    .ok (.scalar properties style text, numbers)
  | .alias name =>
    match numbers.lookup name with
    | some target => .ok (.alias target, numbers)
    | none => .error .unknownAlias
  | .sequence properties items => do
    let (properties, numbers) := numberProperties numbers properties
    let (items, numbers) ← numberItems numbers items
    .ok (.sequence properties items, numbers)
  | .mapping properties entries => do
    let (properties, numbers) := numberProperties numbers properties
    let (entries, numbers) ← numberEntries numbers entries
    .ok (.mapping properties entries, numbers)

/-- Number the anchors and aliases of the items of a sequence. -/
def numberItems (numbers : AnchorNumbers) :
    List (Node (List Char)) → Except Error (List NumberedNode × AnchorNumbers)
  | [] => .ok ([], numbers)
  | item :: items => do
    let (item, numbers) ← number numbers item
    let (items, numbers) ← numberItems numbers items
    .ok (item :: items, numbers)

/-- Number the anchors and aliases of the entries of a mapping. -/
def numberEntries (numbers : AnchorNumbers) :
    List (Node (List Char) × Node (List Char)) →
      Except Error (List (NumberedNode × NumberedNode) × AnchorNumbers)
  | [] => .ok ([], numbers)
  | (key, value) :: entries => do
    let (key, numbers) ← number numbers key
    let (value, numbers) ← number numbers value
    let (entries, numbers) ← numberEntries numbers entries
    .ok ((key, value) :: entries, numbers)

end

/-- The entry of a node in the list of anchored nodes, if it has an anchor. -/
def anchorEntry (properties : Properties Nat) (node : NumberedNode) :
    List (Nat × NumberedNode) :=
  properties.anchor.toList.map fun anchor => (anchor, node)

mutual

/-- The nodes with anchors inside a node, in the order of the text. -/
def anchored : NumberedNode → List (Nat × NumberedNode)
  | .scalar properties style text =>
    anchorEntry properties (.scalar properties style text)
  | .alias _ => []
  | .sequence properties items =>
    anchorEntry properties (.sequence properties items) ++ anchoredItems items
  | .mapping properties entries =>
    anchorEntry properties (.mapping properties entries) ++ anchoredEntries entries

/-- The nodes with anchors inside the items of a sequence. -/
def anchoredItems : List NumberedNode → List (Nat × NumberedNode)
  | [] => []
  | item :: items => anchored item ++ anchoredItems items

/-- The nodes with anchors inside the entries of a mapping. -/
def anchoredEntries : List (NumberedNode × NumberedNode) → List (Nat × NumberedNode)
  | [] => []
  | (key, value) :: entries => anchored key ++ anchored value ++ anchoredEntries entries

end

end Node

/-- A document whose aliases can be followed: its node, and the nodes with anchors,
the last one first. -/
structure LinkedDocument where
  root : NumberedNode
  anchors : List (Nat × NumberedNode)

namespace LinkedDocument

/-- Number the anchors of a document. -/
def ofNode (node : Node (List Char)) : Except Error LinkedDocument := do
  let (root, _) ← node.number []
  .ok ⟨root, root.anchored.reverse⟩

/-- The node that an alias stands for. -/
def target (document : LinkedDocument) (number : Nat) : Option NumberedNode :=
  document.anchors.lookup number

/-- How often the aliases of a document may be followed in all. -/
def aliasBudget (document : LinkedDocument) : Nat :=
  100 * document.root.weight

end LinkedDocument

end AgentKit.Yaml
