/-
# Nodes of a document

A document is a tree of nodes. A node can carry an anchor and a tag; an alias
stands for a node with an anchor. The type of anchors is left open: a document is
first read with the names that the text gives, and then numbered.
-/

import AgentKit.Yaml.Token

namespace AgentKit.Yaml

/-- A tag, with its handle already replaced by what it stands for. -/
abbrev Tag := List UInt8

/-- What can be put in front of a node. -/
structure Properties (α : Type) where
  anchor : Option α
  tag : Option Tag
  deriving DecidableEq, Repr

/-- Properties of a node that has none. -/
def Properties.none {α : Type} : Properties α := ⟨.none, .none⟩

/-- A node of a document, with anchors of type `α`. -/
inductive Node (α : Type) where
  | scalar (properties : Properties α) (style : ScalarStyle) (text : List Char)
  | sequence (properties : Properties α) (items : List (Node α))
  | mapping (properties : Properties α) (entries : List (Node α × Node α))
  | alias (target : α)

namespace Node

variable {α : Type}

/-- The node that stands where the text has none. -/
def empty (properties : Properties α) : Node α :=
  .scalar properties .plain []

mutual

/-- The weight of a node: the number of nodes in it, with collections counted
twice. How often aliases may be followed depends on it. -/
def weight : Node α → Nat
  | .scalar _ _ _ => 1
  | .alias _ => 1
  | .sequence _ items => itemsWeight items + 2
  | .mapping _ entries => entriesWeight entries + 2

/-- The weight of the items of a sequence. -/
def itemsWeight : List (Node α) → Nat
  | [] => 0
  | item :: items => weight item + itemsWeight items

/-- The weight of the entries of a mapping. -/
def entriesWeight : List (Node α × Node α) → Nat
  | [] => 0
  | (key, value) :: entries => weight key + weight value + entriesWeight entries

end

end Node

end AgentKit.Yaml
