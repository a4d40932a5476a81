/-!
# YAML documents

A document is a tree of scalars, sequences and mappings. A node may carry an anchor, and an alias
stands for the node with its anchor. Anchors are told apart by number; where several nodes carry one
number, an alias stands for the last of them. A scalar may carry a tag, which says what its text is
meant to be; the tags of sequences and mappings tell nothing, so they are left out.
-/

namespace Activation.Yaml

/-- How the text of a scalar is written. -/
inductive Style where
  /-- Without quotes or indicators. -/
  | plain
  | quoted
  /-- In lines of its own, which are kept. -/
  | literal
  /-- In lines of its own, which are joined. -/
  | folded
deriving DecidableEq, Repr

inductive Node where
  /-- An alias, which stands for the node with an anchor. -/
  | reference (number : Nat)
  | scalar (text : String) (style : Style) (tag : Option String)
  | sequence (items : List Node)
  | mapping (entries : List (Node × Node))
  | anchored (number : Nat) (node : Node)
deriving Repr

namespace Node

def empty : Node := scalar "" .plain none

mutual

/-- How many places a node takes in its document: a collection has a start and an end. -/
def size : Node → Nat
  | reference _ => 1
  | scalar _ _ _ => 1
  | sequence items => 2 + sizeOfItems items
  | mapping entries => 2 + sizeOfEntries entries
  | anchored _ node => node.size

def sizeOfItems : List Node → Nat
  | [] => 0
  | item :: items => item.size + sizeOfItems items

def sizeOfEntries : List (Node × Node) → Nat
  | [] => 0
  | (key, value) :: entries => key.size + value.size + sizeOfEntries entries

end

mutual

/-- The nodes with an anchor, each with its number, in the order in which they start. -/
def anchors : Node → List (Nat × Node)
  | reference _ => []
  | scalar _ _ _ => []
  | sequence items => anchorsOfItems items
  | mapping entries => anchorsOfEntries entries
  | anchored number node => (number, node) :: node.anchors

def anchorsOfItems : List Node → List (Nat × Node)
  | [] => []
  | item :: items => item.anchors ++ anchorsOfItems items

def anchorsOfEntries : List (Node × Node) → List (Nat × Node)
  | [] => []
  | (key, value) :: entries => key.anchors ++ value.anchors ++ anchorsOfEntries entries

end

def target? (document : Node) (number : Nat) : Option Node := document.anchors.reverse.lookup number

end Node

end Activation.Yaml
