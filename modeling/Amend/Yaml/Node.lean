/-
Amend.Yaml.Node — the nodes of a document.

A node is a scalar, a sequence or a mapping, and has a type. An alias stands
for the node of its anchor, so the nodes of a document are a graph: each has
a number, and its parts are given by their numbers. A node may be part of
itself. `node_replace_self` and `node_replace_of_ne` say what is read after a node
has been replaced.

  §1 Nodes.
  §2 Graphs.
-/
import Amend.Yaml.Tag

namespace Amend.Yaml

/-! ## §1 Nodes -/

/-- The number of a node. -/
abbrev NodeId := Nat

/-- What a node is made of. -/
inductive Content where
  | scalar (t : Text)
  | sequence (items : List NodeId)
  | mapping (entries : List (NodeId × NodeId))
  deriving DecidableEq, Repr

/-- A part of a document. -/
structure Node where
  tag : Tag
  content : Content
  deriving DecidableEq, Repr

/-- A scalar that is not there. -/
def Node.missing : Node := ⟨.null, .scalar []⟩

/-! ## §2 Graphs -/

/-- The nodes of a document, each at the place of its number. -/
structure Graph where
  nodes : Array Node := #[]
  deriving Repr

namespace Graph

/-- How many nodes there are. -/
def size (g : Graph) : Nat := g.nodes.size

/-- The node of a number; a number without a node stands for nothing. -/
def node (g : Graph) (n : NodeId) : Node := (g.nodes[n]?).getD .missing

/-- The graph with one more node, which gets the next number. -/
def add (g : Graph) (node : Node) : Graph := ⟨g.nodes.push node⟩

/-- The graph with another node in the place of one. -/
def replace (g : Graph) (n : NodeId) (node : Node) : Graph := ⟨g.nodes.setIfInBounds n node⟩

/-- The graph with another content of a node. -/
def setContent (g : Graph) (n : NodeId) (c : Content) : Graph :=
  g.replace n { g.node n with content := c }

/-- The graph with another type of a node. -/
def setTag (g : Graph) (n : NodeId) (t : Tag) : Graph := g.replace n { g.node n with tag := t }

/-- The entries of a mapping; other nodes have none. -/
def entries (g : Graph) (n : NodeId) : List (NodeId × NodeId) :=
  match (g.node n).content with
  | .mapping es => es
  | _ => []

/-- How many entries all mappings have together. -/
def entryCount (g : Graph) : Nat :=
  g.nodes.foldl (fun k node =>
    match node.content with
    | .mapping es => k + es.length
    | _ => k) 0

theorem node_add_size (g : Graph) (node : Node) : (g.add node).node g.size = node := by
  simp [Graph.node, add, size]

theorem node_replace_self {g : Graph} {n : NodeId} (node : Node) (h : n < g.size) :
    (g.replace n node).node n = node := by
  have h : n < g.nodes.size := h
  simp [Graph.node, replace, h]

theorem node_replace_of_ne (g : Graph) {n m : NodeId} (node : Node) (h : m ≠ n) :
    (g.replace n node).node m = g.node m := by
  simp [Graph.node, replace, Ne.symm h]

end Graph

end Amend.Yaml
