import Recast.Tree

/-!
Traversals of a syntax tree.

`walk` lists a node and all its descendants, each before its children, with what is no node but
stands in a node's place; `nodes` lists the nodes among them. `record` lists the nodes of given
kinds, with or without looking inside them. `substitute?` rebuilds a tree bottom up by a rule that
sees each node as it was and as it is over its new children, and that may remove the node; `remove`
is the rule that removes the nodes of given kinds.
-/

namespace Recast.Tree

/-- The node and all its descendants, each before its children, children in slot order. -/
def walk : Tree → List Tree :=
  fold fun node layer => node :: layer.children.flatten

/-- Whether a tree is a node, and not something foreign in a node's place. -/
def isNode (t : Tree) : Bool := !(t.form matches .foreign _)

/-- The node and all its descendants that are nodes, in the order of `walk`. -/
def nodes (t : Tree) : List Tree := t.walk.filter isNode

/-- The kinds of the node and its descendants, in the order of `walk`. -/
def kinds (t : Tree) : List String := t.nodes.map kind

/-- Whether a tree is a node of one of the kinds. -/
def isOf (kinds : List String) (t : Tree) : Bool := t.isNode && t.kind ∈ kinds

/-- The nodes of the kinds, in the order of `walk`. Inside such a node the search goes on only if
`descend` says so. -/
def record (kinds : List String) (descend : Bool) : Tree → List Tree :=
  fold fun node layer =>
    let below := layer.children.flatten
    if node.isOf kinds then node :: (if descend then below else []) else below

/-- Replaces nodes bottom up. The rule gets a node over its old and over its new children, and
answers what takes its place; a node without an answer leaves its list or empties its slot. -/
def substitute? (rule : Tree → Tree → Option Tree) : Tree → Option Tree :=
  fold fun node layer => rule node (node.withForm (layer.filterMap id))

/-- The tree without the nodes of the kinds, and nothing where the tree itself is one. -/
def remove (kinds : List String) : Tree → Option Tree :=
  substitute? fun node rebuilt => if node.isOf kinds then none else some rebuilt

/-- Every comment held anywhere in a tree. -/
def comments (t : Tree) : List Comment := t.walk.flatMap (·.trivia.comments)

end Recast.Tree
