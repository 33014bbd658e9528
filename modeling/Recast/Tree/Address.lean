import Recast.Tree

/-!
Addresses of nodes.

An address is the list of child indices that leads from the root to a node; children are counted in
slot order.
-/

namespace Recast

/-- The child indices from the root to a node. -/
abbrev Address := List Nat

namespace Tree

/-- The node at an address, if there is one. -/
def nodeAt? : Address → Tree → Option Tree
  | [], t => some t
  | i :: rest, t => t.form.children[i]?.bind (nodeAt? rest)

/-- The tree with the node at an address replaced by a function of it. -/
def updateAt (f : Tree → Tree) : Address → Tree → Tree
  | [], t => f t
  | i :: rest, t =>
    t.withForm (t.form.mapIdx fun j child => if j = i then updateAt f rest child else child)

end Tree

end Recast
