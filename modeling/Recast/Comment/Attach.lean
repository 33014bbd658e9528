import Recast.Comment.Scan
import Recast.Tree.Address

/-!
Comments put into a syntax tree.

Comments belong to containers: the unit, the bodies of classes and enums, and blocks. A container's
span is the brace pair around its first child that has a position, or, without such a child, the
first brace from its anchor on. A comment goes to the innermost container whose span encloses it,
and to the unit where there is none. There it leads the first child that starts after it; without
such a child, or once a later comment leads that child, it is an orphan of the container.
-/

namespace Recast

variable {α : Type}

/-- The children that a container writes on lines of their own: the last of its children. -/
def Form.lineChildren? : Form α → Option (List α)
  | .part (.unit header imports types) => some (header.toList ++ imports ++ types)
  | .member (.classType _ _ _ _ _ _ members _) => some members
  | .member (.enumType _ _ _ _ constants members) => some (constants ++ members)
  | .stmt (.block statements) => some statements
  | _ => none

/-- The number of children before the line children. -/
def Form.lineOffset (form : Form α) : Nat :=
  form.children.length - (form.lineChildren?.getD []).length

namespace Attach

/-- A container: where it is, where its line children start, and where its brace is looked for if
that is not known. -/
structure Container where
  address : Address
  starts : List (Option Position)
  anchor : Option Position
deriving DecidableEq, Repr

/-- The anchor that a node gives its children: the bodies of methods, constructors and initializers
are looked for from the declaration on. -/
def anchorBelow (node : Tree) : Option Position :=
  match node.form with
  | .member (.method ..) | .member (.constructor ..) | .member (.initializer ..) => node.position
  | _ => none

/-- The node itself, if it is a container. -/
def containerAt (address : Address) (anchor : Option Position) (node : Tree) : List Container :=
  match node.form.lineChildren? with
  | some children => [⟨address, children.map Tree.position, node.position.or anchor⟩]
  | none => []

/-- The containers of a tree that stands at an address, below a given anchor. -/
def containersFrom : Tree → Option Position → Address → List Container :=
  Tree.fold fun node layer anchor address =>
    containerAt address anchor node
      ++ layer.children.zipIdx.flatMap fun (below, i) => below (anchorBelow node) (address ++ [i])

/-- All containers of a tree, each before those inside it. -/
def containers (t : Tree) : List Container := containersFrom t none []

/-- The brace pair around a container's line children. -/
def span? (braces : List BracePair) (container : Container) : Option BracePair :=
  match container.starts.findSome? id with
  | some first => (braces.filter (·.encloses first)).getLast?
  | none =>
    match container.anchor with
    | some anchor => braces.find? fun pair => ¬ pair.opened < anchor
    | none => none

/-- The spans of the containers inside the unit, with their addresses. -/
def spans (braces : List BracePair) (unit : Tree) : List (BracePair × Address) :=
  ((containers unit).filter (·.address ≠ [])).filterMap fun container =>
    (span? braces container).map (·, container.address)

/-- The span that opens last; of equal ones the first. -/
def innermost : List (BracePair × Address) → Option (BracePair × Address)
  | [] => none
  | first :: rest =>
    match innermost rest with
    | some inner => some (if first.1.opened < inner.1.opened then inner else first)
    | none => some first

/-- The container that a comment at a position goes to. -/
def owner (spans : List (BracePair × Address)) (position : Option Position) : Address :=
  match position with
  | some p => ((innermost (spans.filter (·.1.encloses p))).map (·.2)).getD []
  | none => []

/-- Whether a node starts after a comment. -/
def startsAfter (comment : Comment) (node : Tree) : Bool :=
  match comment.position, node.position with
  | some p, some q => p < q
  | _, _ => false

/-- The child that a comment leads, by its place among the line children. -/
def led? (comment : Comment) (container : Tree) : Option Nat :=
  (container.form.lineChildren?.getD []).findIdx? (startsAfter comment)

/-- The node with another leading comment. -/
def lead (comment : Comment) (t : Tree) : Tree := t.withTrivia (t.trivia.ledBy comment)

/-- Puts a comment into its container. -/
def attachHere (comment : Comment) (container : Tree) : Tree :=
  match led? comment container with
  | none => container.withTrivia (container.trivia.addOrphans [comment])
  | some k =>
    let children := container.form.lineChildren?.getD []
    let displaced := (children[k]?.bind Tree.comment).toList
    .node (container.trivia.addOrphans displaced) (container.form.mapIdx fun i child =>
      if i = container.form.lineOffset + k then lead comment child else child)

/-- Puts one comment into a unit. -/
def attachOne (spans : List (BracePair × Address)) (unit : Tree) (comment : Comment) : Tree :=
  unit.updateAt (attachHere comment) (owner spans comment.position)

end Attach

/-- The unit with the comments of its source text. -/
def attachComments (unit : Tree) (source : String) : Tree :=
  let found := scan source
  found.comments.foldl (Attach.attachOne (Attach.spans found.braces unit)) unit

end Recast
