import Mathlib
import Recast.Comment.Attach
import Recast.Proofs.Tree.Address

/-!
Trees whose slots hold what they are meant for.

A slot accepts any tree, so that the sort of what stands in it is a property and not a type. Three
groups of slots matter where nodes are moved or dropped: those for types, those for the children that
a container writes on lines of their own, and those for imports. `Form.Orderly` says that a layer
fills them with nodes of the right sort, and `Tree.Tidy` that every layer of a tree does and that no
annotation hides a container.

None of this depends on comments: `Tree.uncommented` drops them, and two trees that agree without
their comments are equally tidy.
-/

namespace Recast

variable {α β : Type}

/-! ### Sorts and slots -/

namespace Form

def isType : Form α → Bool
  | .type _ => true
  | _ => false

/-- Whether a node of this shape stands on lines of its own. -/
def isLine : Form α → Bool
  | .stmt _ | .member _ => true
  | .part (.package ..) | .part (.importing _) | .part (.enumConstant ..) => true
  | _ => false

def isImport : Form α → Bool
  | .part (.importing _) => true
  | _ => false

/-- Whether a node of this shape is a container of comments. -/
def isContainer (form : Form α) : Bool := form.lineChildren?.isSome

/-- The children that have to be types, as far as a pass may drop or copy them. -/
def typeSlots : Form α → List α
  | .type form => form.children
  | .expr (.call _ _ _ typeArguments) => typeArguments
  | .expr (.create slot _ _) => slot.toList
  | .member (.field slot _ _ _) => slot.toList
  | _ => []

/-- The children that have to be imports. -/
def importSlots : Form α → List α
  | .part (.unit _ imports _) => imports
  | _ => []

/-- The arguments of an annotation. -/
def annotationArguments : Form α → List α
  | .part (.annotationUse _ arguments) => arguments
  | _ => []

/-- The children that a container does not write on lines of their own. -/
def sideChildren (form : Form α) : List α :=
  form.children.take form.lineOffset

@[simp]
theorem isType_map (f : α → β) (form : Form α) : (form.map f).isType = form.isType := by
  cases form <;> rfl

@[simp]
theorem isLine_map (f : α → β) (form : Form α) : (form.map f).isLine = form.isLine := by
  cases form with
  | part form => cases form <;> rfl
  | _ => rfl

@[simp]
theorem isImport_map (f : α → β) (form : Form α) : (form.map f).isImport = form.isImport := by
  cases form with
  | part form => cases form <;> rfl
  | _ => rfl

theorem typeSlots_map (f : α → β) (form : Form α) :
    (form.map f).typeSlots = form.typeSlots.map f := by
  cases form with
  | type form => exact form.children_map f
  | expr form => cases form <;> simp [map, ExprForm.map, typeSlots, Option.toList_map]
  | member form => cases form <;> simp [map, MemberForm.map, typeSlots, Option.toList_map]
  | _ => rfl

theorem importSlots_map (f : α → β) (form : Form α) :
    (form.map f).importSlots = form.importSlots.map f := by
  cases form with
  | part form => cases form <;> rfl
  | _ => rfl

theorem lineChildren?_map (f : α → β) (form : Form α) :
    (form.map f).lineChildren? = form.lineChildren?.map (·.map f) := by
  cases form with
  | stmt form => cases form <;> rfl
  | member form => cases form <;> simp [map, MemberForm.map, lineChildren?]
  | part form => cases form <;> simp [map, PartForm.map, lineChildren?, Option.toList_map]
  | _ => rfl

@[simp]
theorem isContainer_map (f : α → β) (form : Form α) :
    (form.map f).isContainer = form.isContainer := by
  simp [isContainer, lineChildren?_map]

theorem lineOffset_map (f : α → β) (form : Form α) :
    (form.map f).lineOffset = form.lineOffset := by
  rw [lineOffset, lineOffset, children_map, lineChildren?_map]
  cases form.lineChildren? <;> simp

theorem isContainer_mapIdx (f : Nat → α → β) (form : Form α) :
    (form.mapIdx f).isContainer = form.isContainer := by
  conv_rhs => rw [← form.map_fst_tag 0]
  rw [mapIdx, isContainer_map, isContainer_map]

theorem lineOffset_mapIdx (f : Nat → α → β) (form : Form α) :
    (form.mapIdx f).lineOffset = form.lineOffset := by
  conv_rhs => rw [← form.map_fst_tag 0]
  rw [mapIdx, lineOffset_map, lineOffset_map]

/-- Replacing one child changes the side children at one index, if at all. -/
theorem sideChildren_mapIdx_ite (g : α → α) (i : Nat) (form : Form α) :
    (form.mapIdx fun j a => if j = i then g a else a).sideChildren
      = form.sideChildren.modify i g := by
  rw [sideChildren, lineOffset_mapIdx, children_mapIdx_ite, List.take_modify, sideChildren]

/-- The line children are the last children. -/
theorem children_eq_side_append_line (form : Form α) :
    form.children = form.sideChildren ++ form.lineChildren?.getD [] := by
  have hsuffix : ∃ side, form.children = side ++ form.lineChildren?.getD [] := by
    cases form with
    | stmt form => cases form <;> simp [children, StmtForm.children, lineChildren?]
    | member form =>
      cases form <;> simp only [children, MemberForm.children, lineChildren?, Option.getD]
      case classType => exact ⟨_, rfl⟩
      case enumType => exact ⟨_, List.append_assoc ..⟩
      all_goals exact ⟨_, (List.append_nil _).symm⟩
    | part form => cases form <;> simp [children, PartForm.children, lineChildren?]
    | _ => simp [lineChildren?]
  obtain ⟨side, hside⟩ := hsuffix
  rw [sideChildren, lineOffset, hside]
  simp

theorem length_sideChildren (form : Form α) : form.sideChildren.length = form.lineOffset := by
  rw [sideChildren, List.length_take, lineOffset]
  omega

/-- A line child, counted among all children. -/
theorem getElem?_lineOffset_add (form : Form α) (k : Nat) :
    form.children[form.lineOffset + k]? = (form.lineChildren?.getD [])[k]? := by
  conv_lhs => rw [form.children_eq_side_append_line]
  rw [← length_sideChildren, List.getElem?_append_right (Nat.le_add_right ..),
    Nat.add_sub_cancel_left]

theorem sideChildren_eq_children {form : Form α} (h : form.isContainer = false) :
    form.sideChildren = form.children := by
  have hnone : form.lineChildren? = none := by simpa [isContainer] using h
  simp [sideChildren, lineOffset, hnone]

theorem mem_children_of_mem_lineChildren {form : Form α} {child : α}
    (h : child ∈ form.lineChildren?.getD []) : child ∈ form.children := by
  rw [form.children_eq_side_append_line]
  exact List.mem_append_right _ h

theorem mem_children_of_mem_typeSlots {form : Form α} {child : α} (h : child ∈ form.typeSlots) :
    child ∈ form.children := by
  cases form with
  | type form => exact h
  | expr form => cases form <;> simp_all [typeSlots, children, ExprForm.children]
  | member form => cases form <;> simp_all [typeSlots, children, MemberForm.children]
  | _ => simp [typeSlots] at h

theorem mem_children_of_mem_importSlots {form : Form α} {child : α} (h : child ∈ form.importSlots) :
    child ∈ form.children := by
  cases form with
  | part form => cases form <;> simp_all [importSlots, children, PartForm.children]
  | _ => simp [importSlots] at h

end Form

/-- Whether the slots of a layer hold nodes of the sorts they are meant for. -/
structure Form.Orderly (form : Form Tree) : Prop where
  types : ∀ child ∈ form.typeSlots, child.form.isType
  lines : ∀ child ∈ form.lineChildren?.getD [], child.form.isLine
  imports : ∀ child ∈ form.importSlots, child.form.isImport

namespace Tree

/-- Whether no container of comments stands in a tree. -/
def isQuiet (t : Tree) : Bool := t.walk.all fun node => !node.form.isContainer

/-- Whether no argument of an annotation holds a block, a class body or an enum body. -/
def plainAnnotations (t : Tree) : Bool :=
  t.walk.all fun node => node.form.annotationArguments.all isQuiet

/-! ### Trees without their comments -/

/-- The tree without its comments. -/
def uncommented : Tree → Tree := fold fun node layer => .node (Trivia.at? node.position) layer

@[simp]
theorem uncommented_node (trivia : Trivia) (form : Form Tree) :
    (node trivia form).uncommented = .node (Trivia.at? trivia.position) (form.map uncommented) := by
  rw [uncommented, fold_node]
  rfl

theorem form_uncommented (t : Tree) : t.uncommented.form = t.form.map uncommented := by
  cases t
  simp

theorem walk_uncommented (t : Tree) : t.uncommented.walk = t.walk.map uncommented := by
  induction t using induct with
  | step trivia form ih =>
    have hbelow : form.children.flatMap (fun child => child.uncommented.walk)
        = form.children.flatMap fun child => child.walk.map uncommented :=
      List.flatMap_congr fun child hchild => ih child hchild
    rw [uncommented_node, walk_node, walk_node, Form.children_map, List.map_cons,
      uncommented_node, List.flatMap_map, List.map_flatMap, hbelow]

/-- A property that does not look at comments holds everywhere in a tree with or without them. -/
theorem everywhere_uncommented {P : Tree → Prop} (hP : ∀ node, P node.uncommented ↔ P node)
    (t : Tree) : t.uncommented.Everywhere P ↔ t.Everywhere P := by
  simp only [Everywhere, walk_uncommented, List.forall_mem_map, hP]

theorem orderly_uncommented (t : Tree) : t.uncommented.form.Orderly ↔ t.form.Orderly := by
  have hline : (t.form.map uncommented).lineChildren?.getD []
      = (t.form.lineChildren?.getD []).map uncommented := by
    rw [Form.lineChildren?_map]
    cases t.form.lineChildren? <;> rfl
  constructor
  · rintro ⟨htypes, hlines, himports⟩
    simp only [form_uncommented, Form.typeSlots_map, hline, Form.importSlots_map,
      List.forall_mem_map, Form.isType_map, Form.isLine_map, Form.isImport_map]
      at htypes hlines himports
    exact ⟨htypes, hlines, himports⟩
  · rintro ⟨htypes, hlines, himports⟩
    constructor <;>
      simpa only [form_uncommented, Form.typeSlots_map, hline, Form.importSlots_map,
        List.forall_mem_map, Form.isType_map, Form.isLine_map, Form.isImport_map]

/-- The node at an address, with or without comments. -/
theorem nodeAt?_uncommented (address : Address) (t : Tree) :
    t.uncommented.nodeAt? address = (t.nodeAt? address).map uncommented := by
  induction address generalizing t with
  | nil => rfl
  | cons i rest ih =>
    simp only [nodeAt?, form_uncommented, Form.children_map, List.getElem?_map]
    cases t.form.children[i]? with
    | none => rfl
    | some child => exact ih child

/-- An update that only touches comments keeps the tree apart from them. -/
theorem uncommented_updateAt {f : Tree → Tree} (hf : ∀ t, (f t).uncommented = t.uncommented)
    (address : Address) (t : Tree) : (t.updateAt f address).uncommented = t.uncommented := by
  induction address generalizing t with
  | nil => exact hf t
  | cons i rest ih =>
    cases t with
    | node trivia form =>
      have hmap : ∀ j child, (if j = i then updateAt f rest child else child).uncommented
          = child.uncommented := by
        intro j child
        split
        · exact ih child
        · rfl
      rw [updateAt_cons, withForm, uncommented_node, uncommented_node, form_node,
        Form.map_mapIdx hmap]
      rfl

end Tree

end Recast
