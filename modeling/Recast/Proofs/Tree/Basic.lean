import Mathlib
import Recast.Tree.Traversal

/-!
Layers and trees through their children.

A layer is known by its shape and its children, and whatever a traversal says about a tree it says
node by node. This module has the equations that let a proof go from a node to its children without
a case for each shape: `children_map` and `children_filterMap` for layers, `walk_node` and
`comments_node` for trees, `Tree.induct`, the induction along children, and `Tree.Everywhere`, which
says that something holds of every node.
-/

namespace Recast

variable {α β γ : Type}

/-! ### Slots -/

theorem getD_nil_map (f : α → β) (slot : Option (List α)) :
    (slot.map (·.map f)).getD [] = (slot.getD []).map f := by
  cases slot <;> rfl

theorem getD_nil_filterMap (f : α → Option β) (slot : Option (List α)) :
    (slot.map (·.filterMap f)).getD [] = (slot.getD []).filterMap f := by
  cases slot <;> rfl

theorem toList_bind (f : α → Option β) (slot : Option α) :
    (slot.bind f).toList = slot.toList.filterMap f := by
  cases slot with
  | none => rfl
  | some a => cases h : f a <;> simp [h]

theorem holes_map (f : α → β) (entries : List (Option α)) :
    (entries.map (·.map f)).filterMap id = (entries.filterMap id).map f := by
  induction entries with
  | nil => rfl
  | cons entry rest ih => cases entry <;> simp_all

theorem holes_keepHoles (f : α → Option β) (entries : List (Option α)) :
    (keepHoles f entries).filterMap id = (entries.filterMap id).filterMap f := by
  induction entries with
  | nil => rfl
  | cons entry rest ih =>
    cases entry with
    | none => simpa [keepHoles] using ih
    | some a =>
      have rest : (keepHoles f rest).filterMap id = (rest.filterMap id).filterMap f := ih
      cases h : f a <;> simp_all [keepHoles]

/-! ### Children of a mapped layer -/

theorem TypeForm.children_map (f : α → β) (form : TypeForm α) :
    (form.map f).children = form.children.map f := by
  cases form <;> simp [map, children, Option.toList_map, getD_nil_map]

theorem ExprForm.children_map (f : α → β) (form : ExprForm α) :
    (form.map f).children = form.children.map f := by
  cases form with
  | arrayCreate element dimensions initial =>
    simp only [map, children, Option.toList_map, holes_map, List.map_append]
  | _ => simp [map, children, Option.toList_map, getD_nil_map]

theorem LoopStart.children_map (f : α → β) (start : LoopStart α) :
    (start.map f).children = start.children.map f := by
  cases start <;> simp [map, children]

theorem StmtForm.children_map (f : α → β) (form : StmtForm α) :
    (form.map f).children = form.children.map f := by
  cases form <;> simp [map, children, Option.toList_map, LoopStart.children_map]

theorem MemberForm.children_map (f : α → β) (form : MemberForm α) :
    (form.map f).children = form.children.map f := by
  cases form <;> simp [map, children, Option.toList_map]

theorem PartForm.children_map (f : α → β) (form : PartForm α) :
    (form.map f).children = form.children.map f := by
  cases form <;> simp [map, children, Option.toList_map, getD_nil_map]

/-- Mapping a layer maps its children. -/
@[simp]
theorem Form.children_map (f : α → β) (form : Form α) :
    (form.map f).children = form.children.map f := by
  cases form with
  | type form => exact form.children_map f
  | expr form => exact form.children_map f
  | stmt form => exact form.children_map f
  | member form => exact form.children_map f
  | part form => exact form.children_map f
  | foreign kind => rfl

/-! ### Children of a filtered layer -/

theorem TypeForm.children_filterMap (f : α → Option β) (form : TypeForm α) :
    (form.filterMap f).children = form.children.filterMap f := by
  cases form <;> simp [filterMap, children, toList_bind, getD_nil_filterMap]

theorem ExprForm.children_filterMap (f : α → Option β) (form : ExprForm α) :
    (form.filterMap f).children = form.children.filterMap f := by
  cases form with
  | arrayCreate element dimensions initial =>
    simp only [filterMap, children, toList_bind, holes_keepHoles, List.filterMap_append]
  | _ => simp [filterMap, children, toList_bind, getD_nil_filterMap]

theorem LoopStart.children_filterMap (f : α → Option β) (start : LoopStart α) :
    (start.filterMap f).children = start.children.filterMap f := by
  cases start with
  | absent => rfl
  | declaration node => cases h : f node <;> simp [filterMap, children, h]
  | expressions nodes => rfl

theorem StmtForm.children_filterMap (f : α → Option β) (form : StmtForm α) :
    (form.filterMap f).children = form.children.filterMap f := by
  cases form <;> simp [filterMap, children, toList_bind, LoopStart.children_filterMap]

theorem MemberForm.children_filterMap (f : α → Option β) (form : MemberForm α) :
    (form.filterMap f).children = form.children.filterMap f := by
  cases form <;> simp [filterMap, children, toList_bind]

theorem PartForm.children_filterMap (f : α → Option β) (form : PartForm α) :
    (form.filterMap f).children = form.children.filterMap f := by
  cases form <;> simp [filterMap, children, toList_bind, getD_nil_filterMap]

/-- Filtering a layer filters its children. -/
@[simp]
theorem Form.children_filterMap (f : α → Option β) (form : Form α) :
    (form.filterMap f).children = form.children.filterMap f := by
  cases form with
  | type form => exact form.children_filterMap f
  | expr form => exact form.children_filterMap f
  | stmt form => exact form.children_filterMap f
  | member form => exact form.children_filterMap f
  | part form => exact form.children_filterMap f
  | foreign kind => rfl

/-! ### Mapping twice -/

theorem TypeForm.map_map (f : α → β) (g : β → γ) (form : TypeForm α) :
    (form.map f).map g = form.map (g ∘ f) := by
  cases form <;> simp [map, Option.map_map, Function.comp_def]

theorem ExprForm.map_map (f : α → β) (g : β → γ) (form : ExprForm α) :
    (form.map f).map g = form.map (g ∘ f) := by
  cases form <;> simp [map, Option.map_map, Function.comp_def]

theorem LoopStart.map_map (f : α → β) (g : β → γ) (start : LoopStart α) :
    (start.map f).map g = start.map (g ∘ f) := by
  cases start <;> simp [map]

theorem StmtForm.map_map (f : α → β) (g : β → γ) (form : StmtForm α) :
    (form.map f).map g = form.map (g ∘ f) := by
  cases form <;> simp [map, Option.map_map, LoopStart.map_map]

theorem MemberForm.map_map (f : α → β) (g : β → γ) (form : MemberForm α) :
    (form.map f).map g = form.map (g ∘ f) := by
  cases form <;> simp [map, Option.map_map]

theorem PartForm.map_map (f : α → β) (g : β → γ) (form : PartForm α) :
    (form.map f).map g = form.map (g ∘ f) := by
  cases form <;> simp [map, Option.map_map, Function.comp_def]

/-- Mapping a layer twice is mapping it once. -/
theorem Form.map_map (f : α → β) (g : β → γ) (form : Form α) :
    (form.map f).map g = form.map (g ∘ f) := by
  cases form with
  | type form => exact congrArg Form.type (form.map_map f g)
  | expr form => exact congrArg Form.expr (form.map_map f g)
  | stmt form => exact congrArg Form.stmt (form.map_map f g)
  | member form => exact congrArg Form.member (form.map_map f g)
  | part form => exact congrArg Form.part (form.map_map f g)
  | foreign kind => rfl

/-! ### Trees, node by node -/

namespace Tree

@[simp]
theorem trivia_node (trivia : Trivia) (form : Form Tree) : (node trivia form).trivia = trivia := rfl

@[simp]
theorem form_node (trivia : Trivia) (form : Form Tree) : (node trivia form).form = form := rfl

/-- A node is listed before everything below it. -/
theorem walk_node (trivia : Trivia) (form : Form Tree) :
    walk (.node trivia form) = .node trivia form :: form.children.flatMap walk := by
  rw [walk, fold_node]
  simp [List.flatMap]

theorem mem_walk_self (t : Tree) : t ∈ t.walk := by
  cases t with
  | node trivia form => simp [walk_node]

/-- What stands below a child stands below its parent. -/
theorem mem_walk_of_child {t child inner : Tree} (hchild : child ∈ t.form.children)
    (hinner : inner ∈ child.walk) : inner ∈ t.walk := by
  cases t with
  | node trivia form =>
    rw [walk_node, List.mem_cons, List.mem_flatMap]
    exact Or.inr ⟨child, hchild, hinner⟩

/-- A tree holds its own comments and those of its children. -/
theorem comments_node (trivia : Trivia) (form : Form Tree) :
    comments (.node trivia form) = trivia.comments ++ form.children.flatMap comments := by
  simp only [comments, walk_node, List.flatMap_cons, List.flatMap_assoc, trivia_node]
  rfl

/-- The number of nodes of a tree. -/
def size : Tree → Nat := fold fun _ layer => layer.children.sum + 1

theorem size_lt_of_child {trivia : Trivia} {form : Form Tree} {child : Tree}
    (h : child ∈ form.children) : child.size < (node trivia form).size := by
  have hnode : (node trivia form).size = (form.children.map size).sum + 1 := by
    rw [size, fold_node]
    simp
  obtain ⟨before, after, hsplit⟩ := List.append_of_mem h
  rw [hsplit] at hnode
  simp only [List.map_append, List.map_cons, List.sum_append, List.sum_cons] at hnode
  omega

/-- Induction along children: what holds of a node whenever it holds of its children holds of every
tree. -/
theorem induct {motive : Tree → Prop}
    (step : ∀ trivia form, (∀ child ∈ form.children, motive child) → motive (.node trivia form)) :
    ∀ t, motive t
  | .node trivia form => step trivia form fun child _ => induct step child
termination_by t => t.size
decreasing_by exact size_lt_of_child ‹_›

/-! ### Properties of every node -/

/-- Whether something holds of a node and of everything below it. -/
def Everywhere (P : Tree → Prop) (t : Tree) : Prop := ∀ node ∈ t.walk, P node

instance (P : Tree → Prop) [DecidablePred P] (t : Tree) : Decidable (t.Everywhere P) :=
  inferInstanceAs (Decidable (∀ node ∈ t.walk, P node))

section Everywhere

variable {P Q : Tree → Prop} {t below : Tree}

/-- A property holds everywhere in a tree if it holds of the root and everywhere below. -/
theorem everywhere_node {trivia : Trivia} {form : Form Tree} :
    (node trivia form).Everywhere P ↔
      P (node trivia form) ∧ ∀ child ∈ form.children, child.Everywhere P := by
  simp only [Everywhere, walk_node, List.forall_mem_cons, List.mem_flatMap, forall_exists_index,
    and_imp]
  exact and_congr_right fun _ => ⟨fun h c hc n hn => h n c hc hn, fun h n c hc hn => h c hc n hn⟩

theorem Everywhere.self (h : t.Everywhere P) : P t := h t (mem_walk_self t)

theorem Everywhere.child (h : t.Everywhere P) (hbelow : below ∈ t.form.children) :
    below.Everywhere P :=
  fun node hnode => h node (mem_walk_of_child hbelow hnode)

theorem Everywhere.mono (h : t.Everywhere P) (himp : ∀ node, P node → Q node) : t.Everywhere Q :=
  fun node hnode => himp node (h node hnode)

end Everywhere

end Tree

end Recast
