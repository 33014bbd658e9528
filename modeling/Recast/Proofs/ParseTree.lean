import Mathlib
import Recast.ParseTree

/-!
Parser's trees through their children.

A reading of a parser's tree is a fold, so what a step of the fold makes of sound results is sound
for every tree: `ParseTree.fold_induct` is the induction that says so.
-/

namespace Recast

variable {α β : Type}

theorem ParseType.children_map (f : α → β) (form : ParseType α) :
    (form.map f).children = form.children.map f := by
  cases form with
  | reference name dimensions arguments inner => cases arguments <;> simp [map, children]
  | _ => rfl

theorem ParseExpr.children_map (f : α → β) (form : ParseExpr α) :
    (form.map f).children = form.children.map f := by
  cases form with
  | create type arguments body => cases body <;> simp [map, children]
  | _ => simp [map, children]

theorem ParseStmt.children_map (f : α → β) (form : ParseStmt α) :
    (form.map f).children = form.children.map f := by
  cases form with
  | tryCatch resources body catches finalBlock => cases finalBlock <;> simp [map, children]
  | _ => simp [map, children]

theorem ParseDecl.children_map (f : α → β) (form : ParseDecl α) :
    (form.map f).children = form.children.map f := by
  cases form with
  | enumConstant name arguments body annotations => cases body <;> simp [map, children]
  | method name returnType parameters throws body modifiers annotations typeParameters =>
    cases body <;> simp [map, children]
  | _ => simp [map, children]

/-- Mapping a layer maps its children. -/
@[simp]
theorem ParseLayer.children_map (f : α → β) (layer : ParseLayer α) :
    (layer.map f).children = layer.children.map f := by
  cases layer with
  | node mark selectors form =>
    have hform : (form.map f).children = form.children.map f := by
      cases form with
      | type form => exact form.children_map f
      | expr form => exact form.children_map f
      | stmt form => exact form.children_map f
      | decl form => exact form.children_map f
    simp [map, children, hform]
  | _ => rfl

namespace ParseTree

/-- The number of layers of a tree. -/
def size : ParseTree → Nat := fold fun _ layer => layer.children.sum + 1

theorem size_lt_of_child {layer : ParseLayer ParseTree} {child : ParseTree}
    (h : child ∈ layer.children) : child.size < (mk layer).size := by
  have hlayer : (mk layer).size = (layer.children.map size).sum + 1 := by
    rw [size, fold_mk]
    simp
  obtain ⟨before, after, hsplit⟩ := List.append_of_mem h
  rw [hsplit] at hlayer
  simp only [List.map_append, List.map_cons, List.sum_append, List.sum_cons] at hlayer
  omega

/-- Induction along children: what holds of a tree whenever it holds of its children holds of every
tree. -/
theorem induct {motive : ParseTree → Prop}
    (step : ∀ layer, (∀ child ∈ layer.children, motive child) → motive (.mk layer)) :
    ∀ t, motive t
  | .mk layer => step layer fun child _ => induct step child
termination_by t => t.size
decreasing_by exact size_lt_of_child ‹_›

/-- Induction along a fold: what each step makes true of its result, if it is true of the results
below, is true of the whole. -/
theorem fold_induct {alg : ParseTree → ParseLayer β → β} {P : β → Prop}
    (step : ∀ tree layer, (∀ below ∈ layer.children, P below) → P (alg tree layer)) :
    ∀ t, P (fold alg t) := by
  refine induct fun layer ih => ?_
  rw [fold_mk]
  refine step _ _ ?_
  simpa only [ParseLayer.children_map, List.forall_mem_map] using ih

end ParseTree

end Recast
