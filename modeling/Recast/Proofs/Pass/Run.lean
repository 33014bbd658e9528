import Mathlib
import Recast.Pass
import Recast.Proofs.Tree.Orderly
import Recast.Proofs.Tree.Substitute

/-!
Runs of a pass, node by node.

A run leaves package and import declarations as they are and gives every other node to the rule of
the pass (`run?_node`). On a unit it goes through the types and leaves all else alone (`run_unit`).
-/

namespace Recast

open Recast.Tree

/-- Whether a node declares a package. -/
def Form.isPackage {α : Type} : Form α → Bool
  | .part (.package ..) => true
  | _ => false

/-- A unit whose header declares a package and whose imports are imports. -/
structure Tree.IsUnit (unit : Tree) (header : Option Tree) (imports types : List Tree) : Prop where
  form : unit.form = .part (.unit header imports types)
  header : ∀ t ∈ header, t.form.isPackage
  imports : ∀ t ∈ imports, t.form.isImport

namespace Pass

variable {t unit : Tree} {header : Option Tree} {imports types : List Tree}

theorem run?_package (mappings : List (String × Value)) (pass : Pass) (h : t.form.isPackage) :
    pass.run? mappings t = some t := by
  obtain ⟨trivia, form⟩ := t
  unfold Form.isPackage at h
  split at h
  · next hform =>
    obtain rfl := hform
    rw [run?, substitute?_node]
    rfl
  · cases h

theorem run?_import (mappings : List (String × Value)) (pass : Pass) (h : t.form.isImport) :
    pass.run? mappings t = some t := by
  obtain ⟨trivia, form⟩ := t
  unfold Form.isImport at h
  split at h
  · next hform =>
    obtain rfl := hform
    rw [run?, substitute?_node]
    rfl
  · cases h

/-- A pass replaces the children of a node and leaves the node to its rule. -/
theorem run?_node (mappings : List (String × Value)) (pass : Pass) {trivia : Trivia}
    {form : Form Tree} (hpackage : form.isPackage = false) (himport : form.isImport = false) :
    pass.run? mappings (.node trivia form) = pass.rule mappings (.node trivia form)
      (.node trivia (form.filterMap (pass.run? mappings))) := by
  conv_lhs => rw [run?, substitute?_node, sparingHeader]
  split
  · next hform =>
    obtain rfl := hform
    cases himport
  · next hform =>
    obtain rfl := hform
    cases hpackage
  · rfl

/-- A declaration of a package or an import stays, and any other node is left to the rule. -/
theorem run?_cases (mappings : List (String × Value)) (pass : Pass) (trivia : Trivia)
    (form : Form Tree) :
    ((form.isPackage = true ∨ form.isImport = true) ∧
        pass.run? mappings (.node trivia form) = some (.node trivia form)) ∨
      form.isPackage = false ∧ form.isImport = false ∧
        pass.run? mappings (.node trivia form) = pass.rule mappings (.node trivia form)
          (.node trivia (form.filterMap (pass.run? mappings))) := by
  cases hpackage : form.isPackage with
  | true => exact .inl ⟨.inl rfl, run?_package mappings pass hpackage⟩
  | false =>
    cases himport : form.isImport with
    | true => exact .inl ⟨.inr rfl, run?_import mappings pass himport⟩
    | false => exact .inr ⟨rfl, rfl, run?_node mappings pass hpackage himport⟩

/-- A pass goes through the types of a unit and leaves all else alone. -/
theorem run_unit (mappings : List (String × Value)) (pass : Pass)
    (h : unit.IsUnit header imports types) :
    pass.run mappings unit =
      .node unit.trivia (.part (.unit header imports (types.filterMap (pass.run? mappings)))) := by
  obtain ⟨trivia, form⟩ := unit
  obtain rfl : form = .part (.unit header imports types) := h.form
  have hheader : header.bind (pass.run? mappings) = header := by
    cases header with
    | none => rfl
    | some t => exact run?_package mappings pass (h.header t rfl)
  have himports : imports.filterMap (pass.run? mappings) = imports :=
    (List.filterMap_congr fun t ht => run?_import mappings pass (h.imports t ht)).trans
      List.filterMap_some
  have hrun : pass.run? mappings (.node trivia (.part (.unit header imports types))) =
      some (.node trivia (.part (.unit (header.bind (pass.run? mappings))
        (imports.filterMap (pass.run? mappings)) (types.filterMap (pass.run? mappings))))) := by
    conv_lhs => rw [run?, substitute?_node]
    cases pass <;> rfl
  rw [run, hrun, hheader, himports]
  rfl

theorem isUnit_run (mappings : List (String × Value)) (pass : Pass)
    (h : unit.IsUnit header imports types) :
    (pass.run mappings unit).IsUnit header imports (types.filterMap (pass.run? mappings)) := by
  rw [run_unit mappings pass h]
  exact ⟨rfl, h.header, h.imports⟩

end Pass

end Recast
