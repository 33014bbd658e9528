import Mathlib
import Recast.Lowering.Accessors
import Recast.Proofs.Tree.Basic

/-!
What synthesized members are made of.

The members that annotations ask for are built from a few shapes and from the types of fields. A
property of trees holds of all of them if it holds of the types and passes from children to nodes of
these shapes: `Builds.synthesized`.
-/

namespace Recast

open Recast.Tree

/-- Whether a layer is one of those that synthesized members are built from. -/
def Form.isSynthetic {α : Type} : Form α → Bool
  | .type .void | .type (.array ..) => true
  | .expr (.this _) | .expr (.ident _) | .expr (.field ..) | .expr (.assign ..) => true
  | .stmt (.evaluate _) | .stmt (.returning _) | .stmt (.block _) | .stmt (.constructorCall ..) => true
  | .member (.method ..) | .member (.constructor ..) => true
  | .part (.parameter ..) => true
  | _ => false

namespace Lowering

theorem isSynthetic_of_mem_synthesized {summary : AccessorSummary} {t : Tree}
    (h : t ∈ synthesized summary) : t.form.isSynthetic = true := by
  simp only [synthesized, List.mem_append, List.mem_map] at h
  rcases h with ((hnone | hall) | ⟨field, -, rfl⟩) | ⟨field, -, rfl⟩
  · split at hnone
    · obtain rfl := List.mem_singleton.1 hnone
      rfl
    · cases hnone
  · split at hall
    · obtain rfl := List.mem_singleton.1 hall
      rfl
    · cases hall
  · rfl
  · rfl

/-- A property of trees that passes from the children to the nodes of synthesized members. -/
def Builds (P : Tree → Prop) : Prop :=
  ∀ form : Form Tree, form.isSynthetic → (∀ child ∈ form.children, P child) → P (plain form)

namespace Builds

variable {P : Tree → Prop} {statements parameters : List Tree} {slot : Option Tree}

theorem ident (h : Builds P) (name : Word) : P (Lowering.ident name) :=
  h _ rfl (by simp [Form.children, ExprForm.children])

theorem thisField (h : Builds P) (name : Word) : P (Lowering.thisField name) := by
  have hthis : P (plain (.expr (.this .null))) := h _ rfl (by simp [Form.children, ExprForm.children])
  exact h _ rfl (by simpa [Form.children, ExprForm.children] using hthis)

theorem assignField (h : Builds P) (name : Word) : P (Lowering.assignField name) := by
  have hassign := h (.expr (.assign (.text "=") (some (Lowering.thisField name))
    (some (Lowering.ident name)))) rfl
    (by simpa [Form.children, ExprForm.children] using ⟨h.thisField name, h.ident name⟩)
  exact h _ rfl (by simpa [Form.children, StmtForm.children] using hassign)

theorem parentCall (h : Builds P) (summary : AccessorSummary) :
    ∀ t ∈ Lowering.parentCall summary, P t := by
  intro t ht
  unfold Lowering.parentCall at ht
  split at ht
  · obtain rfl := List.mem_singleton.1 ht
    exact h _ rfl (by simp [Form.children, StmtForm.children])
  · cases ht

theorem block (h : Builds P) (hstatements : ∀ t ∈ statements, P t) :
    P (plain (.stmt (.block statements))) :=
  h _ rfl hstatements

theorem fieldParameter (h : Builds P) {field : AccessorField} (hfield : ∀ t ∈ field.type, P t) :
    P (Lowering.fieldParameter field) :=
  h _ rfl (by simpa [Form.children, PartForm.children] using hfield)

theorem publicConstructor (h : Builds P) (name : Word) (hparameters : ∀ t ∈ parameters, P t)
    (hstatements : ∀ t ∈ statements, P t) :
    P (Lowering.publicConstructor name parameters statements) := by
  apply h _ rfl
  intro child hchild
  simp only [Form.children, MemberForm.children, List.append_nil, Option.toList_some,
    List.mem_append, List.mem_singleton] at hchild
  rcases hchild with hparameter | rfl
  · exact hparameters child hparameter
  · exact h.block hstatements

theorem publicMethod (h : Builds P) (name : String) (hslot : ∀ t ∈ slot, P t)
    (hparameters : ∀ t ∈ parameters, P t) (hstatements : ∀ t ∈ statements, P t) :
    P (Lowering.publicMethod name slot parameters statements) := by
  apply h _ rfl
  intro child hchild
  simp only [Form.children, MemberForm.children, List.append_nil, Option.toList_some,
    List.mem_append, List.mem_singleton, Option.mem_toList] at hchild
  rcases hchild with (htype | hparameter) | rfl
  · exact hslot child htype
  · exact hparameters child hparameter
  · exact h.block hstatements

/-- The type of a variable has the property if the declared type has it, together with the type of
its elements. -/
theorem variableType (h : Builds P) {base : Option Tree}
    (hbase : ∀ t ∈ base, P t ∧ ∀ element outer, t.form = .type (.array element outer) →
      ∀ child ∈ element, P child) (dimensions : Int) :
    ∀ t ∈ Tree.variableType base dimensions, P t := by
  intro t ht
  unfold Tree.variableType at ht
  split at ht
  · exact (hbase t ht).1
  · split at ht
    · next trivia element outer =>
      obtain rfl := Option.some.inj ht
      apply h _ rfl
      simpa [Form.children, TypeForm.children] using (hbase _ rfl).2 element outer rfl
    · obtain rfl := Option.some.inj ht
      apply h _ rfl
      simpa [Form.children, TypeForm.children] using fun t ht => (hbase t ht).1

/-- The fields of a member have types with the property. -/
theorem accessorFields (h : Builds P) {member : Tree}
    (hmember : ∀ slot bindings modifiers annotations,
      member.form = .member (.field slot bindings modifiers annotations) → ∀ t ∈ slot, P t ∧
        ∀ element outer, t.form = .type (.array element outer) → ∀ child ∈ element, P child)
    (getters setters : Bool) :
    ∀ field ∈ Lowering.accessorFields getters setters member, ∀ t ∈ field.type, P t := by
  intro field hfield
  unfold Lowering.accessorFields at hfield
  split at hfield
  · next slot bindings modifiers annotations hform =>
    split at hfield
    · cases hfield
    · obtain ⟨declared, -, hdeclared⟩ := List.mem_filterMap.1 hfield
      split at hdeclared
      · obtain rfl := Option.some.inj hdeclared
        exact h.variableType (hmember slot bindings modifiers annotations hform) _
      · cases hdeclared
  · cases hfield

/-- Synthesized members have the property if the types of the fields have it. -/
theorem synthesized (h : Builds P) {summary : AccessorSummary}
    (hfields : ∀ field ∈ summary.fields, ∀ t ∈ field.type, P t) :
    ∀ t ∈ Lowering.synthesized summary, P t := by
  have hassign : ∀ t ∈ summary.fields.map (Lowering.assignField ·.name), P t := by
    intro t ht
    obtain ⟨field, -, rfl⟩ := List.mem_map.1 ht
    exact h.assignField field.name
  have hparameters : ∀ t ∈ summary.fields.map Lowering.fieldParameter, P t := by
    intro t ht
    obtain ⟨field, hfield, rfl⟩ := List.mem_map.1 ht
    exact h.fieldParameter (hfields field hfield)
  intro t ht
  simp only [Lowering.synthesized, List.mem_append, List.mem_map, List.mem_filter] at ht
  rcases ht with ((hnone | hall) | ⟨field, ⟨hfield, -⟩, rfl⟩) | ⟨field, ⟨hfield, -⟩, rfl⟩
  · split at hnone
    · obtain rfl := List.mem_singleton.1 hnone
      exact h.publicConstructor _ (by simp) (h.parentCall summary)
    · cases hnone
  · split at hall
    · obtain rfl := List.mem_singleton.1 hall
      apply h.publicConstructor _ hparameters
      intro statement hstatement
      rcases List.mem_append.1 hstatement with hcall | hfield
      · exact h.parentCall summary statement hcall
      · exact hassign statement hfield
    · cases hall
  · have hvoid : P (plain (.type .void)) := h _ rfl (by simp [Form.children, TypeForm.children])
    apply h.publicMethod _ (by simpa using hvoid)
    · simpa using h.fieldParameter (hfields field hfield)
    · simpa using h.assignField field.name
  · apply h.publicMethod _ (hfields field hfield) (by simp)
    have hreturn := h (.stmt (.returning (some (Lowering.thisField field.name)))) rfl
      (by simpa [Form.children, StmtForm.children] using h.thisField field.name)
    simpa using hreturn

end Builds

end Lowering

end Recast
