import Mathlib
import Recast.Proofs.Tree.Basic
import Recast.Tree.Address

/-!
Addresses and the nodes they lead to.

Numbering a layer keeps its shape, and numbers its children in order; so replacing a child by its
number changes the list of children at that index only (`children_mapIdx_ite`).
-/

namespace Recast

variable {α β : Type}

/-! ### Numbered layers -/

theorem tagHoles_fst (n : Nat) (entries : List (Option α)) :
    (tagHoles n entries).map (·.map fun p => p.1) = entries := by
  induction entries generalizing n with
  | nil => rfl
  | cons entry rest ih => cases entry <;> simp [tagHoles, ih]

theorem holes_tagHoles (n : Nat) (entries : List (Option α)) :
    (tagHoles n entries).filterMap id = (entries.filterMap id).zipIdx n := by
  induction entries generalizing n with
  | nil => rfl
  | cons entry rest ih =>
    cases entry with
    | none => simpa [tagHoles] using ih n
    | some a => simpa [tagHoles] using ih (n + 1)

theorem tagSlot_fst (n : Nat) (slot : Option α) : (tagSlot n slot).map (fun p => p.1) = slot := by
  cases slot <;> rfl

theorem toList_tagSlot (n : Nat) (slot : Option α) :
    (tagSlot n slot).toList = slot.toList.zipIdx n := by
  cases slot <;> rfl

theorem tagSlots_fst (n : Nat) (slots : Option (List α)) :
    (tagSlots n slots).map (·.map fun p => p.1) = slots := by
  cases slots <;> simp [tagSlots]

theorem getD_tagSlots (n : Nat) (slots : Option (List α)) :
    (tagSlots n slots).getD [] = (slots.getD []).zipIdx n := by
  cases slots <;> rfl

theorem TypeForm.map_fst_tag (n : Nat) (form : TypeForm α) :
    (form.tag n).map (fun p => p.1) = form := by
  cases form <;> simp [tag, map, tagSlot_fst, tagSlots_fst]

theorem ExprForm.map_fst_tag (n : Nat) (form : ExprForm α) :
    (form.tag n).map (fun p => p.1) = form := by
  cases form <;> simp [tag, map, tagSlot_fst, tagSlots_fst, tagHoles_fst]

theorem LoopStart.map_fst_tag (n : Nat) (start : LoopStart α) :
    (start.tag n).map (fun p => p.1) = start := by
  cases start <;> simp [tag, map]

theorem StmtForm.map_fst_tag (n : Nat) (form : StmtForm α) :
    (form.tag n).map (fun p => p.1) = form := by
  cases form <;> simp [tag, map, tagSlot_fst, LoopStart.map_fst_tag]

theorem MemberForm.map_fst_tag (n : Nat) (form : MemberForm α) :
    (form.tag n).map (fun p => p.1) = form := by
  cases form <;> simp [tag, map, tagSlot_fst]

theorem PartForm.map_fst_tag (n : Nat) (form : PartForm α) :
    (form.tag n).map (fun p => p.1) = form := by
  cases form <;> simp [tag, map, tagSlot_fst, tagSlots_fst]

/-- Numbering the children keeps the layer. -/
theorem Form.map_fst_tag (n : Nat) (form : Form α) : (form.tag n).map (fun p => p.1) = form := by
  cases form with
  | type form => exact congrArg Form.type (form.map_fst_tag n)
  | expr form => exact congrArg Form.expr (form.map_fst_tag n)
  | stmt form => exact congrArg Form.stmt (form.map_fst_tag n)
  | member form => exact congrArg Form.member (form.map_fst_tag n)
  | part form => exact congrArg Form.part (form.map_fst_tag n)
  | foreign kind => rfl

theorem TypeForm.children_tag (n : Nat) (form : TypeForm α) :
    (form.tag n).children = form.children.zipIdx n := by
  cases form <;> simp [tag, children, toList_tagSlot, getD_tagSlots, List.zipIdx_append]

theorem ExprForm.children_tag (n : Nat) (form : ExprForm α) :
    (form.tag n).children = form.children.zipIdx n := by
  cases form with
  | arrayCreate element dimensions initial =>
    simp only [tag, children, toList_tagSlot, holes_tagHoles, List.zipIdx_append,
      List.length_append, Nat.add_assoc]
  | _ => simp [tag, children, toList_tagSlot, getD_tagSlots, List.zipIdx_append, Nat.add_assoc]

theorem LoopStart.children_tag (n : Nat) (start : LoopStart α) :
    (start.tag n).children = start.children.zipIdx n := by
  cases start <;> simp [tag, children]

theorem StmtForm.children_tag (n : Nat) (form : StmtForm α) :
    (form.tag n).children = form.children.zipIdx n := by
  cases form <;> simp [tag, children, toList_tagSlot, LoopStart.children_tag, List.zipIdx_append,
    Nat.add_assoc]

theorem MemberForm.children_tag (n : Nat) (form : MemberForm α) :
    (form.tag n).children = form.children.zipIdx n := by
  cases form <;> simp [tag, children, toList_tagSlot, List.zipIdx_append, Nat.add_assoc]

theorem PartForm.children_tag (n : Nat) (form : PartForm α) :
    (form.tag n).children = form.children.zipIdx n := by
  cases form <;> simp [tag, children, toList_tagSlot, getD_tagSlots, List.zipIdx_append,
    Nat.add_assoc]

/-- The children of a numbered layer are its children, numbered. -/
theorem Form.children_tag (n : Nat) (form : Form α) :
    (form.tag n).children = form.children.zipIdx n := by
  cases form with
  | type form => exact form.children_tag n
  | expr form => exact form.children_tag n
  | stmt form => exact form.children_tag n
  | member form => exact form.children_tag n
  | part form => exact form.children_tag n
  | foreign kind => rfl

/-! ### Replacing by number -/

/-- The children of a layer whose children were replaced by number. -/
theorem Form.children_mapIdx (f : Nat → α → β) (form : Form α) :
    (form.mapIdx f).children = form.children.mapIdx f := by
  rw [Form.mapIdx, Form.children_map, Form.children_tag, List.mapIdx_eq_zipIdx_map]

theorem mapIdx_ite_eq_modify (g : α → α) (i : Nat) (items : List α) :
    (items.mapIdx fun j a => if j = i then g a else a) = items.modify i g := by
  apply List.ext_getElem?
  intro j
  rw [List.getElem?_mapIdx, List.getElem?_modify]
  by_cases h : j = i
  · subst h
    simp
  · simp [h, Ne.symm h]

/-- What holds of the entries of a list, and of the entry that one of them is replaced by. -/
theorem forall_mem_modify {P : α → Prop} {g : α → α} {i : Nat} {items : List α}
    (hitems : ∀ a ∈ items, P a) (hg : ∀ a, items[i]? = some a → P (g a)) :
    ∀ a ∈ items.modify i g, P a := by
  intro a ha
  obtain ⟨j, hj⟩ := List.mem_iff_getElem?.1 ha
  rw [List.getElem?_modify] at hj
  obtain ⟨b, hb, rfl⟩ := Option.map_eq_some_iff.1 hj
  split
  · subst i
    exact hg b hb
  · exact hitems b (List.mem_of_getElem? hb)

/-- Replacing one child changes the list of children at one index. -/
theorem Form.children_mapIdx_ite (g : α → α) (i : Nat) (form : Form α) :
    (form.mapIdx fun j a => if j = i then g a else a).children = form.children.modify i g := by
  rw [Form.children_mapIdx, mapIdx_ite_eq_modify]

/-- A layer replaced by number and then mapped, where each replacement maps to what the child it
replaces maps to. -/
theorem Form.map_mapIdx {f : Nat → α → α} {g : α → β} (hf : ∀ i a, g (f i a) = g a)
    (form : Form α) : (form.mapIdx f).map g = form.map g := by
  have hfst : form.map g = ((form.tag 0).map fun p => p.1).map g := by rw [Form.map_fst_tag]
  rw [hfst, Form.mapIdx, Form.map_map, Form.map_map]
  congr 1
  funext ⟨a, i⟩
  exact hf i a

namespace Tree

theorem updateAt_cons (f : Tree → Tree) (i : Nat) (rest : Address) (t : Tree) :
    t.updateAt f (i :: rest) =
      t.withForm (t.form.mapIdx fun j child => if j = i then child.updateAt f rest else child) :=
  rfl

theorem form_children_updateAt_cons (f : Tree → Tree) (i : Nat) (rest : Address) (t : Tree) :
    (t.updateAt f (i :: rest)).form.children = t.form.children.modify i (updateAt f rest) := by
  rw [updateAt_cons]
  exact Form.children_mapIdx_ite (updateAt f rest) i t.form

end Tree

end Recast
