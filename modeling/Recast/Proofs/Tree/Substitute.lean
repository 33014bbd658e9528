import Mathlib
import Recast.Proofs.Tree.Basic
import Recast.Tree.Names

/-!
Replacing nodes bottom up.

`substitute?_node` is the equation of a replacement: the rule gets the node as it was and the node
over its replaced children. The laws of `Form.filterMap` that proofs about replacements need stand
before it: what a layer is when nothing is replaced, when two replacements agree on its children,
and when one replacement follows another.
-/

namespace Recast

variable {α β γ : Type}

/-! ### Slots -/

theorem keepHoles_none (f : α → Option β) (rest : List (Option α)) :
    keepHoles f (none :: rest) = none :: keepHoles f rest := rfl

theorem keepHoles_cons (f : α → Option β) (a : α) (rest : List (Option α)) :
    keepHoles f (some a :: rest) =
      (f a).elim (keepHoles f rest) fun b => some b :: keepHoles f rest := by
  cases h : f a <;> simp [keepHoles, h]

theorem keepHoles_some (entries : List (Option α)) : keepHoles some entries = entries := by
  induction entries with
  | nil => rfl
  | cons entry rest ih => cases entry <;> simp [keepHoles_none, keepHoles_cons, ih]

theorem keepHoles_keepHoles (f : α → Option β) (g : β → Option γ) (entries : List (Option α)) :
    keepHoles g (keepHoles f entries) = keepHoles (fun a => (f a).bind g) entries := by
  induction entries with
  | nil => rfl
  | cons entry rest ih =>
    cases entry with
    | none => simp [keepHoles_none, ih]
    | some a => cases h : f a <;> simp [keepHoles_cons, h, ih]

theorem keepHoles_map (f : α → Option β) (entries : List (Option α)) :
    keepHoles id (entries.map (·.map f)) = keepHoles f entries := by
  induction entries with
  | nil => rfl
  | cons entry rest ih => cases entry <;> simp [keepHoles_none, keepHoles_cons, ih]

theorem keepHoles_congr {f g : α → Option β} {entries : List (Option α)}
    (h : ∀ a ∈ entries.filterMap id, f a = g a) : keepHoles f entries = keepHoles g entries := by
  unfold keepHoles
  apply List.filterMap_congr
  intro entry hentry
  cases entry with
  | none => rfl
  | some a => simp only [h a (List.mem_filterMap.2 ⟨some a, hentry, rfl⟩)]

theorem filterMap_getD_congr {f g : α → Option β} {slots : Option (List α)}
    (h : ∀ a ∈ slots.getD [], f a = g a) :
    slots.map (·.filterMap f) = slots.map (·.filterMap g) := by
  cases slots with
  | none => rfl
  | some entries => exact congrArg some (List.filterMap_congr h)

theorem bind_congr {f g : α → Option β} {slot : Option α} (h : ∀ a ∈ slot.toList, f a = g a) :
    slot.bind f = slot.bind g := by
  cases slot with
  | none => rfl
  | some a => exact h a (by simp)

/-! ### Layers -/

namespace LoopStart

theorem filterMap_some (start : LoopStart α) : start.filterMap some = start := by
  cases start <;> simp [filterMap]

theorem filterMap_filterMap (f : α → Option β) (g : β → Option γ) (start : LoopStart α) :
    (start.filterMap f).filterMap g = start.filterMap fun a => (f a).bind g := by
  cases start with
  | declaration node => cases h : f node <;> simp [filterMap, h]
  | _ => simp [filterMap, List.filterMap_filterMap]

theorem filterMap_congr {f g : α → Option β} {start : LoopStart α}
    (h : ∀ a ∈ start.children, f a = g a) : start.filterMap f = start.filterMap g := by
  cases start with
  | absent => rfl
  | declaration node => simp [filterMap, h node (by simp [children])]
  | expressions nodes => exact congrArg expressions (List.filterMap_congr h)

end LoopStart

namespace Form

theorem mem_children_call {name : Word} {arguments typeArguments : List α} {target : Option α}
    {child : α} : child ∈ (Form.expr (.call name arguments target typeArguments)).children ↔
      child ∈ arguments ∨ target = some child ∨ child ∈ typeArguments := by
  simp [children, ExprForm.children]

theorem mem_children_create {slot : Option α} {arguments : List α} {body : Option (List α)}
    {child : α} : child ∈ (Form.expr (.create slot arguments body)).children ↔
      slot = some child ∨ child ∈ arguments ∨ child ∈ body.getD [] := by
  simp [children, ExprForm.children]

theorem eq_annotationUse_of_filterMap {f : α → Option β} {form : Form α} {name : Word}
    {arguments : List β} (h : form.filterMap f = .part (.annotationUse name arguments)) :
    ∃ old, form = .part (.annotationUse name old) := by
  cases form with
  | part form =>
    cases form with
    | annotationUse old oldArguments =>
      obtain ⟨rfl, -⟩ := PartForm.annotationUse.inj (part.inj h)
      exact ⟨oldArguments, rfl⟩
    | _ => cases part.inj h
  | _ => cases h

theorem eq_create_of_filterMap {f : α → Option β} {form : Form α} {slot : Option β}
    {arguments : List β} {body : Option (List β)}
    (h : form.filterMap f = .expr (.create slot arguments body)) :
    ∃ oldSlot oldArguments oldBody, form = .expr (.create oldSlot oldArguments oldBody) ∧
      oldSlot.bind f = slot ∧ oldBody.map (·.filterMap f) = body := by
  cases form with
  | expr form =>
    cases form with
    | create oldSlot oldArguments oldBody =>
      obtain ⟨rfl, -, rfl⟩ := ExprForm.create.inj (expr.inj h)
      exact ⟨oldSlot, oldArguments, oldBody, rfl, rfl, rfl⟩
    | _ => cases expr.inj h
  | _ => cases h

/-- Replacing nothing. -/
theorem filterMap_some (form : Form α) : form.filterMap some = form := by
  rcases form with form | form | form | form | form | kind
  · cases form <;> simp [filterMap, TypeForm.filterMap]
  · cases form <;> simp [filterMap, ExprForm.filterMap, keepHoles_some]
  · cases form <;> simp [filterMap, StmtForm.filterMap, LoopStart.filterMap_some]
  · cases form <;> simp [filterMap, MemberForm.filterMap]
  · cases form <;> simp [filterMap, PartForm.filterMap]
  · rfl

/-- Replacing the children that are there. -/
theorem filterMap_id_map (f : α → Option β) (form : Form α) :
    (form.map f).filterMap id = form.filterMap f := by
  rcases form with form | form | form | form | form | kind
  · cases form <;> simp [filterMap, map, TypeForm.filterMap, TypeForm.map, Option.bind_map, Function.comp_def]
  · cases form <;>
      simp [filterMap, map, ExprForm.filterMap, ExprForm.map, Option.bind_map, Function.comp_def, keepHoles_map]
  · cases form with
    | forLoop start =>
      cases start <;> simp [filterMap, map, StmtForm.filterMap, StmtForm.map, LoopStart.filterMap,
        LoopStart.map, Option.bind_map]
    | _ => simp [filterMap, map, StmtForm.filterMap, StmtForm.map, Option.bind_map]
  · cases form <;> simp [filterMap, map, MemberForm.filterMap, MemberForm.map, Option.bind_map]
  · cases form <;> simp [filterMap, map, PartForm.filterMap, PartForm.map, Option.bind_map, Function.comp_def]
  · rfl

/-- One replacement after another. -/
theorem filterMap_filterMap (f : α → Option β) (g : β → Option γ) (form : Form α) :
    (form.filterMap f).filterMap g = form.filterMap fun a => (f a).bind g := by
  rcases form with form | form | form | form | form | kind
  · cases form <;> simp [filterMap, TypeForm.filterMap, List.filterMap_filterMap,
      Option.bind_assoc, Function.comp_def]
  · cases form <;> simp [filterMap, ExprForm.filterMap, List.filterMap_filterMap,
      Option.bind_assoc, Function.comp_def, keepHoles_keepHoles]
  · cases form <;> simp [filterMap, StmtForm.filterMap, List.filterMap_filterMap,
      Option.bind_assoc, LoopStart.filterMap_filterMap]
  · cases form <;> simp [filterMap, MemberForm.filterMap, List.filterMap_filterMap,
      Option.bind_assoc]
  · cases form <;> simp [filterMap, PartForm.filterMap, List.filterMap_filterMap,
      Option.bind_assoc, Function.comp_def]
  · rfl

/-- Two replacements that agree on the children of a layer. -/
theorem filterMap_congr {f g : α → Option β} {form : Form α}
    (h : ∀ a ∈ form.children, f a = g a) : form.filterMap f = form.filterMap g := by
  rcases form with form | form | form | form | form | kind
  · cases form <;> simp only [filterMap, TypeForm.filterMap, children, TypeForm.children] at h ⊢
    all_goals grind [bind_congr, List.filterMap_congr, filterMap_getD_congr]
  · cases form <;> simp only [filterMap, ExprForm.filterMap, children, ExprForm.children] at h ⊢
    all_goals grind [bind_congr, List.filterMap_congr, filterMap_getD_congr, keepHoles_congr]
  · cases form <;> simp only [filterMap, StmtForm.filterMap, children, StmtForm.children] at h ⊢
    all_goals grind [bind_congr, List.filterMap_congr, LoopStart.filterMap_congr]
  · cases form <;> simp only [filterMap, MemberForm.filterMap, children, MemberForm.children] at h ⊢
    all_goals grind [bind_congr, List.filterMap_congr]
  · cases form <;> simp only [filterMap, PartForm.filterMap, children, PartForm.children] at h ⊢
    all_goals grind [bind_congr, List.filterMap_congr, filterMap_getD_congr]
  · rfl

/-- Replacing every child and removing none. -/
theorem filterMap_some_comp (f : α → β) (form : Form α) :
    form.filterMap (fun a => some (f a)) = form.map f := by
  have hmap : form.map (fun a => some (f a)) = (form.map f).map some := (map_map f some form).symm
  rw [← filterMap_id_map, hmap, filterMap_id_map, filterMap_some]

theorem map_congr {f g : α → β} {form : Form α} (h : ∀ a ∈ form.children, f a = g a) :
    form.map f = form.map g := by
  rw [← filterMap_some_comp, ← filterMap_some_comp]
  exact filterMap_congr fun a ha => congrArg some (h a ha)

end Form

/-! ### Trees -/

namespace Tree

variable {rule : Tree → Tree → Option Tree} {t : Tree}

/-! What a layer says of itself does not depend on its children. -/

theorem name?_filterMap (f : Tree → Option Tree) (trivia : Trivia) (form : Form Tree) :
    (node trivia (form.filterMap f)).name? = (node trivia form).name? := by
  rcases form with form | form | form | form | form | kind
  case foreign => rfl
  all_goals cases form <;> rfl

theorem isIdent_filterMap (word : String) (f : Tree → Option Tree) (trivia : Trivia)
    (form : Form Tree) :
    (node trivia (form.filterMap f)).isIdent word = (node trivia form).isIdent word := by
  rcases form with form | form | form | form | form | kind
  case foreign => rfl
  all_goals cases form <;> rfl

theorem annotationName_filterMap (f : Tree → Option Tree) (trivia : Trivia) (form : Form Tree) :
    (node trivia (form.filterMap f)).annotationName = (node trivia form).annotationName := by
  rcases form with form | form | form | form | form | kind
  case foreign => rfl
  all_goals cases form <;> rfl

/-- The rule decides on a node as it was and as it is over its replaced children. -/
theorem substitute?_node (rule : Tree → Tree → Option Tree) (trivia : Trivia) (form : Form Tree) :
    substitute? rule (.node trivia form) =
      rule (.node trivia form) (.node trivia (form.filterMap (substitute? rule))) := by
  rw [substitute?, fold_node, Form.filterMap_id_map]
  rfl

/-- A node whose children all stay is left to the rule as it is. -/
theorem substitute?_of_children (h : ∀ child ∈ t.form.children, substitute? rule child = some child) :
    substitute? rule t = rule t t := by
  cases t with
  | node trivia form =>
    have hform : form.filterMap (substitute? rule) = form :=
      (Form.filterMap_congr h).trans form.filterMap_some
    rw [substitute?_node, hform]

end Tree

end Recast
