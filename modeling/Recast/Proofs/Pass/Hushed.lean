import Mathlib
import Recast.Pass
import Recast.Proofs.Comment.Attach

/-!
Passes and the comments of a tree.

A pass may replace a node, drop it or copy a part of it, and a comment in such a place would be lost
or doubled. `Tree.Hushed` says that a node has no comments in the places that passes touch: none in
types and annotations, and none on expressions themselves. A rule `Conserves` if it keeps the
comments of a tree that is hushed everywhere, and leaves it hushed; every rule of the passes does,
and so does a whole run (`runAll_keeps`).
-/

namespace Recast

variable {α β : Type}

namespace Form

/-- Whether nothing in a tree of this shape may hold comments: it is a type or an annotation. -/
def isSilent : Form α → Bool
  | .type _ | .part (.annotationUse ..) => true
  | _ => false

/-- Whether a node of this shape may itself hold no comments: it is an expression, or foreign. -/
def isValue : Form α → Bool
  | .expr _ | .foreign _ => true
  | _ => false

@[simp]
theorem isSilent_map (f : α → β) (form : Form α) : (form.map f).isSilent = form.isSilent := by
  cases form with
  | part form => cases form <;> rfl
  | _ => rfl

@[simp]
theorem isSilent_filterMap (f : α → Option β) (form : Form α) :
    (form.filterMap f).isSilent = form.isSilent := by
  cases form with
  | part form => cases form <;> rfl
  | _ => rfl

@[simp]
theorem isValue_map (f : α → β) (form : Form α) : (form.map f).isValue = form.isValue := by
  cases form <;> rfl

@[simp]
theorem isValue_filterMap (f : α → Option β) (form : Form α) :
    (form.filterMap f).isValue = form.isValue := by
  cases form <;> rfl

theorem typeSlots_filterMap (f : α → Option β) (form : Form α) :
    (form.filterMap f).typeSlots = form.typeSlots.filterMap f := by
  cases form with
  | type form => exact form.children_filterMap f
  | expr form => cases form <;> simp [filterMap, ExprForm.filterMap, typeSlots, toList_bind]
  | member form => cases form <;> simp [filterMap, MemberForm.filterMap, typeSlots, toList_bind]
  | _ => rfl

end Form

namespace Tree

/-- Whether a node holds no comments in the places that passes touch. -/
structure Hushed (t : Tree) : Prop where
  silent : t.form.isSilent → t.bag = 0
  value : t.form.isValue → t.trivia.comments = []
  slots : ∀ child ∈ t.form.typeSlots, child.bag = 0

/-- The comments of what stands in a slot. -/
def slotBag (slot : Option Tree) : Multiset Comment := (slot.map bag).getD 0

@[simp]
theorem slotBag_none : slotBag none = 0 := rfl

@[simp]
theorem slotBag_some (t : Tree) : slotBag (some t) = t.bag := rfl

theorem sum_map_toList (slot : Option Tree) : (slot.toList.map bag).sum = slotBag slot := by
  cases slot <;> simp

theorem sum_map_filterMap (f : Tree → Option Tree) (nodes : List Tree) :
    ((nodes.filterMap f).map bag).sum = (nodes.map fun t => slotBag (f t)).sum := by
  induction nodes with
  | nil => rfl
  | cons first rest ih => cases h : f first <;> simp [h, ih]

theorem sum_map_bag_eq_zero {nodes : List Tree} (h : ∀ t ∈ nodes, t.bag = 0) :
    (nodes.map bag).sum = 0 := by
  apply List.sum_eq_zero
  simpa using h

/-- A tree without comments has none in any node, and none below any node. -/
theorem bag_eq_zero_iff {trivia : Trivia} {form : Form Tree} :
    (node trivia form).bag = 0 ↔ trivia.comments = [] ∧ ∀ child ∈ form.children, child.bag = 0 := by
  simp [bag_node, List.sum_eq_zero_iff]

theorem hushed_of_bag_eq_zero {t : Tree} (h : t.bag = 0) : t.Everywhere Hushed := by
  induction t using induct with
  | step trivia form ih =>
    obtain ⟨hown, hbelow⟩ := bag_eq_zero_iff.1 h
    refine everywhere_node.2 ⟨⟨fun _ => h, fun _ => hown, ?_⟩, ?_⟩
    · intro child hchild
      exact hbelow child (Form.mem_children_of_mem_typeSlots hchild)
    · intro child hchild
      exact ih child hchild (hbelow child hchild)

end Tree

namespace Lowering

open Recast.Tree

/-- What a node is after its children went through a rule. -/
structure Rebuilt (before after : Tree) : Prop where
  shape : ∃ f : Tree → Option Tree, after = before.withForm ((before.form.map f).filterMap id)
  old : before.Everywhere Hushed
  new : after.Everywhere Hushed
  same : after.bag = before.bag

/-- Whether what takes the place of a node holds the comments of the node, and is hushed again. -/
structure Keeps (t : Tree) (result : Option Tree) : Prop where
  same : slotBag result = t.bag
  hushed : ∀ r, result = some r → r.Everywhere Hushed

/-- Whether a rule keeps the comments of hushed trees. -/
def Conserves (rule : Rule) : Prop :=
  ∀ before after, Rebuilt before after → Keeps after (rule before after)

/-- A node over children that kept their comments has kept its comments too. -/
theorem rebuilt_of_children {trivia : Trivia} {form : Form Tree} {f : Tree → Option Tree}
    (h : (node trivia form).Everywhere Hushed) (hf : ∀ child ∈ form.children, Keeps child (f child)) :
    Rebuilt (.node trivia form) (.node trivia ((form.map f).filterMap id)) := by
  have hchildren : ((form.map f).filterMap id).children = form.children.filterMap f := by
    simp [List.filterMap_map]
  have hslots : ((form.map f).filterMap id).typeSlots = form.typeSlots.filterMap f := by
    rw [Form.typeSlots_filterMap, Form.typeSlots_map, List.filterMap_map]
    rfl
  have hsame : (node trivia ((form.map f).filterMap id)).bag = (node trivia form).bag := by
    rw [bag_node, bag_node, hchildren, sum_map_filterMap,
      List.map_congr_left fun child hchild => (hf child hchild).same]
  obtain ⟨hself, hbelow⟩ := everywhere_node.1 h
  refine ⟨⟨f, rfl⟩, h, everywhere_node.2 ⟨⟨?_, ?_, ?_⟩, ?_⟩, hsame⟩
  · intro hsilent
    rw [hsame]
    exact hself.silent (by simpa using hsilent)
  · intro hvalue
    exact hself.value (by simpa using hvalue)
  · intro child hchild
    rw [form_node, hslots] at hchild
    obtain ⟨old, hold, hnew⟩ := List.mem_filterMap.1 hchild
    have hkeeps := (hf old (Form.mem_children_of_mem_typeSlots hold)).same
    rw [hnew, slotBag_some, hself.slots old hold] at hkeeps
    exact hkeeps
  · intro child hchild
    rw [hchildren] at hchild
    obtain ⟨old, hold, hnew⟩ := List.mem_filterMap.1 hchild
    exact (hf old hold).hushed child hnew

/-- A rule that keeps comments keeps them in the whole tree. -/
theorem Conserves.substitute? {rule : Rule} (hrule : Conserves rule) {t : Tree}
    (h : t.Everywhere Hushed) : Keeps t (t.substitute? rule) := by
  induction t using induct with
  | step trivia form ih =>
    have hrebuilt := rebuilt_of_children h fun child hchild =>
      ih child hchild ((everywhere_node.1 h).2 child hchild)
    have hkeeps := hrule _ _ hrebuilt
    rw [Tree.substitute?, fold_node]
    exact ⟨hkeeps.same.trans hrebuilt.same, hkeeps.hushed⟩

/-! ### Steps that every rule is made of -/

/-- Leaving a node as it is. -/
theorem Keeps.refl {t : Tree} (h : t.Everywhere Hushed) : Keeps t (some t) :=
  ⟨rfl, fun _ hr => Option.some.inj hr ▸ h⟩

/-- Going back to the node over its old children. -/
theorem Rebuilt.keeps_before {before after : Tree} (h : Rebuilt before after) :
    Keeps after (some before) :=
  ⟨h.same.symm, fun _ hr => Option.some.inj hr ▸ h.old⟩

/-- Putting one tree without comments in place of another. -/
theorem Keeps.of_silent {t r : Tree} (ht : t.bag = 0) (hr : r.bag = 0) : Keeps t (some r) :=
  ⟨hr.trans ht.symm, fun _ h => Option.some.inj h ▸ hushed_of_bag_eq_zero hr⟩

/-- What is present of a tree holds all its comments. -/
theorem keeps_present? {t : Tree} (h : t.Everywhere Hushed) : Keeps t t.present? := by
  cases t with
  | node trivia form =>
    cases form with
    | foreign kind =>
      have hbag : (node trivia (.foreign kind)).bag = 0 :=
        bag_eq_zero_iff.2 ⟨h.self.value rfl, by simp [Form.children]⟩
      simp only [present?, form_node]
      split
      · exact ⟨hbag.symm, fun r hr => by cases hr⟩
      · exact Keeps.refl h
    | _ => exact Keeps.refl h

theorem bag_of_isIdent {t : Tree} {name : String} (hident : t.isIdent name)
    (h : t.Everywhere Hushed) : t.bag = 0 := by
  cases t with
  | node trivia form =>
    rcases form with form | form | form | form | form | kind
    case expr =>
      cases form with
      | ident identifier =>
        exact bag_eq_zero_iff.2 ⟨h.self.value rfl, by simp [Form.children, ExprForm.children]⟩
      | _ => simp [isIdent] at hident
    all_goals simp [isIdent] at hident

/-! ### The rules -/

/-- An expression in place of another holds the same comments if its children do. -/
theorem keeps_expr {trivia trivia' : Trivia} {form form' : ExprForm Tree}
    (h : (node trivia (.expr form)).Everywhere Hushed) (htrivia : trivia'.comments = [])
    (hsum : (form'.children.map bag).sum = (form.children.map bag).sum)
    (hslots : ∀ child ∈ (Form.expr form').typeSlots, child.bag = 0)
    (hbelow : ∀ child ∈ form'.children, child.Everywhere Hushed) :
    Keeps (.node trivia (.expr form)) (some (.node trivia' (.expr form'))) := by
  have hown : trivia.comments = [] := h.self.value rfl
  constructor
  · rw [slotBag_some, bag_node, bag_node, htrivia, hown]
    exact congrArg _ hsum
  · intro r hr
    obtain rfl := Option.some.inj hr
    refine everywhere_node.2 ⟨⟨?_, fun _ => htrivia, hslots⟩, hbelow⟩
    intro hsilent
    cases hsilent

/-- A leaf without comments in place of a type. -/
theorem keeps_scalar {t : Tree} {name : Word} (h : t.Everywhere Hushed) (ht : t.form.isSilent) :
    Keeps t (some (inPlaceOf t (.type (.named name none none false)))) := by
  refine Keeps.of_silent (h.self.silent ht) (bag_eq_zero_iff.2 ⟨rfl, ?_⟩)
  simp [Form.children, TypeForm.children]

theorem keeps_created {trivia : Trivia} {slot slot' : Option Tree} {arguments : List Tree}
    {body : Option (List Tree)}
    (h : (node trivia (.expr (.create slot arguments body))).Everywhere Hushed)
    (hbag : ∀ t ∈ slot'.toList, t.bag = 0) :
    Keeps (.node trivia (.expr (.create slot arguments body)))
      (some (.node trivia (.expr (.create slot' arguments body)))) := by
  obtain ⟨hself, hbelow⟩ := everywhere_node.1 h
  have hslot : ∀ t ∈ slot.toList, t.bag = 0 := hself.slots
  refine keeps_expr h (hself.value rfl) ?_ hbag ?_
  · simp only [ExprForm.children, List.map_append, List.sum_append, sum_map_bag_eq_zero hbag,
      sum_map_bag_eq_zero hslot]
  · intro child hchild
    simp only [Form.children, ExprForm.children, List.append_assoc, List.mem_append] at hbelow hchild
    rcases hchild with hslot' | hrest
    · exact hushed_of_bag_eq_zero (hbag child hslot')
    · exact hbelow child (Or.inr hrest)

theorem conserves_coreTypes (mappings : List (String × Value)) : Conserves (coreTypes mappings) := by
  intro before after h
  obtain ⟨trivia, form⟩ := after
  unfold coreTypes
  split
  · rename_i heq
    split
    · split
      · exact keeps_scalar h.new (by rw [heq]; rfl)
      · exact Keeps.refl h.new
    · exact Keeps.refl h.new
  · rename_i heq
    split
    · exact keeps_scalar h.new (by rw [heq]; rfl)
    · exact Keeps.refl h.new
  · rename_i slot arguments body heq
    obtain rfl : form = .expr (.create slot arguments body) := heq
    split
    · rename_i created _ _ hbefore
      have hcreated : created.bag = 0 := h.old.self.slots created (by simp [hbefore, Form.typeSlots])
      apply keeps_created h.new
      split
      · exact h.new.self.slots
      · simpa using hcreated
    · exact Keeps.refl h.new
  · exact Keeps.refl h.new

theorem bag_of_streamTarget? {target : Option Tree} {stream : String × String}
    (htarget : streamTarget? target = some stream)
    (h : ∀ t, target = some t → t.Everywhere Hushed) : slotBag target = 0 := by
  unfold streamTarget? at htarget
  split at htarget
  · rename_i owner handle heq
    obtain ⟨t, rfl, hform⟩ := Option.map_eq_some_iff.1 heq
    split at htarget
    · rename_i hident
      have ht := h t rfl
      cases t with
      | node trivia form =>
        obtain rfl : form = .expr (.field (some owner) handle) := hform
        refine bag_eq_zero_iff.2 ⟨ht.self.value rfl, ?_⟩
        intro child hchild
        obtain rfl : child = owner := by simpa [Form.children, ExprForm.children] using hchild
        exact bag_of_isIdent hident (ht.child hchild)
    · cases htarget
  · cases htarget

/-- A call with another name and another target, where neither target holds comments. -/
theorem keeps_call {trivia : Trivia} {name name' : Word} {arguments typeArguments : List Tree}
    {target target' : Option Tree}
    (h : (node trivia (.expr (.call name arguments target typeArguments))).Everywhere Hushed)
    (htarget : slotBag target = 0) (htarget' : slotBag target' = 0) :
    Keeps (.node trivia (.expr (.call name arguments target typeArguments)))
      (some (.node trivia (.expr (.call name' arguments target' typeArguments)))) := by
  obtain ⟨hself, hbelow⟩ := everywhere_node.1 h
  refine keeps_expr h (hself.value rfl) ?_ hself.slots ?_
  · simp only [ExprForm.children, List.map_append, List.sum_append, sum_map_toList, htarget,
      htarget']
  · intro child hchild
    simp only [Form.children, ExprForm.children, List.mem_append, Option.mem_toList] at hbelow hchild
    rcases hchild with (hargument | hchild) | htype
    · exact hbelow child (Or.inl (Or.inl hargument))
    · subst hchild
      exact hushed_of_bag_eq_zero htarget'
    · exact hbelow child (Or.inr htype)

theorem bag_ident (name : Word) : (ident name).bag = 0 :=
  bag_eq_zero_iff.2 ⟨rfl, by simp [Form.children, ExprForm.children]⟩

theorem conserves_builtinCalls : Conserves builtinCalls := by
  intro before after h
  obtain ⟨trivia, form⟩ := after
  unfold builtinCalls
  split
  · rename_i argument target typeArguments heq
    obtain rfl : form = .expr (.call (.text "equals") [argument] (some target) typeArguments) := heq
    obtain ⟨hself, hbelow⟩ := everywhere_node.1 h.new
    have hpresent := keeps_present? (hbelow argument (by simp [Form.children, ExprForm.children]))
    have htypes : ∀ t ∈ typeArguments, t.bag = 0 := hself.slots
    refine keeps_expr h.new rfl ?_ (by simp [Form.typeSlots]) ?_
    · simp only [ExprForm.children, List.map_append, List.sum_append, sum_map_toList,
        hpresent.same, sum_map_bag_eq_zero htypes, slotBag_some, List.map_cons, List.map_nil,
        List.sum_cons, List.sum_nil, add_zero]
      exact add_comm ..
    · intro child hchild
      simp only [ExprForm.children, List.mem_append, Option.mem_toList] at hchild
      rcases hchild with htarget | hargument
      · obtain rfl := Option.some.inj htarget
        exact hbelow target (by simp [Form.children, ExprForm.children])
      · exact hpresent.hushed child hargument
  · rename_i name arguments target typeArguments _ heq
    obtain rfl : form = .expr (.call name arguments target typeArguments) := heq
    have htarget : ∀ t, target = some t → t.Everywhere Hushed := fun t ht =>
      h.new.child (by simp [Form.children, ExprForm.children, ht])
    split
    · rename_i hstream _
      exact keeps_call h.new (bag_of_streamTarget? hstream htarget) (bag_ident _)
    · rename_i hstream _
      refine keeps_call h.new (bag_of_streamTarget? hstream htarget) (bag_eq_zero_iff.2 ⟨rfl, ?_⟩)
      intro child hchild
      obtain rfl : child = ident "process" := by
        simpa [Form.children, ExprForm.children] using hchild
      exact bag_ident _
    · exact Keeps.refl h.new
  · exact Keeps.refl h.new

theorem conserves_logging : Conserves logging := by
  intro before after h
  obtain ⟨trivia, form⟩ := after
  unfold logging
  split
  · rename_i name arguments heq
    have hsilent : (node trivia form).bag = 0 := h.new.self.silent (by rw [heq]; rfl)
    split
    · exact ⟨hsilent.symm, fun r hr => by cases hr⟩
    · exact h.keeps_before
  · rename_i name arguments target typeArguments heq
    obtain rfl : form = .expr (.call name arguments (some target) typeArguments) := heq
    split
    · rename_i hlog
      have htarget : target.bag = 0 := bag_of_isIdent hlog.1
        (h.new.child (by simp [Form.children, ExprForm.children]))
      refine keeps_call h.new htarget (bag_eq_zero_iff.2 ⟨rfl, ?_⟩)
      simp [Form.children, ExprForm.children]
    · exact Keeps.refl h.new
  · exact Keeps.refl h.new

theorem keeps_renameTypes (table : List (String × String)) {t : Tree} (h : t.Everywhere Hushed) :
    Keeps t (some (renameTypes table t)) := by
  obtain ⟨trivia, form⟩ := t
  unfold renameTypes
  split
  · rename_i name arguments scope orNull heq
    obtain rfl : form = .type (.named name arguments scope orNull) := heq
    have hsilent := h.self.silent rfl
    obtain ⟨hown, hbelow⟩ := bag_eq_zero_iff.1 hsilent
    split
    · refine Keeps.of_silent hsilent (bag_eq_zero_iff.2 ⟨hown, ?_⟩)
      intro child hchild
      refine hbelow child ?_
      simp only [Form.children, TypeForm.children, List.mem_append] at hchild ⊢
      exact Or.inl (by simpa using hchild)
    · exact Keeps.refl h
  · exact Keeps.refl h

theorem conserves_fileInputStream : Conserves fileInputStream := by
  intro before after h
  unfold fileInputStream
  split
  · rename_i created _ slot arguments body hbefore hafter
    split
    · obtain ⟨f, hshape⟩ := h.shape
      have hbody : body = none := by
        rw [hshape, withForm, form_node, hbefore] at hafter
        simp only [Form.map, ExprForm.map, Form.filterMap, ExprForm.filterMap, Option.map_none,
          Form.expr.injEq, ExprForm.create.injEq] at hafter
        exact hafter.2.2.symm
      obtain ⟨trivia, form⟩ := after
      obtain rfl : form = .expr (.create slot arguments body) := hafter
      subst hbody
      obtain ⟨hself, hbelow⟩ := everywhere_node.1 h.new
      have hslot : ∀ t ∈ slot.toList, t.bag = 0 := hself.slots
      refine keeps_expr h.new rfl ?_ (by simp [Form.typeSlots]) ?_
      · simp [ExprForm.children, sum_map_bag_eq_zero hslot, bag_ident]
      · intro child hchild
        simp only [ExprForm.children, List.mem_append, Option.mem_toList, List.not_mem_nil,
          or_false] at hchild
        rcases hchild with hargument | htarget
        · exact hbelow child (by simp [Form.children, ExprForm.children, hargument])
        · obtain rfl := Option.some.inj htarget
          exact hushed_of_bag_eq_zero (bag_ident _)
    · exact Keeps.refl h.new
  · exact keeps_renameTypes _ h.new

theorem conserves_optional : Conserves optional := by
  intro before after h
  obtain ⟨trivia, form⟩ := after
  unfold optional
  split
  · rename_i arguments scope orNull heq
    obtain rfl : form = .type (.named (.text "Optional") arguments scope orNull) := heq
    have hsilent := h.new.self.silent rfl
    exact Keeps.of_silent hsilent (bag_eq_zero_iff.2 (bag_eq_zero_iff.1 hsilent))
  · rename_i name arguments target typeArguments heq
    obtain rfl : form = .expr (.call name arguments (some target) typeArguments) := heq
    obtain ⟨hself, hbelow⟩ := everywhere_node.1 h.new
    have hown : trivia.comments = [] := hself.value rfl
    have htypes : ∀ t ∈ typeArguments, t.bag = 0 := hself.slots
    split
    · rename_i hoptional
      have htarget : target.bag = 0 := bag_of_isIdent hoptional
        (hbelow target (by simp [Form.children, ExprForm.children]))
      have hbag : (node trivia (.expr (.call name arguments (some target) typeArguments))).bag
          = (arguments.map bag).sum := by
        simp [bag_node, Form.children, ExprForm.children, hown, htarget,
          sum_map_bag_eq_zero htypes]
      have hvalue : ∀ value, arguments = [value] →
          Keeps (.node trivia (.expr (.call name arguments (some target) typeArguments)))
            value.present? := by
        rintro value rfl
        have hpresent := keeps_present? (hbelow value (by simp [Form.children, ExprForm.children]))
        exact ⟨by rw [hbag, hpresent.same]; simp, hpresent.hushed⟩
      split
      · refine Keeps.of_silent hbag (bag_eq_zero_iff.2 ⟨rfl, ?_⟩)
        simp [Form.children, ExprForm.children]
      · exact hvalue _ rfl
      · exact hvalue _ rfl
      · exact Keeps.refl h.new
    · exact Keeps.refl h.new
  · exact Keeps.refl h.new

/-! ### Synthesized members -/

theorem isSilent_of_annotationName {t : Tree} (h : t.annotationName ≠ "") :
    t.form.isSilent := by
  obtain ⟨trivia, form⟩ := t
  cases form with
  | part form => cases form <;> first | rfl | exact absurd rfl h
  | _ => exact absurd rfl h

/-- Annotations go without comments. -/
theorem sum_withoutAnnotations {names : List String} (annotations : List Tree)
    (hnames : "" ∉ names) (h : ∀ t ∈ annotations, t.Everywhere Hushed) :
    ((withoutAnnotations names annotations).map bag).sum = (annotations.map bag).sum := by
  induction annotations with
  | nil => rfl
  | cons first rest ih =>
    have hrest := ih fun t ht => h t (List.mem_cons_of_mem _ ht)
    by_cases hname : first.annotationName ∈ names
    · have hfirst : first.bag = 0 := (h first List.mem_cons_self).self.silent
        (isSilent_of_annotationName fun hempty => hnames (hempty ▸ hname))
      simpa [withoutAnnotations, hname, hfirst] using hrest
    · simpa [withoutAnnotations, hname] using hrest

theorem keeps_stripField {t : Tree} (h : t.Everywhere Hushed) : Keeps t (some (stripField t)) := by
  obtain ⟨trivia, form⟩ := t
  unfold stripField
  split
  · rename_i slot bindings modifiers annotations heq
    obtain rfl : form = .member (.field slot bindings modifiers annotations) := heq
    obtain ⟨hself, hbelow⟩ := everywhere_node.1 h
    split
    · exact Keeps.refl h
    · constructor
      · have hsum : ((withoutAnnotations fieldAnnotations annotations).map bag).sum
            = (annotations.map bag).sum :=
          sum_withoutAnnotations annotations (by decide) fun t ht =>
            hbelow t (by simp [Form.children, MemberForm.children, ht])
        simp [withForm, bag_node, Form.children, MemberForm.children, hsum]
      · intro r hr
        obtain rfl := Option.some.inj hr
        refine everywhere_node.2 ⟨⟨?_, ?_, hself.slots⟩, ?_⟩
        · intro hsilent
          cases hsilent
        · intro hvalue
          cases hvalue
        · intro child hchild
          refine hbelow child ?_
          simp only [Form.children, MemberForm.children, List.mem_append] at hchild ⊢
          exact hchild.imp_right List.mem_of_mem_filter
  · exact Keeps.refl h

theorem bag_plain {form : Form Tree} (h : ∀ child ∈ form.children, child.bag = 0) :
    (plain form).bag = 0 :=
  bag_eq_zero_iff.2 ⟨rfl, h⟩

/-- The type that a variable gets from its declaration and its bracket pairs. -/
theorem bag_variableType {base : Option Tree} (h : slotBag base = 0) (dimensions : Int) :
    slotBag (variableType base dimensions) = 0 := by
  unfold variableType
  split
  · exact h
  · split
    · rename_i trivia element outer
      refine bag_eq_zero_iff.2 ⟨rfl, ?_⟩
      exact (bag_eq_zero_iff.1 h).2
    · refine bag_eq_zero_iff.2 ⟨rfl, ?_⟩
      intro child hchild
      obtain rfl : base = some child := by simpa [Form.children, TypeForm.children] using hchild
      exact h

/-- The types of accessors hold no comments. -/
theorem bag_accessorFields {getters setters : Bool} {member : Tree} (h : member.Everywhere Hushed) :
    ∀ field ∈ accessorFields getters setters member, slotBag field.type = 0 := by
  intro field hfield
  unfold accessorFields at hfield
  split at hfield
  · rename_i slot bindings modifiers annotations heq
    split at hfield
    · cases hfield
    · obtain ⟨declared, -, hdeclared⟩ := List.mem_filterMap.1 hfield
      split at hdeclared
      · obtain rfl := Option.some.inj hdeclared
        apply bag_variableType
        cases slot with
        | none => rfl
        | some slot => exact h.self.slots slot (by simp [heq, Form.typeSlots])
      · cases hdeclared
  · cases hfield

/-- A tree made up from names and a type without comments has none. -/
theorem bag_publicMethod {name : String} {slot : Option Tree} {parameters statements : List Tree}
    (hslot : slotBag slot = 0) (hparameters : ∀ t ∈ parameters, t.bag = 0)
    (hstatements : ∀ t ∈ statements, t.bag = 0) :
    (publicMethod name slot parameters statements).bag = 0 := by
  apply bag_plain
  intro child hchild
  simp only [Form.children, MemberForm.children, List.mem_append, Option.mem_toList,
    Option.some.injEq, List.not_mem_nil, or_false] at hchild
  rcases hchild with (hslot' | hparameter) | rfl
  · subst hslot'
    exact hslot
  · exact hparameters child hparameter
  · exact bag_plain hstatements

theorem bag_publicConstructor {name : Word} {parameters statements : List Tree}
    (hparameters : ∀ t ∈ parameters, t.bag = 0) (hstatements : ∀ t ∈ statements, t.bag = 0) :
    (publicConstructor name parameters statements).bag = 0 := by
  apply bag_plain
  intro child hchild
  simp only [Form.children, MemberForm.children, List.mem_append, Option.mem_toList,
    Option.some.injEq, List.not_mem_nil, or_false] at hchild
  rcases hchild with hparameter | rfl
  · exact hparameters child hparameter
  · exact bag_plain hstatements

theorem bag_thisField (name : Word) : (thisField name).bag = 0 := by
  apply bag_plain
  intro child hchild
  obtain rfl : child = plain (.expr (.this .null)) := by
    simpa [Form.children, ExprForm.children] using hchild
  exact bag_plain (by simp [Form.children, ExprForm.children])

theorem bag_assignField (name : Word) : (assignField name).bag = 0 := by
  apply bag_plain
  intro child hchild
  obtain rfl := List.mem_singleton.1 hchild
  apply bag_plain
  intro part hpart
  simp only [Form.children, ExprForm.children, Option.toList_some, List.cons_append,
    List.nil_append, List.mem_cons, List.not_mem_nil, or_false] at hpart
  rcases hpart with rfl | rfl
  · exact bag_thisField name
  · exact bag_ident name

theorem bag_fieldParameter {field : AccessorField} (h : slotBag field.type = 0) :
    (fieldParameter field).bag = 0 := by
  apply bag_plain
  intro child hchild
  obtain hslot : field.type = some child := by
    simpa [Form.children, PartForm.children] using hchild
  rw [hslot] at h
  exact h

theorem bag_parentCall (summary : AccessorSummary) : ∀ t ∈ parentCall summary, t.bag = 0 := by
  intro t ht
  unfold parentCall at ht
  split at ht
  · obtain rfl := List.mem_singleton.1 ht
    exact bag_plain (by simp [Form.children, StmtForm.children])
  · cases ht

/-- Synthesized members have no comments. -/
theorem bag_synthesized {summary : AccessorSummary}
    (h : ∀ field ∈ summary.fields, slotBag field.type = 0) :
    ∀ t ∈ synthesized summary, t.bag = 0 := by
  have hassign : ∀ t ∈ summary.fields.map (assignField ·.name), t.bag = 0 := by
    simp [bag_assignField]
  have hparameters : ∀ t ∈ summary.fields.map fieldParameter, t.bag = 0 := by
    simpa using fun field hfield => bag_fieldParameter (h field hfield)
  intro t ht
  simp only [synthesized, List.mem_append, List.mem_map, List.mem_filter] at ht
  rcases ht with ((hnone | hall) | ⟨field, ⟨hfield, -⟩, rfl⟩) | ⟨field, ⟨hfield, -⟩, rfl⟩
  · split at hnone
    · obtain rfl := List.mem_singleton.1 hnone
      exact bag_publicConstructor (by simp) (bag_parentCall summary)
    · cases hnone
  · split at hall
    · obtain rfl := List.mem_singleton.1 hall
      refine bag_publicConstructor hparameters ?_
      intro statement hstatement
      rcases List.mem_append.1 hstatement with hcall | hfield
      · exact bag_parentCall summary statement hcall
      · exact hassign statement hfield
    · cases hall
  · refine bag_publicMethod (bag_plain (by simp [Form.children, TypeForm.children])) ?_ ?_
    · simpa using bag_fieldParameter (h field hfield)
    · simpa using bag_assignField field.name
  · refine bag_publicMethod (h field hfield) (by simp) ?_
    intro statement hstatement
    obtain rfl := List.mem_singleton.1 hstatement
    apply bag_plain
    simpa [Form.children, StmtForm.children] using bag_thisField field.name

theorem conserves_accessors : Conserves accessors := by
  intro before after h
  obtain ⟨trivia, form⟩ := after
  unfold accessors
  split
  · rename_i name modifiers annotations typeParameters parents interfaces members heq
    obtain rfl : form = .member (.classType name modifiers annotations typeParameters parents
      interfaces members false) := heq
    obtain ⟨hself, hbelow⟩ := everywhere_node.1 h.new
    have hmembers : ∀ t ∈ members, t.Everywhere Hushed := fun t ht =>
      hbelow t (by simp [Form.children, MemberForm.children, ht])
    have hsynthesized : ∀ t ∈ synthesized (summarize (.node trivia (.member (.classType name
        modifiers annotations typeParameters parents interfaces members false)))), t.bag = 0 := by
      refine bag_synthesized fun field hfield => ?_
      obtain ⟨member, hmember, hin⟩ := List.mem_flatMap.1 hfield
      exact bag_accessorFields (hmembers member hmember) field hin
    have hstrip : ((members.map stripField).map bag).sum = (members.map bag).sum := by
      rw [List.map_map]
      exact congrArg _ (List.map_congr_left fun t ht => (keeps_stripField (hmembers t ht)).same)
    have hannotations : ((withoutAnnotations classAnnotations annotations).map bag).sum
        = (annotations.map bag).sum :=
      sum_withoutAnnotations annotations (by decide) fun t ht =>
        hbelow t (by simp [Form.children, MemberForm.children, ht])
    constructor
    · simp only [slotBag_some, materialize, form_node, withForm, trivia_node, bag_node,
        Form.children, MemberForm.children, List.map_append, List.sum_append, hannotations, hstrip,
        sum_map_bag_eq_zero hsynthesized, add_zero]
    · intro r hr
      obtain rfl := Option.some.inj hr
      refine everywhere_node.2 ⟨⟨?_, ?_, by simp [Form.typeSlots]⟩, ?_⟩
      · intro hsilent
        cases hsilent
      · intro hvalue
        cases hvalue
      · intro child hchild
        simp only [Form.children, MemberForm.children, List.mem_append, List.mem_map] at hchild hbelow
        rcases hchild with (((hnote | hparameter) | hparent) | hinterface)
          | ⟨member, hmember, rfl⟩ | hnew
        · exact hbelow child (by simp [List.mem_of_mem_filter hnote])
        · exact hbelow child (by simp [hparameter])
        · exact hbelow child (by simp [hparent])
        · exact hbelow child (by simp [hinterface])
        · exact (keeps_stripField (hmembers member hmember)).hushed _ rfl
        · exact hushed_of_bag_eq_zero (hsynthesized child hnew)
  · exact Keeps.refl h.new

end Lowering

/-! ### Whole passes -/

namespace Pass

open Recast.Tree Lowering

/-- Every pass keeps comments. -/
theorem conserves_rule (mappings : List (String × Value)) (pass : Pass) :
    Conserves (pass.rule mappings) := by
  cases pass with
  | coreTypes => exact conserves_coreTypes mappings
  | builtinCalls => exact conserves_builtinCalls
  | accessors => exact conserves_accessors
  | logging => exact conserves_logging
  | containers => exact fun _ _ h => keeps_renameTypes _ h.new
  | optional => exact conserves_optional
  | fileInputStream => exact conserves_fileInputStream
  | stringWriter => exact fun _ _ h => keeps_renameTypes _ h.new

theorem conserves_sparingHeader {rule : Rule} (hrule : Conserves rule) :
    Conserves (sparingHeader rule) := by
  intro before after h
  unfold sparingHeader
  split
  · exact h.keeps_before
  · exact h.keeps_before
  · exact hrule _ _ h

/-- A pass keeps the comments of a unit, and leaves it ready for the next pass. -/
theorem run_keeps (mappings : List (String × Value)) (pass : Pass) {unit : Tree}
    (h : unit.Everywhere Hushed) :
    (pass.run mappings unit).bag = unit.bag ∧ (pass.run mappings unit).Everywhere Hushed := by
  have hkeeps := (conserves_sparingHeader (conserves_rule mappings pass)).substitute? h
  unfold run run?
  cases hrun : unit.substitute? (sparingHeader (pass.rule mappings)) with
  | none => exact ⟨rfl, h⟩
  | some result => exact ⟨by rw [← hkeeps.same, hrun]; rfl, hkeeps.hushed result hrun⟩

/-- Any number of passes keeps the comments of a unit. -/
theorem runAll_keeps (mappings : List (String × Value)) (passes : List Pass) {unit : Tree}
    (h : unit.Everywhere Hushed) : (runAll mappings passes unit).bag = unit.bag := by
  induction passes generalizing unit with
  | nil => rfl
  | cons pass rest ih =>
    obtain ⟨hbag, hhushed⟩ := run_keeps mappings pass h
    exact (ih hhushed).trans hbag

end Pass

end Recast
