import Mathlib
import Recast.Proofs.Pass.Run
import Recast.Proofs.Pass.Synthesized
import Recast.Proofs.Pass.Triggers

/-!
Runs of a pass, and the triggers that they leave.

`looksInto` says how far a pass looks into a node, and `Settled` that no trigger is in reach. A run
leaves every type of a unit settled (`settled_of_run?`), and gives a tree back as it is if it is
settled already (`run?_of_settled`); hence a second run changes nothing.
-/

namespace Recast

open Recast.Lowering Recast.Tree

variable {mappings : List (String × Value)} {pass : Pass} {t r before after : Tree}

namespace Pass

/-- The nodes that a pass goes to from a node: its children, with three exceptions. Declarations of
a package are settled before any pass runs. The logger is not looked for in the arguments of
annotations. The class that an object creation names is passed over as a scalar type, with all that
is in it if it has no type arguments. -/
def looksInto (pass : Pass) (form : Form Tree) : List Tree :=
  match pass, form with
  | _, .part (.package ..) => []
  | .logging, .part (.annotationUse ..) => []
  | .coreTypes, .expr (.create (some created) arguments body) =>
    (if hasArguments created then created.form.children else []) ++ arguments ++ body.getD []
  | _, form => form.children

/-- Whether a pass comes from one node to another. -/
inductive Reaches (pass : Pass) : Tree → Tree → Prop where
  | self (t : Tree) : Reaches pass t t
  | step {t next node : Tree} (hnext : next ∈ pass.looksInto t.form)
      (hnode : Reaches pass next node) : Reaches pass t node

/-- Whether no trigger of a pass is in its reach. -/
def Settled (pass : Pass) (t : Tree) : Prop := ∀ node, Reaches pass t node → ¬ pass.isTrigger node

theorem settled_iff :
    Settled pass t ↔ pass.isTrigger t = false ∧ ∀ next ∈ pass.looksInto t.form, Settled pass next := by
  constructor
  · intro h
    exact ⟨Bool.eq_false_iff.2 (h t (.self t)), fun next hnext node hnode => h node (.step hnext hnode)⟩
  · rintro ⟨hself, hbelow⟩ node hnode
    cases hnode with
    | self => simp [hself]
    | step hnext hnode => exact hbelow _ hnext node hnode

/-! ### A settled tree stays as it is -/

theorem withForm_form (t : Tree) : t.withForm t.form = t := by
  cases t
  rfl

theorem renameTypes_self {table : List (String × String)} (h : t.isTypeIn table = false) :
    renameTypes table t = t := by
  rcases renameTypes_cases table t with ⟨-, hrule⟩ | ⟨_, _, _, _, _, mapped, hmapped, rfl, -⟩
  · exact hrule
  · rw [renamed?_eq_none_iff.2 h] at hmapped
    cases hmapped

theorem coreTypes_self (h : t.isScalar = false) : Lowering.coreTypes [] t t = some t := by
  rcases coreTypes_cases t t with ⟨-, hrule⟩ | ⟨htrigger, -⟩ | hcreate
  · exact hrule
  · rw [h] at htrigger
    cases htrigger
  · obtain ⟨trivia, created, _, _, slot, arguments, body, hbefore, rfl, hrule⟩ := hcreate
    cases hbefore
    rw [hrule, ite_self]

theorem builtinCalls_self (h : t.isBuiltinCall = false) : Lowering.builtinCalls t t = some t := by
  rcases builtinCalls_cases t t with ⟨-, hrule⟩ | ⟨htrigger, -⟩
  · exact hrule
  · rw [h] at htrigger
    cases htrigger

theorem optional_self (h : t.isOptional = false) : Lowering.optional t t = some t := by
  rcases optional_cases t t with ⟨-, hrule⟩ | ⟨htrigger, -⟩
  · exact hrule
  · rw [h] at htrigger
    cases htrigger

theorem logging_self (h : t.isLogging = false) : Lowering.logging t t = some t := by
  rcases logging_cases t t with ⟨-, hrule⟩ | ⟨trivia, name, arguments, rfl, hrule⟩ | ⟨htrigger, -⟩
  · exact hrule
  · rw [hrule, if_neg (of_decide_eq_false h)]
  · rw [h] at htrigger
    cases htrigger

theorem fileInputStream_self (htype : t.isTypeIn fileInputTypes = false)
    (hcreate : t.isPlainCreation "FileInputStream" = false) :
    Lowering.fileInputStream t t = some t := by
  rcases fileInputStream_cases t t with ⟨_, _, _, _, _, _, -, -, ⟨-, hrule⟩ | ⟨htrigger, -⟩⟩ | ⟨hrule, -⟩
  · exact hrule
  · rw [hcreate] at htrigger
    cases htrigger
  · rw [hrule, renameTypes_self htype]

theorem withoutAnnotations_self {names : List String} {annotations : List Tree}
    (h : annotations.any (·.annotationName ∈ names) = false) :
    withoutAnnotations names annotations = annotations := by
  apply List.filter_eq_self.2
  intro use huse
  simpa using (List.any_eq_false.1 h) use huse

theorem contains_annotationName {names : List String} {annotations : List Tree} (name : String)
    (h : annotations.any (·.annotationName ∈ names) = false) (hname : name ∈ names) :
    (annotations.map annotationName).contains name = false := by
  refine Bool.eq_false_iff.2 fun hmem => ?_
  obtain ⟨use, huse, rfl⟩ := List.mem_map.1 (List.contains_iff_mem.1 hmem)
  exact (List.any_eq_false.1 h) use huse (decide_eq_true hname)

theorem stripField_self {member : Tree} (h : member.isAccessorField = false) :
    stripField member = member := by
  obtain ⟨trivia, form⟩ := member
  unfold stripField
  split
  · next slot bindings modifiers annotations hform =>
    obtain rfl : form = .member (.field slot bindings modifiers annotations) := hform
    split
    · rfl
    · next hstatic =>
      have hnone : annotations.any (·.annotationName ∈ fieldAnnotations) = false := by
        simpa [isAccessorField, hstatic] using h
      rw [withoutAnnotations_self hnone]
      rfl
  · rfl

/-- The fields of a class that asks for nothing have no accessors. -/
theorem accessorFields_bare {member : Tree} (h : member.isAccessorField = false) :
    ∀ field ∈ accessorFields false false member, field.getter = false ∧ field.setter = false := by
  obtain ⟨trivia, form⟩ := member
  intro field hfield
  unfold accessorFields at hfield
  split at hfield
  · next slot bindings modifiers annotations hform =>
    obtain rfl : form = .member (.field slot bindings modifiers annotations) := hform
    split at hfield
    · cases hfield
    · next hstatic =>
      have hnone : annotations.any (·.annotationName ∈ fieldAnnotations) = false := by
        simpa [isAccessorField, hstatic] using h
      have hgetter := contains_annotationName "Getter" hnone (by decide)
      have hsetter := contains_annotationName "Setter" hnone (by decide)
      obtain ⟨declared, -, hdeclared⟩ := List.mem_filterMap.1 hfield
      split at hdeclared
      · obtain rfl := Option.some.inj hdeclared
        simp only [hgetter, hsetter, Bool.or_false, Bool.false_and, and_self]
      · cases hdeclared
  · cases hfield

theorem accessors_self (h : t.isAccessorClass = false) : Lowering.accessors t t = some t := by
  obtain ⟨trivia, form⟩ := t
  unfold Lowering.accessors
  split
  · next name modifiers annotations typeParameters parents interfaces members hform =>
    obtain rfl : form = .member (.classType name modifiers annotations typeParameters parents
      interfaces members false) := hform
    obtain ⟨hclass, hfields⟩ := Bool.or_eq_false_iff.1 h
    have hmember : ∀ member ∈ members, member.isAccessorField = false := by
      simpa using List.any_eq_false.1 hfields
    have hfield : ∀ field ∈ members.flatMap (accessorFields false false),
        field.getter = false ∧ field.setter = false := by
      intro field hfield
      obtain ⟨member, hmem, hfield⟩ := List.mem_flatMap.1 hfield
      exact accessorFields_bare (hmember member hmem) field hfield
    have hsetters : (members.flatMap (accessorFields false false)).filter (·.setter) = [] :=
      List.filter_eq_nil_iff.2 fun field hmem => by simp [hfield field hmem]
    have hgetters : (members.flatMap (accessorFields false false)).filter (·.getter) = [] :=
      List.filter_eq_nil_iff.2 fun field hmem => by simp [hfield field hmem]
    have hname : ∀ name ∈ classAnnotations, (annotations.map annotationName).contains name = false :=
      fun name hname => contains_annotationName name hclass hname
    have hnew : synthesized (summarize (.node trivia (.member (.classType name modifiers annotations
        typeParameters parents interfaces members false)))) = [] := by
      simp only [summarize, form_node, hname "Getter" (by decide), hname "Setter" (by decide),
        hname "Data" (by decide), hname "NoArgsConstructor" (by decide),
        hname "AllArgsConstructor" (by decide), Bool.or_false, synthesized, hsetters, hgetters]
      rfl
    have hstrip : members.map stripField = members :=
      (List.map_congr_left fun member hmem => stripField_self (hmember member hmem)).trans
        (List.map_id' members)
    simp only [materialize, form_node, withoutAnnotations_self hclass, hnew, hstrip, List.append_nil]
    rfl
  · rfl

/-- A rule gives back a node that is no trigger of its pass. -/
theorem rule_self (hmappings : pass = .coreTypes → mappings = []) (h : pass.isTrigger t = false) :
    pass.rule mappings t t = some t := by
  cases pass with
  | coreTypes => exact hmappings rfl ▸ coreTypes_self h
  | builtinCalls => exact builtinCalls_self h
  | accessors => exact accessors_self h
  | logging => exact logging_self h
  | containers => exact congrArg some (renameTypes_self h)
  | optional => exact optional_self h
  | fileInputStream =>
    obtain ⟨htype, hcreate⟩ := Bool.or_eq_false_iff.1 h
    exact fileInputStream_self htype hcreate
  | stringWriter => exact congrArg some (renameTypes_self h)

theorem sparingHeader_self {rule : Rule} (h : rule t t = some t) : sparingHeader rule t t = some t := by
  unfold sparingHeader
  split
  · rfl
  · rfl
  · exact h

/-- A node whose children stay is left alone if it is no trigger. -/
theorem run?_of_children (hmappings : pass = .coreTypes → mappings = [])
    (hself : pass.isTrigger t = false)
    (h : ∀ child ∈ t.form.children, pass.run? mappings child = some child) :
    pass.run? mappings t = some t := by
  rw [run?, substitute?_of_children h]
  exact sparingHeader_self (rule_self hmappings hself)

theorem not_isScalar_of_hasArguments (h : hasArguments t) : t.isScalar = false := by
  obtain ⟨trivia, form⟩ := t
  unfold hasArguments at h
  split at h
  · next hform =>
    obtain rfl := hform
    simp [isScalar]
  · next hform =>
    obtain rfl := hform
    rfl
  · cases h

/-- The class that an object creation names stays as it was, unless it has type arguments. -/
theorem run?_coreTypes_create (trivia : Trivia) (created : Tree) (arguments : List Tree)
    (body : Option (List Tree)) :
    Pass.coreTypes.run? [] (.node trivia (.expr (.create (some created) arguments body))) =
      some (.node trivia (.expr (.create
        (if hasArguments created then Pass.coreTypes.run? [] created else some created)
        (arguments.filterMap (Pass.coreTypes.run? []))
        (body.map (·.filterMap (Pass.coreTypes.run? [])))))) :=
  run?_node [] .coreTypes rfl rfl

theorem run?_create_of_settled {trivia : Trivia} {created : Tree} {arguments : List Tree}
    {body : Option (List Tree)}
    (hcreated : hasArguments created → Pass.coreTypes.run? [] created = some created)
    (hargument : ∀ t ∈ arguments, Pass.coreTypes.run? [] t = some t)
    (hmember : ∀ t ∈ body.getD [], Pass.coreTypes.run? [] t = some t) :
    Pass.coreTypes.run? [] (.node trivia (.expr (.create (some created) arguments body))) =
      some (.node trivia (.expr (.create (some created) arguments body))) := by
  have hslot : (if hasArguments created then Pass.coreTypes.run? [] created else some created) =
      some created := by
    split
    · next harguments => exact hcreated harguments
    · rfl
  have harguments : arguments.filterMap (Pass.coreTypes.run? []) = arguments :=
    (List.filterMap_congr hargument).trans List.filterMap_some
  have hbody : body.map (·.filterMap (Pass.coreTypes.run? [])) = body :=
    (filterMap_getD_congr hmember).trans (by simp)
  rw [run?_coreTypes_create, hslot, harguments, hbody]

/-- A pass leaves a tree without triggers as it is. The induction also covers the children of a
node, because the class that an object creation names is passed over but its children are not. -/
theorem run?_of_settled (hmappings : pass = .coreTypes → mappings = []) (h : Settled pass t) :
    pass.run? mappings t = some t := by
  suffices hboth : (Settled pass t → pass.run? mappings t = some t) ∧
      ∀ child ∈ t.form.children, Settled pass child → pass.run? mappings child = some child from
    hboth.1 h
  clear h
  induction t using induct with
  | step trivia form ih =>
    have hchildren : ∀ child ∈ form.children, Settled pass child →
        pass.run? mappings child = some child := fun child hchild => (ih child hchild).1
    apply And.intro ?_ hchildren
    intro h
    obtain ⟨hself, hbelow⟩ := settled_iff.1 h
    rw [form_node] at hbelow
    unfold looksInto at hbelow
    split at hbelow
    · exact run?_package mappings pass rfl
    · rw [run?_node mappings .logging rfl rfl]
      exact if_neg (of_decide_eq_false hself)
    · next created arguments body =>
      obtain rfl := hmappings rfl
      simp only [List.mem_append] at hbelow
      apply run?_create_of_settled
      · intro harguments
        apply run?_of_children hmappings (not_isScalar_of_hasArguments harguments)
        intro child hchild
        have hcreated := (ih created (Form.mem_children_create.2 (.inl rfl))).2
        exact hcreated child hchild (hbelow child (.inl (.inl (by simpa [harguments]))))
      · intro child hchild
        exact hchildren child (Form.mem_children_create.2 (.inr (.inl hchild)))
          (hbelow child (.inl (.inr hchild)))
      · intro child hchild
        exact hchildren child (Form.mem_children_create.2 (.inr (.inr hchild)))
          (hbelow child (.inr hchild))
    · apply run?_of_children hmappings hself
      intro child hchild
      exact hchildren child hchild (hbelow child hchild)

/-! ### A run leaves no trigger -/

theorem looksInto_of_hasArguments (h : hasArguments t) : pass.looksInto t.form = t.form.children := by
  unfold hasArguments at h
  unfold looksInto
  split at h
  · next hform => rw [hform]
  · next hform => rw [hform]
  · cases h

/-- A node is settled if its children are and it is no trigger itself. -/
theorem settled_of_children (hself : pass.isTrigger t = false)
    (h : ∀ child ∈ t.form.children, Settled pass child) : Settled pass t := by
  apply settled_iff.2 ⟨hself, ?_⟩
  intro next hnext
  unfold looksInto at hnext
  split at hnext
  · cases hnext
  · cases hnext
  · next created arguments body hform =>
    rw [hform] at h
    simp only [List.mem_append] at hnext
    rcases hnext with (hcreated | hargument) | hbody
    · split at hcreated
      · next harguments =>
        have hsettled := h created (Form.mem_children_create.2 (.inl rfl))
        have hlooks : Pass.coreTypes.looksInto created.form = created.form.children :=
          looksInto_of_hasArguments harguments
        rw [← hlooks] at hcreated
        exact (settled_iff.1 hsettled).2 next hcreated
      · cases hcreated
    · exact h next (Form.mem_children_create.2 (.inr (.inl hargument)))
    · exact h next (Form.mem_children_create.2 (.inr (.inr hbody)))
  · exact h next hnext

theorem settled_ident (name : Word) : Settled pass (ident name) := by
  apply settled_of_children
  · cases pass <;> rfl
  · simp [ident, plain, Form.children, ExprForm.children]

theorem settled_coreTypes (h : ∀ child ∈ after.form.children, Settled .coreTypes child)
    (hrule : Lowering.coreTypes [] before after = some r) : Settled .coreTypes r := by
  rcases coreTypes_cases before after with ⟨hself, heq⟩ | ⟨-, word, hword, heq⟩ | hcreate
  · obtain rfl := Option.some.inj (heq.symm.trans hrule)
    exact settled_of_children hself h
  · obtain rfl := Option.some.inj (heq.symm.trans hrule)
    apply settled_of_children
    · simp only [scalarNames, List.mem_cons, List.not_mem_nil, or_false] at hword
      rcases hword with rfl | rfl | rfl <;> rfl
    · simp [inPlaceOf, Form.children, TypeForm.children]
  · obtain ⟨trivia, created, _, _, slot, arguments, body, -, rfl, heq⟩ := hcreate
    obtain rfl := Option.some.inj (heq.symm.trans hrule)
    split
    · exact settled_of_children rfl h
    · next harguments =>
      apply settled_iff.2 ⟨rfl, ?_⟩
      intro next hnext
      apply h next (Form.mem_children_create.2 (.inr ?_))
      simpa [looksInto, harguments] using hnext

theorem settled_builtinCalls (before : Tree)
    (h : ∀ child ∈ after.form.children, Settled .builtinCalls child)
    (hrule : Lowering.builtinCalls before after = some r) : Settled .builtinCalls r := by
  rcases builtinCalls_cases before after with ⟨hself, heq⟩ | ⟨-, hequals | hprint⟩
  · obtain rfl := Option.some.inj (heq.symm.trans hrule)
    exact settled_of_children hself h
  · obtain ⟨trivia, argument, target, typeArguments, rfl, heq⟩ := hequals
    obtain rfl := Option.some.inj (heq.symm.trans hrule)
    apply settled_of_children rfl
    intro child hchild
    simp only [inPlaceOf, form_node, Form.children, ExprForm.children, List.mem_append,
      Option.mem_toList] at hchild
    rcases hchild with htarget | hargument
    · exact h child (Form.mem_children_call.2 (.inr (.inl htarget)))
    · obtain rfl := eq_of_present? hargument
      exact h argument (Form.mem_children_call.2 (.inl List.mem_cons_self))
  · obtain ⟨trivia, name, arguments, target, typeArguments, word, hword, target', htarget, rfl, heq⟩ :=
      hprint
    obtain rfl := Option.some.inj (heq.symm.trans hrule)
    apply settled_of_children
    · simp only [printNames, List.mem_cons, List.not_mem_nil, or_false] at hword
      rcases hword with rfl | rfl | rfl <;> rfl
    · intro child hchild
      rcases Form.mem_children_call.1 hchild with hargument | htarget' | htype
      · exact h child (Form.mem_children_call.2 (.inl hargument))
      · obtain rfl := Option.some.inj htarget'
        rcases htarget with rfl | ⟨stream, rfl⟩
        · exact settled_ident _
        · apply settled_of_children rfl
          intro child hchild
          obtain rfl : child = ident "process" := by
            simpa [plain, Form.children, ExprForm.children] using hchild
          exact settled_ident _
      · exact h child (Form.mem_children_call.2 (.inr (.inr htype)))

theorem settled_optional (before : Tree) (h : ∀ child ∈ after.form.children, Settled .optional child)
    (hrule : Lowering.optional before after = some r) : Settled .optional r := by
  rcases optional_cases before after with ⟨hself, heq⟩ | ⟨-, hmark | hempty | hvalue⟩
  · obtain rfl := Option.some.inj (heq.symm.trans hrule)
    exact settled_of_children hself h
  · obtain ⟨trivia, arguments, scope, rfl, heq⟩ := hmark
    obtain rfl := Option.some.inj (heq.symm.trans hrule)
    exact settled_of_children rfl h
  · obtain ⟨trivia, target, typeArguments, -, rfl, heq⟩ := hempty
    obtain rfl := Option.some.inj (heq.symm.trans hrule)
    apply settled_of_children rfl
    simp [inPlaceOf, Form.children, ExprForm.children]
  · obtain ⟨trivia, name, value, target, typeArguments, -, -, rfl, heq⟩ := hvalue
    obtain rfl := eq_of_present? (heq.symm.trans hrule)
    exact h value (Form.mem_children_call.2 (.inl List.mem_cons_self))

theorem settled_logging {f : Tree → Option Tree} {trivia : Trivia} {form : Form Tree}
    (h : ∀ child ∈ (form.filterMap f).children, Settled .logging child)
    (hrule : Lowering.logging (.node trivia form) (.node trivia (form.filterMap f)) = some r) :
    Settled .logging r := by
  rcases logging_cases (.node trivia form) (.node trivia (form.filterMap f)) with
    ⟨hself, heq⟩ | ⟨_, name, arguments, hafter, heq⟩ | ⟨-, hcall⟩
  · obtain rfl := Option.some.inj (heq.symm.trans hrule)
    exact settled_of_children hself h
  · obtain ⟨-, hform⟩ := node.inj hafter
    obtain ⟨old, rfl⟩ := Form.eq_annotationUse_of_filterMap hform
    rw [hrule] at heq
    split at heq
    · cases heq
    · next hname =>
      obtain rfl := Option.some.inj heq
      exact settled_iff.2 ⟨decide_eq_false hname, by simp [looksInto]⟩
  · obtain ⟨_, name, arguments, target, typeArguments, hafter, -, heq⟩ := hcall
    obtain rfl := Option.some.inj (heq.symm.trans hrule)
    obtain ⟨rfl, hform⟩ := node.inj hafter
    rw [hform] at h
    apply settled_of_children rfl
    intro child hchild
    rcases Form.mem_children_call.1 hchild with hargument | htarget' | htype
    · exact h child (Form.mem_children_call.2 (.inl hargument))
    · obtain rfl := Option.some.inj htarget'
      apply settled_of_children rfl
      simp [inPlaceOf, Form.children, ExprForm.children]
    · exact h child (Form.mem_children_call.2 (.inr (.inr htype)))

/-- Renaming settles a node if no new name is a trigger again. -/
theorem settled_renameTypes {table : List (String × String)}
    (hself : after.isTypeIn table = false → pass.isTrigger after = false)
    (hnew : ∀ entry ∈ table, ∀ trivia arguments orNull,
      pass.isTrigger (.node trivia (.type (.named (.text entry.2) arguments none orNull))) = false)
    (h : ∀ child ∈ after.form.children, Settled pass child) :
    Settled pass (renameTypes table after) := by
  rcases renameTypes_cases table after with ⟨hnot, heq⟩ |
    ⟨trivia, name, arguments, scope, orNull, mapped, hmapped, rfl, heq⟩
  · rw [heq]
    exact settled_of_children (hself hnot) h
  · rw [heq]
    obtain ⟨entry, hentry, -, rfl⟩ := mem_of_renamed? hmapped
    apply settled_of_children (hnew entry hentry trivia arguments orNull)
    intro child hchild
    apply h
    simp only [form_node, Form.children, TypeForm.children, Option.toList_none, List.append_nil]
      at hchild
    exact List.mem_append_left _ hchild

/-- Only what is named so already is named `FileInputStream` after the pass. -/
theorem isText_name?_of_run? (hrun : Pass.fileInputStream.run? mappings t = some r)
    (hname : r.name?.any (·.isText "FileInputStream")) :
    t.name?.any (·.isText "FileInputStream") := by
  obtain ⟨trivia, form⟩ := t
  rcases run?_cases mappings .fileInputStream trivia form with ⟨-, hkept⟩ | ⟨-, -, hrule⟩
  · rw [hkept] at hrun
    exact Option.some.inj hrun ▸ hname
  rw [hrule] at hrun
  have hsame := name?_filterMap (Pass.fileInputStream.run? mappings) trivia form
  rcases fileInputStream_cases (.node trivia form)
    (.node trivia (form.filterMap (Pass.fileInputStream.run? mappings))) with
    ⟨_, _, _, _, _, _, -, -, ⟨-, heq⟩ | ⟨-, heq⟩⟩ | ⟨heq, -⟩
  · obtain rfl := Option.some.inj (heq.symm.trans hrun)
    rwa [hsame] at hname
  · obtain rfl := Option.some.inj (heq.symm.trans hrun)
    cases hname
  · obtain rfl := Option.some.inj (heq.symm.trans hrun)
    rcases renameTypes_cases fileInputTypes
      (.node trivia (form.filterMap (Pass.fileInputStream.run? mappings))) with
      ⟨-, hsame'⟩ | ⟨_, _, _, _, _, mapped, hmapped, -, hrenamed⟩
    · rwa [hsame', hsame] at hname
    · rw [hrenamed] at hname
      obtain ⟨entry, hentry, -, rfl⟩ := mem_of_renamed? hmapped
      have hnot : ∀ entry ∈ fileInputTypes,
          (Value.text entry.2).isText "FileInputStream" = false := by decide
      exact absurd hname (by simp [name?, hnot entry hentry])

theorem settled_fileInputStream {trivia : Trivia} {form : Form Tree}
    (h : ∀ child ∈ (form.filterMap (Pass.fileInputStream.run? mappings)).children,
      Settled .fileInputStream child)
    (hrule : Lowering.fileInputStream (.node trivia form)
      (.node trivia (form.filterMap (Pass.fileInputStream.run? mappings))) = some r) :
    Settled .fileInputStream r := by
  have hcreation : isPlainCreation "FileInputStream" (.node trivia form) = false →
      isPlainCreation "FileInputStream"
        (.node trivia (form.filterMap (Pass.fileInputStream.run? mappings))) = false := by
    intro hbefore
    refine Bool.eq_false_iff.2 fun hafter => ?_
    unfold isPlainCreation at hafter
    split at hafter
    · next created arguments hform =>
      obtain ⟨oldSlot, oldArguments, oldBody, rfl, hslot, hbody⟩ := Form.eq_create_of_filterMap hform
      obtain rfl : oldBody = none := Option.map_eq_none_iff.1 hbody
      obtain ⟨old, rfl, hold⟩ := Option.bind_eq_some_iff.1 hslot
      have hname := isText_name?_of_run? hold hafter
      simp [isPlainCreation, hname] at hbefore
    · cases hafter
  rcases fileInputStream_cases (.node trivia form)
    (.node trivia (form.filterMap (Pass.fileInputStream.run? mappings))) with
    ⟨_, created, oldArguments, slot, arguments, body, hbefore, hafter, ⟨hnot, heq⟩ | ⟨-, heq⟩⟩ |
    ⟨heq, hother⟩
  · obtain rfl := Option.some.inj (heq.symm.trans hrule)
    refine settled_of_children ?_ h
    rw [isTrigger, hcreation hnot, hafter]
    rfl
  · obtain rfl := Option.some.inj (heq.symm.trans hrule)
    rw [(node.inj hafter).2] at h
    apply settled_of_children rfl
    intro child hchild
    rcases Form.mem_children_call.1 hchild with hargument | htarget | htype
    · exact h child (Form.mem_children_create.2 (.inr (.inl hargument)))
    · obtain rfl := Option.some.inj htarget
      exact settled_ident _
    · cases htype
  · obtain rfl := Option.some.inj (heq.symm.trans hrule)
    refine settled_renameTypes ?_ ?_ h
    · intro htype
      have hnot : isPlainCreation "FileInputStream" (.node trivia form) = false := by
        unfold isPlainCreation
        split
        · next hform => exact absurd ⟨_, _, _, _, _, hform, by rw [form_node] at hform; rw [hform]; rfl⟩ hother
        · rfl
      rw [isTrigger, htype, hcreation hnot]
      rfl
    · intro entry hentry trivia arguments orNull
      simp only [fileInputTypes, List.mem_cons, List.not_mem_nil, or_false] at hentry
      rcases hentry with rfl | rfl <;> rfl

/-! ### Classes -/

theorem builds_settled : Builds (Settled .accessors) := by
  intro form hform hchildren
  refine settled_of_children ?_ hchildren
  rcases form with form | form | form | form | form | kind
  case member =>
    cases form with
    | classType => cases hform
    | _ => rfl
  all_goals rfl

theorem any_withoutAnnotations (names : List String) (annotations : List Tree) :
    (withoutAnnotations names annotations).any (·.annotationName ∈ names) = false := by
  apply List.any_eq_false.2
  intro use huse
  simpa using (List.mem_filter.1 huse).2

/-- A field without its annotations is settled, and asks for nothing. -/
theorem settled_stripField {member : Tree} (h : Settled .accessors member) :
    Settled .accessors (stripField member) ∧ (stripField member).isAccessorField = false := by
  obtain ⟨trivia, form⟩ := member
  unfold stripField
  split
  · next slot bindings modifiers annotations hform =>
    obtain rfl : form = .member (.field slot bindings modifiers annotations) := hform
    by_cases hstatic : Modifier.static ∈ modifiers
    · rw [if_pos hstatic]
      exact ⟨h, by simp [isAccessorField, hstatic]⟩
    · rw [if_neg hstatic]
      constructor
      · apply settled_of_children rfl
        intro child hchild
        have hsub : child ∈ slot.toList ++ bindings ++ annotations := by
          rcases List.mem_append.1 hchild with hchild | hnote
          · exact List.mem_append_left _ hchild
          · exact List.mem_append_right _ (List.mem_of_mem_filter hnote)
        exact (settled_iff.1 h).2 child hsub
      · simp [isAccessorField, withForm, any_withoutAnnotations]
  · next hfield =>
    apply And.intro h
    unfold isAccessorField
    split
    · next hform => exact absurd hform (hfield _ _ _ _)
    · rfl

theorem not_isAccessorField_of_isSynthetic (h : t.form.isSynthetic = true) :
    t.isAccessorField = false := by
  unfold isAccessorField
  split
  · next hform =>
    rw [hform] at h
    cases h
  · rfl

theorem settled_accessors (before : Tree)
    (h : ∀ child ∈ after.form.children, Settled .accessors child)
    (hrule : Lowering.accessors before after = some r) : Settled .accessors r := by
  obtain ⟨trivia, form⟩ := after
  unfold Lowering.accessors at hrule
  split at hrule
  · next name modifiers annotations typeParameters parents interfaces members hform =>
    obtain rfl : form = .member (.classType name modifiers annotations typeParameters parents
      interfaces members false) := hform
    obtain rfl := Option.some.inj hrule
    have hmember : ∀ member ∈ members, Settled .accessors member := fun member hmem =>
      h member (by simp [Form.children, MemberForm.children, hmem])
    apply settled_of_children
    · apply Bool.or_eq_false_iff.2 ⟨any_withoutAnnotations _ _, ?_⟩
      apply List.any_eq_false.2
      intro member hin
      rw [Bool.not_eq_true]
      rcases List.mem_append.1 hin with hold | hnew
      · obtain ⟨old, hmem, rfl⟩ := List.mem_map.1 hold
        exact (settled_stripField (hmember old hmem)).2
      · exact not_isAccessorField_of_isSynthetic (isSynthetic_of_mem_synthesized hnew)
    · intro child hchild
      simp only [materialize, form_node, withForm, Form.children, MemberForm.children,
        List.mem_append] at hchild
      rcases hchild with (((hnote | hparameter) | hparent) | hinterface) | hold | hnew
      · exact h child (by simp [Form.children, MemberForm.children, List.mem_of_mem_filter hnote])
      · exact h child (by simp [Form.children, MemberForm.children, hparameter])
      · exact h child (by simp [Form.children, MemberForm.children, hparent])
      · exact h child (by simp [Form.children, MemberForm.children, hinterface])
      · obtain ⟨old, hmem, rfl⟩ := List.mem_map.1 hold
        exact (settled_stripField (hmember old hmem)).1
      · refine builds_settled.synthesized ?_ child hnew
        intro field hfield
        obtain ⟨member, hmem, hfield⟩ := List.mem_flatMap.1 hfield
        refine builds_settled.accessorFields ?_ _ _ field hfield
        intro slot bindings modifiers annotations hform t ht
        have hslot : Settled .accessors t := by
          apply (settled_iff.1 (hmember member hmem)).2
          rw [hform]
          simpa [looksInto, Form.children, MemberForm.children] using Or.inl ht
        apply And.intro hslot
        intro element outer harray child hchild
        apply (settled_iff.1 hslot).2
        rw [harray]
        simpa [looksInto, Form.children, TypeForm.children] using hchild
  · next hclass =>
    obtain rfl := Option.some.inj hrule
    refine settled_of_children ?_ h
    rw [isTrigger, isAccessorClass]
    split
    · next hform => exact absurd hform (hclass _ _ _ _ _ _ _)
    · rfl

/-! ### Whole runs -/

theorem settled_header {trivia : Trivia} {form : Form Tree}
    (h : form.isPackage = true ∨ form.isImport = true) : Settled pass (.node trivia form) := by
  rcases h with hpackage | himport
  · unfold Form.isPackage at hpackage
    split at hpackage
    · apply settled_iff.2 ⟨?_, by simp [looksInto]⟩
      cases pass <;> rfl
    · cases hpackage
  · unfold Form.isImport at himport
    split at himport
    · apply settled_iff.2 ⟨?_, by simp [looksInto, Form.children, PartForm.children]⟩
      cases pass <;> rfl
    · cases himport

/-- What a pass makes of a tree has no trigger in its reach. -/
theorem settled_of_run? (hmappings : pass = .coreTypes → mappings = [])
    (hrun : pass.run? mappings t = some r) : Settled pass r := by
  induction t using induct generalizing r with
  | step trivia form ih =>
    have h : ∀ child ∈ (Tree.node trivia (form.filterMap (pass.run? mappings))).form.children,
        Settled pass child := by
      intro child hchild
      rw [form_node, Form.children_filterMap] at hchild
      obtain ⟨old, hold, hnew⟩ := List.mem_filterMap.1 hchild
      exact ih old hold hnew
    rcases run?_cases mappings pass trivia form with ⟨hheader, hkept⟩ | ⟨-, -, hrule⟩
    · rw [hkept] at hrun
      obtain rfl := Option.some.inj hrun
      exact settled_header hheader
    · rw [hrule] at hrun
      cases pass with
      | coreTypes =>
        obtain rfl := hmappings rfl
        exact settled_coreTypes h hrun
      | builtinCalls => exact settled_builtinCalls (.node trivia form) h hrun
      | accessors => exact settled_accessors (.node trivia form) h hrun
      | logging => exact settled_logging h hrun
      | containers =>
        obtain rfl := Option.some.inj hrun
        refine settled_renameTypes id ?_ h
        intro entry hentry trivia arguments orNull
        simp only [containerTypes, List.mem_cons, List.not_mem_nil, or_false] at hentry
        rcases hentry with rfl | rfl <;> rfl
      | optional => exact settled_optional (.node trivia form) h hrun
      | fileInputStream => exact settled_fileInputStream h hrun
      | stringWriter =>
        obtain rfl := Option.some.inj hrun
        refine settled_renameTypes id ?_ h
        intro entry hentry trivia arguments orNull
        obtain rfl := List.mem_singleton.1 hentry
        rfl

end Pass

/-! ### Units -/

namespace Pass

variable {unit : Tree} {header : Option Tree} {imports types : List Tree}

theorem run_of_settled (hmappings : pass = .coreTypes → mappings = [])
    (h : unit.IsUnit header imports types) (hsettled : ∀ t ∈ types, Settled pass t) :
    pass.run mappings unit = unit := by
  have htypes : types.filterMap (pass.run? mappings) = types :=
    (List.filterMap_congr fun t ht => run?_of_settled hmappings (hsettled t ht)).trans
      List.filterMap_some
  rw [run_unit mappings pass h, htypes, ← h.form]
  exact withForm_form unit

theorem settled_run (hmappings : pass = .coreTypes → mappings = []) :
    ∀ t ∈ types.filterMap (pass.run? mappings), Settled pass t := by
  intro t ht
  obtain ⟨old, -, hrun⟩ := List.mem_filterMap.1 ht
  exact settled_of_run? hmappings hrun

/-- A run of a pass leaves no trigger in the types of a unit, gives a unit back as it is if there is
none in its types, and changes nothing when it is repeated. -/
theorem run_exhaustive (hmappings : pass = .coreTypes → mappings = [])
    (h : unit.IsUnit header imports types) :
    (∀ t ∈ (pass.run mappings unit).unitTypes, Settled pass t) ∧
      ((∀ t ∈ types, Settled pass t) → pass.run mappings unit = unit) ∧
      pass.run mappings (pass.run mappings unit) = pass.run mappings unit := by
  have hafter := isUnit_run mappings pass h
  have hsettled : ∀ t ∈ types.filterMap (pass.run? mappings), Settled pass t :=
    settled_run hmappings
  refine ⟨?_, run_of_settled hmappings h, run_of_settled hmappings hafter hsettled⟩
  rw [unitTypes, hafter.form]
  exact hsettled

/-- A class with a list of lists and a getter that is asked for. -/
def shelfUnit : Tree :=
  .node {} (.part (.unit (some (.node {} (.part (.package (.text "shop") []))))
    [.node {} (.part (.importing { name := .text "java.util.List" }))]
    [.node {} (.member (.classType (.text "Shelf") [.pub] [] [] [] []
      [.node {} (.member (.field
        (some (.node {} (.type (.named (.text "List")
          (some [.node {} (.type (.named (.text "ArrayList") none none false))]) none false))))
        [.node {} (.part (.declarator (.text "rows") 0 none))] [.priv]
        [.node {} (.part (.annotationUse (.text "Getter") []))]))] false))]))

/-- Both lists of the class are renamed, and a second run changes nothing. -/
theorem run_exhaustive_shelfUnit :
    (∀ t ∈ (Pass.containers.run [] shelfUnit).unitTypes, Settled .containers t) ∧
      ((∀ t ∈ shelfUnit.unitTypes, Settled .containers t) →
        Pass.containers.run [] shelfUnit = shelfUnit) ∧
      Pass.containers.run [] (Pass.containers.run [] shelfUnit) =
        Pass.containers.run [] shelfUnit :=
  run_exhaustive nofun ⟨rfl, by simp [Form.isPackage], by simp [Form.isImport]⟩

end Pass

end Recast
