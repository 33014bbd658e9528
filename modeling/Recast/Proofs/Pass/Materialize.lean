import Mathlib
import Recast.Proofs.Pass.Commute

/-!
Synthesized members under the passes of other libraries.

The members that a class gets are copies of what stands in its fields, so a pass can go through the
class before or after they are built (`run?_materialize`). This holds because what the synthesis reads
of a node, the names of its annotations and whether it is a field, a variable or an array, is the same
after the pass (`read_of_run?`).
-/

namespace Recast

open Recast.Lowering Recast.Tree

variable {mappings : List (String × Value)} {pass : Pass} {t r : Tree} {trivia : Trivia}

/-- Whether a layer is one that the synthesis of members opens: a field, a variable or an array. -/
def Form.isRead {α : Type} : Form α → Bool
  | .member (.field ..) | .part (.declarator ..) | .type (.array ..) => true
  | _ => false

theorem Form.isRead_cases {α : Type} {form : Form α} (h : form.isRead) :
    (∃ slot bindings modifiers annotations,
        form = .member (.field slot bindings modifiers annotations)) ∨
      (∃ name dimensions initial, form = .part (.declarator name dimensions initial)) ∨
      ∃ element outer, form = .type (.array element outer) := by
  unfold isRead at h
  split at h
  · exact .inl ⟨_, _, _, _, rfl⟩
  · exact .inr (.inl ⟨_, _, _, rfl⟩)
  · exact .inr (.inr ⟨_, _, rfl⟩)
  · cases h

@[simp]
theorem Form.isRead_filterMap {α β : Type} (f : α → Option β) (form : Form α) :
    (form.filterMap f).isRead = form.isRead := by
  rcases form with form | form | form | form | form | kind
  case foreign => rfl
  all_goals cases form <;> rfl

theorem Tree.annotationName_eq_empty (h : t.form.isExpr ∨ t.form.isType) : t.annotationName = "" := by
  unfold annotationName
  split
  · next hform =>
    rw [hform] at h
    rcases h with h | h <;> cases h
  · rfl

theorem Form.isRead_of_isExpr {form : Form Tree} (h : form.isExpr) : form.isRead = false := by
  cases form with
  | expr => rfl
  | _ => cases h

namespace Pass

/-- What a pass leaves of a node that is neither an expression nor a declaration of the header. -/
theorem run?_cases_of_not_expr (hpass : pass ∈ triggered) (hne : pass ≠ .accessors)
    {form : Form Tree} (hexpr : form.isExpr = false) (hpackage : form.isPackage = false)
    (himport : form.isImport = false) :
    (∃ name arguments scope orNull name' arguments' scope' orNull',
        form = .type (.named name arguments scope orNull) ∧ pass.run? mappings (.node trivia form) =
          some (.node trivia (.type (.named name' arguments' scope' orNull')))) ∨
      (∃ name arguments, form = .part (.annotationUse name arguments) ∧
        Text.afterLast '.' name.display = "Slf4j" ∧ pass.run? mappings (.node trivia form) = none) ∨
      (∃ name arguments arguments', form = .part (.annotationUse name arguments) ∧
        pass.run? mappings (.node trivia form) =
          some (.node trivia (.part (.annotationUse name arguments')))) ∨
      pass.run? mappings (.node trivia form) =
        some (.node trivia (form.filterMap (pass.run? mappings))) := by
  by_cases hacts : pass.actsOn form = false
  · exact .inr (.inr (.inr (run?_passive hpass ⟨hacts, hpackage, himport⟩)))
  rcases form with form | form | form | form | form | kind
  case expr => cases hexpr
  case type =>
    cases form with
    | named name arguments scope orNull =>
      exact .inl ⟨_, _, _, _, _, _, _, _, rfl, run?_named hpass name arguments scope orNull⟩
    | _ => exact absurd (by cases pass <;> rfl) hacts
  case member =>
    cases form with
    | classType => exact absurd (by cases pass <;> first | rfl | exact absurd rfl hne) hacts
    | _ => exact absurd (by cases pass <;> rfl) hacts
  case part =>
    cases form with
    | annotationUse name arguments =>
      obtain rfl : pass = .logging := by
        cases pass <;> first | rfl | exact absurd rfl hacts
      rw [run?_logging_use]
      split
      · next hname => exact .inr (.inl ⟨name, arguments, rfl, hname, rfl⟩)
      · exact .inr (.inr (.inl ⟨name, arguments, arguments, rfl, rfl⟩))
    | _ => exact absurd (by cases pass <;> rfl) hacts
  all_goals exact absurd (by cases pass <;> rfl) hacts

/-- A pass keeps what the synthesis of members reads of a node. -/
theorem read_of_run? (hpass : pass ∈ triggered) (hne : pass ≠ .accessors) (h : t.Everywhere Ready)
    (hrun : pass.run? mappings t = some r) :
    r.annotationName = t.annotationName ∧ (t.form.isRead = false → r.form.isRead = false) := by
  obtain ⟨trivia, form⟩ := t
  cases hexpr : form.isExpr with
  | true =>
    have hresult := ((leavesReady_run? mappings pass h).alike r hrun).expr hexpr
    have hname : (node trivia form).annotationName = "" := annotationName_eq_empty (.inl hexpr)
    rw [annotationName_eq_empty (.inl hresult), hname]
    exact ⟨rfl, fun _ => Form.isRead_of_isExpr hresult⟩
  | false =>
    rcases run?_cases mappings pass trivia form with ⟨-, hkept⟩ | ⟨hpackage, himport, -⟩
    · rw [Option.some.inj (hkept.symm.trans hrun)]
      exact ⟨rfl, id⟩
    · rcases run?_cases_of_not_expr hpass hne hexpr hpackage himport with
        ⟨_, _, _, _, _, _, _, _, rfl, heq⟩ | ⟨_, _, rfl, -, heq⟩ | ⟨_, _, _, rfl, heq⟩ | heq
      · rw [← Option.some.inj (heq.symm.trans hrun)]
        exact ⟨rfl, fun _ => rfl⟩
      · cases heq.symm.trans hrun
      · rw [← Option.some.inj (heq.symm.trans hrun)]
        exact ⟨rfl, fun _ => rfl⟩
      · rw [← Option.some.inj (heq.symm.trans hrun), annotationName_filterMap]
        exact ⟨rfl, fun hread => by simpa using hread⟩

/-- A pass removes nothing but the annotations of a logger. -/
theorem annotationName_of_run?_eq_none (hpass : pass ∈ triggered) (hne : pass ≠ .accessors)
    (h : t.Everywhere Ready) (hrun : pass.run? mappings t = none) : t.annotationName = "Slf4j" := by
  obtain ⟨trivia, form⟩ := t
  cases hexpr : form.isExpr with
  | true =>
    have hsome := (leavesReady_run? mappings pass h).isSome hexpr
    rw [hrun] at hsome
    cases hsome
  | false =>
    rcases run?_cases mappings pass trivia form with ⟨-, hkept⟩ | ⟨hpackage, himport, -⟩
    · cases hkept.symm.trans hrun
    · rcases run?_cases_of_not_expr hpass hne hexpr hpackage himport with
        ⟨_, _, _, _, _, _, _, _, rfl, heq⟩ | ⟨_, _, rfl, hname, -⟩ | ⟨_, _, _, rfl, heq⟩ | heq
      · cases heq.symm.trans hrun
      · exact hname
      · cases heq.symm.trans hrun
      · cases heq.symm.trans hrun

/-! ### Annotations -/

theorem withoutAnnotations_cons (names : List String) (t : Tree) (annotations : List Tree) :
    withoutAnnotations names (t :: annotations) =
      if t.annotationName ∈ names then withoutAnnotations names annotations
      else t :: withoutAnnotations names annotations := by
  by_cases hname : t.annotationName ∈ names <;> simp [withoutAnnotations, hname]

section Natural

variable (hpass : pass ∈ triggered) (hne : pass ≠ .accessors)

include hpass hne

theorem filterMap_withoutAnnotations (names : List String) {annotations : List Tree}
    (h : ∀ t ∈ annotations, t.Everywhere Ready) :
    (withoutAnnotations names annotations).filterMap (pass.run? mappings) =
      withoutAnnotations names (annotations.filterMap (pass.run? mappings)) := by
  induction annotations with
  | nil => rfl
  | cons t annotations ih =>
    have htail := ih fun t ht => h t (List.mem_cons_of_mem _ ht)
    have hhead := h t List.mem_cons_self
    cases hrun : pass.run? mappings t with
    | none =>
      rw [List.filterMap_cons_none hrun, withoutAnnotations_cons, ← htail]
      split
      · rfl
      · rw [List.filterMap_cons_none hrun]
    | some r =>
      rw [List.filterMap_cons_some hrun, withoutAnnotations_cons, withoutAnnotations_cons,
        (read_of_run? hpass hne hhead hrun).1, ← htail]
      split
      · rfl
      · rw [List.filterMap_cons_some hrun]

/-- An annotation that asks for members is found before and after a pass. -/
theorem contains_annotationName_filterMap {name : String} (hname : name ≠ "Slf4j") {annotations : List Tree}
    (h : ∀ t ∈ annotations, t.Everywhere Ready) :
    ((annotations.filterMap (pass.run? mappings)).map annotationName).contains name =
      (annotations.map annotationName).contains name := by
  induction annotations with
  | nil => rfl
  | cons t annotations ih =>
    have htail := ih fun t ht => h t (List.mem_cons_of_mem _ ht)
    have hhead := h t List.mem_cons_self
    cases hrun : pass.run? mappings t with
    | none =>
      have hlogger := annotationName_of_run?_eq_none hpass hne hhead hrun
      rw [List.filterMap_cons_none hrun, htail, List.map_cons, List.contains_cons, hlogger,
        beq_eq_false_iff_ne.2 hname, Bool.false_or]
    | some r =>
      rw [List.filterMap_cons_some hrun, List.map_cons, List.map_cons, List.contains_cons,
        List.contains_cons, htail, (read_of_run? hpass hne hhead hrun).1]

/-! ### Fields -/

end Natural

theorem run?_isRead (mappings : List (String × Value)) (hpass : pass ∈ triggered) (trivia : Trivia)
    {form : Form Tree} (h : form.isRead) :
    pass.run? mappings (.node trivia form) =
      some (.node trivia (form.filterMap (pass.run? mappings))) := by
  apply run?_passive hpass
  rcases Form.isRead_cases h with ⟨_, _, _, _, rfl⟩ | ⟨_, _, _, rfl⟩ | ⟨_, _, rfl⟩ <;>
    exact ⟨by cases pass <;> rfl, rfl, rfl⟩

theorem stripField_of_not_isRead (h : t.form.isRead = false) : stripField t = t := by
  unfold stripField
  split
  · next hform =>
    rw [hform] at h
    cases h
  · rfl

theorem variableType_of_not_array {base : Option Tree}
    (h : ∀ t ∈ base, ∀ element outer, t.form ≠ .type (.array element outer)) {dimensions : Int}
    (hdimensions : dimensions ≠ 0) :
    variableType base dimensions = some (.node {} (.type (.array base dimensions))) := by
  unfold variableType
  rw [if_neg hdimensions]
  split
  · exact absurd rfl (h _ rfl _ _)
  · rfl

/-- What one variable of a field declaration gives. -/
def accessorOf (slot : Option Tree) (isFinal getter setter : Bool) (declared : Tree) :
    Option AccessorField :=
  match declared.form with
  | .part (.declarator name dimensions _) =>
    some ⟨name, variableType slot dimensions, isFinal, getter, setter⟩
  | _ => none

theorem accessorOf_of_not_isRead (h : t.form.isRead = false) (slot : Option Tree)
    (isFinal getter setter : Bool) : accessorOf slot isFinal getter setter t = none := by
  unfold accessorOf
  split
  · next hform =>
    rw [hform] at h
    cases h
  · rfl

theorem accessorFields_field (getters setters : Bool) (slot : Option Tree) (bindings : List Tree)
    (modifiers : List Modifier) (annotations : List Tree) :
    accessorFields getters setters (.node trivia (.member (.field slot bindings modifiers annotations))) =
      if .static ∈ modifiers then []
      else bindings.filterMap (accessorOf slot (decide (.final ∈ modifiers))
        (getters || (annotations.map annotationName).contains "Getter")
        ((setters || (annotations.map annotationName).contains "Setter") &&
          !decide (.final ∈ modifiers))) :=
  rfl

theorem accessorFields_of_not_isRead (h : t.form.isRead = false) (getters setters : Bool) :
    accessorFields getters setters t = [] := by
  unfold accessorFields
  split
  · next hform =>
    rw [hform] at h
    cases h
  · rfl

section Natural

variable (hpass : pass ∈ triggered) (hne : pass ≠ .accessors)

include hpass hne

/-- What a pass does to a node, as far as the synthesis of members reads it: a field, a variable and
an array keep their form, and anything else stays something else. -/
theorem run?_read_cases (mappings : List (String × Value)) (h : t.Everywhere Ready) :
    (t.form.isRead = false ∧ ∀ r, pass.run? mappings t = some r → r.form.isRead = false) ∨
      (∃ trivia slot bindings modifiers annotations,
        t = .node trivia (.member (.field slot bindings modifiers annotations)) ∧
          pass.run? mappings t = some (.node trivia (.member (.field
            (slot.bind (pass.run? mappings)) (bindings.filterMap (pass.run? mappings)) modifiers
            (annotations.filterMap (pass.run? mappings)))))) ∨
      (∃ trivia name dimensions value, t = .node trivia (.part (.declarator name dimensions value)) ∧
        pass.run? mappings t = some (.node trivia (.part (.declarator name dimensions
          (value.bind (pass.run? mappings)))))) ∨
      ∃ trivia element outer, t = .node trivia (.type (.array element outer)) ∧
        pass.run? mappings t = some (.node trivia (.type (.array
          (element.bind (pass.run? mappings)) outer))) := by
  cases hread : t.form.isRead with
  | false => exact .inl ⟨rfl, fun r hrun => (read_of_run? hpass hne h hrun).2 hread⟩
  | true =>
    obtain ⟨trivia, form⟩ := t
    rcases Form.isRead_cases hread with ⟨_, _, _, _, rfl⟩ | ⟨_, _, _, rfl⟩ | ⟨_, _, rfl⟩
    · exact .inr (.inl ⟨_, _, _, _, _, rfl, run?_isRead mappings hpass trivia rfl⟩)
    · exact .inr (.inr (.inl ⟨_, _, _, _, rfl, run?_isRead mappings hpass trivia rfl⟩))
    · exact .inr (.inr (.inr ⟨_, _, _, rfl, run?_isRead mappings hpass trivia rfl⟩))

theorem run?_stripField (h : t.Everywhere Ready) :
    pass.run? mappings (stripField t) = (pass.run? mappings t).map stripField := by
  rcases run?_read_cases hpass hne mappings h with ⟨hread, hresult⟩ |
    ⟨trivia, slot, bindings, modifiers, annotations, rfl, hrun⟩ | ⟨_, _, _, _, rfl, hrun⟩ |
    ⟨_, _, _, rfl, hrun⟩
  · rw [stripField_of_not_isRead hread]
    cases hrun : pass.run? mappings t with
    | none => rfl
    | some r => rw [Option.map_some, stripField_of_not_isRead (hresult r hrun)]
  · have hnotes : ∀ t ∈ annotations, t.Everywhere Ready := fun t ht =>
      h.child (by simp [Form.children, MemberForm.children, ht])
    rw [hrun]
    simp only [stripField, form_node, Option.map_some]
    split
    · exact hrun
    · rw [withForm, run?_isRead mappings hpass _ rfl, ← filterMap_withoutAnnotations hpass hne _ hnotes]
      rfl
  · rw [hrun]
    exact hrun
  · rw [hrun]
    exact hrun

/-- A pass makes no array out of anything else. -/
theorem ne_array_of_run? (h : t.Everywhere Ready)
    (harray : ∀ element outer, t.form ≠ .type (.array element outer))
    (hrun : pass.run? mappings t = some r) (element : Option Tree) (outer : Int) :
    r.form ≠ .type (.array element outer) := by
  intro hform
  rcases run?_read_cases hpass hne mappings h with ⟨-, hresult⟩ |
    ⟨_, _, _, _, _, rfl, hkept⟩ | ⟨_, _, _, _, rfl, hkept⟩ | ⟨_, element, outer, rfl, -⟩
  · have hread := hresult r hrun
    rw [hform] at hread
    cases hread
  · rw [← Option.some.inj (hkept.symm.trans hrun)] at hform
    cases hform
  · rw [← Option.some.inj (hkept.symm.trans hrun)] at hform
    cases hform
  · exact harray element outer rfl

theorem bind_variableType {base : Option Tree} (h : ∀ t ∈ base, t.Everywhere Ready)
    (dimensions : Int) :
    (variableType base dimensions).bind (pass.run? mappings) =
      variableType (base.bind (pass.run? mappings)) dimensions := by
  have harray : ∀ element outer, pass.run? mappings (.node {} (.type (.array element outer))) =
      some (.node {} (.type (.array (element.bind (pass.run? mappings)) outer))) :=
    fun _ _ => run?_isRead mappings hpass {} rfl
  by_cases hdimensions : dimensions = 0
  · simp [variableType, hdimensions]
  by_cases hbase : ∀ t ∈ base, ∀ element outer, t.form ≠ .type (.array element outer)
  · have hbound : ∀ t ∈ base.bind (pass.run? mappings), ∀ element outer,
        t.form ≠ .type (.array element outer) := by
      intro r hr
      obtain ⟨t, ht, hrun⟩ := Option.bind_eq_some_iff.1 hr
      exact ne_array_of_run? hpass hne (h t ht) (hbase t ht) hrun
    rw [variableType_of_not_array hbase hdimensions, variableType_of_not_array hbound hdimensions]
    exact harray base dimensions
  · push Not at hbase
    obtain ⟨⟨trivia, form⟩, rfl, element, outer, rfl⟩ := hbase
    have hrun : pass.run? mappings (.node trivia (.type (.array element outer))) =
      some (.node trivia (.type (.array (element.bind (pass.run? mappings)) outer))) :=
      run?_isRead mappings hpass trivia rfl
    rw [Option.bind_some, hrun]
    simp only [variableType, if_neg hdimensions, Option.bind_some, harray]

/-- A field whose type has gone through a pass. -/
def onType (mappings : List (String × Value)) (pass : Pass) (field : AccessorField) : AccessorField :=
  { field with type := field.type.bind (pass.run? mappings) }

theorem bind_accessorOf {slot : Option Tree} (hslot : ∀ t ∈ slot, t.Everywhere Ready)
    (h : t.Everywhere Ready) (isFinal getter setter : Bool) :
    (pass.run? mappings t).bind (accessorOf (slot.bind (pass.run? mappings)) isFinal getter setter) =
      (accessorOf slot isFinal getter setter t).map (onType mappings pass) := by
  rcases run?_read_cases hpass hne mappings h with ⟨hread, hresult⟩ |
    ⟨_, _, _, _, _, rfl, hrun⟩ | ⟨_, _, dimensions, _, rfl, hrun⟩ | ⟨_, _, _, rfl, hrun⟩
  · rw [accessorOf_of_not_isRead hread]
    cases hrun : pass.run? mappings t with
    | none => rfl
    | some r => exact accessorOf_of_not_isRead (hresult r hrun) _ _ _ _
  · rw [hrun]
    rfl
  · rw [hrun]
    simp [accessorOf, onType, bind_variableType hpass hne hslot dimensions]
  · rw [hrun]
    rfl

/-- The fields of a member after a pass. -/
theorem bind_accessorFields (h : t.Everywhere Ready) (getters setters : Bool) :
    (pass.run? mappings t).toList.flatMap (accessorFields getters setters) =
      (accessorFields getters setters t).map (onType mappings pass) := by
  rcases run?_read_cases hpass hne mappings h with ⟨hread, hresult⟩ |
    ⟨_, slot, bindings, modifiers, annotations, rfl, hrun⟩ | ⟨_, _, _, _, rfl, hrun⟩ |
    ⟨_, _, _, rfl, hrun⟩
  · rw [accessorFields_of_not_isRead hread]
    cases hrun : pass.run? mappings t with
    | none => rfl
    | some r => simp [accessorFields_of_not_isRead (hresult r hrun)]
  · have hbelow := (everywhere_node.1 h).2
    simp only [Form.children, MemberForm.children, List.mem_append, Option.mem_toList] at hbelow
    have hnotes : ∀ t ∈ annotations, t.Everywhere Ready := fun t ht => hbelow t (.inr ht)
    rw [hrun, Option.toList_some, List.flatMap_singleton, accessorFields_field, accessorFields_field,
      contains_annotationName_filterMap hpass hne (by decide : "Getter" ≠ "Slf4j") hnotes,
      contains_annotationName_filterMap hpass hne (by decide : "Setter" ≠ "Slf4j") hnotes]
    split
    · rfl
    · rw [List.filterMap_filterMap, List.map_filterMap]
      apply List.filterMap_congr
      intro declared hdeclared
      exact bind_accessorOf hpass hne (fun t ht => hbelow t (.inl (.inl ht)))
        (hbelow declared (.inl (.inr hdeclared))) _ _ _
  · rw [hrun]
    rfl
  · rw [hrun]
    rfl

theorem filterMap_accessorFields {members : List Tree} (h : ∀ t ∈ members, t.Everywhere Ready)
    (getters setters : Bool) :
    (members.filterMap (pass.run? mappings)).flatMap (accessorFields getters setters) =
      (members.flatMap (accessorFields getters setters)).map (onType mappings pass) := by
  induction members with
  | nil => rfl
  | cons t members ih =>
    have htail := ih fun t ht => h t (List.mem_cons_of_mem _ ht)
    rw [List.flatMap_cons, List.map_append, ← htail,
      ← bind_accessorFields hpass hne (h t List.mem_cons_self) getters setters]
    cases hrun : pass.run? mappings t with
    | none => rw [List.filterMap_cons_none hrun]; rfl
    | some r => rw [List.filterMap_cons_some hrun, List.flatMap_cons]; simp

end Natural

/-! ### Synthesized members -/

section Synthesized

variable (hpass : pass ∈ triggered)

include hpass

theorem run?_plain {form : Form Tree} (h : form.isSynthetic) :
    pass.run? mappings (plain form) = some (plain (form.filterMap (pass.run? mappings))) := by
  apply run?_passive hpass
  rcases form with form | form | form | form | form | kind
  case foreign => cases h
  all_goals
    cases form
    all_goals first
      | cases h; done
      | exact ⟨by cases pass <;> rfl, rfl, rfl⟩

theorem run?_fieldParameter (field : AccessorField) :
    pass.run? mappings (fieldParameter field) = some (fieldParameter (onType mappings pass field)) :=
  run?_plain hpass rfl

theorem run?_thisField (name : Word) :
    pass.run? mappings (thisField name) = some (thisField name) := by
  have hthis : pass.run? mappings (plain (.expr (.this .null))) = some (plain (.expr (.this .null))) :=
    run?_plain hpass rfl
  rw [thisField, run?_plain hpass rfl]
  simp [Form.filterMap, ExprForm.filterMap, hthis]

theorem run?_assignField (name : Word) :
    pass.run? mappings (assignField name) = some (assignField name) := by
  have hident : pass.run? mappings (ident name) = some (ident name) := run?_plain hpass rfl
  have hassign : pass.run? mappings (plain (.expr (.assign (.text "=") (some (thisField name))
      (some (ident name))))) =
      some (plain (.expr (.assign (.text "=") (some (thisField name)) (some (ident name))))) := by
    rw [run?_plain hpass rfl]
    simp [Form.filterMap, ExprForm.filterMap, run?_thisField hpass, hident]
  rw [assignField, run?_plain hpass rfl]
  simp [Form.filterMap, StmtForm.filterMap, hassign]

theorem filterMap_parentCall (summary : AccessorSummary) :
    (parentCall summary).filterMap (pass.run? mappings) = parentCall summary := by
  have hcall : pass.run? mappings (plain (.stmt (.constructorCall false []))) =
      some (plain (.stmt (.constructorCall false []))) := run?_plain hpass rfl
  unfold parentCall
  split
  · rw [List.filterMap_cons_some hcall, List.filterMap_nil]
  · rfl

theorem run?_publicConstructor (name : Word) (parameters statements : List Tree) :
    pass.run? mappings (publicConstructor name parameters statements) =
      some (publicConstructor name (parameters.filterMap (pass.run? mappings))
        (statements.filterMap (pass.run? mappings))) := by
  have hblock : pass.run? mappings (plain (.stmt (.block statements))) =
      some (plain (.stmt (.block (statements.filterMap (pass.run? mappings))))) :=
    run?_plain hpass rfl
  rw [publicConstructor, run?_plain hpass rfl]
  simp [publicConstructor, Form.filterMap, MemberForm.filterMap, hblock]

theorem run?_publicMethod (name : String) (slot : Option Tree) (parameters statements : List Tree) :
    pass.run? mappings (publicMethod name slot parameters statements) =
      some (publicMethod name (slot.bind (pass.run? mappings))
        (parameters.filterMap (pass.run? mappings)) (statements.filterMap (pass.run? mappings))) := by
  have hblock : pass.run? mappings (plain (.stmt (.block statements))) =
      some (plain (.stmt (.block (statements.filterMap (pass.run? mappings))))) :=
    run?_plain hpass rfl
  rw [publicMethod, run?_plain hpass rfl]
  simp [publicMethod, Form.filterMap, MemberForm.filterMap, hblock]

theorem run?_setterOf (field : AccessorField) :
    pass.run? mappings (setterOf field) = some (setterOf (onType mappings pass field)) := by
  have hvoid : pass.run? mappings (plain (.type .void)) = some (plain (.type .void)) :=
    run?_plain hpass rfl
  rw [setterOf, run?_publicMethod hpass]
  simp [setterOf, hvoid, run?_fieldParameter hpass, run?_assignField hpass, onType]

theorem run?_getterOf (field : AccessorField) :
    pass.run? mappings (getterOf field) = some (getterOf (onType mappings pass field)) := by
  have hreturn : pass.run? mappings (plain (.stmt (.returning (some (thisField field.name))))) =
      some (plain (.stmt (.returning (some (thisField field.name))))) := by
    rw [run?_plain hpass rfl]
    simp [Form.filterMap, StmtForm.filterMap, run?_thisField hpass]
  rw [getterOf, run?_publicMethod hpass]
  simp [getterOf, hreturn, onType]

/-- What is synthesized for fields whose types have gone through a pass. -/
theorem filterMap_synthesized (summary : AccessorSummary) :
    (synthesized summary).filterMap (pass.run? mappings) =
      synthesized { summary with fields := summary.fields.map (onType mappings pass) } := by
  have hsetters : ∀ fields : List AccessorField, (fields.map setterOf).filterMap (pass.run? mappings) =
      (fields.map (onType mappings pass)).map setterOf := by
    intro fields
    simp [List.filterMap_map, Function.comp_def, run?_setterOf hpass]
  have hgetters : ∀ fields : List AccessorField, (fields.map getterOf).filterMap (pass.run? mappings) =
      (fields.map (onType mappings pass)).map getterOf := by
    intro fields
    simp [List.filterMap_map, Function.comp_def, run?_getterOf hpass]
  have hparameters : (summary.fields.map fieldParameter).filterMap (pass.run? mappings) =
      (summary.fields.map (onType mappings pass)).map fieldParameter := by
    simp [List.filterMap_map, Function.comp_def, run?_fieldParameter hpass]
  have hassign : (summary.fields.map (assignField ·.name)).filterMap (pass.run? mappings) =
      (summary.fields.map (onType mappings pass)).map (assignField ·.name) := by
    simp [List.filterMap_map, Function.comp_def, run?_assignField hpass, onType]
  have hempty : (if summary.noArgsConstructor then
        [publicConstructor summary.className [] (parentCall summary)] else []).filterMap
          (pass.run? mappings) =
      if summary.noArgsConstructor then
        [publicConstructor summary.className [] (parentCall summary)] else [] := by
    split
    · rw [List.filterMap_cons_some (run?_publicConstructor hpass _ _ _),
        filterMap_parentCall hpass]
      rfl
    · rfl
  have hfull : (if summary.allArgsConstructor then
        [publicConstructor summary.className (summary.fields.map fieldParameter)
          (parentCall summary ++ summary.fields.map (assignField ·.name))] else []).filterMap
          (pass.run? mappings) =
      if summary.allArgsConstructor then
        [publicConstructor summary.className
          ((summary.fields.map (onType mappings pass)).map fieldParameter)
          (parentCall summary ++ (summary.fields.map (onType mappings pass)).map
            (assignField ·.name))] else [] := by
    split
    · rw [List.filterMap_cons_some (run?_publicConstructor hpass _ _ _), hparameters,
        List.filterMap_append, filterMap_parentCall hpass, hassign]
      rfl
    · rfl
  have hkept : ∀ asks : AccessorField → Bool, (∀ field, asks (onType mappings pass field) = asks field) →
      (summary.fields.filter asks).map (onType mappings pass) =
        (summary.fields.map (onType mappings pass)).filter asks := by
    intro asks hasks
    rw [List.filter_map]
    congr 1
    exact List.filter_congr fun field _ => (hasks field).symm
  rw [synthesized, List.filterMap_append, List.filterMap_append, List.filterMap_append, hempty, hfull,
    hsetters, hgetters, hkept (·.setter) fun _ => rfl, hkept (·.getter) fun _ => rfl]
  rfl

end Synthesized

section Class

variable {name : Word} {modifiers : List Modifier}
  {annotations typeParameters parents interfaces members : List Tree}

/-- A pass removes no parent of a class. -/
theorem isEmpty_parents (hpass : pass ∈ triggered) (hne : pass ≠ .accessors)
    (h : ∀ t ∈ parents, t.Everywhere Ready) (htype : ∀ t ∈ parents, t.form.isType) :
    (parents.filterMap (pass.run? mappings)).isEmpty = parents.isEmpty := by
  cases parents with
  | nil => rfl
  | cons t parents =>
    cases hrun : pass.run? mappings t with
    | none =>
      have hname := annotationName_of_run?_eq_none hpass hne (h t List.mem_cons_self) hrun
      rw [annotationName_eq_empty (.inr (htype t List.mem_cons_self))] at hname
      exact absurd hname (by decide)
    | some r => rw [List.filterMap_cons_some hrun]; rfl

theorem summarize_filterMap (mappings : List (String × Value)) (hpass : pass ∈ triggered) (hne : pass ≠ .accessors)
    (h : (node trivia (.member (.classType name modifiers annotations typeParameters parents interfaces
      members false))).Everywhere Ready) :
    summarize (.node trivia ((Form.member (.classType name modifiers annotations typeParameters parents
        interfaces members false)).filterMap (pass.run? mappings))) =
      { summarize (.node trivia (.member (.classType name modifiers annotations typeParameters parents
          interfaces members false))) with
        fields := (summarize (.node trivia (.member (.classType name modifiers annotations typeParameters
          parents interfaces members false)))).fields.map (onType mappings pass) } := by
  obtain ⟨hself, hbelow⟩ := everywhere_node.1 h
  simp only [Form.children, MemberForm.children, List.mem_append] at hbelow
  have hcontains : ∀ name, name ≠ "Slf4j" →
      ((annotations.filterMap (pass.run? mappings)).map annotationName).contains name =
        (annotations.map annotationName).contains name := fun name hname =>
    contains_annotationName_filterMap hpass hne hname fun t ht => hbelow t (by simp [ht])
  have hparents : (parents.filterMap (pass.run? mappings)).isEmpty = parents.isEmpty :=
    isEmpty_parents hpass hne (fun t ht => hbelow t (by simp [ht])) hself.typed.bases
  simp only [summarize, form_node, Form.filterMap, MemberForm.filterMap]
  rw [hcontains _ (by decide : "NoArgsConstructor" ≠ "Slf4j"),
    hcontains _ (by decide : "AllArgsConstructor" ≠ "Slf4j"), hcontains _ (by decide : "Getter" ≠ "Slf4j"),
    hcontains _ (by decide : "Setter" ≠ "Slf4j"), hcontains _ (by decide : "Data" ≠ "Slf4j"),
    hparents, filterMap_accessorFields hpass hne fun t ht => hbelow t (by simp [ht])]

/-- Only the pass of the accessors acts on classes. -/
theorem passive_class (hne : pass ≠ .accessors) {isInterface : Bool} :
    Passive pass (Form.member (.classType name modifiers annotations typeParameters parents interfaces
      members isInterface)) :=
  ⟨by cases pass <;> first | rfl | exact absurd rfl hne, rfl, rfl⟩

theorem materialize_class (trivia : Trivia) (name : Word) (modifiers : List Modifier)
    (annotations typeParameters parents interfaces members : List Tree) :
    materialize (.node trivia (.member (.classType name modifiers annotations typeParameters parents
        interfaces members false))) =
      .node trivia (.member (.classType name modifiers (withoutAnnotations classAnnotations annotations)
        typeParameters parents interfaces (members.map stripField ++ synthesized (summarize
          (.node trivia (.member (.classType name modifiers annotations typeParameters parents interfaces
            members false))))) false)) :=
  rfl

/-- A pass may go through a class before or after it gets its members. -/
theorem run?_materialize (hpass : pass ∈ triggered) (hne : pass ≠ .accessors)
    (h : (node trivia (.member (.classType name modifiers annotations typeParameters parents interfaces
      members false))).Everywhere Ready) :
    pass.run? mappings (materialize (.node trivia (.member (.classType name modifiers annotations
        typeParameters parents interfaces members false)))) =
      some (materialize (.node trivia ((Form.member (.classType name modifiers annotations
        typeParameters parents interfaces members false)).filterMap (pass.run? mappings)))) := by
  have hbelow := (everywhere_node.1 h).2
  simp only [Form.children, MemberForm.children, List.mem_append] at hbelow
  have hstrip : (members.map stripField).filterMap (pass.run? mappings) =
      (members.filterMap (pass.run? mappings)).map stripField := by
    rw [List.filterMap_map, List.map_filterMap]
    exact List.filterMap_congr fun t ht => run?_stripField hpass hne (hbelow t (by simp [ht]))
  have hclass : ∀ annotations members, pass.run? mappings (.node trivia (.member (.classType name
      modifiers annotations typeParameters parents interfaces members false))) =
      some (.node trivia ((Form.member (.classType name modifiers annotations typeParameters parents
        interfaces members false)).filterMap (pass.run? mappings))) := fun annotations members =>
    run?_passive hpass (passive_class hne)
  have hsummary := summarize_filterMap mappings hpass hne h
  simp only [Form.filterMap, MemberForm.filterMap] at hclass hsummary ⊢
  rw [materialize_class, materialize_class, hclass, hsummary, ← filterMap_synthesized hpass,
    List.filterMap_append, hstrip,
    filterMap_withoutAnnotations hpass hne _ fun t ht => hbelow t (by simp [ht])]

theorem commute_class (hpass : pass ∈ triggered) (hne : pass ≠ .accessors) {isInterface : Bool}
    (h : (node trivia (.member (.classType name modifiers annotations typeParameters parents interfaces
      members isInterface))).Everywhere Ready)
    (hchildren : ∀ child ∈ (Form.member (.classType name modifiers annotations typeParameters parents
      interfaces members isInterface)).children,
      Commute (Pass.accessors.run? mappings) (pass.run? mappings) child) :
    Commute (Pass.accessors.run? mappings) (pass.run? mappings) (.node trivia (.member (.classType name
      modifiers annotations typeParameters parents interfaces members isInterface))) := by
  obtain ⟨hafter, -⟩ := ready_rebuilt h fun child hchild =>
    leavesReady_run? mappings .accessors ((everywhere_node.1 h).2 child hchild)
  rw [Commute, run?_node mappings .accessors rfl rfl, run?_passive hpass (passive_class hne),
    Option.bind_some, run?_node mappings .accessors rfl rfl, ← filterMap_comm hchildren]
  cases isInterface with
  | true => exact run?_passive hpass (passive_class hne)
  | false => exact run?_materialize hpass hne hafter

end Class

end Pass

end Recast
