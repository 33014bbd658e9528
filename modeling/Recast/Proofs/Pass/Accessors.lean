import Mathlib
import Recast.Lowering.Accessors
import Recast.Proofs.Tree.Basic

/-!
How many accessors a field gets.

A class declares its instance fields in any number of members, several of them in one member if it
likes (`declaredFields`). An accessor of a field is in force if the class or the member asks for it.
The synthesized members are put behind those of the class whatever these are, so a class has, of
each name, the methods that it declares itself and one for every field whose accessor has that name
(`methodCount_getter`, `methodCount_setter`). Where no two fields agree up to the capital of their
first letter, that is one method more than the class declares (`methodCount_of_field`).
-/

namespace Recast.Lowering

/-! ### What a class declares -/

/-- The members of a class. -/
def classMembers (decl : Tree) : List Tree :=
  match decl.form with
  | .member (.classType _ _ _ _ _ _ members _) => members
  | _ => []

/-- The annotations of a class. -/
def classNotes (decl : Tree) : List Tree :=
  match decl.form with
  | .member (.classType _ _ notes ..) => notes
  | _ => []

/-- Whether a member is a method of a name. -/
def isMethodNamed (name : String) (member : Tree) : Bool :=
  match member.form with
  | .member (.method word ..) => word.isText name
  | _ => false

/-- The number of methods of a name that a class has. -/
def methodCount (decl : Tree) (name : String) : Nat :=
  (classMembers decl).countP (isMethodNamed name)

/-- Whether one of some annotations has one of some names. -/
def annotated (names : List String) (notes : List Tree) : Bool :=
  notes.any fun note => note.annotationName ∈ names

/-- An instance field, with the modifiers and annotations of the member that declares it. -/
structure DeclaredField where
  name : Word
  modifiers : List Modifier
  notes : List Tree

namespace DeclaredField

/-- The name of a field in the names of its accessors. -/
def capital (field : DeclaredField) : String := Text.capitalize field.name.display

/-- Whether a class with the given annotations, or the field's own, ask for a getter. -/
def hasGetter (notes : List Tree) (field : DeclaredField) : Bool :=
  annotated ["Getter", "Data"] notes || annotated ["Getter"] field.notes

/-- Whether a class with the given annotations, or the field's own, ask for a setter. -/
def hasSetter (notes : List Tree) (field : DeclaredField) : Bool :=
  annotated ["Setter", "Data"] notes || annotated ["Setter"] field.notes

/-- Whether a field can be set again. -/
def isVariable (field : DeclaredField) : Bool := decide (.final ∉ field.modifiers)

end DeclaredField

/-- The instance fields that a member declares. -/
def fieldsOf (member : Tree) : List DeclaredField :=
  match member.form with
  | .member (.field _ bindings modifiers notes) =>
    if .static ∈ modifiers then []
    else bindings.filterMap fun declared =>
      match declared.form with
      | .part (.declarator name ..) => some ⟨name, modifiers, notes⟩
      | _ => none
  | _ => []

/-- The instance fields that a class declares. -/
def declaredFields (decl : Tree) : List DeclaredField := (classMembers decl).flatMap fieldsOf

/-! ### What is synthesized -/

variable {decl : Tree} {name : String}

theorem annotated_eq (names : List String) (notes : List Tree) :
    annotated names notes = names.any (notes.map Tree.annotationName).contains := by
  rw [Bool.eq_iff_iff]
  simp [annotated, and_comm]

/-- The accessors of the fields of a member, as they are declared. -/
theorem accessorFields_eq (getters setters : Bool) (member : Tree) :
    (accessorFields getters setters member).map (fun field => (field.name, field.getter, field.setter))
      = (fieldsOf member).map fun field => (field.name,
          getters || annotated ["Getter"] field.notes,
          (setters || annotated ["Setter"] field.notes) && field.isVariable) := by
  unfold accessorFields fieldsOf
  generalize member.form = form
  cases form with
  | member form =>
    cases form with
    | field type bindings modifiers notes =>
      by_cases hstatic : .static ∈ modifiers
      · simp [hstatic]
      · simp only [if_neg hstatic, List.map_filterMap]
        refine List.filterMap_congr fun declared _ => ?_
        generalize declared.form = part
        cases part with
        | part form =>
          cases form with
          | declarator name dimensions initial => simp [annotated_eq, DeclaredField.isVariable]
          | _ => rfl
        | _ => rfl
    | _ => rfl
  | _ => rfl

/-- The fields of the summary of a class, as they are declared. -/
theorem summarize_fields (decl : Tree) :
    (summarize decl).fields.map (fun field => (field.name, field.getter, field.setter))
      = (declaredFields decl).map fun field => (field.name,
          field.hasGetter (classNotes decl),
          field.hasSetter (classNotes decl) && field.isVariable) := by
  have hgetter : ∀ notes : List Tree, ((notes.map Tree.annotationName).contains "Getter" ||
      (notes.map Tree.annotationName).contains "Data") = annotated ["Getter", "Data"] notes := by
    intro notes
    simp [annotated_eq]
  have hsetter : ∀ notes : List Tree, ((notes.map Tree.annotationName).contains "Setter" ||
      (notes.map Tree.annotationName).contains "Data") = annotated ["Setter", "Data"] notes := by
    intro notes
    simp [annotated_eq]
  unfold summarize declaredFields classMembers classNotes
  generalize decl.form = form
  cases form with
  | member form =>
    cases form with
    | classType name modifiers notes typeParameters parents interfaces members isInterface =>
      simp only [List.map_flatMap, accessorFields_eq, hgetter, hsetter]
      rfl
    | _ => rfl
  | _ => rfl

/-- What is counted among the fields of the summary is counted among the declared ones. -/
theorem countP_summarize (p : Word × Bool × Bool → Bool) (decl : Tree) :
    (summarize decl).fields.countP (fun field => p (field.name, field.getter, field.setter))
      = (declaredFields decl).countP fun field => p (field.name,
          field.hasGetter (classNotes decl),
          field.hasSetter (classNotes decl) && field.isVariable) := by
  have hcount := congrArg (List.countP p) (summarize_fields decl)
  rwa [List.countP_map, List.countP_map] at hcount

/-- The methods among the synthesized members are the setters and the getters. -/
theorem countP_synthesized (name : String) (summary : AccessorSummary) :
    (synthesized summary).countP (isMethodNamed name)
      = summary.fields.countP (fun field =>
          field.setter && decide ("set" ++ Text.capitalize field.name.display = name))
        + summary.fields.countP fun field =>
          field.getter && decide ("get" ++ Text.capitalize field.name.display = name) := by
  have hset : ∀ field, isMethodNamed name (setterOf field)
      = decide ("set" ++ Text.capitalize field.name.display = name) := by
    intro field
    simp [isMethodNamed, setterOf, publicMethod, plain, Tree.form, Value.isText, Value.text?]
  have hget : ∀ field, isMethodNamed name (getterOf field)
      = decide ("get" ++ Text.capitalize field.name.display = name) := by
    intro field
    simp [isMethodNamed, getterOf, publicMethod, plain, Tree.form, Value.isText, Value.text?]
  have hconstructor : ∀ parameters statements,
      isMethodNamed name (publicConstructor summary.className parameters statements) = false :=
    fun _ _ => rfl
  have hnone : ∀ (asked : Bool) parameters statements, (if asked then
      [publicConstructor summary.className parameters statements] else []).countP
        (isMethodNamed name) = 0 := by
    intro asked parameters statements
    cases asked with
    | true => simp [hconstructor]
    | false => rfl
  rw [synthesized, List.countP_append, List.countP_append, List.countP_append, hnone, hnone,
    List.countP_map, List.countP_map, List.countP_filter, List.countP_filter, Nat.zero_add]
  simp only [Function.comp_apply, hset, hget, Bool.and_comm]

/-! ### What a class has -/

theorem isMethodNamed_stripField (name : String) (member : Tree) :
    isMethodNamed name (stripField member) = isMethodNamed name member := by
  unfold stripField
  split
  · next hform =>
    split
    · rfl
    · cases member
      simp_all [isMethodNamed, Tree.withForm, Tree.form]
  · rfl

/-- A class keeps its methods, and the synthesized ones are added. -/
theorem methodCount_materialize (decl : Tree) (name : String) :
    methodCount (materialize decl) name
      = methodCount decl name + (synthesized (summarize decl)).countP (isMethodNamed name) := by
  unfold materialize
  split
  · next hform =>
    have hstrip : isMethodNamed name ∘ stripField = isMethodNamed name :=
      funext (isMethodNamed_stripField name)
    simp only [methodCount, classMembers, Tree.withForm, Tree.form_node, hform,
      List.countP_append, List.countP_map, hstrip]
  · next hother =>
    have hempty : synthesized (summarize decl) = [] := by
      unfold summarize
      split
      · next hform => exact absurd hform (hother _ _ _ _ _ _ _ _)
      · rfl
    rw [hempty, List.countP_nil, Nat.add_zero]

/-- A class has the getters that it declares and one for each field that is to have one. -/
theorem methodCount_getter (decl : Tree) (capital : String) :
    methodCount (materialize decl) ("get" ++ capital)
      = methodCount decl ("get" ++ capital) + (declaredFields decl).countP fun field =>
          field.hasGetter (classNotes decl) && decide (field.capital = capital) := by
  have hsetter : ∀ name : String, "set" ++ name ≠ "get" ++ capital := by
    intro name h
    simpa using congrArg (List.head? ∘ String.toList) h
  have hcount := countP_summarize
    (fun field => field.2.1 && decide (Text.capitalize field.1.display = capital)) decl
  rw [methodCount_materialize, countP_synthesized]
  simp only [hsetter, String.append_right_inj, decide_false, Bool.and_false, List.countP_false,
    Function.const_apply, Nat.zero_add, hcount]
  rfl

/-- A class has the setters that it declares and one for each field that is to have one. -/
theorem methodCount_setter (decl : Tree) (capital : String) :
    methodCount (materialize decl) ("set" ++ capital)
      = methodCount decl ("set" ++ capital) + (declaredFields decl).countP fun field =>
          (field.hasSetter (classNotes decl) && field.isVariable)
            && decide (field.capital = capital) := by
  have hgetter : ∀ name : String, "get" ++ name ≠ "set" ++ capital := by
    intro name h
    simpa using congrArg (List.head? ∘ String.toList) h
  have hcount := countP_summarize
    (fun field => field.2.2 && decide (Text.capitalize field.1.display = capital)) decl
  rw [methodCount_materialize, countP_synthesized]
  simp only [hgetter, String.append_right_inj, decide_false, Bool.and_false, List.countP_false,
    Function.const_apply, Nat.add_zero, hcount]
  rfl

/-- Where no two fields agree in the names of their accessors, a name stands for one of them. -/
theorem countP_capital {fields : List DeclaredField} {field : DeclaredField}
    {p : DeclaredField → Bool} (hnames : (fields.map DeclaredField.capital).Nodup)
    (hfield : field ∈ fields) (hp : p field) :
    fields.countP (fun other => p other && decide (other.capital = field.capital)) = 1 := by
  apply le_antisymm
  · calc fields.countP (fun other => p other && decide (other.capital = field.capital))
        ≤ fields.countP (fun other => decide (other.capital = field.capital)) :=
          List.countP_mono_left fun other _ h => (Bool.and_eq_true_iff.1 h).2
      _ = (fields.map DeclaredField.capital).count field.capital := by
          rw [List.count_eq_countP, List.countP_map]
          rfl
      _ ≤ 1 := List.nodup_iff_count_le_one.1 hnames _
  · exact List.one_le_countP_iff.2 ⟨field, hfield, by simp [hp]⟩

/-- **A field gets one accessor of each kind that is in force**, besides the methods of that name
which its class declares: synthesized members are added whatever the class has. So there is exactly
one of them if and only if the class declares none. -/
theorem methodCount_of_field {decl : Tree} {field : DeclaredField}
    (hnames : ((declaredFields decl).map DeclaredField.capital).Nodup)
    (hfield : field ∈ declaredFields decl) :
    (field.hasGetter (classNotes decl) →
      methodCount (materialize decl) ("get" ++ field.capital)
        = methodCount decl ("get" ++ field.capital) + 1) ∧
    (field.hasSetter (classNotes decl) → .final ∉ field.modifiers →
      methodCount (materialize decl) ("set" ++ field.capital)
        = methodCount decl ("set" ++ field.capital) + 1) := by
  constructor
  · intro hgetter
    rw [methodCount_getter, countP_capital hnames hfield hgetter]
  · intro hsetter hfinal
    have hboth : (field.hasSetter (classNotes decl) && field.isVariable) = true := by
      simp [hsetter, DeclaredField.isVariable, hfinal]
    rw [methodCount_setter, countP_capital (p := fun field =>
      field.hasSetter (classNotes decl) && field.isVariable) hnames hfield hboth]

/-- A class that asks for all accessors. It declares two fields at once, a final one with an
annotation of its own, a static one, and a getter written by hand. -/
def person : Tree :=
  let number := some (plain (.type (.primitive (.text "int"))))
  let binding := fun name : String => plain (.part (.declarator (.text name) 0 none))
  let note := fun name : String => plain (.part (.annotationUse (.text name) []))
  plain (.member (.classType (.text "Person") [] [note "Data"] [] [] []
    [plain (.member (.field number [binding "age", binding "weight"] [] [])),
     plain (.member (.field number [binding "id"] [.final] [note "lombok.Getter"])),
     plain (.member (.field number [binding "count"] [.static] [])),
     plain (.member (.method (.text "getAge") number [] [] none [] [] []))] false))

theorem methodCount_person :
    ((declaredFields person).map DeclaredField.capital).Nodup ∧
      ⟨.text "weight", [], []⟩ ∈ declaredFields person ∧
      methodCount (materialize person) "getWeight" = methodCount person "getWeight" + 1 ∧
      methodCount (materialize person) "setWeight" = methodCount person "setWeight" + 1 := by
  have hnames : ((declaredFields person).map DeclaredField.capital).Nodup := by decide
  have hweight : ⟨.text "weight", [], []⟩ ∈ declaredFields person := .tail _ (.head _)
  obtain ⟨hgetter, hsetter⟩ := methodCount_of_field hnames hweight
  exact ⟨hnames, hweight, hgetter (by decide), hsetter (by decide) (by decide)⟩

/-- A getter that a class declares itself is not left out of the synthesized ones. -/
theorem getAge_twice :
    ((declaredFields person).map DeclaredField.capital).Nodup ∧
      ⟨.text "age", [], []⟩ ∈ declaredFields person ∧
      DeclaredField.hasGetter (classNotes person) ⟨.text "age", [], []⟩ ∧
      methodCount (materialize person) "getAge" = 2 :=
  ⟨by decide, .head _, by decide, by decide⟩

end Recast.Lowering
