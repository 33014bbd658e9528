import Mathlib
import Recast.Proofs.Tree.Orderly
import Recast.Proofs.Tree.Substitute
import Recast.Render

/-!
What rendering asks a tree.

Rendering looks at a tree in other ways than through the renderings of its children: for the text of
a type, the binding strength of an operand, the name of a member. None of these questions is about
comments, so a tree answers them as it does without its comments.
-/

namespace Recast

variable {β : Type}

namespace Tree

theorem fold_uncommented {alg : Tree → Form β → β}
    (halg : ∀ t layer, alg t.uncommented layer = alg t layer) (t : Tree) :
    t.uncommented.fold alg = t.fold alg := by
  induction t using induct with
  | step trivia form ih =>
    have hbelow : form.map (fold alg ∘ uncommented) = form.map (fold alg) := Form.map_congr ih
    have hself := halg (node trivia form) (form.map (fold alg))
    rw [uncommented_node] at hself ⊢
    rw [fold_node, fold_node, Form.map_map, hbelow, hself]

theorem qualifiedName_uncommented (t : Tree) : t.uncommented.qualifiedName = t.qualifiedName :=
  fold_uncommented (fun _ _ => rfl) t

theorem isTypeDeclaration_uncommented (t : Tree) :
    t.uncommented.isTypeDeclaration = t.isTypeDeclaration := by
  rcases t with ⟨trivia, form | form | form | form | form | kind⟩ <;> rw [uncommented_node]
  case foreign => rfl
  all_goals cases form <;> rfl

theorem name?_uncommented (t : Tree) : t.uncommented.name? = t.name? := by
  rcases t with ⟨trivia, form | form | form | form | form | kind⟩ <;> rw [uncommented_node]
  case foreign => rfl
  all_goals cases form <;> rfl

end Tree

namespace Render

/-! ### Types -/

theorem typeText_node (trivia : Trivia) (form : Form Tree) :
    typeText (.node trivia form) = typeLayer (.node trivia form) (form.map typeText) :=
  Tree.fold_node ..

theorem typeText_uncommented (t : Tree) : typeText t.uncommented = typeText t := by
  refine Tree.fold_uncommented (fun t layer => ?_) t
  unfold typeLayer
  rw [t.qualifiedName_uncommented]

theorem slotTypeText_uncommented (slot : Option Tree) :
    slotTypeText (slot.map Tree.uncommented) = slotTypeText slot := by
  cases slot with
  | none => rfl
  | some t => exact typeText_uncommented t

theorem arrayTypeText_uncommented (slot : Option Tree) (dimensions : Int) :
    arrayTypeText (slot.map Tree.uncommented) dimensions = arrayTypeText slot dimensions := by
  rw [arrayTypeText, slotTypeText_uncommented]
  rfl

theorem typeText_array (trivia : Trivia) (element : Option Tree) (dimensions : Int) :
    typeText (.node trivia (.type (.array element dimensions))) =
      arrayTypeText element dimensions := by
  rw [typeText_node]
  cases element <;> rfl

/-- The type of a variable is the declared one, an array of it, or an array of its elements. -/
theorem slotTypeText_variableType (base : Option Tree) (dimensions : Int) :
    slotTypeText (Tree.variableType base dimensions) =
      if dimensions = 0 then slotTypeText base
      else
        match base with
        | some (.node _ (.type (.array element outer))) =>
          arrayTypeText element (outer + dimensions)
        | base => arrayTypeText base dimensions := by
  unfold Tree.variableType
  split
  · rfl
  · rcases base with _ | ⟨trivia, form | form | form | form | form | kind⟩
    case some.type => cases form <;> exact typeText_array ..
    all_goals exact typeText_array ..

theorem variableType_uncommented (base : Option Tree) (dimensions : Int) :
    slotTypeText (Tree.variableType (base.map Tree.uncommented) dimensions) =
      slotTypeText (Tree.variableType base dimensions) := by
  rw [slotTypeText_variableType, slotTypeText_variableType, slotTypeText_uncommented]
  by_cases hzero : dimensions = 0
  · rw [if_pos hzero, if_pos hzero]
  · rw [if_neg hzero, if_neg hzero]
    have harray := arrayTypeText_uncommented base dimensions
    rcases base with _ | ⟨trivia, form | form | form | form | form | kind⟩
    case none => rfl
    case some.type =>
      cases form with
      | array element outer =>
        simpa [Form.map, TypeForm.map] using arrayTypeText_uncommented element (outer + dimensions)
      | _ => simpa [Form.map, TypeForm.map] using harray
    all_goals simpa [Form.map] using harray

theorem runtimeName_uncommented (slot : Option Tree) :
    runtimeName (slot.map Tree.uncommented) = runtimeName slot := by
  cases slot with
  | none => rfl
  | some t =>
    have htype := typeText_uncommented t
    have hname := t.qualifiedName_uncommented
    rcases t with ⟨trivia, form | form | form | form | form | kind⟩ <;>
      rw [Tree.uncommented_node] at hname htype <;>
      rw [Option.map_some, Tree.uncommented_node]
    case type =>
      cases form with
      | named => exact congrArg Except.ok hname
      | array => rfl
      | _ => exact htype
    all_goals exact htype

theorem typeParameterText_uncommented (t : Tree) :
    typeParameterText t.uncommented = typeParameterText t := by
  rcases t with ⟨trivia, form | form | form | form | form | kind⟩ <;> rw [Tree.uncommented_node]
  case part =>
    cases form with
    | typeParameter name bounds =>
      cases bounds with
      | nil => rfl
      | cons first rest =>
        have hbounds : ((first :: rest).map Tree.uncommented).mapM typeText =
            (first :: rest).mapM typeText := by
          rw [List.mapM_map]
          exact congrArg (List.mapM · (first :: rest)) (funext typeText_uncommented)
        exact congrArg (· >>= fun texts => pure (name.display ++ " extends "
          ++ String.intercalate " & " texts)) hbounds
    | _ => rfl
  all_goals rfl

theorem bindingLevel_uncommented (t : Tree) : bindingLevel t.uncommented = bindingLevel t := by
  rcases t with ⟨trivia, form | form | form | form | form | kind⟩ <;> rw [Tree.uncommented_node]
  case foreign => rfl
  all_goals cases form <;> rfl

theorem richName?_uncommented (t : Tree) : richName? t.uncommented = richName? t := by
  rcases t with ⟨trivia, form | form | form | form | form | kind⟩ <;> rw [Tree.uncommented_node]
  case expr =>
    cases form with
    | call name arguments => cases arguments <;> rfl
    | _ => rfl
  case part =>
    cases form with
    | enumConstant name arguments body => simp [richName?, Form.map, PartForm.map]
    | annotationUse name arguments => cases arguments <;> rfl
    | _ => rfl
  all_goals rfl

theorem boundName_uncommented (t : Tree) : boundName t.uncommented = boundName t := by
  rcases t with ⟨trivia, form | form | form | form | form | kind⟩ <;> rw [Tree.uncommented_node]
  case part =>
    cases form with
    | catchClause binding body =>
      rcases binding with _ | ⟨trivia, form | form | form | form | form | kind⟩
      case some.part =>
        simp only [Form.map, PartForm.map, Option.map_some, Tree.uncommented_node]
        cases form <;> rfl
      all_goals simp [boundName, Form.map, PartForm.map]
    | _ => rfl
  all_goals rfl

theorem present?_uncommented (t : Tree) :
    t.uncommented.present? = t.present?.map Tree.uncommented := by
  rcases t with ⟨trivia, form | form | form | form | form | kind⟩
  case foreign =>
    by_cases hkind : kind = Tree.kindOf none <;> simp [Tree.present?, Form.map, hkind]
  all_goals simp [Tree.present?, Form.map]

theorem caughtTypes_uncommented (t : Tree) :
    caughtTypes t.uncommented = (caughtTypes t).map (·.map Tree.uncommented) := by
  rcases t with ⟨trivia, form | form | form | form | form | kind⟩ <;> rw [Tree.uncommented_node]
  case part =>
    cases form with
    | catchClause binding body =>
      rcases binding with _ | ⟨trivia, form | form | form | form | form | kind⟩
      case some.part =>
        simp only [Form.map, PartForm.map, Option.map_some, Tree.uncommented_node]
        cases form with
        | parameter name type =>
          rcases type with _ | ⟨trivia, form | form | form | form | form | kind⟩
          case some.type =>
            simp only [Option.map_some, Tree.uncommented_node]
            cases form with
            | union elements =>
              simp [caughtTypes, Form.map, TypeForm.map, Function.comp_def, present?_uncommented]
            | _ => simp [caughtTypes, Form.map, TypeForm.map]
          all_goals simp [caughtTypes, Form.map, PartForm.map]
        | _ => rfl
      all_goals simp [caughtTypes, Form.map, PartForm.map]
    | _ => rfl
  all_goals rfl

theorem armType_uncommented (caught : Option Tree) :
    armType (caught.map Tree.uncommented) = (armType caught).map Tree.uncommented := by
  cases caught with
  | none => rfl
  | some t =>
    have hname := t.qualifiedName_uncommented
    rcases t with ⟨trivia, form | form | form | form | form | kind⟩
    case type =>
      cases form with
      | named name arguments scope orNull =>
        rw [Tree.uncommented_node] at hname
        simp only [armType, Option.map_some, Tree.uncommented_node, Tree.form_node, Form.map,
          TypeForm.map]
        simp only [Form.map, TypeForm.map] at hname
        rw [hname]
        split <;> simp [Form.map, TypeForm.map]
      | _ => simp [armType, Form.map, TypeForm.map]
    all_goals simp [armType, Form.map]

end Render

end Recast
