import Mathlib
import Recast.Proofs.Render.Built.Declarations

/-!
Nested types moved out.

A type is written without the types in its members, and these follow it. So the text of a type and
all types nested in it is the texts of single types, an outer type before its inner ones
(`typeDeclaration_eq`): a nested type leaves an empty chunk in the body of the outer one, which
changes no separator (`membersText_filter`), and is written in the scope of the outer type and not of
its body. Each type is written as it is alone, since no step depends on what was reported before,
and each nested one after the notice that it was moved (`typeDeclaration_hoists`).
-/

namespace Recast

/-- A type that stands in the members of another. -/
structure NestedType where
  /-- The name of the type in whose members it stands. -/
  outer : Word
  node : Tree

namespace Tree

/-- A type declaration in the members of a type of the given name, and the types nested in it;
nothing for other members. -/
def nestedIn (t : Tree) : Word → List NestedType :=
  fold (fun node layer outer =>
    match layer with
    | .member (.classType name _ _ _ _ _ members _) | .member (.enumType name _ _ _ _ members) =>
      ⟨outer, node⟩ :: members.flatMap (· name)
    | .member .bareType => [⟨outer, node⟩]
    | _ => []) t

/-- The types nested in a type by way of members, each before those nested in it. -/
def nestedTypes (t : Tree) : List NestedType :=
  match t.form with
  | .member (.classType name _ _ _ _ _ members _) | .member (.enumType name _ _ _ _ members) =>
    members.flatMap (·.nestedIn name)
  | _ => []

/-- A type and the types nested in it. -/
def typesWithin (t : Tree) : List Tree := t :: t.nestedTypes.map (·.node)

/-- A type without the types in its members. -/
def withoutNestedTypes (t : Tree) : Tree :=
  match t.form with
  | .member (.classType name modifiers annotations typeParameters parents interfaces members
      isInterface) =>
    t.withForm (.member (.classType name modifiers annotations typeParameters parents interfaces
      (members.filter (!·.isTypeDeclaration)) isInterface))
  | .member (.enumType name modifiers annotations interfaces constants members) =>
    t.withForm (.member (.enumType name modifiers annotations interfaces constants
      (members.filter (!·.isTypeDeclaration))))
  | _ => t

/-- The members of an enum; none of any other node. -/
def enumMembers (t : Tree) : List Tree :=
  match t.form with
  | .member (.enumType _ _ _ _ _ members) => members
  | _ => []

theorem nestedIn_eq (t : Tree) (outer : Word) :
    t.nestedIn outer = if t.isTypeDeclaration then ⟨outer, t⟩ :: t.nestedTypes else [] := by
  rcases t with ⟨trivia, form | form | form | form | form | kind⟩ <;> rw [nestedIn, fold_node]
  case member => cases form <;> simp [Form.map, MemberForm.map, isTypeDeclaration, nestedTypes,
    List.flatMap_map, nestedIn]
  all_goals rfl

/-- The types nested in the members of a type are the type declarations among them, each with the
types nested in it. -/
theorem flatMap_nestedIn (members : List Tree) (outer : Word) :
    members.flatMap (·.nestedIn outer) =
      (members.filter (·.isTypeDeclaration)).flatMap fun t => ⟨outer, t⟩ :: t.nestedTypes := by
  induction members with
  | nil => rfl
  | cons first rest ih =>
    rw [List.flatMap_cons, nestedIn_eq, ih]
    cases h : first.isTypeDeclaration <;> simp [h]

/-- The types within a class are itself and those within the types among its members. -/
theorem typesWithin_class (trivia : Trivia) (name : Word) (modifiers : List Modifier)
    (annotations typeParameters parents interfaces members : List Tree) (isInterface : Bool) :
    (node trivia (.member (.classType name modifiers annotations typeParameters parents interfaces
        members isInterface))).typesWithin =
      node trivia (.member (.classType name modifiers annotations typeParameters parents interfaces
        members isInterface)) :: (members.filter (·.isTypeDeclaration)).flatMap typesWithin := by
  rw [typesWithin, nestedTypes]
  simp only [form_node, flatMap_nestedIn, List.map_flatMap, List.map_cons]
  rfl

end Tree

namespace NestedType

/-- What is reported when a nested type is moved out. -/
def finding (n : NestedType) : Finding :=
  .nestedTypeHoisted (n.outer.display ++ "." ++ (n.node.declaredName?.getD .null).display)

/-- The notice that a nested type was moved out. -/
def notice (file : String) (n : NestedType) : Diagnostic :=
  ⟨n.finding, file, n.node.trivia.line?⟩

/-- A nested type where it is moved to, without the types nested in it. -/
def text (n : NestedType) : Render String := do
  Render.report n.finding n.node.trivia.line?
  n.node.withoutNestedTypes.rendering.typeDeclaration

end NestedType

namespace Render

/-! ### Bodies without nested types -/

theorem fieldFlags_cons (member : Rendering) (members : List Rendering) (chunk : String)
    (chunks : List String) : fieldFlags (member :: members) (chunk :: chunks) =
      (isField member.node, chunk) :: fieldFlags members chunks := by
  simp [fieldFlags]

/-- The text of some members after others, the last of which is or is not a field. -/
def joinedMembers (previous : Option Bool) (members : List Rendering) : Render String := do
  let chunks ← members.mapM fun r => (memberChild r).text
  return joinMembers previous (fieldFlags members chunks)

theorem joinMembers_cons {chunk : String} (hchunk : chunk ≠ "") (previous : Option Bool)
    (isField : Bool) (rest : List (Bool × String)) : joinMembers previous ((isField, chunk) :: rest) =
      joinMembers previous [(isField, chunk)] ++ joinMembers (some isField) rest := by
  simp [joinMembers, hchunk]

theorem joinedMembers_cons (previous : Option Bool) (member : Rendering) (rest : List Rendering) :
    joinedMembers previous (member :: rest) =
      (memberChild member).text >>= fun text =>
        if text = "" then joinedMembers previous rest
        else (joinMembers previous [(isField member.node, text)] ++ ·) <$>
          joinedMembers (some (isField member.node)) rest := by
  rw [joinedMembers, List.mapM_cons, bind_assoc]
  refine congrArg (bind _) (funext fun text => ?_)
  by_cases htext : text = ""
  · simp [joinedMembers, fieldFlags_cons, joinMembers, htext]
  · simp only [joinedMembers, fieldFlags_cons, if_neg htext, bind_assoc, pure_bind, map_bind,
      map_pure]
    exact congrArg (bind _) (funext fun chunks => congrArg pure (joinMembers_cons htext ..))

/-- A nested type leaves no trace among the members. -/
theorem joinedMembers_filter (previous : Option Bool) (members : List Rendering) :
    joinedMembers previous (members.filter (!·.node.isTypeDeclaration)) =
      joinedMembers previous members := by
  induction members generalizing previous with
  | nil => rfl
  | cons member rest ih =>
    rw [joinedMembers_cons]
    by_cases htype : member.node.isTypeDeclaration
    · have htext : (memberChild member).text = pure "" := if_pos htype
      rw [List.filter_cons_of_neg (by simpa using htype), htext, pure_bind, if_pos rfl, ih]
    · rw [List.filter_cons_of_pos (by simpa using htype), joinedMembers_cons, ih, ih]

theorem chunksFrom_nil (children : List Child) :
    chunksFrom [] children = children.mapM (·.text) := by
  induction children with
  | nil => rfl
  | cons child rest ih =>
    have hbefore : takeBefore child.position [] = ([], []) := by
      cases h : child.position <;> simp [takeBefore]
    rw [chunksFrom, hbefore, List.mapM_cons]
    simp [ih, underComments]

theorem membersText_filter {node twin : Tree} (members : List Rendering)
    (hnode : node.trivia.orphans = []) (htwin : twin.trivia.orphans = []) :
    membersText twin (members.filter (!·.node.isTypeDeclaration)) = membersText node members := by
  have hjoined (node : Tree) (members : List Rendering) (h : node.trivia.orphans = []) :
      membersText node members = do
        let indent ← indent
        let text ← indented (joinedMembers none members)
        return if text = "" then "\x7b\x7d" else "\x7b\n" ++ text ++ "\n" ++ indent ++ "\x7d" := by
    have hsorted : inOrder [] = [] := List.mergeSort_nil
    have hmap : indented (joinedMembers none members) =
        (fun chunks => joinMembers none (fieldFlags members chunks)) <$>
          indented (members.mapM fun r => (memberChild r).text) := by
      rw [joinedMembers, ← map_eq_pure_bind]
      rfl
    rw [membersText, h, childChunks, hsorted, chunksFrom_nil, List.mapM_map, hmap]
    simp only [bind_map_left]
    rfl
  rw [hjoined _ _ htwin, hjoined _ _ hnode, joinedMembers_filter]

/-! ### Types one after another -/

theorem intercalate_group {separator : String} {group : List String} (hgroup : group ≠ [])
    (rest : List String) :
    separator.intercalate (separator.intercalate group :: rest) =
      separator.intercalate (group ++ rest) := by
  cases rest with
  | nil => simp
  | cons next rest =>
    rw [String.intercalate_cons_cons, String.intercalate_append_of_ne_nil hgroup (by simp)]

/-- Texts that are joined from groups of texts are joined as all texts of the groups are. -/
theorem mapM_group {α β : Type} {separator : String} {items : List α} {lead : α → β}
    {others : α → List β} {f : β → Render String} {g : α → Render String}
    (hg : ∀ a ∈ items, g a = do
      let text ← f (lead a)
      let rest ← (others a).mapM f
      return separator.intercalate (text :: rest)) (first : String) :
    (items.mapM g >>= fun texts => pure (separator.intercalate (first :: texts))) =
      (items.flatMap fun a => lead a :: others a).mapM f >>= fun texts =>
        pure (separator.intercalate (first :: texts)) := by
  induction items generalizing first with
  | nil => rfl
  | cons a items ih =>
    rw [List.forall_mem_cons] at hg
    have hgroup (text : String) (rest texts : List String) :
        separator.intercalate (first :: separator.intercalate (text :: rest) :: texts) =
          separator.intercalate (separator.intercalate (first :: text :: rest) :: texts) := by
      rw [String.intercalate_cons_cons, intercalate_group (by simp), intercalate_group (by simp)]
      simp [String.intercalate_cons_cons]
    simp only [List.mapM_cons, hg.1, List.flatMap_cons, List.cons_append, List.mapM_append,
      bind_assoc, pure_bind, hgroup, ih hg.2]
    simp [intercalate_group]

theorem classText_filter {node twin : Tree} {name : Word} {modifiers : List Modifier}
    {annotations : List Rendering} {typeParameters parents interfaces : List Tree}
    {isInterface : Bool} (members : List Rendering) (hnode : node.trivia.orphans = [])
    (htwin : twin.trivia.orphans = []) :
    classText twin name modifiers annotations typeParameters parents interfaces
        (members.filter (!·.node.isTypeDeclaration)) isInterface =
      classText node name modifiers annotations typeParameters parents interfaces members
        isInterface := by
  rw [classText, classText, membersText_filter members hnode htwin]

/-- A class is written as it is without the types in its members, and these after it. -/
theorem typeDeclaration_class {t : Tree} {name : Word} {modifiers : List Modifier}
    {annotations typeParameters parents interfaces members : List Tree} {isInterface : Bool}
    (hform : t.form = .member (.classType name modifiers annotations typeParameters parents
      interfaces members isInterface)) (horphans : t.trivia.orphans = []) :
    t.rendering.typeDeclaration = do
      let first ← t.withoutNestedTypes.rendering.typeDeclaration
      let rest ← hoisted name (members.map Tree.rendering)
      return "\n\n".intercalate (first :: rest) := by
  obtain ⟨trivia, form⟩ := t
  obtain rfl : form = _ := hform
  have hnone : hoisted name ((members.filter (!·.isTypeDeclaration)).map Tree.rendering) =
      pure [] := by
    rw [hoisted, Tree.filter_map_rendering, List.filter_filter]
    simp
  rw [Tree.rendering_typeDeclaration, Tree.rendering_typeDeclaration]
  simp only [Tree.withoutNestedTypes, Tree.withForm, Tree.form_node, Form.map, MemberForm.map,
    typeDeclarationOf, hnone]
  rw [← Tree.filter_map_rendering fun t => !t.isTypeDeclaration, classText_filter _ horphans]
  · simp only [bind_assoc, pure_bind, String.intercalate_singleton]
    rfl
  · exact horphans

/-- Types nested in a type that are moved out, each from the texts of the types in it. -/
theorem hoisted_eq (outer : Word) (members : List Tree)
    (h : ∀ t ∈ members.filter (·.isTypeDeclaration), t.rendering.typeDeclaration = do
      let first ← t.withoutNestedTypes.rendering.typeDeclaration
      let rest ← t.nestedTypes.mapM NestedType.text
      return "\n\n".intercalate (first :: rest)) (first : String) :
    (hoisted outer (members.map Tree.rendering) >>= fun texts =>
        pure ("\n\n".intercalate (first :: texts))) =
      (members.flatMap (·.nestedIn outer)).mapM NestedType.text >>= fun texts =>
        pure ("\n\n".intercalate (first :: texts)) := by
  rw [Tree.flatMap_nestedIn, hoisted, Tree.filter_map_rendering, List.mapM_map]
  refine mapM_group (fun t ht => ?_) first
  simp only [Function.comp_apply, Tree.rendering_node, h t ht, NestedType.text, NestedType.finding,
    bind_assoc]

/-- The text of a type is that of the type without the types nested in it, followed by those of the
nested types. -/
theorem typeDeclaration_eq {t : Tree} (horphans : ∀ node ∈ t.typesWithin, node.trivia.orphans = [])
    (henums : ∀ node ∈ t.typesWithin, node.enumMembers = []) :
    t.rendering.typeDeclaration = do
      let first ← t.withoutNestedTypes.rendering.typeDeclaration
      let rest ← t.nestedTypes.mapM NestedType.text
      return "\n\n".intercalate (first :: rest) := by
  have hsingle {t : Tree} (hself : t.withoutNestedTypes = t) (hnone : t.nestedTypes = []) :
      t.rendering.typeDeclaration = do
        let first ← t.withoutNestedTypes.rendering.typeDeclaration
        let rest ← t.nestedTypes.mapM NestedType.text
        return "\n\n".intercalate (first :: rest) := by
    simp [hself, hnone]
  induction t using Tree.induct with
  | step trivia form ih =>
    cases form with
    | member form =>
      cases form with
      | classType name modifiers annotations typeParameters parents interfaces members isInterface =>
        rw [Tree.typesWithin_class, List.forall_mem_cons, List.forall_mem_flatMap] at horphans henums
        have htexts := hoisted_eq name members fun child hchild =>
          ih child (List.mem_append_right _ (List.mem_filter.1 hchild).1) (horphans.2 child hchild)
            (henums.2 child hchild)
        rw [typeDeclaration_class rfl horphans.1]
        exact congrArg (bind _) (funext htexts)
      | enumType name modifiers annotations interfaces constants members =>
        have hmembers : members = [] := henums _ List.mem_cons_self
        subst hmembers
        exact hsingle rfl rfl
      | _ => exact hsingle rfl rfl
    | _ => exact hsingle rfl rfl

/-! ### Enums -/

/-- What holds of a type that can be written holds of each type that is moved out. -/
theorem hoisted_ensures (outer : Word) {members : List Tree} {P : Tree → Prop}
    (h : ∀ child ∈ members.filter (·.isTypeDeclaration),
      Ensures (fun _ => True) child.rendering.typeDeclaration fun _ => P child) :
    Ensures (fun _ => True) (hoisted outer (members.map Tree.rendering))
      fun _ => ∀ child ∈ members.filter (·.isTypeDeclaration), P child := by
  rw [hoisted, Tree.filter_map_rendering, List.mapM_map]
  exact Ensures.mapM_forall fun child hchild => Ensures.bind_any fun _ => h child hchild

/-- A type is written only if no enum within it has members. -/
theorem typeDeclaration_ensures (t : Tree) :
    Ensures (fun _ => True) t.rendering.typeDeclaration
      fun _ => ∀ node ∈ t.typesWithin, node.enumMembers = [] := by
  have hsure {P : Prop} (x : Render String) (hP : P) : Ensures (fun _ => True) x fun _ => P :=
    fun _ _ _ _ _ => hP
  induction t using Tree.induct with
  | step trivia form ih =>
    rw [Tree.rendering_typeDeclaration]
    cases form with
    | member form =>
      cases form with
      | classType name modifiers annotations typeParameters parents interfaces members isInterface =>
        have hhoisted := hoisted_ensures name fun child hchild =>
          ih child (List.mem_append_right _ (List.mem_filter.1 hchild).1)
        refine Ensures.bind_any fun _ => Ensures.bind_any fun _ => hhoisted.bind fun _ hall => ?_
        refine hsure _ ?_
        rw [Tree.typesWithin_class, List.forall_mem_cons, List.forall_mem_flatMap]
        exact ⟨rfl, hall⟩
      | enumType name modifiers annotations interfaces constants members =>
        refine Ensures.bind (P := fun _ => members = []) ?_ fun _ hmembers => ?_
        · refine Ensures.bind_any fun _ => Ensures.bind_any fun _ => ?_
          refine Ensures.ite (fun _ => Ensures.stop_bind) fun hempty => hsure _ ?_
          simpa using hempty
        · subst hmembers
          refine hsure _ fun node hnode => ?_
          rw [List.mem_singleton.1 hnode]
          rfl
      | _ => exact Ensures.unsupported
    | _ => exact Ensures.unsupported

/-! ### Runs -/

/-- A run of the rendering of a type without the types nested in it. -/
def runAlone (scope : Scope) (t : Tree) : Outcome String :=
  runIn scope t.withoutNestedTypes.rendering.typeDeclaration

/-- A nested type is written as it is alone, after its notice. -/
theorem runIn_text (scope : Scope) (nested : NestedType) :
    (runIn scope nested.text).result = (runAlone scope nested.node).result ∧
      (runIn scope nested.text).diagnostics =
        nested.notice scope.file :: (runAlone scope nested.node).diagnostics := by
  have hrun : nested.text scope [] = _ :=
    (rendering_built nested.node.withoutNestedTypes).typeDeclaration.run_eq scope
      [nested.notice scope.file]
  simp only [runIn, runAlone, ReaderT.run, ExceptT.run, StateT.run, hrun]
  rcases nested.node.withoutNestedTypes.rendering.typeDeclaration scope [] with ⟨halt | text, log⟩
  · exact ⟨rfl, rfl⟩
  · exact ⟨rfl, rfl⟩

/-- A type that can be written is written as the types within it, each alone in the same scope and
without the types nested in it, with blank lines between them. The reports are those of each type,
after a notice with the name of the outer type for each nested one. Comments before the types
do not matter, only those in the gaps of their bodies. -/
theorem typeDeclaration_hoists {scope : Scope} {t : Tree} {text : String}
    (horphans : ∀ node ∈ t.typesWithin, node.trivia.orphans = [])
    (hok : (runIn scope t.rendering.typeDeclaration).result = .ok text) :
    ∃ first rest, (runAlone scope t).result = .ok first ∧
      List.Forall₂ (fun nested text => (runAlone scope nested.node).result = .ok text)
        t.nestedTypes rest ∧
      text = "\n\n".intercalate (first :: rest) ∧
      (runIn scope t.rendering.typeDeclaration).diagnostics =
        (runAlone scope t).diagnostics ++ t.nestedTypes.flatMap fun nested =>
          nested.notice scope.file :: (runAlone scope nested.node).diagnostics := by
  have henums := (typeDeclaration_ensures t).of_runIn True.intro hok
  have hbuilt : ∀ nested ∈ t.nestedTypes, Built (NestedType.text nested) := fun nested _ =>
    (Built.report _ _).bind fun _ => (rendering_built _).typeDeclaration
  rw [typeDeclaration_eq horphans henums] at hok ⊢
  obtain ⟨first, hfirst, hothers, hadded⟩ :=
    Built.of_runIn_bind (fun _ => (Built.mapM hbuilt).bind fun _ => .pure _) hok
  obtain ⟨rest, hrest, hjoined, hadded'⟩ := Built.of_runIn_bind (fun _ => .pure _) hothers
  obtain ⟨htexts, hdiagnostics⟩ := Built.of_runIn_mapM hbuilt hrest
  refine ⟨first, rest, hfirst, htexts.imp fun nested text h => ?_, (Except.ok.inj hjoined).symm, ?_⟩
  · rw [← (runIn_text scope nested).1]
    exact h
  · rw [hadded, hadded', hdiagnostics, List.flatMap_congr fun nested _ => (runIn_text scope nested).2]
    exact congrArg _ (List.append_nil _)

/-- A class with two types between its fields, one of which has an enum in it. -/
def outerClass : Tree :=
  let number : Option Tree := some (.node {} (.type (.primitive (.text "number"))))
  let field (name : String) : Tree := .node {} (.member (.field number
    [.node {} (.part (.declarator (.text name) 0 none))] [] []))
  let type (name : String) (members : List Tree) (isInterface : Bool) : Tree :=
    .node {} (.member (.classType (.text name) [] [] [] [] [] members isInterface))
  let kind : Tree := .node {} (.member (.enumType (.text "Kind") [] [] []
    [.node {} (.part (.enumConstant (.text "A") [] none []))] []))
  type "Outer" [field "a", type "Inner" [kind] false, field "b", type "Shape" [] true] false

/-- The fields of the class stand together, and the types follow it from outer to inner. -/
theorem typeDeclaration_hoists_outerClass :
    (runAlone {} outerClass).result =
      .ok "class Outer \x7b\n  a: number;\n  b: number;\n\x7d" ∧
    (runIn {} outerClass.rendering.typeDeclaration).result =
      .ok ("class Outer \x7b\n  a: number;\n  b: number;\n\x7d\n\nclass Inner \x7b\x7d\n\n"
        ++ "enum Kind \x7b\n  A,\n\x7d\n\ninterface Shape \x7b\x7d") ∧
    (runIn {} outerClass.rendering.typeDeclaration).diagnostics =
      [⟨.nestedTypeHoisted "Outer.Inner", "", none⟩, ⟨.nestedTypeHoisted "Inner.Kind", "", none⟩,
        ⟨.nestedTypeHoisted "Outer.Shape", "", none⟩] := by
  have hok : (runIn {} outerClass.rendering.typeDeclaration).result =
      .ok ("class Outer \x7b\n  a: number;\n  b: number;\n\x7d\n\nclass Inner \x7b\x7d\n\n"
        ++ "enum Kind \x7b\n  A,\n\x7d\n\ninterface Shape \x7b\x7d") := by decide +kernel
  obtain ⟨first, rest, hfirst, -, -, hdiagnostics⟩ :=
    typeDeclaration_hoists (by decide +kernel) hok
  refine ⟨by decide +kernel, hok, hdiagnostics.trans ?_⟩
  decide +kernel

end Render

end Recast
