import Mathlib
import Recast.Proofs.Render.Code.Statements

/-!
Code of declarations.

A comment in the body of a type makes a chunk of its own, or stands before one. Chunks without text are
left out, so the body of a type has the code of its members however the comments are spread over it.
-/

namespace Recast

variable {a b : String} {cs ds : List String} {k l : List Char}

/-! ### Bodies of types -/

namespace Chunks

/-- Chunks without text can be left out. -/
theorem filter (h : Chunks cs k) : Chunks (cs.filter (· ≠ "")) k := by
  induction h with
  | nil => exact .nil
  | @cons chunk chunks kept more hchunk hrest ih =>
    by_cases hempty : chunk = ""
    · subst hempty
      obtain rfl := Reads.eq_nil hchunk
      simpa using ih
    · simpa [hempty] using Chunks.cons hchunk ih

/-- The members of a body after one of them. -/
theorem fills_joinMembers_some {entries : List (Bool × String)} {previous : Bool}
    (h : Chunks (entries.map Prod.snd) k) (ha : Fills a l) :
    Fills (a ++ Render.joinMembers (some previous) entries) (l ++ k) := by
  induction entries generalizing previous a k l with
  | nil =>
    cases h
    simpa [Render.joinMembers] using ha
  | cons entry rest ih =>
    obtain ⟨isField, chunk⟩ := entry
    cases h with
    | @cons _ _ kept more hchunk hrest =>
      unfold Render.joinMembers
      split
      · rename_i hempty
        subst hempty
        obtain rfl := Reads.eq_nil hchunk
        exact ih hrest ha
      · have hjoin : Fills (chunk ++ Render.joinMembers (some isField) rest) (kept ++ more) :=
          ih hrest hchunk
        dsimp only
        split
        · have htext := Reads.append ha hjoin
          simpa [Fills, String.append_assoc] using htext
        · have htext := Reads.append ha (Reads.line.append hjoin)
          have hblank : "\n\n" = "\n" ++ "\n" := by decide
          rw [hblank]
          simpa only [Fills, String.append_assoc, List.nil_append] using htext

theorem fills_joinMembers {entries : List (Bool × String)} (h : Chunks (entries.map Prod.snd) k) :
    Fills (Render.joinMembers none entries) k := by
  induction entries generalizing k with
  | nil =>
    cases h
    exact Reads.line
  | cons entry rest ih =>
    obtain ⟨isField, chunk⟩ := entry
    cases h with
    | @cons _ _ kept more hchunk hrest =>
      unfold Render.joinMembers
      split
      · rename_i hempty
        subst hempty
        obtain rfl := Reads.eq_nil hchunk
        exact ih hrest
      · simpa using fills_joinMembers_some hrest hchunk

end Chunks

namespace Same

theorem intercalate {separator : String} (hseparator : Text.isPlain separator)
    (h : List.Forall₂ (Same Reads) cs ds) :
    Same Reads (separator.intercalate cs) (separator.intercalate ds) := by
  induction h with
  | nil => exact ⟨[], .empty, .empty⟩
  | cons hfirst hrest ih =>
    cases hrest with
    | nil => simpa using hfirst
    | cons hsecond hrest =>
      rw [String.intercalate_cons_cons, String.intercalate_cons_cons]
      exact (hfirst.append (SameCode.plain hseparator).same).append ih

end Same

namespace Render

/-- The text of a body in braces. -/
theorem bodyText_sameCode {indent : String} (hindent : Reads indent []) (h : Same Fills a b) :
    SameCode (if a = "" then "\x7b\x7d" else "\x7b\n" ++ a ++ "\n" ++ indent ++ "\x7d")
      (if b = "" then "\x7b\x7d" else "\x7b\n" ++ b ++ "\n" ++ indent ++ "\x7d") := by
  obtain ⟨kept, ha, hb⟩ := h
  have hbody {text : String} (htext : Fills text kept) : ∃ rest, Reads rest (kept ++ ['\x7d']) ∧
      (if text = "" then "\x7b\x7d" else "\x7b\n" ++ text ++ "\n" ++ indent ++ "\x7d")
        = "\x7b" ++ rest := by
    have hclose : Reads "\x7d" ['\x7d'] := rfl
    split
    · rename_i hempty
      subst hempty
      obtain rfl := Reads.eq_nil htext
      exact ⟨"\x7d", hclose, rfl⟩
    · refine ⟨_, Reads.line.append (Reads.append htext (hindent.append hclose)), ?_⟩
      simp [String.append_assoc]
      rfl
  obtain ⟨rest, hrest, heq⟩ := hbody ha
  obtain ⟨rest', hrest', heq'⟩ := hbody hb
  rw [heq, heq']
  exact SameCode.of_same rfl (by decide) ⟨_, hrest, hrest'⟩

/-! ### Parameters -/

/-- Without annotations there are no lines for them. -/
theorem annotationLines_follows :
    Follows Twins (annotationLines []) (annotationLines []) fun lines lines' =>
      lines = [] ∧ lines' = [] := by
  refine Follows.read.bind fun scope twin hscope => indent_bind fun indent hindent => ?_
  refine Follows.bind (R := fun a b => a = [] ∧ b = []) (Follows.pure ⟨rfl, rfl⟩) ?_
  rintro _ _ ⟨rfl, rfl⟩
  exact Follows.pure ⟨rfl, rfl⟩

theorem decoratorLines_follows :
    Follows Twins (decoratorLines []) (decoratorLines []) fun lines lines' =>
      lines = [] ∧ lines' = [] := by
  refine indent_bind fun indent hindent => ?_
  refine Follows.bind (R := fun a b => a = [] ∧ b = []) (Follows.pure ⟨rfl, rfl⟩) ?_
  rintro _ _ ⟨rfl, rfl⟩
  exact Follows.pure ⟨rfl, rfl⟩

theorem parameterText_follows {name : Word} {type : Option Tree} {modifiers : List Modifier}
    {isVarargs : Bool} (hname : Text.isPlain name.display) (htype : ∀ t ∈ type.toList, Twinned t) :
    Follows Twins (parameterText name (slotNode (type.map Tree.rendering)) modifiers [] isVarargs)
      (parameterText name (slotNode (type.map Tree.twin)) modifiers [] isVarargs) SameCode := by
  rw [slotNode_rendering, slotNode_twin]
  refine Follows.read.bind fun scope twin hscope => ?_
  refine Follows.bind (R := fun a b => a = [] ∧ b = []) (Follows.pure ⟨rfl, rfl⟩) ?_
  rintro _ _ ⟨rfl, rfl⟩
  have hfinal : twin.commentFinal = scope.commentFinal := by rw [hscope.same]
  rw [hfinal, hscope.final]
  have hhead : SameCode (String.join ([].map (· ++ " "))
      ++ Modifier.renderAll modifiers .parameter false false) (String.join ([].map (· ++ " "))
      ++ Modifier.renderAll modifiers .parameter false false) :=
    SameCode.plain (Text.isPlain_append.2 ⟨rfl, isPlain_renderAll _ _ _⟩)
  cases type with
  | none => exact Follows.pure (hhead.text _ hname)
  | some t =>
    refine Follows.ite Iff.rfl (fun _ => ?_) fun _ => ?_
    · refine (ofType_follows (arrayTypeText_uncommented (some t) 1)
        (arrayTypeText_composes composes_isPlain (named_slot htype) 1)).bind ?_
      rintro text _ ⟨rfl, htext⟩
      exact Follows.pure ((((hhead.text "..." rfl).text _ hname).text ": " rfl).text text htext)
    · refine (slotType_follows htype).bind ?_
      rintro text _ ⟨rfl, htext⟩
      exact Follows.pure (((hhead.text _ hname).text ": " rfl).text text htext)

theorem partOf_follows {node node' : Tree} {form : Form Tree} (hspelled : form.isSpelled)
    (hannotations : form.annotations = []) (h : ∀ t ∈ form.children, Twinned t) :
    Follows Twins (partOf node (form.map Tree.rendering)) (partOf node' (form.map Tree.twin))
      SameCode := by
  have hrefused {y : Render String} : Follows Twins (do
      discard ((declarationNotes (form.map Tree.rendering)).mapM (·.note))
      unsupported (.expression node.kind) : Render String) y SameCode :=
    Follows.bind_any fun _ => Follows.unsupported
  cases form with
  | part form =>
    cases form with
    | annotationArgument name value =>
      cases name with
      | null => exact slotExpr_follows h
      | _ =>
        refine (slotExpr_follows h).bind fun text text' htext => Follows.pure ?_
        exact ((SameCode.plain hspelled).text " = " rfl).append htext
    | parameter name type modifiers annotations isVarargs =>
      obtain rfl : annotations = [] := hannotations
      simp only [Form.children, PartForm.children, List.forall_mem_append] at h
      exact parameterText_follows hspelled h.1
    | _ => exact hrefused
  | expr form =>
    cases form with
    | literal => exact Follows.unsupported
    | assign => exact Follows.bind_any fun _ => Follows.unsupported
    | _ => exact hrefused
  | _ => exact hrefused

theorem parametersText_follows {parameters : List Tree} (h : ∀ t ∈ parameters, Twinned t) :
    Follows Twins (parametersText (parameters.map Tree.rendering))
      (parametersText (parameters.map Tree.twin)) SameCode := by
  refine (Follows.mapM fun t ht => (h t ht).part).bind fun texts texts' htexts => Follows.pure ?_
  exact SameCode.intercalate rfl htexts

theorem throwsText_follows {types : List Tree} (h : ∀ t ∈ types, Twinned t) :
    Follows Twins (throwsText ((types.map Tree.rendering).map (·.node)))
      (throwsText ((types.map Tree.twin).map (·.node))) fun a b => a = "" ∧ b = "" := by
  rw [nodes_rendering, nodes_twin]
  refine Follows.read.bind fun scope twin hscope => ?_
  refine (types_follow h).bind fun texts texts' _ => ?_
  rw [hscope.hooks, hscope.throws, hscope.throws]
  exact Follows.pure ⟨rfl, rfl⟩

theorem typeParametersText_follows {types : List Tree} (h : ∀ t ∈ types, Twinned t) :
    Follows Twins (ofType (typeParametersText ((types.map Tree.rendering).map (·.node))))
      (ofType (typeParametersText ((types.map Tree.twin).map (·.node))))
      fun a b => a = b ∧ Text.isPlain a := by
  rw [nodes_rendering, nodes_twin]
  refine ofType_follows ?_ (typeParametersText_composes composes_isPlain
    fun t ht => (h t ht).clear.named)
  cases types with
  | nil => rfl
  | cons first rest =>
    have htexts : ((first :: rest).map Tree.uncommented).mapM typeParameterText =
        (first :: rest).mapM typeParameterText := by
      rw [List.mapM_map]
      exact congrArg (List.mapM · (first :: rest)) (funext typeParameterText_uncommented)
    exact congrArg (· >>= fun texts => pure ("<" ++ String.intercalate ", " texts ++ ">")) htexts

/-! ### Members -/

theorem fieldVariableOf_follows {node node' : Tree} {form : Form Tree} (hspelled : form.isSpelled)
    (h : ∀ t ∈ form.children, Twinned t) :
    Follows Twins (fieldVariableOf node (form.map Tree.rendering))
      (fieldVariableOf node' (form.map Tree.twin)) SameCode := by
  cases form with
  | part form =>
    cases form with
    | declarator name dimensions initial =>
      refine Follows.read.bind fun scope twin hscope => ?_
      refine (typedVariable_follows hspelled dimensions).bind fun code code' hcode => ?_
      cases initial with
      | none => exact Follows.pure hcode
      | some t =>
        refine Follows.ite (by rw [hscope.same]) (fun _ => ?_) fun _ => ?_
        · exact Follows.report.bind fun _ _ _ => Follows.pure hcode
        · refine (h t List.mem_cons_self).expr.bind fun text text' htext => Follows.pure ?_
          exact (hcode.text " = " rfl).append htext
    | _ => exact noVariable_follows
  | _ => exact noVariable_follows

theorem fieldText_follows {type : Option Tree} {bindings : List Tree} {modifiers : List Modifier}
    (htype : ∀ t ∈ type.toList, Twinned t) (hbindings : ∀ t ∈ bindings, Twinned t) :
    Follows Twins
      (fieldText (slotNode (type.map Tree.rendering)) (bindings.map Tree.rendering) modifiers [])
      (fieldText (slotNode (type.map Tree.twin)) (bindings.map Tree.twin) modifiers [])
      SameCode := by
  rw [slotNode_rendering, slotNode_twin]
  refine Follows.read.bind fun scope twin hscope => indent_bind fun indent hindent => ?_
  have hinterface : twin.isInterface = scope.isInterface := by rw [hscope.same]
  rw [hinterface]
  refine decoratorLines_follows.bind ?_
  rintro _ _ ⟨rfl, rfl⟩
  refine Follows.bind (Follows.withReader (Follows.mapM fun t ht => (hbindings t ht).fieldVariable)
    fun _ _ hscope => hscope.declaring fun t ht => (htype t (Option.mem_toList.2 ht)).clear)
    fun texts texts' htexts => Follows.pure (SameCode.intercalate rfl ?_)
  have hwords : Text.isPlain (if scope.isInterface then "" else Modifier.renderAll modifiers .field) := by
    split
    · rfl
    · exact isPlain_renderAll _ _ _
  rw [List.nil_append, List.nil_append, List.forall₂_map_left_iff, List.forall₂_map_right_iff]
  refine htexts.imp fun _ _ htext => ?_
  exact (htext.after _ (Text.isPlain_append.2 ⟨hindent, hwords⟩)).text ";" rfl

theorem methodText_follows {node node' : Tree} {name : Word} {returnType : Option Tree}
    {parameters throws : List Tree} {body : Option Tree} {modifiers : List Modifier}
    {typeParameters : List Tree} (hname : Text.isPlain name.display)
    (hreturn : ∀ t ∈ returnType.toList, Twinned t) (hparameters : ∀ t ∈ parameters, Twinned t)
    (hthrows : ∀ t ∈ throws, Twinned t) (hbody : ∀ t ∈ body.toList, Twinned t)
    (htypes : ∀ t ∈ typeParameters, Twinned t) :
    Follows Twins
      (methodText node name (slotNode (returnType.map Tree.rendering))
        (parameters.map Tree.rendering) ((throws.map Tree.rendering).map (·.node))
        (body.map Tree.rendering) modifiers [] ((typeParameters.map Tree.rendering).map (·.node)))
      (methodText node' name (slotNode (returnType.map Tree.twin))
        (parameters.map Tree.twin) ((throws.map Tree.twin).map (·.node))
        (body.map Tree.twin) modifiers [] ((typeParameters.map Tree.twin).map (·.node)))
      SameCode := by
  rw [slotNode_rendering, slotNode_twin]
  refine Follows.read.bind fun scope twin hscope => indent_bind fun indent hindent => ?_
  have hinterface : twin.isInterface = scope.isInterface := by rw [hscope.same]
  rw [hinterface]
  refine annotationLines_follows.bind ?_
  rintro _ _ ⟨rfl, rfl⟩
  refine (typeParametersText_follows htypes).bind ?_
  rintro types _ ⟨rfl, htypes⟩
  refine (parametersText_follows hparameters).bind fun parameters parameters' hparameters => ?_
  refine (slotType_follows hreturn).bind ?_
  rintro returnType _ ⟨rfl, hreturn⟩
  refine (throwsText_follows hthrows).bind ?_
  rintro _ _ ⟨rfl, rfl⟩
  have hwords : Text.isPlain ((if scope.isInterface then "" else Modifier.renderAll modifiers .method)
      ++ (if isOverride [] && scope.classExtends && !name.isText "toString" then "override "
        else "")) := by
    refine Text.isPlain_append.2 ⟨?_, rfl⟩
    split
    · rfl
    · exact isPlain_renderAll _ _ _
  have hsignature := ((((((((SameCode.plain hindent).text _ hwords).text _ hname).text _ htypes).text
    "(" rfl).append hparameters).text "): " rfl).text _ hreturn).text "" rfl
  cases body with
  | none => exact Follows.pure (hsignature.text ";" rfl)
  | some t =>
    refine Follows.ite Iff.rfl (fun _ => ?_) fun _ => ?_
    · exact Follows.report.bind fun _ _ _ => Follows.pure (hsignature.text ";" rfl)
    · refine (Follows.withReader (block_follows true ((hbody t (by simp)).lines .nil))
        fun _ _ hscope => hscope.inBody).bind fun block block' hblock => Follows.pure ?_
      exact (hsignature.text " " rfl).append hblock

theorem constructorText_follows {parameters throws : List Tree} {body : Option Tree}
    {modifiers : List Modifier} (hparameters : ∀ t ∈ parameters, Twinned t)
    (hthrows : ∀ t ∈ throws, Twinned t) (hbody : ∀ t ∈ body.toList, Twinned t) :
    Follows Twins
      (constructorText (parameters.map Tree.rendering) ((throws.map Tree.rendering).map (·.node))
        (body.map Tree.rendering) modifiers [])
      (constructorText (parameters.map Tree.twin) ((throws.map Tree.twin).map (·.node))
        (body.map Tree.twin) modifiers []) SameCode := by
  refine indent_bind fun indent hindent => decoratorLines_follows.bind ?_
  rintro _ _ ⟨rfl, rfl⟩
  refine (parametersText_follows hparameters).bind fun parameters parameters' hparameters => ?_
  refine (throwsText_follows hthrows).bind ?_
  rintro _ _ ⟨rfl, rfl⟩
  refine (Follows.withReader (slotBlock_follows hbody true) fun _ _ hscope => hscope.inBody).bind
    fun block block' hblock => Follows.pure ?_
  have hhead := (((SameCode.plain hindent).text _ (isPlain_renderAll modifiers .constructor
    false)).text "constructor(" rfl).append hparameters
  exact (((hhead.text ")" rfl).text "" rfl).text " " rfl).append hblock

theorem memberOf_follows {node node' : Tree} {form : Form Tree} (hspelled : form.isSpelled)
    (hannotations : form.annotations = []) (h : ∀ t ∈ form.children, Twinned t) :
    Follows Twins (memberOf node (form.map Tree.rendering)) (memberOf node' (form.map Tree.twin))
      SameCode := by
  cases form with
  | member form =>
    cases form with
    | field type bindings modifiers annotations =>
      obtain rfl : annotations = [] := hannotations
      simp only [Form.children, MemberForm.children, List.forall_mem_append] at h
      exact fieldText_follows h.1.1 h.1.2
    | method name returnType parameters throws body modifiers annotations typeParameters =>
      obtain rfl : annotations = [] := hannotations
      simp only [Form.children, MemberForm.children, List.forall_mem_append] at h
      obtain ⟨⟨⟨⟨⟨hreturn, hparameters⟩, hthrows⟩, hbody⟩, -⟩, htypes⟩ := h
      exact methodText_follows hspelled hreturn hparameters hthrows hbody htypes
    | constructor name parameters throws body modifiers annotations typeParameters =>
      obtain rfl : annotations = [] := hannotations
      simp only [Form.children, MemberForm.children, List.forall_mem_append] at h
      obtain ⟨⟨⟨⟨hparameters, hthrows⟩, hbody⟩, -⟩, -⟩ := h
      exact constructorText_follows hparameters hthrows hbody
    | initializer body isStatic =>
      refine Follows.read.bind fun scope twin hscope => indent_bind fun indent hindent => ?_
      refine Follows.ite Iff.rfl (fun _ => Follows.stop_bind) fun _ => ?_
      refine (Follows.withReader (slotBlock_follows h true) fun _ _ hscope => hscope.inBody).bind
        fun block block' hblock => Follows.pure ?_
      exact ((SameCode.plain hindent).text "static " rfl).append hblock
    | _ => exact Follows.unsupported
  | _ => exact Follows.unsupported

/-! ### Types -/

theorem memberChild_sameChild {t : Tree} (h : Twinned t) :
    SameChild (memberChild t.rendering) (memberChild t.twin) := by
  unfold SameChild memberChild
  rw [t.rendering_node, t.twin_node, t.isTypeDeclaration_uncommented]
  refine Follows.ite Iff.rfl (fun _ => ?_) fun _ => ?_
  · exact Follows.pure ⟨[], Reads.line, Reads.line⟩
  · refine h.member.bind fun text text' htext => ?_
    exact (withComment_follows h.clear.self htext).mono fun _ _ => Same.fills

theorem membersText_follows {t : Tree} (hclear : t.Clear) {members : List Tree}
    (h : ∀ t ∈ members, Twinned t) :
    Follows Twins (membersText t (members.map Tree.rendering))
      (membersText t.uncommented (members.map Tree.twin)) SameCode := by
  have hchildren := sameChildren memberChild fun t ht => memberChild_sameChild (h t ht)
  refine indent_follows.bind ?_
  rintro indent _ ⟨rfl, -, hindent⟩
  refine (Follows.withReader (childChunks_follows hclear hchildren)
    fun _ _ hscope => hscope.indented).bind fun chunks chunks' hchunks => Follows.pure ?_
  obtain ⟨kept, hchunks, hchunks'⟩ := hchunks
  refine bodyText_sameCode hindent ⟨kept, Chunks.fills_joinMembers ?_, Chunks.fills_joinMembers ?_⟩
  · rwa [map_snd_fieldFlags]
  · rwa [map_snd_fieldFlags]

theorem parentsText_follows {keyword : String} (hkeyword : Text.isPlain keyword)
    {types : List Tree} (h : ∀ t ∈ types, Twinned t) :
    Follows Twins (parentsText keyword types) (parentsText keyword (types.map Tree.uncommented))
      SameCode := by
  refine Follows.ite (by simp) (fun _ => Follows.pure (SameCode.plain rfl)) fun _ => ?_
  refine (types_follow h).bind fun texts texts' htexts => Follows.pure ?_
  have hhead := ((SameCode.plain (a := " ") rfl).text keyword hkeyword).text " " rfl
  exact hhead.append (SameCode.intercalate rfl htexts)

theorem classText_follows {t : Tree} (hclear : t.Clear) {name : Word}
    (hname : Text.isPlain name.display) {modifiers : List Modifier}
    {typeParameters parents interfaces members : List Tree} {isInterface : Bool}
    (htypes : ∀ t ∈ typeParameters, Twinned t) (hparents : ∀ t ∈ parents, Twinned t)
    (hinterfaces : ∀ t ∈ interfaces, Twinned t) (hmembers : ∀ t ∈ members, Twinned t) :
    Follows Twins
      (classText t name modifiers [] ((typeParameters.map Tree.rendering).map (·.node))
        ((parents.map Tree.rendering).map (·.node)) ((interfaces.map Tree.rendering).map (·.node))
        (members.map Tree.rendering) isInterface)
      (classText t.uncommented name modifiers [] ((typeParameters.map Tree.twin).map (·.node))
        ((parents.map Tree.twin).map (·.node)) ((interfaces.map Tree.twin).map (·.node))
        (members.map Tree.twin) isInterface) SameCode := by
  have htypeTexts := typeParametersText_follows htypes
  rw [nodes_rendering parents, nodes_rendering interfaces, nodes_twin parents, nodes_twin interfaces]
  refine Follows.read.bind fun scope twin hscope => indent_bind fun indent hindent => ?_
  have htop : twin.topLevel = scope.topLevel := by rw [hscope.same]
  rw [htop]
  refine decoratorLines_follows.bind ?_
  rintro _ _ ⟨rfl, rfl⟩
  refine htypeTexts.bind ?_
  rintro types _ ⟨rfl, htypes⟩
  refine (parentsText_follows rfl hparents).bind fun extended extended' hextended => ?_
  refine (parentsText_follows rfl hinterfaces).bind fun implemented implemented' himplemented => ?_
  rw [List.isEmpty_map]
  refine (Follows.withReader (membersText_follows hclear hmembers)
    fun _ _ hscope => hscope.inType _ _ _).bind fun body body' hbody => Follows.pure ?_
  have hkeyword : Text.isPlain (if isInterface then "interface " else "class ") := by
    cases isInterface <;> rfl
  have hwords := isPlain_renderAll
    (if isInterface then modifiers.filter (· ≠ .abstr) else modifiers) .type scope.topLevel
  have hhead := (((SameCode.plain hindent).text _ hwords).text _ hkeyword).text _ hname
  exact ((((hhead.text _ htypes).append hextended).append himplemented).text " " rfl).append hbody

theorem constantChild_sameChild {t : Tree} (h : t.Clear) :
    SameChild (constantChild t.rendering) (constantChild t.twin) := by
  have hspelled := h.spelled
  unfold SameChild constantChild
  rw [t.rendering_node, t.twin_node, t.form_uncommented]
  cases hform : t.form with
  | part form =>
    rw [hform] at hspelled
    cases form with
    | enumConstant name arguments body annotations =>
      refine indent_bind fun indent hindent => ?_
      refine (withComment_follows h ?_).mono fun _ _ => Same.fills
      exact (((SameCode.plain hindent).text name.display hspelled).text "," rfl).same
    | _ => exact Follows.unsupported
  | _ => exact Follows.unsupported

theorem richConstant?_twin (constants : List Tree) :
    richConstant? (constants.map Tree.twin) = richConstant? (constants.map Tree.rendering) := by
  simp [richConstant?, List.findSome?_map, Function.comp_def, Tree.rendering_node, Tree.twin_node,
    richName?_uncommented]

theorem enumText_follows {t : Tree} (hclear : t.Clear) {name : Word}
    (hname : Text.isPlain name.display) {modifiers : List Modifier}
    {interfaces interfaces' constants members : List Tree}
    (hconstants : ∀ t ∈ constants, Twinned t) :
    Follows Twins
      (enumText t name modifiers [] interfaces (constants.map Tree.rendering)
        (members.map Tree.rendering))
      (enumText t.uncommented name modifiers [] interfaces' (constants.map Tree.twin)
        (members.map Tree.twin)) SameCode := by
  have hchildren := sameChildren constantChild fun t ht =>
    constantChild_sameChild (hconstants t ht).clear.self
  refine Follows.read.bind fun scope twin hscope => indent_follows.bind ?_
  rintro indent _ ⟨rfl, hindent, hblank⟩
  have htop : twin.topLevel = scope.topLevel := by rw [hscope.same]
  rw [htop]
  refine Follows.ite (by simp) (fun _ => Follows.stop_bind) fun _ => ?_
  rw [richConstant?_twin]
  split
  · exact Follows.stop_bind
  · refine Follows.reportIf.bind fun _ _ _ => annotationLines_follows.bind ?_
    rintro _ _ ⟨rfl, rfl⟩
    refine (Follows.withReader (childChunks_follows hclear hchildren)
      fun _ _ hscope => hscope.indented).bind fun chunks chunks' hchunks => ?_
    have hheader : Text.isPlain (indent ++ Modifier.renderAll (modifiers.filter (· ≠ .final)) .type
        scope.topLevel ++ "enum " ++ name.display ++ " \x7b") := by
      simp only [Text.isPlain_append]
      exact ⟨⟨⟨⟨hindent, isPlain_renderAll _ _ _⟩, rfl⟩, hname⟩, rfl⟩
    rw [← apply_ite Pure.pure, ← apply_ite Pure.pure]
    exact Follows.pure (Chunks.sameCode_braces hheader (by simp) hblank hchunks)

theorem filter_map_twin (members : List Tree) :
    (members.map Tree.twin).filter (·.node.isTypeDeclaration) =
      (members.filter (·.isTypeDeclaration)).map Tree.twin := by
  simp [List.filter_map, Function.comp_def, Tree.twin_node, Tree.isTypeDeclaration_uncommented]

theorem hoisted_follows {outer : Word} {members : List Tree} (h : ∀ t ∈ members, Twinned t) :
    Follows Twins (hoisted outer (members.map Tree.rendering))
      (hoisted outer (members.map Tree.twin)) (List.Forall₂ (Same Reads)) := by
  unfold hoisted
  rw [Tree.filter_map_rendering, filter_map_twin]
  refine Follows.mapM fun t ht => Follows.report.bind fun _ _ _ => ?_
  exact (h t (List.mem_filter.1 ht).1).typeDeclaration

theorem typeDeclarationOf_follows {t : Tree} (hclear : t.Clear)
    (h : ∀ child ∈ t.form.children, Twinned child) :
    Follows Twins (typeDeclarationOf t (t.form.map Tree.rendering))
      (typeDeclarationOf t.uncommented (t.form.map Tree.twin)) (Same Reads) := by
  have hspelled := hclear.spelled
  have hannotations := hclear.unannotated
  cases hform : t.form with
  | member form =>
    rw [hform] at h hspelled hannotations
    cases form with
    | classType name modifiers annotations typeParameters parents interfaces members isInterface =>
      obtain rfl : annotations = [] := hannotations
      simp only [Form.children, MemberForm.children, List.forall_mem_append] at h
      obtain ⟨⟨⟨⟨-, htypes⟩, hparents⟩, hinterfaces⟩, hmembers⟩ := h
      refine (classText_follows hclear hspelled htypes hparents hinterfaces hmembers).bind
        fun text text' htext => ?_
      refine (withComment_follows hclear htext.same).bind fun text text' htext => ?_
      refine (hoisted_follows hmembers).bind fun nested nested' hnested => Follows.pure ?_
      exact Same.intercalate rfl (.cons htext hnested)
    | enumType name modifiers annotations interfaces constants members =>
      obtain rfl : annotations = [] := hannotations
      simp only [Form.children, MemberForm.children, List.forall_mem_append] at h
      refine (enumText_follows hclear hspelled h.1.2).bind fun text text' htext => ?_
      exact withComment_follows hclear htext.same
    | _ => exact Follows.unsupported
  | _ => exact Follows.unsupported

end Render

end Recast
