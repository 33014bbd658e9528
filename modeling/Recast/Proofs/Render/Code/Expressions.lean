import Mathlib
import Recast.Proofs.Render.Code.Basic

/-!
Code of expressions.

The blocks of lambdas hold comments, and so two texts of an expression can differ. They start with
the same character: a sign before its operand looks at that.
-/

namespace Recast.Render

theorem operand_follows {slot : Option Tree} (h : ∀ t ∈ slot.toList, Twinned t) (minimum : Nat) :
    Follows Twins (operand (slot.map Tree.rendering) minimum) (operand (slot.map Tree.twin) minimum)
      SameCode := by
  refine (slotExpr_follows h).bind fun code code' hcode => Follows.pure ?_
  have hlevel : (slot.map Tree.uncommented).map bindingLevel = slot.map bindingLevel := by
    cases slot with
    | none => rfl
    | some t => exact congrArg some (bindingLevel_uncommented t)
  rw [slotNode_rendering, slotNode_twin, hlevel]
  split
  · exact (hcode.after "(" rfl).text ")" rfl
  · exact hcode

theorem argumentsText_follows {arguments : List Tree} (h : ∀ t ∈ arguments, Twinned t) :
    Follows Twins (argumentsText (arguments.map Tree.rendering))
      (argumentsText (arguments.map Tree.twin)) SameCode := by
  refine (Follows.mapM fun t ht => (h t ht).expr).bind fun texts texts' htexts => Follows.pure ?_
  exact SameCode.intercalate rfl htexts

/-- A sign looks at how its operand starts. -/
theorem prefixText_sameCode {operator a b : String} (hoperator : operator ∈ Grammar.prefixOperators)
    (h : SameCode a b) : SameCode (prefixText operator a) (prefixText operator b) := by
  have hplain := isPlain_of_mem_prefixOperators operator hoperator
  have hstart : (operator = "-" ∨ operator = "+") ∧ operator.toList.isPrefixOf a.toList ↔
      (operator = "-" ∨ operator = "+") ∧ operator.toList.isPrefixOf b.toList := by
    apply and_congr_right
    have hhead := h.head
    rintro (rfl | rfl) <;> cases ha : a.toList <;> cases hb : b.toList <;> simp_all
  unfold prefixText
  by_cases hsign : (operator = "-" ∨ operator = "+") ∧ operator.toList.isPrefixOf a.toList
  · rw [if_pos hsign, if_pos (hstart.1 hsign)]
    exact (((SameCode.plain hplain).text "(" rfl).append h).text ")" rfl
  · rw [if_neg hsign, if_neg (mt hstart.2 hsign)]
    exact h.after operator hplain

theorem typeTest_follows {type : Option Tree} {subject subject' : Nat → Render String}
    (htype : ∀ t ∈ type, t.Everywhere (Tree.Named (Text.isPlain ·)))
    (h : ∀ minimum, Follows Twins (subject minimum) (subject' minimum) SameCode) :
    Follows Twins (typeTest type subject) (typeTest (type.map Tree.uncommented) subject')
      SameCode := by
  refine (ofType_follows (runtimeName_uncommented type)
    (runtimeName_composes composes_isPlain htype)).bind ?_
  rintro name _ ⟨rfl, hname⟩
  refine Follows.ite Iff.rfl (fun htypeof => ?_) fun _ => ?_
  · have hquoted : ∃ kept, Reads (" === '" ++ name ++ "'") kept := by
      have hnames : name ∈ ["string", "number", "boolean"] := by simpa [isTypeofName] using htypeof
      fin_cases hnames <;> exact ⟨_, rfl⟩
    obtain ⟨kept, hkept⟩ := hquoted
    refine (h _).bind fun text text' htext => Follows.pure ?_
    have hcode := (htext.after "typeof " rfl).append (SameCode.refl hkept)
    simpa only [String.append_assoc] using hcode
  · refine (h _).bind fun text text' htext => Follows.pure ?_
    exact (htext.text " instanceof " rfl).text name hname

theorem typeArgumentsText_follows {types : List Tree} (h : ∀ t ∈ types, Twinned t) :
    Follows Twins (typeArgumentsText types) (typeArgumentsText (types.map Tree.uncommented))
      SameCode := by
  refine Follows.ite (by simp) (fun _ => Follows.pure (SameCode.plain rfl)) fun _ => ?_
  refine (types_follow h).bind fun texts texts' htexts => Follows.pure ?_
  exact ((SameCode.intercalate rfl htexts).after "<" rfl).text ">" rfl

theorem createdType_follows {type : Option Tree} (h : ∀ t ∈ type.toList, Twinned t) :
    Follows Twins (createdType type) (createdType (type.map Tree.uncommented)) SameCode := by
  refine (slotType_follows h).bind ?_
  rintro text _ ⟨rfl, htext⟩
  have hwritten : Follows Twins (pure text : Render String) (pure text : Render String) SameCode :=
    Follows.pure (SameCode.plain htext)
  cases type with
  | none => exact hwritten
  | some t =>
    have hname := t.qualifiedName_uncommented
    have hplain := qualifiedName_composes composes_isPlain (h t (by simp)).clear.named
    rcases t with ⟨trivia, form | form | form | form | form | kind⟩ <;>
      rw [Tree.uncommented_node] at hname <;>
      simp only [Option.map_some, Tree.uncommented_node]
    case type =>
      cases form with
      | named name arguments scope orNull =>
        rcases arguments with _ | _ | ⟨first, rest⟩
        · exact hwritten
        · apply Follows.pure
          rw [Option.getD_some, Option.getD_some, hname]
          exact SameCode.plain hplain
        · exact hwritten
      | _ => exact hwritten
    all_goals exact hwritten

/-- The sizes of an array are written up to the first empty bracket pair. -/
theorem sizedArray_follows {element : String} {dimensions : List (Option Tree)}
    (helement : Text.isPlain element) (h : ∀ t ∈ dimensions.filterMap id, Twinned t) :
    Follows Twins (sizedArray element (dimensions.map (·.map Tree.rendering)))
      (sizedArray element (dimensions.map (·.map Tree.twin))) SameCode := by
  have hopen : SameCode ("new Array<" ++ element) ("new Array<" ++ element) :=
    (SameCode.plain rfl).text element helement
  induction dimensions with
  | nil => exact Follows.pure (hopen.text ">()" rfl)
  | cons first inner ih =>
    have hbrackets (n : Nat) : Text.isPlain (Text.times n "[]") := composes_isPlain.times rfl n
    cases first with
    | none =>
      apply Follows.pure
      rw [List.length_map, List.length_map]
      exact (hopen.text _ (hbrackets _)).text ">()" rfl
    | some size =>
      have hsizes : ∀ t ∈ size :: inner.filterMap id, Twinned t := h
      rw [List.forall_mem_cons] at hsizes
      refine hsizes.1.expr.bind fun length length' hlength => ?_
      have hlast : Follows Twins
          (pure ("new Array<" ++ element ++ Text.times inner.length "[]" ++ ">(" ++ length ++ ")"))
          (pure ("new Array<" ++ element ++ Text.times inner.length "[]" ++ ">(" ++ length' ++ ")"))
          SameCode :=
        Follows.pure ((((hopen.text _ (hbrackets _)).text ">(" rfl).append hlength).text ")" rfl)
      rcases inner with _ | ⟨_ | next, inner⟩
      · exact hlast
      · simpa using hlast
      · refine (ih hsizes.2).bind fun rest rest' hrest => Follows.pure ?_
        have hcode := (hlength.after "Array.from(\x7blength: " rfl).text "\x7d, () => " rfl
        exact (hcode.append hrest).text ")" rfl

theorem lambdaParameter_follows {t : Tree} (h : Twinned t) :
    Follows Twins (lambdaParameter t.rendering) (lambdaParameter t.twin) SameCode := by
  have hclear := h.clear
  unfold lambdaParameter
  rw [t.rendering_node, t.twin_node, t.form_uncommented]
  cases hform : t.form with
  | part form =>
    cases form with
    | parameter name type modifiers annotations isVarargs =>
      have hspelled := hclear.self.spelled
      rw [hform] at hspelled
      have hname : SameCode name.display name.display := SameCode.plain hspelled
      cases type with
      | none => exact Follows.pure hname
      | some type =>
        have htype : type.Everywhere Tree.Clear :=
          hclear.child (by simp [hform, Form.children, PartForm.children])
        refine (ofType_follows (typeText_uncommented type) (typeText_composes composes_isPlain htype.named)).bind ?_
        rintro text _ ⟨rfl, htext⟩
        exact Follows.pure ((hname.text ": " rfl).text text htext)
    | _ => exact Follows.pure (SameCode.plain rfl)
  | _ => exact Follows.pure (SameCode.plain rfl)

theorem lambdaBody_follows {slot : Option Tree} (h : ∀ t ∈ slot.toList, Twinned t) :
    Follows Twins (lambdaBody (slot.map Tree.rendering)) (lambdaBody (slot.map Tree.twin))
      SameCode := by
  cases slot with
  | none => exact operand_follows h _
  | some t =>
    have hoperand := operand_follows h assignmentLevel
    refine Follows.ite (by rw [isBlock_twin]) (fun _ => ?_) fun _ => hoperand
    refine Follows.read.bind fun scope twin hscope => ?_
    refine Follows.ite (by rw [hscope.same]) (fun _ => ?_) fun _ => Follows.unsupported
    exact Follows.withReader (block_follows true ((h t (by simp)).lines .nil))
      fun _ _ hscope => hscope.inBody

theorem methodReferenceText_follows {target : Option Tree} {name : Word}
    (hname : Text.isPlain name.display) (h : ∀ t ∈ target.toList, Twinned t) :
    Follows Twins (methodReferenceText (target.map Tree.rendering) name)
      (methodReferenceText (target.map Tree.twin) name) SameCode := by
  refine (operand_follows h _).bind fun text text' htext => ?_
  refine Follows.ite Iff.rfl (fun _ => Follows.pure ?_) fun _ => ?_
  · exact (htext.after "(...args) => new " rfl).text "(...args)" rfl
  · have hmember := Follows.pure (K := Twins) ((htext.text "." rfl).text name.display hname)
    rw [slotNode_rendering, slotNode_twin]
    cases target with
    | none => exact hmember
    | some t =>
      rcases t with ⟨trivia, form | form | form | form | form | kind⟩ <;>
        simp only [Option.map_some, Tree.uncommented_node]
      case expr =>
        cases form with
        | this qualifier =>
          exact Follows.pure (((SameCode.plain rfl).text name.display hname).text ".bind(this)" rfl)
        | _ => exact hmember
      all_goals exact hmember

/-- An expression has the code that it has without comments. -/
theorem exprForm_follows {node node' : Tree} {form : ExprForm Tree} (hspelled : form.isSpelled)
    (hline : (Form.expr form).isInLine) (h : ∀ t ∈ form.children, Twinned t) :
    Follows Twins (exprForm node (form.map Tree.rendering)) (exprForm node' (form.map Tree.twin))
      SameCode := by
  cases form with
  | literal value =>
    obtain ⟨kept, hkept⟩ := Literal.exists_reads_render hspelled (by simpa [Form.isInLine] using hline)
    exact Follows.pure (SameCode.refl hkept)
  | ident name => exact Follows.pure (SameCode.plain hspelled)
  | this | super => exact Follows.pure (SameCode.plain rfl)
  | bare => exact Follows.unsupported
  | field target name =>
    refine (operand_follows h _).bind fun text text' htext => Follows.pure ?_
    exact (htext.text "." rfl).text name.display hspelled
  | call name arguments target typeArguments =>
    simp only [ExprForm.children, List.forall_mem_append] at h
    obtain ⟨⟨harguments, htarget⟩, htypes⟩ := h
    refine (argumentsText_follows harguments).bind fun texts texts' htexts => ?_
    rw [nodes_rendering, nodes_twin]
    refine (typeArgumentsText_follows htypes).bind fun types types' htypes => ?_
    have hcall : SameCode (name.display ++ types ++ "(" ++ texts ++ ")")
        (name.display ++ types' ++ "(" ++ texts' ++ ")") :=
      (((htypes.after name.display hspelled).text "(" rfl).append htexts).text ")" rfl
    cases target with
    | none => exact Follows.pure hcall
    | some target =>
      refine (operand_follows htarget _).bind fun text text' htext => Follows.pure ?_
      exact (htext.text "." rfl).append hcall
  | create type arguments body =>
    simp only [ExprForm.children, List.forall_mem_append] at h
    cases body with
    | some members => exact Follows.stop_bind
    | none =>
      simp only [exprForm, ExprForm.map, Option.map_none, Option.isSome_none, Bool.false_eq_true,
        if_false, slotNode_rendering, slotNode_twin]
      refine (createdType_follows h.1.1).bind fun text text' htext => ?_
      refine (argumentsText_follows h.1.2).bind fun texts texts' htexts => Follows.pure ?_
      exact (((htext.after "new " rfl).text "(" rfl).append htexts).text ")" rfl
  | arrayLiteral values =>
    refine (argumentsText_follows h).bind fun text text' htext => Follows.pure ?_
    exact (htext.after "[" rfl).text "]" rfl
  | arrayCreate element dimensions initial =>
    simp only [ExprForm.children, List.forall_mem_append] at h
    cases initial with
    | some t => exact (h.2 t (by simp)).expr
    | none =>
      simp only [exprForm, ExprForm.map, Option.map_none, slotNode_rendering, slotNode_twin]
      refine (slotType_follows h.1.1).bind ?_
      rintro text _ ⟨rfl, htext⟩
      exact sizedArray_follows (elementText_composes composes_isPlain htext) h.1.2
  | subscript target index =>
    simp only [ExprForm.children, List.forall_mem_append] at h
    refine (operand_follows h.1 _).bind fun text text' htext => ?_
    refine (slotExpr_follows h.2).bind fun inner inner' hinner => Follows.pure ?_
    exact ((htext.text "[" rfl).append hinner).text "]" rfl
  | binary operator left right =>
    simp only [ExprForm.children, List.forall_mem_append] at h
    obtain ⟨kept, hkept⟩ := exists_reads_operatorText (of_decide_eq_true hspelled)
    refine (operand_follows h.1 _).bind fun a a' ha => ?_
    refine (operand_follows h.2 _).bind fun b b' hb => Follows.pure ?_
    simpa only [String.append_assoc] using (ha.append (SameCode.refl hkept)).append hb
  | unary operator operand isBefore =>
    simp only [ExprForm.children] at h
    cases isBefore with
    | true =>
      refine (operand_follows h _).bind fun text text' htext => Follows.pure ?_
      exact prefixText_sameCode (of_decide_eq_true hspelled) htext
    | false =>
      refine (operand_follows h _).bind fun text text' htext => Follows.pure ?_
      exact htext.text _ (isPlain_of_mem_updateOperators _ (of_decide_eq_true hspelled))
  | assign operator target value =>
    simp only [ExprForm.children, List.forall_mem_append] at h
    obtain ⟨kept, hkept⟩ := exists_reads_assignment (of_decide_eq_true hspelled)
    refine (operand_follows h.1 _).bind fun a a' ha => ?_
    refine (operand_follows h.2 _).bind fun b b' hb => Follows.pure ?_
    simpa only [String.append_assoc] using (ha.append (SameCode.refl hkept)).append hb
  | conditional condition whenTrue whenFalse =>
    simp only [ExprForm.children, List.forall_mem_append] at h
    refine (operand_follows h.1.1 _).bind fun a a' ha => ?_
    refine (operand_follows h.1.2 _).bind fun b b' hb => ?_
    refine (operand_follows h.2 _).bind fun c c' hc => Follows.pure ?_
    exact ((((ha.text " ? " rfl).append hb).text " : " rfl).append hc)
  | cast type expression =>
    simp only [ExprForm.children, List.forall_mem_append] at h
    refine (operand_follows h.2 _).bind fun text text' htext => ?_
    rw [slotNode_rendering, slotNode_twin]
    refine (slotType_follows h.1).bind ?_
    rintro type _ ⟨rfl, htype⟩
    exact Follows.pure ((((htext.after "(" rfl).text " as " rfl).text type htype).text ")" rfl)
  | instanceOf expression type =>
    simp only [ExprForm.children, List.forall_mem_append] at h
    simp only [exprForm, ExprForm.map, slotNode_rendering, slotNode_twin]
    exact typeTest_follows (named_slot h.2) fun minimum => operand_follows h.1 minimum
  | lambda parameters body =>
    simp only [ExprForm.children, List.forall_mem_append] at h
    refine (Follows.mapM fun t ht => lambdaParameter_follows (h.1 t ht)).bind
      fun texts texts' htexts => ?_
    refine (lambdaBody_follows h.2).bind fun text text' htext => Follows.pure ?_
    exact (((SameCode.intercalate rfl htexts).after "(" rfl).text ") => " rfl).append htext
  | methodReference target name => exact methodReferenceText_follows hspelled h
  | classLiteral type =>
    simp only [exprForm, ExprForm.map, slotNode_rendering, slotNode_twin]
    refine (ofType_follows (runtimeName_uncommented type)
      (runtimeName_composes composes_isPlain (named_slot h))).mono ?_
    rintro name _ ⟨rfl, hname⟩
    exact SameCode.plain hname

theorem expr_follows {t : Tree} (hclear : t.Clear) (h : ∀ child ∈ t.form.children, Twinned child) :
    Follows Twins t.rendering.expr t.twin.expr SameCode := by
  have hspelled := hclear.spelled
  have hline := hclear.inLine
  rw [Tree.twin, t.rendering_expr, t.uncommented.rendering_expr, t.form_twin]
  cases hform : t.form with
  | expr form =>
    rw [hform] at h hspelled hline
    exact exprForm_follows hspelled hline h
  | _ => exact Follows.unsupported

end Recast.Render
