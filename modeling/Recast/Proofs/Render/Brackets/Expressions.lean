import Mathlib
import Recast.Proofs.Render.Brackets.Basic

/-!
Brackets of expressions.

Each expression closes what it opens: the parentheses around an operand, an argument list, an index,
a cast, the calls that make an array of a given size. The rest are words and closed parts.
-/

namespace Recast.Render

/-! ### Parts -/

theorem intercalate_closed {pieces : List String} (h : AreClosed pieces) :
    IsClosed (", ".intercalate pieces) :=
  composes_isClosed.intercalate (composes_isClosed.fixed ", " (by simp)) h

theorem operand_closed {slot : Option Tree} (h : ∀ t ∈ slot.toList, Matched t) (minimum : Nat) :
    Ensures Bare (operand (slot.map Tree.rendering) minimum) IsClosed := by
  refine (slotExpr_closed h).bind fun code hcode => Ensures.pure ?_
  split
  · exact hcode.group
  · exact hcode

theorem argumentsText_closed {arguments : List Tree} (h : ∀ t ∈ arguments, Matched t) :
    Ensures Bare (argumentsText (arguments.map Tree.rendering)) IsClosed :=
  (exprs_closed h).bind fun _ htexts => Ensures.pure (intercalate_closed htexts)

theorem prefixText_closed {operator operand : String} (hoperator : IsClosed operator)
    (hoperand : IsClosed operand) : IsClosed (prefixText operator operand) := by
  intro due
  unfold prefixText
  split <;> simp [hoperator _, hoperand _]

theorem typeTest_closed {type : Option Tree} (h : ∀ t ∈ type, t.Everywhere (Tree.Named IsClosed))
    {subject : Nat → Render String} (hsubject : ∀ minimum, Ensures Bare (subject minimum) IsClosed) :
    Ensures Bare (typeTest type subject) IsClosed := by
  refine (Ensures.ofType (runtimeName_composes composes_isClosed h)).bind fun name hname => ?_
  refine Ensures.ite (fun _ => ?_) fun _ => ?_
  all_goals
    refine (hsubject _).bind fun text htext => Ensures.pure fun due => ?_
    simp [hname _, htext _]

theorem typeArgumentsText_closed {types : List Tree} (h : ∀ t ∈ types, Matched t) :
    Ensures Bare (typeArgumentsText ((types.map Tree.rendering).map (·.node))) IsClosed := by
  refine Ensures.ite (fun _ => Ensures.pure fun due => by simp) fun _ => ?_
  refine (types_closed h).bind fun texts htexts => Ensures.pure fun due => ?_
  simp [-String.toList_intercalate, intercalate_closed htexts _]

theorem createdType_closed {type : Option Tree} (h : ∀ t ∈ type.toList, Matched t) :
    Ensures Bare (createdType (slotNode (type.map Tree.rendering))) IsClosed := by
  have hnamed := named_slotNode h
  refine (Ensures.ofType (slotTypeText_composes composes_isClosed hnamed)).bind fun text htext => ?_
  split
  · refine Ensures.pure ?_
    cases hslot : slotNode (type.map Tree.rendering) with
    | none => exact composes_isClosed.fixed "" (by simp)
    | some t => exact qualifiedName_composes composes_isClosed (hnamed t hslot)
  · exact Ensures.pure htext

/-- The brackets of an array without sizes. -/
theorem times_closed (n : Nat) : IsClosed (Text.times n "[]") :=
  composes_isClosed.times (composes_isClosed.fixed "[]" (by simp)) n

theorem sizedArray_closed {element : String} (helement : IsClosed element)
    {dimensions : List (Option Tree)} (h : ∀ t ∈ dimensions.filterMap id, Matched t) :
    Ensures Bare (sizedArray element (dimensions.map (·.map Tree.rendering))) IsClosed := by
  induction dimensions with
  | nil => exact Ensures.pure fun due => by simp [helement _]
  | cons first inner ih =>
    cases first with
    | none => exact Ensures.pure fun due => by simp [helement _, times_closed _ _]
    | some size =>
      have hsizes : ∀ t ∈ size :: inner.filterMap id, Matched t := h
      rw [List.forall_mem_cons] at hsizes
      refine hsizes.1.expr.bind fun length hlength => ?_
      rcases inner with _ | ⟨_ | next, inner⟩
      · exact Ensures.pure fun due => by simp [helement _, hlength _, times_closed _ _]
      · exact Ensures.pure fun due => by simp [helement _, hlength _, times_closed _ _]
      · refine (ih hsizes.2).bind fun rest hrest => Ensures.pure fun due => ?_
        simp [hlength _, hrest _]

theorem lambdaParameter_closed {t : Tree} (h : t.Everywhere Tree.Unbracketed) :
    Ensures Bare (lambdaParameter t.rendering) IsClosed := by
  unfold lambdaParameter
  rw [Tree.rendering_node]
  have hwords := h.self.words
  split
  · rename_i name _ _ _ hform
    rw [hform] at hwords
    exact Ensures.pure (IsClosed.of_free (hwords name List.mem_cons_self))
  · rename_i name type _ _ _ hform
    rw [hform] at hwords
    have hname := IsClosed.of_free (hwords name List.mem_cons_self)
    have hmem : type ∈ t.form.children := by simp [hform, Form.children, PartForm.children]
    have htype := h.child hmem
    refine (Ensures.ofType (typeText_composes composes_isClosed htype.namedClosed)).bind
      fun text htext => Ensures.pure fun due => ?_
    simp [hname _, htext _]
  · exact Ensures.pure (composes_isClosed.fixed "" (by simp))

theorem lambdaBody_closed {body : Option Tree} (h : ∀ t ∈ body.toList, Matched t) :
    Ensures Bare (lambdaBody (body.map Tree.rendering)) IsClosed := by
  cases body with
  | none => exact Ensures.unsupported.bind fun _ => Ensures.pure
  | some t =>
    refine Ensures.ite (fun _ => ?_) fun _ => operand_closed h _
    refine Ensures.read.bind fun scope _ => Ensures.ite (fun _ => ?_) fun _ => Ensures.unsupported
    exact inBody_bare ((h t (by simp)).block true)

theorem methodReferenceText_closed {target : Option Tree} (h : ∀ t ∈ target.toList, Matched t)
    {name : Word} (hname : IsClosed name.display) :
    Ensures Bare (methodReferenceText (target.map Tree.rendering) name) IsClosed := by
  refine (operand_closed h _).bind fun text htext => ?_
  refine Ensures.ite (fun _ => Ensures.pure fun due => by simp [htext _]) fun _ => ?_
  split
  · exact Ensures.pure fun due => by simp [hname _]
  · exact Ensures.pure fun due => by simp [hname _, htext _]

/-! ### Expressions -/

theorem render_closed {value : String} (h : IsFree value) : IsClosed (Literal.render value) := by
  refine IsClosed.of_free (h.of_mem fun c hc => (Literal.mem_of_mem_render hc).imp_right ?_)
  rintro rfl
  rfl

theorem operatorText_closed {operator : String} (h : IsClosed operator) :
    IsClosed (operatorText operator) := by
  unfold operatorText
  split
  · exact fun due => by simp
  · exact fun due => by simp
  · exact h

theorem exprForm_closed {node : Tree} {form : ExprForm Tree}
    (hwords : ∀ word ∈ form.words, IsFree word.display) (h : ∀ t ∈ form.children, Matched t) :
    Ensures Bare (exprForm node (form.map Tree.rendering)) IsClosed := by
  have hword : ∀ word ∈ form.words, IsClosed word.display :=
    fun word hmem => IsClosed.of_free (hwords word hmem)
  cases form with
  | ident name => exact Ensures.pure (hword name List.mem_cons_self)
  | literal value => exact Ensures.pure (render_closed (hwords value List.mem_cons_self))
  | this | super => exact Ensures.pure fun due => by simp
  | bare => exact Ensures.unsupported
  | field target name =>
    have hname := hword name List.mem_cons_self
    exact (operand_closed h _).bind fun text htext =>
      Ensures.pure fun due => by simp [htext _, hname _]
  | call name arguments target typeArguments =>
    have hname := hword name List.mem_cons_self
    simp only [ExprForm.children, List.forall_mem_append] at h
    refine (argumentsText_closed h.1.1).bind fun texts htexts =>
      (typeArgumentsText_closed h.2).bind fun types htypes => ?_
    cases target with
    | none => exact Ensures.pure fun due => by simp [hname _, htypes _, htexts _]
    | some target =>
      exact (operand_closed h.1.2 _).bind fun text htext =>
        Ensures.pure fun due => by simp [htext _, hname _, htypes _, htexts _]
  | create type arguments body =>
    simp only [ExprForm.children, List.forall_mem_append] at h
    refine Ensures.ite (fun _ => Ensures.stop_bind) fun _ => ?_
    exact (createdType_closed h.1.1).bind fun text htext => (argumentsText_closed h.1.2).bind
      fun texts htexts => Ensures.pure fun due => by simp [htext _, htexts _]
  | arrayLiteral values =>
    exact (argumentsText_closed h).bind fun texts htexts =>
      Ensures.pure fun due => by simp [htexts _]
  | arrayCreate element dimensions initial =>
    simp only [ExprForm.children, List.forall_mem_append] at h
    cases initial with
    | some initial => exact (h.2 initial (by simp)).expr
    | none =>
      have htype := slotTypeText_composes composes_isClosed (named_slotNode h.1.1)
      exact (Ensures.ofType htype).bind fun text htext =>
        sizedArray_closed (elementText_composes composes_isClosed htext) h.1.2
  | subscript target index =>
    simp only [ExprForm.children, List.forall_mem_append] at h
    exact (operand_closed h.1 _).bind fun text htext => (slotExpr_closed h.2).bind
      fun index hindex => Ensures.pure fun due => by simp [htext _, hindex _]
  | binary operator left right =>
    have hoperator := operatorText_closed (hword operator List.mem_cons_self)
    simp only [ExprForm.children, List.forall_mem_append] at h
    exact (operand_closed h.1 _).bind fun left hleft => (operand_closed h.2 _).bind
      fun right hright => Ensures.pure fun due => by simp [hleft _, hright _, hoperator _]
  | unary operator operand isBefore =>
    have hoperator := hword operator List.mem_cons_self
    cases isBefore with
    | true =>
      exact (operand_closed h _).bind fun text htext =>
        Ensures.pure (prefixText_closed hoperator htext)
    | false =>
      exact (operand_closed h _).bind fun text htext => Ensures.pure (htext.append hoperator)
  | assign operator target value =>
    have hoperator := hword operator List.mem_cons_self
    simp only [ExprForm.children, List.forall_mem_append] at h
    exact (operand_closed h.1 _).bind fun left hleft => (operand_closed h.2 _).bind
      fun right hright => Ensures.pure fun due => by simp [hleft _, hright _, hoperator _]
  | conditional condition whenTrue whenFalse =>
    simp only [ExprForm.children, List.forall_mem_append] at h
    refine (operand_closed h.1.1 _).bind fun first hfirst => (operand_closed h.1.2 _).bind
      fun second hsecond => (operand_closed h.2 _).bind fun third hthird => ?_
    exact Ensures.pure fun due => by simp [hfirst _, hsecond _, hthird _]
  | cast type expression =>
    simp only [ExprForm.children, List.forall_mem_append] at h
    have htype := slotTypeText_composes composes_isClosed (named_slotNode h.1)
    exact (operand_closed h.2 _).bind fun text htext => (Ensures.ofType htype).bind
      fun type htype => Ensures.pure fun due => by simp [htext _, htype _]
  | instanceOf expression type =>
    simp only [ExprForm.children, List.forall_mem_append] at h
    exact typeTest_closed (named_slotNode h.2) fun minimum => operand_closed h.1 minimum
  | lambda parameters body =>
    simp only [ExprForm.children, List.forall_mem_append] at h
    have hparameters := Ensures.mapM (List.forall_mem_map.2 fun t ht =>
      lambdaParameter_closed (h.1 t ht).unbracketed)
    refine hparameters.bind fun texts htexts => (lambdaBody_closed h.2).bind fun body hbody => ?_
    refine Ensures.pure fun due => ?_
    simp [-String.toList_intercalate, intercalate_closed htexts _, hbody _]
  | methodReference target name =>
    exact methodReferenceText_closed h (hword name List.mem_cons_self)
  | classLiteral type =>
    exact Ensures.ofType (runtimeName_composes composes_isClosed (named_slotNode h))

theorem exprOf_closed {node : Tree} {form : Form Tree}
    (hwords : ∀ word ∈ form.words, IsFree word.display) (h : ∀ t ∈ form.children, Matched t) :
    Ensures Bare (exprOf node (form.map Tree.rendering)) IsClosed := by
  cases form with
  | expr form => exact exprForm_closed hwords h
  | _ => exact Ensures.unsupported

end Recast.Render
