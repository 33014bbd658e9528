import Mathlib
import Recast.Proofs.Render.Comments.Basic

/-!
Comments in expressions.

The blocks of lambdas hold comments, and so anything does that has a lambda in it.
-/

namespace Recast.Render

section Comments

variable {counts : Tree → Bool} {c : Comment} {u : String}

theorem operand_tells {slot : Option Tree} (h : ∀ t ∈ slot.toList, Written counts c u t)
    (minimum : Nat) :
    Ensures (At u) (operand (slot.map Tree.rendering) minimum) (Tells counts c u slot.toList) := by
  refine (slotExpr_tells h).bind fun code hcode => Ensures.pure ?_
  split
  · grind
  · exact hcode

theorem argumentsText_tells {arguments : List Tree} (h : ∀ t ∈ arguments, Written counts c u t) :
    Ensures (At u) (argumentsText (arguments.map Tree.rendering)) (Tells counts c u arguments) := by
  refine Ensures.of_imp fun ⟨t, ht, hdue⟩ => ?_
  refine (Ensures.mapM_exists ⟨t.rendering, List.mem_map_of_mem ht, (h t ht).expr hdue⟩).bind
    fun texts htexts => Ensures.pure ?_
  exact Comment.ShownIn.intercalate htexts _

theorem typeTest_tells {type : Option Tree} {subject : Nat → Render String} {ts : List Tree}
    (h : ∀ minimum, Ensures (At u) (subject minimum) (Tells counts c u ts)) :
    Ensures (At u) (typeTest type subject) (Tells counts c u ts) := by
  refine Ensures.bind_any fun name => Ensures.ite (fun _ => ?_) fun _ => ?_
  · exact (h _).bind fun text htext => Ensures.pure (by grind)
  · exact (h _).bind fun text htext => Ensures.pure (by grind)

theorem leadingSizes_subset (dimensions : List (Option Tree)) :
    leadingSizes dimensions ⊆ dimensions.filterMap id := by
  induction dimensions with
  | nil => simp [leadingSizes]
  | cons first inner ih =>
    cases first with
    | none => simp [leadingSizes]
    | some size => simpa [leadingSizes] using List.subset_cons_of_subset size ih

/-- The sizes of an array are written up to the first empty bracket pair. -/
theorem sizedArray_tells {element : String} {dimensions : List (Option Tree)}
    (h : ∀ t ∈ leadingSizes dimensions, Written counts c u t) :
    Ensures (At u) (sizedArray element (dimensions.map (·.map Tree.rendering)))
      (Tells counts c u (leadingSizes dimensions)) := by
  induction dimensions with
  | nil => exact Ensures.pure (Tells.nil _)
  | cons first inner ih =>
    cases first with
    | none => exact Ensures.pure (Tells.nil _)
    | some size =>
      simp only [leadingSizes, List.forall_mem_cons] at h
      have hsize : Ensures (At u) size.rendering.expr (Tells counts c u [size]) :=
        Tells.of_slot h.1.expr
      refine hsize.bind fun length hlength => ?_
      have hinner := ih h.2
      cases inner with
      | nil => exact Ensures.pure (by simp only [leadingSizes]; grind)
      | cons second inner =>
        cases second with
        | none => exact Ensures.pure (by simp only [leadingSizes]; grind)
        | some next =>
          refine hinner.bind fun rest hrest => Ensures.pure ?_
          rw [leadingSizes, ← List.singleton_append]
          grind

theorem lambdaBody_tells {slot : Option Tree} (h : ∀ t ∈ slot.toList, Written counts c u t) :
    Ensures (At u) (lambdaBody (slot.map Tree.rendering)) (Tells counts c u slot.toList) := by
  cases slot with
  | none => exact operand_tells h _
  | some t =>
    have hoperand := operand_tells h assignmentLevel
    refine Ensures.ite (fun _ => ?_) fun _ => hoperand
    refine Ensures.bind_any fun scope => Ensures.ite (fun _ => ?_) fun _ => Ensures.unsupported
    refine Ensures.inBody ?_ fun _ hscope => hscope
    exact Tells.of_slot fun hdue => block_shows (h t (by simp)) hdue true

theorem methodReferenceText_tells {target : Option Tree} {name : Word}
    (h : ∀ t ∈ target.toList, Written counts c u t) :
    Ensures (At u) (methodReferenceText (target.map Tree.rendering) name)
      (Tells counts c u target.toList) := by
  refine (operand_tells h _).bind fun text htext => ?_
  refine Ensures.ite (fun _ => Ensures.pure (by grind)) fun _ => ?_
  cases target with
  | none => exact Ensures.pure (by grind)
  | some t =>
    simp only [Option.map_some, slotNode, Tree.rendering_node]
    split
    · rename_i qualifier hthis
      refine Ensures.pure fun ⟨_, ht, hdue⟩ => ?_
      obtain rfl := List.mem_singleton.1 ht
      obtain hform := Option.some.inj hthis
      obtain ⟨child, hchild, -⟩ := hdue.in_part hform rfl
      cases hchild
    · exact Ensures.pure (by grind)

/-- An expression tells of its written parts. -/
theorem exprForm_tells {node : Tree} {form : ExprForm Tree}
    (h : ∀ t ∈ form.children, Written counts c u t) :
    Ensures (At u) (exprForm node (form.map Tree.rendering))
      (Tells counts c u (writtenInExpr form)) := by
  cases form with
  | ident | literal | this | super => exact Ensures.pure (Tells.nil _)
  | classLiteral => exact (Ensures.of_imp fun hdue => absurd hdue (by simp [writtenInExpr]))
  | bare => exact Ensures.unsupported
  | field target name =>
    exact (operand_tells h _).bind fun text htext => Ensures.pure (by grind [writtenInExpr])
  | call name arguments target typeArguments =>
    simp only [ExprForm.children, List.forall_mem_append] at h
    obtain ⟨⟨harguments, htarget⟩, -⟩ := h
    refine (argumentsText_tells harguments).bind fun texts htexts => Ensures.bind_any fun types => ?_
    cases target with
    | none => exact Ensures.pure (by grind [writtenInExpr])
    | some t =>
      exact (operand_tells htarget _).bind fun text htext =>
        Ensures.pure (by grind [writtenInExpr])
  | create type arguments body =>
    simp only [ExprForm.children, List.forall_mem_append] at h
    refine Ensures.ite (fun _ => Ensures.stop_bind) fun hbody => ?_
    obtain rfl : body = none := by simpa using hbody
    refine Ensures.bind_any fun type => (argumentsText_tells h.1.2).bind fun texts htexts => ?_
    exact Ensures.pure (by simp only [writtenInExpr, Option.getD_none]; grind)
  | arrayLiteral values =>
    simp only [ExprForm.children] at h
    exact (argumentsText_tells h).bind fun text htext => Ensures.pure (by grind [writtenInExpr])
  | arrayCreate element dimensions initial =>
    simp only [ExprForm.children, List.forall_mem_append] at h
    cases initial with
    | some t => exact Tells.of_slot (h.2 t (by simp)).expr
    | none =>
      refine Ensures.bind_any fun element => sizedArray_tells fun t ht => h.1.2 t ?_
      exact leadingSizes_subset dimensions ht
  | subscript target index =>
    simp only [ExprForm.children, List.forall_mem_append] at h
    refine (operand_tells h.1 _).bind fun text htext => ?_
    exact (slotExpr_tells h.2).bind fun inner hinner => Ensures.pure (by grind [writtenInExpr])
  | binary operator left right =>
    simp only [ExprForm.children, List.forall_mem_append] at h
    refine (operand_tells h.1 _).bind fun a ha => ?_
    exact (operand_tells h.2 _).bind fun b hb => Ensures.pure (by grind [writtenInExpr])
  | unary operator operand isBefore =>
    simp only [ExprForm.children] at h
    cases isBefore with
    | true =>
      refine (operand_tells h _).bind fun text htext => Ensures.pure ?_
      simp only [prefixText]
      split <;> grind [writtenInExpr]
    | false =>
      exact (operand_tells h _).bind fun text htext => Ensures.pure (by grind [writtenInExpr])
  | assign operator target value =>
    simp only [ExprForm.children, List.forall_mem_append] at h
    refine (operand_tells h.1 _).bind fun a ha => ?_
    exact (operand_tells h.2 _).bind fun b hb => Ensures.pure (by grind [writtenInExpr])
  | conditional condition whenTrue whenFalse =>
    simp only [ExprForm.children, List.forall_mem_append] at h
    refine (operand_tells h.1.1 _).bind fun a ha => ?_
    refine (operand_tells h.1.2 _).bind fun b hb => ?_
    exact (operand_tells h.2 _).bind fun c hc => Ensures.pure (by grind [writtenInExpr])
  | cast type expression =>
    simp only [ExprForm.children, List.forall_mem_append] at h
    refine (operand_tells h.2 _).bind fun text htext => Ensures.bind_any fun type => ?_
    exact Ensures.pure (by grind [writtenInExpr])
  | instanceOf expression type =>
    simp only [ExprForm.children, List.forall_mem_append] at h
    exact typeTest_tells fun minimum => operand_tells h.1 minimum
  | lambda parameters body =>
    simp only [ExprForm.children, List.forall_mem_append] at h
    refine Ensures.bind_any fun parameters => ?_
    exact (lambdaBody_tells h.2).bind fun text htext => Ensures.pure (by grind [writtenInExpr])
  | methodReference target name => exact methodReferenceText_tells h

theorem expr_shows {t : Tree} (h : ∀ child ∈ t.form.children, Written counts c u child)
    (hdue : Due counts c false t) : Ensures (At u) t.rendering.expr (c.ShownIn u) := by
  rw [t.rendering_expr]
  cases hform : t.form with
  | expr form =>
    rw [hform] at h
    have hinside := hdue.in_part hform rfl
    exact (exprForm_tells h).mono fun text htext => htext hinside
  | _ => exact Ensures.unsupported

end Comments

end Recast.Render
