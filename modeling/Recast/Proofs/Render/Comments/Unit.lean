import Mathlib
import Recast.Proofs.Render.Comments.Declarations

/-!
Comments in units.

Every node shows what is due in it, by induction along children, and so the text of a unit shows
every comment that is due in it. One kind of handler does not count: a union type without
alternatives gives its clause no arm, and the clause is left out with all its comments.
-/

namespace Recast.Render

section Comments

variable {counts : Tree → Bool} {c : Comment} {u : String}

/-- A line of the unit's head shows the comment before it, also where the line itself is empty. -/
theorem headLine_shows {t : Tree} (h : t.comment = some c) (line : Option String) :
    Ensures (At u) (headLine t line) (c.ShownIn u) := by
  have honly : Ensures (At u) (headLine.commentOnly t) (c.ShownIn u) := by
    unfold headLine.commentOnly
    rw [h]
    exact commentText_shows
  cases line with
  | none => exact honly
  | some line => exact Ensures.ite (fun _ => honly) fun _ => withComment_shows (Or.inr h)

theorem topLevel_shows {t : Tree} (h : ∀ child ∈ t.form.children, Written counts c u child)
    (hdue : Due counts c false t ∨ t.comment = some c) :
    Ensures (At u) t.rendering.topLevel (c.ShownIn u) := by
  have htype := typeDeclaration_shows h hdue
  rw [t.rendering_topLevel]
  cases hform : t.form with
  | part form =>
    cases form with
    | package name annotations =>
      have hown := hdue.resolve_left (not_due hform rfl rfl)
      exact Ensures.bind_any fun scope => Ensures.bind_any fun line => headLine_shows hown line
    | importing decl =>
      have hown := hdue.resolve_left (not_due hform rfl rfl)
      exact Ensures.bind_any fun scope => Ensures.bind_any fun line => headLine_shows hown line
    | _ => exact htype
  | _ => exact htype

/-- Chunks split at some place and freed from empty ones show in one of the halves what they
showed. -/
theorem LinesShow.split {chunks : List String} (h : LinesShow u c chunks) (n : Nat) :
    LinesShow u c ((chunks.take n).filter (· ≠ "")) ∨
      LinesShow u c ((chunks.drop n).filter (· ≠ "")) := by
  obtain ⟨chunk, hchunk, hshown⟩ := h
  have hne : decide (chunk ≠ "") = true := decide_eq_true (ne_of_shownIn hshown)
  rw [← List.take_append_drop n chunks, List.mem_append] at hchunk
  exact hchunk.imp (fun hmem => ⟨chunk, List.mem_filter.2 ⟨hmem, hne⟩, hshown⟩)
    fun hmem => ⟨chunk, List.mem_filter.2 ⟨hmem, hne⟩, hshown⟩

theorem unit_shows {t : Tree} (h : ∀ child ∈ t.form.children, Written counts c u child)
    (hdue : Due counts c false t) : Ensures (At u) t.rendering.unit (c.ShownIn u) := by
  rw [t.rendering_unit]
  cases hform : t.form with
  | part form =>
    cases form with
    | unit header imports types =>
      rw [hform] at h
      have hchildren : c ∈ t.trivia.orphans ∨ ∃ child ∈ header.toList ++ imports ++ types,
          Due counts c false child ∨ child.comment = some c := hdue.in_container hform rfl rfl
      have hchunks : Ensures (At u) (childChunks t.trivia.orphans
          (((header.toList ++ imports ++ types).map Tree.rendering).map
            fun r => ⟨r.node.position, r.topLevel⟩)) (LinesShow u c) := by
        refine childChunks_shows (fun _ hscope => hscope) (hchildren.imp_right ?_)
        rintro ⟨child, hchild, hdue⟩
        refine ⟨_, List.mem_map_of_mem (List.mem_map_of_mem hchild), ?_⟩
        exact (h child hchild).topLevel hdue
      have hhead : (header.map Tree.rendering).toList ++ imports.map Tree.rendering
          ++ types.map Tree.rendering
          = (header.toList ++ imports ++ types).map Tree.rendering := by
        cases header <;> simp
      simp only [unitOf, Form.map, PartForm.map]
      rw [hhead]
      refine hchunks.bind fun chunks hchunks => Ensures.pure ?_
      rcases hchunks.split ((header.map Tree.rendering).toList ++ imports.map Tree.rendering).length
        with hshown | hshown
      · exact ((Comment.ShownIn.intercalate hshown _).left _ |>.left _).left _
      · exact ((Comment.ShownIn.intercalate hshown _).right _).left _
    | _ => exact Ensures.unsupported
  | _ => exact Ensures.unsupported

/-- What is due in a node is shown in every place where it can stand. -/
theorem written_all (hcounts : ∀ t, counts t → hasAlternatives t) (t : Tree) :
    Written counts c u t := by
  induction t using Tree.induct with
  | step trivia form ih =>
    exact {
      expr := expr_shows ih
      localVariable := localVariable_shows ih
      fieldVariable := fun _ => fieldVariable_shows ih
      declaration := declaration_shows ih
      bareStmt := bareStmt_shows hcounts ih
      lines := lines_show ih
      caseLines := caseLines_show ih
      member := fun _ => member_shows ih
      typeDeclaration := fun _ => typeDeclaration_shows ih
      topLevel := topLevel_shows ih
      unit := unit_shows ih }

/-- The text of a unit shows every comment that is due in it, handlers without alternatives
aside. -/
theorem shownIn_renderUnit {scope : Scope} {unit : Tree} {file text : String}
    (hok : (renderUnit scope unit file).result = .ok text)
    (hdue : Due hasAlternatives c false unit) : c.ShownIn scope.unitIndent text := by
  have hunit := (written_all (fun _ h => h) unit).unit hdue (scope.forFile file) rfl []
  simp only [renderUnit, runIn, ReaderT.run, ExceptT.run, StateT.run] at hok
  rcases hrun : unit.rendering.unit (scope.forFile file) [] with ⟨result, log⟩
  rw [hrun] at hok hunit
  cases result with
  | error halt => cases hok
  | ok a =>
    obtain rfl := Except.ok.inj hok
    exact hunit a rfl

end Comments

/-! ### A handler with and without alternatives -/

/-- The comment in the second handler of `handlerUnit`. -/
def handlerComment : Comment := { content := " done" }

/-- A handler of a type, with its statements. -/
def handlerOf (type : TypeForm Tree) (statements : List Tree) : Tree :=
  .node {} (.part (.catchClause
    (some (.node {} (.part (.parameter (.text "e") (some (.node {} (.type type))) [] [] false))))
    (some (.node {} (.stmt (.block statements))))))

/-- The second handler of `handlerUnit`. -/
def lastHandler (caught : TypeForm Tree) : Tree :=
  handlerOf caught [.node { comment := some handlerComment } (.stmt (.returning none))]

/-- A method that returns from its second handler, which takes the given type. -/
def handlerUnit (caught : TypeForm Tree) : Tree :=
  let block (statements : List Tree) : Tree := .node {} (.stmt (.block statements))
  let attempt : Tree := .node {} (.stmt (.tryCatch (some (block [])) []
    [handlerOf (.named (.text "A") none none false) [], lastHandler caught] none))
  let method : Tree := .node {} (.member (.method (.text "run") (some (.node {} (.type .void)))
    [] [] (some (block [attempt])) [] [] []))
  .node {} (.part (.unit none []
    [.node {} (.member (.classType (.text "Job") [] [] [] [] [] [method] false))]))

theorem due_handlerUnit {counts : Tree → Bool} {caught : TypeForm Tree}
    (h : counts (lastHandler caught)) : Due counts handlerComment false (handlerUnit caught) := by
  have hhandler : Due counts handlerComment false (lastHandler caught) :=
    .inside (List.mem_singleton_self _) (.leads (List.mem_singleton_self _) rfl)
  have hreached : reachedHandlers [handlerOf (.named (.text "A") none none false) [],
      lastHandler caught] = [handlerOf (.named (.text "A") none none false) [],
      lastHandler caught] := by
    have hfirst : takesAll (handlerOf (.named (.text "A") none none false) []) = false := by
      decide +kernel
    cases hlast : takesAll (lastHandler caught) <;> simp [reachedHandlers, hfirst, hlast]
  refine .inside (List.mem_singleton_self _) (.inside (List.mem_singleton_self _)
    (.inside (List.mem_singleton_self _) (.inside (List.mem_singleton_self _) (.inside ?_ hhandler))))
  simp [writtenIn, writtenInStmt, Tree.form, hreached, h]

theorem shownIn_handlerUnit : ∃ text,
    (renderUnit {} (handlerUnit (.named (.text "B") none none false)) "").result = .ok text ∧
      handlerComment.ShownIn ({} : Scope).unitIndent text := by
  have hok : (renderUnit {} (handlerUnit (.named (.text "B") none none false)) "").result = .ok
      ("class Job \x7b\n  run(): void \x7b\n    try \x7b\x7d catch (e) \x7b\n"
        ++ "      if (e instanceof A) \x7b\n      \x7d else if (e instanceof B) \x7b\n"
        ++ "        // done\n        return;\n      \x7d else \x7b\n        throw e;\n      \x7d\n"
        ++ "    \x7d\n  \x7d\n\x7d\n") := by
    decide +kernel
  exact ⟨_, hok, shownIn_renderUnit hok (due_handlerUnit (by decide +kernel))⟩

/-- A handler whose union has no alternatives is left out, and its comments with it. -/
theorem handlerComment_lost : ∃ text,
    (renderUnit {} (handlerUnit (.union [])) "").result = .ok text ∧
      Due (fun _ => true) handlerComment false (handlerUnit (.union [])) ∧
      ¬ handlerComment.ShownIn ({} : Scope).unitIndent text := by
  refine ⟨"class Job \x7b\n  run(): void \x7b\n    try \x7b\x7d catch (e) \x7b\n"
    ++ "      if (e instanceof A) \x7b\n      \x7d else \x7b\n        throw e;\n      \x7d\n"
    ++ "    \x7d\n  \x7d\n\x7d\n", by decide +kernel, due_handlerUnit rfl, ?_⟩
  rw [Comment.shownIn_iff_of_line rfl]
  decide +kernel

end Recast.Render
