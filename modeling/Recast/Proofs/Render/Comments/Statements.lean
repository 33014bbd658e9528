import Mathlib
import Recast.Proofs.Render.Comments.Expressions

/-!
Comments in statements.

A handler's body is written once for each alternative of the handler, as long as no handler before
it takes everything.
-/

namespace Recast.Render

section Comments

variable {counts : Tree → Bool} {c : Comment} {u : String}

/-! ### Variables -/

theorem noVariable_stops {K : Scope → Prop} {node : Tree} {P : String → Prop} :
    Ensures K (noVariable node) P := by
  refine Ensures.bind_any fun type => ?_
  split
  · exact Ensures.bind_any fun _ => Ensures.unsupported
  · exact Ensures.bind_any fun _ => Ensures.unsupported
  · exact Ensures.unsupported

theorem localVariable_shows {t : Tree} (h : ∀ child ∈ t.form.children, Written counts c u child)
    (hdue : Due counts c false t) : Ensures (At u) t.rendering.localVariable (c.ShownIn u) := by
  rw [t.rendering_localVariable]
  cases hform : t.form with
  | part form =>
    cases form with
    | declarator name dimensions initial =>
      rw [hform] at h
      have hinside := hdue.in_part hform rfl
      refine Ensures.bind_any fun code => ?_
      cases initial with
      | none =>
        obtain ⟨child, hchild, -⟩ := hinside
        cases hchild
      | some value =>
        obtain ⟨child, hchild, hdue⟩ := hinside
        obtain rfl := List.mem_singleton.1 hchild
        exact ((h child (by simp [Form.children, PartForm.children])).expr hdue).bind
          fun text htext => Ensures.pure (htext.right _)
    | _ => exact noVariable_stops
  | _ => exact noVariable_stops

theorem localDeclaration_shows {node : Tree} {type : Option Tree} {bindings : List Tree}
    {isConstant : Bool} {annotations : List Rendering}
    (h : ∃ t ∈ bindings, Written counts c u t ∧ Due counts c false t) :
    Ensures (At u) (localDeclaration node type (bindings.map Tree.rendering) isConstant annotations)
      (c.ShownIn u) := by
  obtain ⟨t, ht, hwritten, hdue⟩ := h
  refine Ensures.bind_any fun scope => Ensures.ite (fun _ => Ensures.stop_bind) fun _ => ?_
  refine Ensures.bind_any fun notes => ?_
  have hbindings := Ensures.mapM_exists
    ⟨t.rendering, List.mem_map_of_mem ht, hwritten.localVariable hdue⟩
  refine (hbindings.declaring fun _ hscope => hscope).bind fun texts htexts => ?_
  exact Ensures.pure ((Comment.ShownIn.intercalate htexts _).right _)

theorem declaration_shows {t : Tree} (h : ∀ child ∈ t.form.children, Written counts c u child)
    (isResource : Bool) (hdue : Due counts c false t) :
    Ensures (At u) (t.rendering.declaration isResource) (c.ShownIn u) := by
  rw [t.rendering_declaration]
  cases hform : t.form with
  | stmt form =>
    cases form with
    | localVariable type bindings modifiers annotations =>
      obtain ⟨child, hchild, hdue⟩ := hdue.in_part hform rfl
      rw [hform] at h
      have hbinding : child ∈ bindings := hchild
      have hbindings : ∃ t ∈ bindings, Written counts c u t ∧ Due counts c false t :=
        ⟨child, hbinding, h child (by simp [Form.children, StmtForm.children, hbinding]), hdue⟩
      cases isResource <;> exact localDeclaration_shows hbindings
    | _ => cases isResource <;> exact Ensures.unsupported
  | member form =>
    cases form with
    | field type bindings modifiers annotations =>
      obtain ⟨child, hchild, hdue⟩ := hdue.in_part hform rfl
      rw [hform] at h
      have hbinding : child ∈ bindings := hchild
      have hbindings : ∃ t ∈ bindings, Written counts c u t ∧ Due counts c false t :=
        ⟨child, hbinding, h child (by simp [Form.children, MemberForm.children, hbinding]), hdue⟩
      cases isResource with
      | true => exact localDeclaration_shows hbindings
      | false => exact Ensures.unsupported
    | _ => cases isResource <;> exact Ensures.unsupported
  | _ => cases isResource <;> exact Ensures.unsupported

/-! ### Handlers -/

/-- Whether a chain of handlers comes to an arm whose lines show a comment. -/
def Reaches (c : Comment) (u : String) : List CatchArm → Prop
  | [] => False
  | arm :: rest =>
    Ensures (At u) arm.lines (LinesShow u c) ∨ arm.type.isSome ∧ Reaches c u rest

theorem Reaches.append {arms others : List CatchArm} (harms : ∀ arm ∈ arms, arm.type.isSome)
    (h : Reaches c u others) : Reaches c u (arms ++ others) := by
  induction arms with
  | nil => exact h
  | cons arm arms ih =>
    exact Or.inr ⟨harms arm List.mem_cons_self, ih fun a ha => harms a (List.mem_cons_of_mem _ ha)⟩

theorem armLines_shows {binding : Word} {arm : CatchArm}
    (h : Ensures (At u) arm.lines (LinesShow u c)) :
    Ensures (At u) (armLines binding arm) (LinesShow u c) := by
  refine Ensures.bind_any fun indent => h.bind fun lines hlines => Ensures.pure ?_
  obtain ⟨line, hline, hshown⟩ := hlines
  exact ⟨line, List.mem_append_right _ hline, hshown⟩

theorem armBlock_shows {binding : Word} {arm : CatchArm}
    (h : Ensures (At u) arm.lines (LinesShow u c)) :
    Ensures (At u) (armBlock binding arm) (c.ShownIn u) := by
  refine Ensures.bind_any fun indent => ?_
  exact ((armLines_shows h).indented fun _ hscope => hscope).bind fun lines hlines =>
    Ensures.pure (hlines.intercalate _)

theorem chainRest_shows {binding : Word} {arms : List CatchArm} (h : Reaches c u arms) :
    Ensures (At u) (chainRest binding arms) (c.ShownIn u) := by
  induction arms with
  | nil => exact h.elim
  | cons arm rest ih =>
    unfold chainRest
    cases htype : arm.type with
    | none =>
      have harm := h.resolve_right (by simp [htype])
      exact (armBlock_shows harm).bind fun block hblock => Ensures.pure (hblock.right _)
    | some type =>
      refine Ensures.bind_any fun test => ?_
      rcases h with harm | ⟨-, hrest⟩
      · refine (armBlock_shows harm).bind fun block hblock => Ensures.bind_any fun rest => ?_
        exact Ensures.pure ((hblock.right _).left _)
      · refine Ensures.bind_any fun block => (ih hrest).bind fun rest hrest => ?_
        exact Ensures.pure (hrest.right _)

theorem chainLines_shows {binding : Word} {arms : List CatchArm} (h : Reaches c u arms) :
    Ensures (At u) (chainLines binding arms) (LinesShow u c) := by
  cases arms with
  | nil => exact h.elim
  | cons arm rest =>
    simp only [chainLines]
    cases htype : arm.type with
    | none => exact armLines_shows (h.resolve_right (by simp [htype]))
    | some type =>
      refine Ensures.bind_any fun indent => Ensures.bind_any fun test => ?_
      rcases h with harm | ⟨-, hrest⟩
      · refine (armBlock_shows harm).bind fun block hblock => Ensures.bind_any fun rest => ?_
        exact Ensures.pure ⟨_, List.mem_singleton_self _, (hblock.right _).left _⟩
      · refine Ensures.bind_any fun block => (chainRest_shows hrest).bind fun rest hrest => ?_
        exact Ensures.pure ⟨_, List.mem_singleton_self _, hrest.right _⟩

/-- The chain comes to each handler up to the first that takes everything, if the handler has an
alternative at all. -/
theorem reaches_catchArms {clauses : List Tree} (hcounts : ∀ t, counts t → hasAlternatives t)
    (h : ∀ t ∈ clauses, Written counts c u t)
    (hdue : ∃ t ∈ (reachedHandlers clauses).filter counts, Due counts c false t) :
    Reaches c u (catchArms (clauses.map Tree.rendering)) := by
  induction clauses with
  | nil =>
    obtain ⟨t, ht, -⟩ := hdue
    cases ht
  | cons clause rest ih =>
    rw [List.forall_mem_cons] at h
    have harms : catchArms ((clause :: rest).map Tree.rendering) =
        (caughtTypes clause).map (fun caught =>
          ⟨armType caught, boundName clause, clause.rendering.lines []⟩) ++
          catchArms (rest.map Tree.rendering) := by
      simp [catchArms, clause.rendering_node]
    rw [harms]
    obtain ⟨t, ht, hdue⟩ := hdue
    obtain ⟨hreached, hcount⟩ := List.mem_filter.1 ht
    by_cases hclause : t = clause
    · subst hclause
      have hlines := h.1.lines [] (Or.inl hdue)
      cases htypes : caughtTypes t with
      | nil =>
        have halternatives := hcounts t hcount
        simp [hasAlternatives, htypes] at halternatives
      | cons first others => exact Or.inl hlines
    · have hall : takesAll clause = false := by
        rw [Bool.eq_false_iff]
        intro htakes
        rw [reachedHandlers, if_pos htakes] at hreached
        exact hclause (List.mem_singleton.1 hreached)
      rw [reachedHandlers, if_neg (by simp [hall])] at hreached
      have hrest := (List.mem_cons.1 hreached).resolve_left hclause
      refine Reaches.append ?_ (ih h.2 ⟨t, List.mem_filter.2 ⟨hrest, hcount⟩, hdue⟩)
      simpa [takesAll, ← Option.isSome_iff_ne_none] using hall

theorem catchText_tells {clauses : List Tree} (hcounts : ∀ t, counts t → hasAlternatives t)
    (h : ∀ t ∈ clauses, Written counts c u t) :
    Ensures (At u) (catchText (clauses.map Tree.rendering))
      (Tells counts c u ((reachedHandlers clauses).filter counts)) := by
  refine Ensures.of_imp fun hdue => ?_
  have hreaches := reaches_catchArms hcounts h hdue
  cases clauses with
  | nil => exact hreaches.elim
  | cons first rest =>
    refine Ensures.bind_any fun indent => ?_
    refine ((chainLines_shows hreaches).indented fun _ hscope => hscope).bind fun lines hlines => ?_
    exact Ensures.pure ((hlines.intercalate _).right _)

/-! ### Blocks -/

theorem resourceChild_shows {t : Tree} (ht : Written counts c u t) (hdue : Due counts c false t) :
    Ensures (At u) (resourceChild t.rendering).text (c.ShownIn u) := by
  refine Ensures.bind_any fun indent => (ht.declaration true hdue).bind fun code hcode => ?_
  exact withComment_shows (Or.inl ((hcode.right _).left _))

theorem tryBody_tells {body : Option Tree} {resources : List Tree}
    (hbody : ∀ t ∈ body.toList, Written counts c u t)
    (hresources : ∀ t ∈ resources, Written counts c u t) :
    Ensures (At u) (tryBody (body.map Tree.rendering) (resources.map Tree.rendering))
      (Tells counts c u (body.toList ++ resources)) := by
  cases body with
  | none => exact Ensures.unsupported
  | some t =>
    have ht := hbody t (by simp)
    refine Ensures.of_imp fun ⟨t', ht', hdue⟩ => Ensures.ite (fun hempty => ?_) fun _ => ?_
    · obtain rfl : resources = [] := by simpa using hempty
      obtain rfl : t' = t := by simpa using ht'
      exact block_shows ht hdue true
    · refine Ensures.bind_any fun indent => ?_
      refine Ensures.bind (Ensures.indented (ht.lines _ ?_) fun _ hscope => hscope)
        fun lines hlines => Ensures.pure (hlines.intercalate _)
      rcases List.mem_append.1 ht' with hself | hresource
      · obtain rfl : t' = t := by simpa using hself
        exact Or.inl hdue
      · refine Or.inr ⟨_, List.mem_map_of_mem (List.mem_map_of_mem hresource), ?_⟩
        exact resourceChild_shows (hresources t' hresource) hdue

/-- The chunks of a list of statements after other children. -/
theorem statements_show {before : List Child} {orphans : List Comment} {statements : List Tree}
    (h : ∀ t ∈ statements, Written counts c u t)
    (hdue : (c ∈ orphans ∨ ∃ t ∈ statements, Due counts c false t ∨ t.comment = some c) ∨
      ∃ child ∈ before, Ensures (At u) child.text (c.ShownIn u)) :
    Ensures (At u) (childChunks orphans
      (before ++ (statements.map Tree.rendering).map (·.stmtChild))) (LinesShow u c) := by
  refine childChunks_shows (fun _ hscope => hscope) ?_
  rcases hdue with (horphan | ⟨t, ht, hdue⟩) | ⟨child, hchild, hensures⟩
  · exact Or.inl horphan
  · refine Or.inr ⟨t.rendering.stmtChild, ?_, stmt_shows (h t ht) hdue⟩
    exact List.mem_append_right _ (List.mem_map_of_mem (List.mem_map_of_mem ht))
  · exact Or.inr ⟨child, List.mem_append_left _ hchild, hensures⟩

theorem lines_show {t : Tree} (h : ∀ child ∈ t.form.children, Written counts c u child)
    (before : List Child)
    (hdue : Due counts c false t ∨ ∃ child ∈ before, Ensures (At u) child.text (c.ShownIn u)) :
    Ensures (At u) (t.rendering.lines before) (LinesShow u c) := by
  rw [t.rendering_lines]
  cases hform : t.form with
  | stmt form =>
    cases form with
    | block statements =>
      rw [hform] at h
      refine statements_show h (hdue.imp_left fun hdue => ?_)
      exact hdue.in_container hform rfl rfl
    | _ => exact Ensures.unsupported
  | part form =>
    cases form with
    | switchCase labels statements =>
      rw [hform] at h
      refine statements_show (fun t ht => h t (List.mem_append_right _ ht))
        (hdue.imp_left fun hdue => ?_)
      obtain ⟨child, hchild, hdue⟩ := hdue.in_part hform rfl
      exact Or.inr ⟨child, hchild, Or.inl hdue⟩
    | catchClause binding body =>
      cases body with
      | none => exact Ensures.unsupported
      | some body =>
        rw [hform] at h
        refine (h body (by simp [Form.children, PartForm.children])).lines before
          (hdue.imp_left fun hdue => ?_)
        obtain ⟨child, hchild, hdue⟩ := hdue.in_part hform rfl
        obtain rfl := List.mem_singleton.1 hchild
        exact hdue
    | _ => exact Ensures.unsupported
  | _ => exact Ensures.unsupported

theorem caseLines_show {t : Tree} (h : ∀ child ∈ t.form.children, Written counts c u child)
    (hdue : Due counts c false t ∨ ∃ label ∈ groupLabels t, Due counts c false label) :
    Ensures (At u) t.rendering.caseLines (LinesShow u c) := by
  rw [t.rendering_caseLines]
  cases hform : t.form with
  | part form =>
    cases form with
    | switchCase labels statements =>
      rw [hform] at h
      simp only [Form.children, PartForm.children, List.forall_mem_append] at h
      refine Ensures.bind_any fun indent => ?_
      rcases hdue with hdue | ⟨label, hlabel, hdue⟩
      · obtain ⟨child, hchild, hdue⟩ := hdue.in_part hform rfl
        have hstatement : child ∈ statements := hchild
        refine Ensures.bind_any fun labels => ?_
        refine ((Ensures.mapM_exists ⟨child.rendering, List.mem_map_of_mem hstatement,
          stmt_shows (h.2 child hstatement) (Or.inl hdue)⟩).indented fun _ hscope => hscope).bind
          fun texts htexts => ?_
        obtain ⟨text, htext, hshown⟩ := htexts
        exact Ensures.pure ⟨text, List.mem_append_right _ htext, hshown⟩
      · rw [groupLabels, hform] at hlabel
        refine (Ensures.mapM_exists ⟨label.rendering, List.mem_map_of_mem hlabel,
          ((h.1 label hlabel).expr hdue).bind fun text htext =>
            Ensures.pure ((htext.right _).left _)⟩).bind fun texts htexts => ?_
        refine Ensures.bind_any fun statements => Ensures.pure ?_
        obtain ⟨text, htext, hshown⟩ := htexts
        refine ⟨text, List.mem_append_left _ ?_, hshown⟩
        rwa [if_neg (by simpa using List.ne_nil_of_mem htext)]
    | _ => exact Ensures.unsupported
  | _ => exact Ensures.unsupported

/-! ### Statements -/

theorem loopStartText_tells {start : LoopStart Tree}
    (h : ∀ t ∈ start.children, Written counts c u t) :
    Ensures (At u) (loopStartText (start.map Tree.rendering))
      (Tells counts c u start.children) := by
  cases start with
  | absent => exact Ensures.pure (Tells.nil _)
  | declaration t =>
    exact Tells.of_slot ((h t (by simp [LoopStart.children])).declaration false)
  | expressions ts => exact argumentsText_tells h

theorem loopBody_tells {slot : Option Tree} (h : ∀ t ∈ slot.toList, Written counts c u t) :
    Ensures (At u) (loopBody (slot.map Tree.rendering)) (Tells counts c u slot.toList) := by
  cases slot with
  | none => exact Ensures.pure (Tells.nil _)
  | some t => exact Tells.of_slot (body_shows (h t (by simp)))

theorem elseText_shows {t : Tree} (ht : Written counts c u t) (hdue : Due counts c false t) :
    Ensures (At u) (elseText t.rendering) (c.ShownIn u) := by
  unfold elseText
  split
  · exact (ht.bareStmt hdue).bind fun text htext => Ensures.pure htext.dropBlanks
  · exact body_shows ht hdue

/-- The lines of the groups of a `switch`. -/
theorem caseLines_tell {groups : List Tree} (h : ∀ t ∈ groups, Written counts c u t) :
    Ensures (At u) ((groups.map Tree.rendering).mapM (·.caseLines)) fun lines =>
      (∃ t ∈ groups.flatMap groupLabels ++ groups, Due counts c false t) →
        LinesShow u c lines.flatten := by
  refine Ensures.of_imp fun ⟨t, ht, hdue⟩ => ?_
  have hgroup : ∃ group ∈ groups, Due counts c false group ∨
      ∃ label ∈ groupLabels group, Due counts c false label := by
    rcases List.mem_append.1 ht with hlabel | hgroup
    · obtain ⟨group, hgroup, hlabel⟩ := List.mem_flatMap.1 hlabel
      exact ⟨group, hgroup, Or.inr ⟨t, hlabel, hdue⟩⟩
    · exact ⟨t, hgroup, Or.inl hdue⟩
  obtain ⟨group, hgroup, hdue⟩ := hgroup
  refine (Ensures.mapM_exists ⟨group.rendering, List.mem_map_of_mem hgroup,
    (h group hgroup).caseLines hdue⟩).mono fun lines hlines => ?_
  obtain ⟨chunk, hchunk, line, hline, hshown⟩ := hlines
  exact ⟨line, List.mem_flatten.2 ⟨chunk, hchunk, hline⟩, hshown⟩

/-- A statement tells of its written parts. -/
theorem stmtForm_tells {node : Tree} {declaration block : Render String} {form : StmtForm Tree}
    (hcounts : ∀ t, counts t → hasAlternatives t)
    (h : ∀ t ∈ form.children, Written counts c u t)
    (hdeclaration : Ensures (At u) declaration (Tells counts c u (writtenInStmt counts form)))
    (hblock : Ensures (At u) block (Tells counts c u (writtenInStmt counts form))) :
    Ensures (At u) (stmtForm node declaration block (form.map Tree.rendering))
      (Tells counts c u (writtenInStmt counts form)) := by
  cases form with
  | block statements => exact hblock
  | localVariable type bindings modifiers annotations =>
    refine Ensures.bind_any fun indent => hdeclaration.bind fun code hcode => ?_
    exact Ensures.pure (by grind)
  | evaluate expression =>
    refine Ensures.bind_any fun indent => (slotExpr_tells h).bind fun text htext => ?_
    exact Ensures.pure (by grind [writtenInStmt, StmtForm.children])
  | ifElse condition whenTrue whenFalse =>
    simp only [StmtForm.children, List.forall_mem_append] at h
    refine Ensures.bind_any fun indent => (slotExpr_tells h.1.1).bind fun test htest => ?_
    refine (slotBody_tells h.1.2).bind fun yes hyes => ?_
    cases whenFalse with
    | none => exact Ensures.pure (by grind [writtenInStmt])
    | some t =>
      have helse : Ensures (At u) (elseText t.rendering) (Tells counts c u (some t).toList) :=
        Tells.of_slot (elseText_shows (h.2 t (by simp)))
      refine helse.bind fun no hno => Ensures.pure ?_
      refine Tells.append (Tells.append ?_ ?_) ?_ <;> grind
  | forLoop start condition update body =>
    simp only [StmtForm.children, List.forall_mem_append] at h
    refine Ensures.bind_any fun indent => (loopStartText_tells h.1.1.1).bind fun first hfirst => ?_
    refine (optionalText_tells fun t ht => (h.1.1.2 t ht).expr).bind fun test htest => ?_
    refine (argumentsText_tells h.1.2).bind fun next hnext => ?_
    refine (loopBody_tells h.2).bind fun text htext => Ensures.pure ?_
    have hhead : Tells counts c u start.children (indent ++ "for (" ++ first ++ "; " ++ test) := by
      grind
    refine Tells.append (Tells.append (Tells.append ?_ ?_) ?_) ?_ <;> grind
  | forEach binding iterable body =>
    simp only [StmtForm.children, List.forall_mem_append] at h
    refine Ensures.bind_any fun indent => ?_
    split
    · refine (slotExpr_tells h.1.2).bind fun items hitems => ?_
      exact (slotBody_tells h.2).bind fun text htext => Ensures.pure (by grind [writtenInStmt])
    · exact Ensures.unsupported
  | whileLoop condition body =>
    simp only [StmtForm.children, List.forall_mem_append] at h
    refine Ensures.bind_any fun indent => (slotExpr_tells h.1).bind fun test htest => ?_
    exact (slotBody_tells h.2).bind fun text htext => Ensures.pure (by grind [writtenInStmt])
  | doLoop condition body =>
    simp only [StmtForm.children, List.forall_mem_append] at h
    refine Ensures.bind_any fun indent => (slotExpr_tells h.1).bind fun test htest => ?_
    exact (slotBody_tells h.2).bind fun text htext => Ensures.pure (by grind [writtenInStmt])
  | returning expression =>
    cases expression with
    | none => exact Ensures.bind_any fun indent => Ensures.pure (by grind [writtenInStmt])
    | some t =>
      have hexpr : Ensures (At u) (slotExpr (some t.rendering)) (Tells counts c u (some t).toList) :=
        Tells.of_slot (h t (by simp [StmtForm.children])).expr
      refine Ensures.bind_any fun indent => hexpr.bind fun text htext => ?_
      exact Ensures.pure (by grind [writtenInStmt, StmtForm.children])
  | throwing expression =>
    refine Ensures.bind_any fun indent => (slotExpr_tells h).bind fun text htext => ?_
    exact Ensures.pure (by grind [writtenInStmt, StmtForm.children])
  | breaking | continuing | empty =>
    exact Ensures.bind_any fun indent => Ensures.pure (by grind [writtenInStmt])
  | switch selector groups =>
    simp only [StmtForm.children, List.forall_mem_append] at h
    refine Ensures.bind_any fun indent => (slotExpr_tells h.1).bind fun text htext => ?_
    refine ((caseLines_tell h.2).indented fun _ hscope => hscope).bind fun lines hlines => ?_
    refine Ensures.pure ?_
    rw [writtenInStmt, List.append_assoc]
    refine Tells.append (fun hdue => ?_) fun hdue => (hlines hdue).intercalate _
    exact Comment.ShownIn.intercalate ⟨_, List.mem_append_left _ (List.mem_append_left _
      (List.mem_singleton_self _)), ((htext hdue).right _).left _⟩ _
  | tryCatch body resources handlers finalBlock =>
    simp only [StmtForm.children, List.forall_mem_append] at h
    refine Ensures.bind_any fun _ => Ensures.bind_any fun indent => ?_
    refine (tryBody_tells h.1.1.1 h.1.1.2).bind fun text htext => ?_
    refine (catchText_tells hcounts h.1.2).bind fun arms harms => ?_
    refine (optionalText_tells fun t ht hdue => block_shows (h.2 t ht) hdue true).bind
      fun final hfinal => Ensures.pure ?_
    refine Tells.append (Tells.append ?_ ?_) ?_ <;> grind
  | synchronized lock body =>
    simp only [StmtForm.children, List.forall_mem_append] at h
    exact slotBlock_tells h.2 false
  | assertion condition message =>
    simp only [StmtForm.children, List.forall_mem_append] at h
    refine Ensures.bind_any fun indent => (slotExpr_tells h.1).bind fun test htest => ?_
    refine (optionalText_tells fun t ht => (h.2 t ht).expr).bind fun text htext => Ensures.pure ?_
    refine Tells.append ?_ ?_ <;> grind
  | labeled label statement =>
    refine Ensures.bind_any fun indent => (slotStmt_tells h).bind fun text htext => Ensures.pure ?_
    exact fun hdue => (htext hdue).dropBlanks.right _
  | constructorCall isThis arguments =>
    simp only [StmtForm.children] at h
    refine Ensures.bind_any fun indent => (argumentsText_tells h).bind fun texts htexts => ?_
    exact Ensures.bind_any fun _ => Ensures.pure (by grind [writtenInStmt])
  | localType declaration =>
    refine Ensures.bind_any fun scope => Ensures.ite (fun _ => Ensures.stop_bind) fun _ => ?_
    cases declaration with
    | none => exact Ensures.unsupported
    | some t =>
      exact Tells.of_slot fun hdue =>
        (h t (by simp [StmtForm.children])).typeDeclaration false (Or.inl hdue)
  | bare => exact Ensures.unsupported

theorem bareStmt_shows {t : Tree} (hcounts : ∀ t, counts t → hasAlternatives t)
    (h : ∀ child ∈ t.form.children, Written counts c u child) (hdue : Due counts c false t) :
    Ensures (At u) t.rendering.bareStmt (c.ShownIn u) := by
  have hdeclaration := declaration_shows h false hdue
  have hblock := block_shows_lines (lines_show h [] (Or.inl hdue)) false
  rw [t.rendering_bareStmt]
  cases hform : t.form with
  | stmt form =>
    rw [hform] at h
    cases hline : t.form.lineChildren? with
    | none =>
      rw [hform] at hline
      have hinside := hdue.in_part hform hline
      exact (stmtForm_tells hcounts h (hdeclaration.mono fun _ hshown _ => hshown)
        (hblock.mono fun _ hshown _ => hshown)).mono fun text htext => htext hinside
    | some children =>
      rw [hform] at hline
      cases form with
      | block statements => exact hblock
      | _ => cases hline
  | _ => exact Ensures.unsupported

end Comments

end Recast.Render
