import Mathlib
import Recast.Proofs.Render.Comments.Statements

/-!
Comments in declarations.

A type nested in another leaves nothing in its body, and its comments are written with it where it
is moved to. With this every node is written, and a unit shows every comment that is due in it.
-/

namespace Recast.Render

section Comments

variable {counts : Tree → Bool} {c : Comment} {u : String} {inInterface : Bool}

/-! ### Members -/

theorem fieldVariable_shows {t : Tree} (h : ∀ child ∈ t.form.children, Written counts c u child)
    (hdue : Due counts c inInterface t) :
    Ensures (InBody u inInterface) t.rendering.fieldVariable (c.ShownIn u) := by
  rw [t.rendering_fieldVariable]
  cases hform : t.form with
  | part form =>
    cases form with
    | declarator name dimensions initial =>
      obtain ⟨child, hchild, hdue⟩ := hdue.in_part hform rfl
      rw [hform] at h
      simp only [writtenIn, writtenInPart] at hchild
      cases inInterface with
      | true => cases hchild
      | false =>
        obtain rfl : initial = some child := by simpa using hchild
        refine Ensures.read.bind fun scope hscope => Ensures.bind_any fun code => ?_
        refine Ensures.ite (fun hinterface => ?_) fun _ => ?_
        · rw [hscope.2] at hinterface
          cases hinterface
        · have hvalue := (h child (by simp [Form.children, PartForm.children])).expr hdue
          exact (InBody.at hvalue).bind fun text htext => Ensures.pure (htext.right _)
    | _ => exact noVariable_stops
  | _ => exact noVariable_stops

theorem fieldText_shows {type : Option Tree} {bindings : List Tree} {modifiers : List Modifier}
    {annotations : List Rendering}
    (h : ∃ t ∈ bindings, Written counts c u t ∧ Due counts c inInterface t) :
    Ensures (InBody u inInterface)
      (fieldText type (bindings.map Tree.rendering) modifiers annotations) (c.ShownIn u) := by
  obtain ⟨t, ht, hwritten, hdue⟩ := h
  refine Ensures.bind_any fun scope => Ensures.bind_any fun indent => ?_
  refine Ensures.bind_any fun decorators => ?_
  have hbindings := Ensures.mapM_exists
    ⟨t.rendering, List.mem_map_of_mem ht, hwritten.fieldVariable inInterface hdue⟩
  refine (hbindings.declaring fun _ hscope => hscope).bind fun texts htexts => Ensures.pure ?_
  obtain ⟨text, htext, hshown⟩ := htexts
  refine Comment.ShownIn.intercalate ⟨_, List.mem_append_right _ (List.mem_map_of_mem htext), ?_⟩ _
  exact (hshown.right _).left _

theorem methodText_shows {node : Tree} {name : Word} {returnType : Option Tree}
    {parameters : List Rendering} {throws : List Tree} {body : Tree} {modifiers : List Modifier}
    {annotations : List Rendering} {typeParameters : List Tree} (ht : Written counts c u body)
    (hdue : Due counts c false body) :
    Ensures (InBody u false) (methodText node name returnType parameters throws
      (some body.rendering) modifiers annotations typeParameters) (c.ShownIn u) := by
  refine Ensures.read.bind fun scope hscope => Ensures.bind_any fun indent => ?_
  refine Ensures.bind_any fun notes => Ensures.bind_any fun types => ?_
  refine Ensures.bind_any fun parameters => Ensures.bind_any fun returned => ?_
  refine Ensures.bind_any fun throws => Ensures.ite (fun hinterface => ?_) fun _ => ?_
  · rw [hscope.2] at hinterface
    cases hinterface
  · have hblock : Ensures (InBody u false) (body.rendering.block true) (c.ShownIn u) :=
      InBody.at (block_shows ht hdue true)
    refine (hblock.inBody fun _ hscope => hscope).bind fun block hshown => Ensures.pure ?_
    exact Comment.ShownIn.intercalate ⟨_, List.mem_append_right _ (List.mem_singleton_self _),
      hshown.right _⟩ _

theorem constructorText_shows {parameters : List Rendering} {throws : List Tree} {body : Tree}
    {modifiers : List Modifier} {annotations : List Rendering} (ht : Written counts c u body)
    (hdue : Due counts c false body) :
    Ensures (At u) (constructorText parameters throws (some body.rendering) modifiers annotations)
      (c.ShownIn u) := by
  refine Ensures.bind_any fun indent => Ensures.bind_any fun decorators => ?_
  refine Ensures.bind_any fun parameters => Ensures.bind_any fun throws => ?_
  refine ((block_shows ht hdue true).inBody fun _ hscope => hscope).bind fun block hshown => ?_
  refine Ensures.pure ?_
  exact Comment.ShownIn.intercalate ⟨_, List.mem_append_right _ (List.mem_singleton_self _),
    hshown.right _⟩ _

theorem initializerText_shows {node body : Tree} {isStatic : Bool} (ht : Written counts c u body)
    (hdue : Due counts c false body) :
    Ensures (At u) (initializerText node (some body.rendering) isStatic) (c.ShownIn u) := by
  refine Ensures.bind_any fun scope => Ensures.bind_any fun indent => ?_
  refine Ensures.ite (fun _ => Ensures.stop_bind) fun _ => ?_
  exact ((block_shows ht hdue true).inBody fun _ hscope => hscope).bind fun block hshown =>
    Ensures.pure (hshown.right _)

theorem member_shows {t : Tree} (h : ∀ child ∈ t.form.children, Written counts c u child)
    (hdue : Due counts c inInterface t) :
    Ensures (InBody u inInterface) t.rendering.member (c.ShownIn u) := by
  rw [t.rendering_member]
  cases hform : t.form with
  | member form =>
    cases form with
    | field type bindings modifiers annotations =>
      obtain ⟨child, hchild, hdue⟩ := hdue.in_part hform rfl
      rw [hform] at h
      have hbinding : child ∈ bindings := hchild
      exact fieldText_shows ⟨child, hbinding,
        h child (by simp [Form.children, MemberForm.children, hbinding]), hdue⟩
    | method name returnType parameters throws body modifiers annotations typeParameters =>
      obtain ⟨child, hchild, hdue⟩ := hdue.in_part hform rfl
      rw [hform] at h
      simp only [writtenIn, writtenInMember] at hchild
      cases inInterface with
      | true => cases hchild
      | false =>
        obtain rfl : body = some child := by simpa using hchild
        exact methodText_shows (h child (by simp [Form.children, MemberForm.children])) hdue
    | constructor name parameters throws body modifiers annotations typeParameters =>
      obtain ⟨child, hchild, hdue⟩ := hdue.in_part hform rfl
      rw [hform] at h
      obtain rfl : body = some child := by simpa [writtenIn, writtenInMember] using hchild
      exact InBody.at (constructorText_shows
        (h child (by simp [Form.children, MemberForm.children])) hdue)
    | initializer body isStatic =>
      obtain ⟨child, hchild, hdue⟩ := hdue.in_part hform rfl
      rw [hform] at h
      obtain rfl : body = some child := by simpa [writtenIn, writtenInMember] using hchild
      exact InBody.at (initializerText_shows
        (h child (by simp [Form.children, MemberForm.children])) hdue)
    | _ => exact Ensures.unsupported
  | _ => exact Ensures.unsupported

/-! ### Types -/

/-- A member that stays in the body of its type. -/
theorem memberChild_shows {t : Tree} (ht : Written counts c u t)
    (hstays : t.isTypeDeclaration = false) (h : Due counts c inInterface t ∨ t.comment = some c) :
    Ensures (InBody u inInterface) (memberChild t.rendering).text (c.ShownIn u) := by
  simp only [memberChild, t.rendering_node, hstays]
  refine Ensures.bind (Ensures.of_imp (ht.member inInterface)) fun text htext => ?_
  exact InBody.at (withComment_shows (h.imp_left htext))

theorem joinMembers_shows {flagged : List (Bool × String)}
    (h : ∃ entry ∈ flagged, c.ShownIn u entry.2) (previous : Option Bool) :
    c.ShownIn u (joinMembers previous flagged) := by
  induction flagged generalizing previous with
  | nil => simp at h
  | cons first rest ih =>
    obtain ⟨isField, chunk⟩ := first
    obtain ⟨entry, hentry, hshown⟩ := h
    unfold joinMembers
    split
    · rename_i hempty
      rcases List.mem_cons.1 hentry with rfl | hentry
      · exact absurd hempty (ne_of_shownIn hshown)
      · exact ih ⟨entry, hentry, hshown⟩ previous
    · rcases List.mem_cons.1 hentry with rfl | hentry
      · exact (hshown.right _).left _
      · exact (ih ⟨entry, hentry, hshown⟩ _).right _

theorem fieldFlags_shows (members : List Rendering) {chunks : List String}
    (h : LinesShow u c chunks) : ∃ entry ∈ fieldFlags members chunks, c.ShownIn u entry.2 := by
  obtain ⟨line, hline, hshown⟩ := h
  rw [← map_snd_fieldFlags members chunks] at hline
  obtain ⟨entry, hentry, rfl⟩ := List.mem_map.1 hline
  exact ⟨entry, hentry, hshown⟩

/-- The body of a type shows its orphans, and what is due in the members that stay in it. -/
theorem membersText_shows {node : Tree} {members : List Tree}
    (h : ∀ t ∈ members, Written counts c u t)
    (hdue : c ∈ node.trivia.orphans ∨ ∃ t ∈ members, t.isTypeDeclaration = false ∧
      (Due counts c inInterface t ∨ t.comment = some c)) :
    Ensures (InBody u inInterface) (membersText node (members.map Tree.rendering))
      (c.ShownIn u) := by
  refine Ensures.bind_any fun indent => ?_
  have hchunks : Ensures (InBody u inInterface) (childChunks node.trivia.orphans
      ((members.map Tree.rendering).map memberChild)) (LinesShow u c) := by
    refine childChunks_shows (fun _ hscope => hscope.1) (hdue.imp_right ?_)
    rintro ⟨t, ht, hstays, hdue⟩
    exact ⟨_, List.mem_map_of_mem (List.mem_map_of_mem ht), memberChild_shows (h t ht) hstays hdue⟩
  refine (hchunks.indented fun _ hscope => hscope).bind fun chunks hshown => Ensures.pure ?_
  have htext := joinMembers_shows (fieldFlags_shows (members.map Tree.rendering) hshown) none
  rw [if_neg (ne_of_shownIn htext)]
  exact (((htext.right _).left _).left _).left _

/-- The types nested in a type show their comments, and what is due in them. -/
theorem hoisted_shows {outer : Word} {members : List Tree} {t : Tree} (ht : t ∈ members)
    (hwritten : Written counts c u t) (hmoves : t.isTypeDeclaration)
    (hdue : Due counts c inInterface t ∨ t.comment = some c) :
    Ensures (At u) (hoisted outer (members.map Tree.rendering)) (LinesShow u c) := by
  refine Ensures.mapM_exists ⟨t.rendering, ?_, ?_⟩
  · exact List.mem_filter.2 ⟨List.mem_map_of_mem ht, by rw [t.rendering_node]; exact hmoves⟩
  · exact Ensures.bind_any fun _ => hwritten.typeDeclaration inInterface hdue

theorem classText_shows {node : Tree} {name : Word} {modifiers : List Modifier}
    {annotations : List Rendering} {typeParameters parents interfaces members : List Tree}
    {isInterface : Bool} (h : ∀ t ∈ members, Written counts c u t)
    (hdue : c ∈ node.trivia.orphans ∨ ∃ t ∈ members, t.isTypeDeclaration = false ∧
      (Due counts c isInterface t ∨ t.comment = some c)) :
    Ensures (At u) (classText node name modifiers annotations typeParameters parents interfaces
      (members.map Tree.rendering) isInterface) (c.ShownIn u) := by
  refine Ensures.bind_any fun scope => Ensures.bind_any fun indent => ?_
  refine Ensures.bind_any fun decorators => Ensures.bind_any fun types => ?_
  refine Ensures.bind_any fun extended => Ensures.bind_any fun implemented => ?_
  have hbody : Ensures (At u) (inType name (!parents.isEmpty && !isInterface) isInterface
      (membersText node (members.map Tree.rendering))) (c.ShownIn u) :=
    (membersText_shows h hdue).withReader fun _ hscope => ⟨hscope, rfl⟩
  refine hbody.bind fun body hbody => Ensures.pure ?_
  exact Comment.ShownIn.intercalate
    ⟨_, List.mem_append_right _ (List.mem_singleton_self _), hbody.right _⟩ _

/-- A constant without arguments and body shows its comment, and nothing is due in it. -/
theorem constantChild_shows {t : Tree} (hplain : richName? t = none)
    (h : Due counts c false t ∨ t.comment = some c) :
    Ensures (At u) (constantChild t.rendering).text (c.ShownIn u) := by
  simp only [constantChild, t.rendering_node]
  split
  · rename_i name arguments body annotations hform
    simp only [richName?, hform] at hplain
    obtain ⟨rfl, rfl⟩ : arguments = [] ∧ body = none := by simpa using hplain
    have hown := h.resolve_left (not_due hform rfl rfl)
    exact Ensures.bind_any fun indent => withComment_shows (Or.inr hown)
  · exact Ensures.unsupported

theorem enumText_shows {node : Tree} {name : Word} {modifiers : List Modifier}
    {annotations : List Rendering} {interfaces constants members : List Tree}
    (hdue : c ∈ node.trivia.orphans ∨ ∃ t ∈ constants ++ members,
      Due counts c false t ∨ t.comment = some c) :
    Ensures (At u) (enumText node name modifiers annotations interfaces
      (constants.map Tree.rendering) (members.map Tree.rendering)) (c.ShownIn u) := by
  refine Ensures.bind_any fun scope => Ensures.bind_any fun indent => ?_
  refine Ensures.ite (fun _ => Ensures.stop_bind) fun hmembers => ?_
  obtain rfl : members = [] := by simpa using hmembers
  cases hrich : richConstant? (constants.map Tree.rendering) with
  | some constant => exact Ensures.stop_bind
  | none =>
    refine Ensures.bind_any fun _ => Ensures.bind_any fun notes => ?_
    have hchunks : Ensures (At u) (childChunks node.trivia.orphans
        ((constants.map Tree.rendering).map constantChild)) (LinesShow u c) := by
      refine childChunks_shows (fun _ hscope => hscope) (hdue.imp_right ?_)
      rintro ⟨t, ht, hdue⟩
      rw [List.append_nil] at ht
      refine ⟨_, List.mem_map_of_mem (List.mem_map_of_mem ht), constantChild_shows ?_ hdue⟩
      have hplain := List.findSome?_eq_none_iff.1 hrich _ (List.mem_map_of_mem ht)
      rwa [t.rendering_node] at hplain
    refine (hchunks.indented fun _ hscope => hscope).bind fun chunks hchunks => ?_
    rw [hchunks.isEmpty]
    exact Ensures.pure (hchunks.intercalate _)

theorem typeDeclaration_shows {t : Tree} (h : ∀ child ∈ t.form.children, Written counts c u child)
    (hdue : Due counts c inInterface t ∨ t.comment = some c) :
    Ensures (At u) t.rendering.typeDeclaration (c.ShownIn u) := by
  rw [t.rendering_typeDeclaration]
  cases hform : t.form with
  | member form =>
    cases form with
    | classType name modifiers annotations typeParameters parents interfaces members isInterface =>
      rw [hform] at h
      have hmembers : ∀ child ∈ members, Written counts c u child := fun child hchild =>
        h child (by simp [Form.children, MemberForm.children, hchild])
      have hdue : (c ∈ t.trivia.orphans ∨ ∃ child ∈ members, child.isTypeDeclaration = false ∧
            (Due counts c isInterface child ∨ child.comment = some c)) ∨ t.comment = some c ∨
          ∃ child ∈ members, child.isTypeDeclaration ∧
            (Due counts c isInterface child ∨ child.comment = some c) := by
        rcases hdue with hdue | hown
        · rcases hdue.in_container hform rfl rfl with horphan | ⟨child, hchild, hdue⟩
          · exact Or.inl (Or.inl horphan)
          · cases hmoves : child.isTypeDeclaration with
            | false => exact Or.inl (Or.inr ⟨child, hchild, hmoves, hdue⟩)
            | true => exact Or.inr (Or.inr ⟨child, hchild, hmoves, hdue⟩)
        · exact Or.inr (Or.inl hown)
      refine Ensures.bind (Ensures.of_imp (classText_shows hmembers)) fun text htext => ?_
      refine Ensures.bind (Ensures.of_imp fun h : c.ShownIn u text ∨ t.comment = some c =>
        withComment_shows h) fun commented hcommented => ?_
      have hmoved : (∃ child ∈ members, child.isTypeDeclaration ∧
          (Due counts c isInterface child ∨ child.comment = some c)) →
          Ensures (At u) (hoisted name (members.map Tree.rendering)) (LinesShow u c) := by
        rintro ⟨child, hchild, hmoves, hdue⟩
        exact hoisted_shows hchild (hmembers child hchild) hmoves hdue
      refine Ensures.bind (Ensures.of_imp hmoved) fun nested hnested => ?_
      refine Ensures.pure ?_
      rcases hdue with hbody | hown | hmoved
      · exact Comment.ShownIn.intercalate
          ⟨_, List.mem_cons_self, hcommented (Or.inl (htext hbody))⟩ _
      · exact Comment.ShownIn.intercalate ⟨_, List.mem_cons_self, hcommented (Or.inr hown)⟩ _
      · obtain ⟨chunk, hchunk, hshown⟩ := hnested hmoved
        exact Comment.ShownIn.intercalate ⟨chunk, List.mem_cons_of_mem _ hchunk, hshown⟩ _
    | enumType name modifiers annotations interfaces constants members =>
      rcases hdue with hdue | hown
      · exact (enumText_shows (hdue.in_container hform rfl rfl)).bind fun text htext =>
          withComment_shows (Or.inl htext)
      · exact Ensures.bind_any fun text => withComment_shows (Or.inr hown)
    | _ => exact Ensures.unsupported
  | _ => exact Ensures.unsupported

end Comments

end Recast.Render
