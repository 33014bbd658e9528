import Mathlib
import Recast.Proofs.Comment.Due
import Recast.Proofs.Render.Basic
import Recast.Proofs.Render.Ensures

/-!
Comments through the parts that all rendering is made of.

`Written` says of a node that whatever is due in it is shown by its text, in each place where the
node can stand. This module has what follows for the comment before a node, the chunks of a
container, blocks, and slots.
-/

namespace Recast.Render

/-- Scopes with a unit of indentation. -/
def At (unitIndent : String) (scope : Scope) : Prop := scope.unitIndent = unitIndent

/-- Scopes with a unit of indentation, in the body of an interface or not. -/
def InBody (unitIndent : String) (inInterface : Bool) (scope : Scope) : Prop :=
  At unitIndent scope ∧ scope.isInterface = inInterface

/-- Whether some lines show a comment. -/
def LinesShow (unitIndent : String) (comment : Comment) (lines : List String) : Prop :=
  ∃ line ∈ lines, comment.ShownIn unitIndent line

/-- Whether a node's text shows a comment that is due, in each place where the node can stand. -/
structure Written (counts : Tree → Bool) (comment : Comment) (unitIndent : String) (t : Tree) :
    Prop where
  expr : Due counts comment false t →
    Ensures (At unitIndent) t.rendering.expr (comment.ShownIn unitIndent)
  localVariable : Due counts comment false t →
    Ensures (At unitIndent) t.rendering.localVariable (comment.ShownIn unitIndent)
  fieldVariable (inInterface : Bool) : Due counts comment inInterface t →
    Ensures (InBody unitIndent inInterface) t.rendering.fieldVariable (comment.ShownIn unitIndent)
  declaration (isResource : Bool) : Due counts comment false t →
    Ensures (At unitIndent) (t.rendering.declaration isResource) (comment.ShownIn unitIndent)
  bareStmt : Due counts comment false t →
    Ensures (At unitIndent) t.rendering.bareStmt (comment.ShownIn unitIndent)
  lines (before : List Child) : Due counts comment false t ∨
      (∃ child ∈ before, Ensures (At unitIndent) child.text (comment.ShownIn unitIndent)) →
    Ensures (At unitIndent) (t.rendering.lines before) (LinesShow unitIndent comment)
  caseLines : Due counts comment false t ∨ (∃ label ∈ groupLabels t, Due counts comment false label) →
    Ensures (At unitIndent) t.rendering.caseLines (LinesShow unitIndent comment)
  member (inInterface : Bool) : Due counts comment inInterface t →
    Ensures (InBody unitIndent inInterface) t.rendering.member (comment.ShownIn unitIndent)
  typeDeclaration (inInterface : Bool) :
    Due counts comment inInterface t ∨ t.comment = some comment →
    Ensures (At unitIndent) t.rendering.typeDeclaration (comment.ShownIn unitIndent)
  topLevel : Due counts comment false t ∨ t.comment = some comment →
    Ensures (At unitIndent) t.rendering.topLevel (comment.ShownIn unitIndent)
  unit : Due counts comment false t →
    Ensures (At unitIndent) t.rendering.unit (comment.ShownIn unitIndent)

/-- Whether a text shows a comment that is due in one of some trees. -/
def Tells (counts : Tree → Bool) (c : Comment) (u : String) (ts : List Tree) (text : String) :
    Prop :=
  (∃ t ∈ ts, Due counts c false t) → c.ShownIn u text

section Comments

variable {counts : Tree → Bool} {c : Comment} {u : String}

/-! ### Texts that tell of trees -/

namespace Tells

variable {ts us : List Tree} {text : String}

@[grind ←]
theorem append (hts : Tells counts c u ts text) (hus : Tells counts c u us text) :
    Tells counts c u (ts ++ us) text := by
  rintro ⟨t, ht, hdue⟩
  rcases List.mem_append.1 ht with ht | ht
  · exact hts ⟨t, ht, hdue⟩
  · exact hus ⟨t, ht, hdue⟩

@[grind ←]
theorem left (h : Tells counts c u ts text) (more : String) : Tells counts c u ts (text ++ more) :=
  fun hdue => (h hdue).left more

@[grind ←]
theorem right (h : Tells counts c u ts text) (more : String) : Tells counts c u ts (more ++ text) :=
  fun hdue => (h hdue).right more

@[grind ←]
theorem nil (text : String) : Tells counts c u [] text := by
  rintro ⟨_, ⟨⟩, _⟩

/-- A slot tells of what stands in it. -/
theorem of_slot {K : Scope → Prop} {x : Render String} {t : Tree}
    (h : Due counts c false t → Ensures K x (c.ShownIn u)) :
    Ensures K x (Tells counts c u (some t).toList) := by
  refine Ensures.of_imp fun ⟨_, ht, hdue⟩ => ?_
  obtain rfl := List.mem_singleton.1 ht
  exact h hdue

end Tells

theorem LinesShow.intercalate {lines before after : List String} (h : LinesShow u c lines)
    (separator : String) : c.ShownIn u (separator.intercalate (before ++ lines ++ after)) := by
  obtain ⟨line, hline, hshown⟩ := h
  exact Comment.ShownIn.intercalate ⟨line, by simp [hline], hshown⟩ separator

theorem LinesShow.isEmpty {lines : List String} (h : LinesShow u c lines) :
    lines.isEmpty = false := by
  obtain ⟨line, hline, -⟩ := h
  cases lines with
  | nil => cases hline
  | cons => rfl

/-- A text that shows a comment is not empty. -/
theorem ne_of_shownIn {text : String} (h : c.ShownIn u text) : text ≠ "" := by
  rintro rfl
  obtain ⟨level, hinfix⟩ := h
  obtain ⟨rest, hbare, -⟩ := c.bareChars_eq (Text.times level u).toList
  rw [hbare] at hinfix
  simpa using hinfix.length_le

/-! ### Scopes -/

theorem indent_ensures : Ensures (At u) indent fun text => ∃ level, text = Text.times level u := by
  refine Ensures.read.bind fun scope hscope => Ensures.pure ?_
  exact ⟨scope.level.toNat, by rw [hscope]⟩

theorem InBody.at {inInterface : Bool} {α : Type} {x : Render α} {P : α → Prop}
    (h : Ensures (At u) x P) : Ensures (InBody u inInterface) x P :=
  h.weaken fun _ hscope => hscope.1

/-! ### The comment before a node -/

theorem commentText_shows : Ensures (At u) (commentText c) (c.ShownIn u) := by
  refine indent_ensures.bind fun text htext => Ensures.pure ?_
  obtain ⟨level, rfl⟩ := htext
  exact Comment.ShownIn.render level

/-- A node's text shows the node's comment, and what it showed before. -/
theorem withComment_shows {t : Tree} {text : String}
    (h : c.ShownIn u text ∨ t.comment = some c) :
    Ensures (At u) (withComment t text) (c.ShownIn u) := by
  unfold withComment
  cases hcomment : t.comment with
  | none =>
    rw [hcomment] at h
    exact Ensures.pure (h.resolve_right (by simp))
  | some own =>
    rcases h with hshown | hown
    · exact Ensures.bind_any fun _ => Ensures.pure (hshown.right _)
    · obtain rfl := Option.some.inj (hcomment.symm.trans hown)
      exact commentText_shows.bind fun _ hshown => Ensures.pure ((hshown.left _).left _)

/-! ### Containers -/

theorem underComments_shows {leading : List String} {text : String}
    (h : LinesShow u c leading ∨ c.ShownIn u text) : c.ShownIn u (underComments leading text) := by
  unfold underComments
  split
  · rename_i hempty
    rcases h with hleading | htext
    · rw [hleading.isEmpty] at hempty
      cases hempty
    · exact htext
  · split
    · rename_i hempty
      rcases h with hleading | htext
      · exact Comment.ShownIn.intercalate hleading _
      · exact absurd hempty (ne_of_shownIn htext)
    · rcases h with ⟨line, hline, hshown⟩ | htext
      · exact Comment.ShownIn.intercalate ⟨line, by simp [hline], hshown⟩ _
      · exact Comment.ShownIn.intercalate ⟨text, by simp, htext⟩ _

theorem takeBefore_append (start : Option Position) (pending : List Comment) :
    (takeBefore start pending).1 ++ (takeBefore start pending).2 = pending := by
  cases start with
  | none => rfl
  | some p => exact List.takeWhile_append_dropWhile

section Chunks

variable {K : Scope → Prop} (hK : ∀ scope, K scope → At u scope)

include hK

theorem comments_show {comments : List Comment} (h : c ∈ comments) :
    Ensures K (comments.mapM commentText) (LinesShow u c) :=
  Ensures.mapM_exists ⟨c, h, commentText_shows.weaken hK⟩

/-- The chunks of a container show what its pending comments and its children do. -/
theorem chunksFrom_shows {pending : List Comment} {children : List Child}
    (h : c ∈ pending ∨ ∃ child ∈ children, Ensures K child.text (c.ShownIn u)) :
    Ensures K (chunksFrom pending children) (LinesShow u c) := by
  induction children generalizing pending with
  | nil =>
    have hpending : c ∈ pending := h.resolve_right (by simp)
    unfold chunksFrom
    rw [if_neg (by simpa using List.ne_nil_of_mem hpending)]
    refine (comments_show hK hpending).bind fun texts htexts => Ensures.pure ?_
    exact ⟨_, List.mem_singleton_self _, Comment.ShownIn.intercalate htexts _⟩
  | cons child rest ih =>
    unfold chunksFrom
    have hsplit : c ∈ pending → c ∈ (takeBefore child.position pending).1 ∨
        c ∈ (takeBefore child.position pending).2 := by
      rw [← List.mem_append, takeBefore_append]
      exact id
    refine Ensures.bind (Ensures.of_imp
      fun hleading : c ∈ (takeBefore child.position pending).1 => comments_show hK hleading)
      fun texts htexts => ?_
    refine Ensures.bind (Ensures.of_imp fun hchild : Ensures K child.text (c.ShownIn u) => hchild)
      fun text htext => ?_
    refine Ensures.bind (Ensures.of_imp ih) fun chunks hchunks => Ensures.pure ?_
    have hfirst : LinesShow u c texts ∨ c.ShownIn u text →
        LinesShow u c (underComments texts text :: chunks) := fun hshown =>
      ⟨_, List.mem_cons_self, underComments_shows hshown⟩
    have hrest : LinesShow u c chunks → LinesShow u c (underComments texts text :: chunks) :=
      fun ⟨chunk, hchunk, hshown⟩ => ⟨chunk, List.mem_cons_of_mem _ hchunk, hshown⟩
    rcases h with hpending | ⟨other, hother, hensures⟩
    · rcases hsplit hpending with hleading | hlater
      · exact hfirst (Or.inl (htexts hleading))
      · exact hrest (hchunks (Or.inl hlater))
    · rcases List.mem_cons.1 hother with rfl | hother
      · exact hfirst (Or.inr (htext hensures))
      · exact hrest (hchunks (Or.inr ⟨other, hother, hensures⟩))

theorem childChunks_shows {orphans : List Comment} {children : List Child}
    (h : c ∈ orphans ∨ ∃ child ∈ children, Ensures K child.text (c.ShownIn u)) :
    Ensures K (childChunks orphans children) (LinesShow u c) := by
  refine chunksFrom_shows hK (h.imp_left fun horphan => ?_)
  exact (List.mergeSort_perm _ _).mem_iff.2 horphan

end Chunks

/-! ### Blocks and statements -/

theorem block_shows_lines {r : Rendering} (h : Ensures (At u) (r.lines []) (LinesShow u c))
    (inline : Bool) : Ensures (At u) (r.block inline) (c.ShownIn u) := by
  refine Ensures.bind_any fun indent => ?_
  refine (h.indented fun _ hscope => hscope).bind fun lines hlines => ?_
  rw [hlines.isEmpty]
  exact Ensures.pure (hlines.intercalate _)

theorem block_shows {t : Tree} (ht : Written counts c u t) (hdue : Due counts c false t)
    (inline : Bool) : Ensures (At u) (t.rendering.block inline) (c.ShownIn u) :=
  block_shows_lines (ht.lines [] (Or.inl hdue)) inline

theorem stmt_shows {t : Tree} (ht : Written counts c u t)
    (h : Due counts c false t ∨ t.comment = some c) :
    Ensures (At u) t.rendering.stmt (c.ShownIn u) := by
  refine Ensures.bind (Ensures.of_imp ht.bareStmt) fun text htext => ?_
  rw [t.rendering_node]
  exact withComment_shows (h.imp_left htext)

theorem body_shows {t : Tree} (ht : Written counts c u t) (hdue : Due counts c false t) :
    Ensures (At u) t.rendering.body (c.ShownIn u) := by
  refine Ensures.ite (fun _ => block_shows ht hdue true) fun _ => ?_
  refine Ensures.bind_any fun indent => ?_
  refine ((stmt_shows ht (Or.inl hdue)).indented fun _ hscope => hscope).bind fun text htext => ?_
  exact Ensures.pure (Comment.ShownIn.intercalate ⟨text, by simp, htext⟩ _)

/-! ### Slots -/

section Slots

variable {slot : Option Tree}

section

variable (h : ∀ t ∈ slot.toList, Written counts c u t)

include h

theorem slotExpr_tells :
    Ensures (At u) (slotExpr (slot.map Tree.rendering)) (Tells counts c u slot.toList) := by
  cases slot with
  | none => exact Ensures.unsupported
  | some t => exact Tells.of_slot (h t (by simp)).expr

theorem slotStmt_tells :
    Ensures (At u) (slotStmt (slot.map Tree.rendering)) (Tells counts c u slot.toList) := by
  cases slot with
  | none => exact Ensures.unsupported
  | some t => exact Tells.of_slot fun hdue => stmt_shows (h t (by simp)) (Or.inl hdue)

theorem slotBody_tells :
    Ensures (At u) (slotBody (slot.map Tree.rendering)) (Tells counts c u slot.toList) := by
  cases slot with
  | none => exact Ensures.unsupported
  | some t => exact Tells.of_slot (body_shows (h t (by simp)))

theorem slotBlock_tells (inline : Bool) :
    Ensures (At u) (slotBlock inline (slot.map Tree.rendering)) (Tells counts c u slot.toList) := by
  cases slot with
  | none => exact Ensures.unsupported
  | some t => exact Tells.of_slot fun hdue => block_shows (h t (by simp)) hdue inline

end

/-- A slot that may be empty tells of what stands in it. -/
theorem optionalText_tells {before : String} {text : Rendering → Render String}
    (htext : ∀ t ∈ slot.toList, Due counts c false t →
      Ensures (At u) (text t.rendering) (c.ShownIn u)) :
    Ensures (At u) (optionalText before text (slot.map Tree.rendering))
      (Tells counts c u slot.toList) := by
  cases slot with
  | none => exact Ensures.pure (Tells.nil _)
  | some t =>
    refine Tells.of_slot fun hdue => (htext t (by simp) hdue).bind fun code hcode => ?_
    exact Ensures.pure (hcode.right _)

end Slots

end Comments

end Recast.Render
