import Mathlib
import Recast.Comment.Attach
import Recast.Proofs.Tree.Basic
import Recast.Render.Statements

/-!
Comments that have to be written.

`Due` says which comments of a tree its text has to show: the orphans of containers, and what leads
the children that a container writes on lines of their own. They are looked for in all parts of a
node that are written. Types, parameters and annotations are not looked into: they hold no
statements, the arguments of annotations aside, which do not count.

`ShownIn` says that a text shows a comment: it is there as it is written at some indentation.
-/

namespace Recast

/-! ### Comments in a text -/

namespace Comment

/-- A comment at an indentation, without the indentation of its first line. -/
def bareChars (indent : List Char) (comment : Comment) : List Char :=
  (comment.renderChars indent).drop indent.length

/-- Whether a text shows a comment, at some level of indentation. -/
def ShownIn (unitIndent : String) (comment : Comment) (text : String) : Prop :=
  ∃ level, comment.bareChars (Text.times level unitIndent).toList <:+: text.toList

theorem opener_eq (kind : CommentKind) : ∃ rest, opener kind = '/' :: rest := by
  cases kind <;> exact ⟨_, rfl⟩

/-- A comment starts with its indentation and its opener. -/
theorem renderChars_eq (indent : List Char) (comment : Comment) :
    ∃ rest, comment.renderChars indent = indent ++ '/' :: rest := by
  obtain ⟨delimiter, hopener⟩ := opener_eq comment.kind
  have hstart : ∃ rest, comment.renderChars indent = indent ++ opener comment.kind ++ rest := by
    simp only [renderChars]
    split
    · rename_i hkind
      exact ⟨_, by rw [hkind]⟩
    · split
      · rename_i first second rest _
        rw [List.intercalate_cons_of_ne_nil (by cases rest <;> simp [innerLines])]
        exact ⟨_, by rw [List.append_assoc, List.append_assoc]⟩
      · exact ⟨_, by rw [List.append_assoc]⟩
  obtain ⟨rest, hrest⟩ := hstart
  exact ⟨delimiter ++ rest, by rw [hrest, hopener]; simp⟩

theorem bareChars_eq (indent : List Char) (comment : Comment) :
    ∃ rest, comment.bareChars indent = '/' :: rest ∧
      comment.renderChars indent = indent ++ '/' :: rest := by
  obtain ⟨rest, hrest⟩ := comment.renderChars_eq indent
  exact ⟨rest, by simp [bareChars, hrest], hrest⟩

/-- A line comment is shown the same at every indentation. -/
theorem shownIn_iff_of_line {unitIndent text : String} {comment : Comment}
    (h : comment.kind = .line) :
    comment.ShownIn unitIndent text ↔ opener .line ++ comment.content.toList <:+: text.toList := by
  have hbare (indent : List Char) :
      comment.bareChars indent = opener .line ++ comment.content.toList := by
    simp [bareChars, renderChars, h]
  simp [ShownIn, hbare]

namespace ShownIn

variable {unitIndent text : String} {comment : Comment}

/-- A text shows a comment that it is. -/
theorem render (level : Nat) :
    ShownIn unitIndent comment (comment.render (Text.times level unitIndent)) := by
  refine ⟨level, ?_⟩
  rw [Comment.render, String.toList_ofList, bareChars]
  exact (List.drop_suffix _ _).isInfix

theorem left (h : ShownIn unitIndent comment text) (more : String) :
    ShownIn unitIndent comment (text ++ more) := by
  obtain ⟨level, hinfix⟩ := h
  refine ⟨level, hinfix.trans ?_⟩
  rw [String.toList_append]
  exact (List.prefix_append _ _).isInfix

theorem right (h : ShownIn unitIndent comment text) (more : String) :
    ShownIn unitIndent comment (more ++ text) := by
  obtain ⟨level, hinfix⟩ := h
  refine ⟨level, hinfix.trans ?_⟩
  rw [String.toList_append]
  exact (List.suffix_append _ _).isInfix

/-- Blanks at the start of a text are no part of a comment without indentation. -/
theorem dropBlanks (h : ShownIn unitIndent comment text) :
    ShownIn unitIndent comment (Text.dropBlanks text) := by
  obtain ⟨level, before, after, htext⟩ := h
  refine ⟨level, ?_⟩
  obtain ⟨rest, hbare, -⟩ := comment.bareChars_eq (Text.times level unitIndent).toList
  rw [hbare] at htext ⊢
  have hslash : Text.isBlank '/' = false := by decide
  rw [Text.dropBlanks, String.toList_ofList, Text.trimStart, ← htext, List.append_assoc,
    List.dropWhile_append]
  split
  · exact ⟨[], after, by simp [hslash]⟩
  · exact ⟨before.dropWhile Text.isBlank, after, by simp⟩

/-- A text put together shows what one of its pieces does. -/
theorem intercalate {pieces : List String} (h : ∃ piece ∈ pieces, ShownIn unitIndent comment piece)
    (separator : String) : ShownIn unitIndent comment (separator.intercalate pieces) := by
  induction pieces with
  | nil => simp at h
  | cons first rest ih =>
    obtain ⟨piece, hpiece, hshown⟩ := h
    cases rest with
    | nil =>
      obtain rfl := List.mem_singleton.1 hpiece
      simpa using hshown
    | cons second rest =>
      rw [String.intercalate_cons_cons]
      rcases List.mem_cons.1 hpiece with rfl | hpiece
      · exact (hshown.left _).left _
      · exact (ih ⟨piece, hpiece, hshown⟩).right _

end ShownIn

end Comment

/-! ### Comments in a tree -/

namespace Render

/-- Whether a handler takes everything that can be thrown. -/
def takesAll (clause : Tree) : Bool :=
  (caughtTypes clause).any fun caught => (armType caught).isNone

/-- Whether a handler takes anything at all. -/
def hasAlternatives (clause : Tree) : Bool := !(caughtTypes clause).isEmpty

/-- The handlers of a `try` up to the first that takes everything. -/
def reachedHandlers : List Tree → List Tree
  | [] => []
  | clause :: rest => if takesAll clause then [clause] else clause :: reachedHandlers rest

/-- The sizes of an array up to the first empty bracket pair. -/
def leadingSizes : List (Option Tree) → List Tree
  | some size :: rest => size :: leadingSizes rest
  | _ => []

/-- The labels of a `switch` group. -/
def groupLabels (group : Tree) : List Tree :=
  match group.form with
  | .part (.switchCase labels _) => labels
  | _ => []

/-- The parts of an expression that are written. -/
def writtenInExpr : ExprForm Tree → List Tree
  | .ident _ | .literal _ | .this _ | .super | .classLiteral _ | .bare => []
  | .field target _ | .methodReference target _ => target.toList
  | .call _ arguments target _ => arguments ++ target.toList
  | .create _ arguments body => arguments ++ body.getD []
  | .arrayLiteral values => values
  | .arrayCreate _ _ (some initial) => [initial]
  | .arrayCreate _ dimensions none => leadingSizes dimensions
  | .subscript target index => target.toList ++ index.toList
  | .binary _ left right => left.toList ++ right.toList
  | .unary _ operand _ => operand.toList
  | .assign _ target value => target.toList ++ value.toList
  | .conditional condition whenTrue whenFalse =>
    condition.toList ++ whenTrue.toList ++ whenFalse.toList
  | .cast _ expression | .instanceOf expression _ => expression.toList
  | .lambda _ body => body.toList

/-- The parts of a statement that are written. Only those handlers count that `counts` names. -/
def writtenInStmt (counts : Tree → Bool) : StmtForm Tree → List Tree
  | .breaking _ | .continuing _ | .empty | .bare => []
  | .block statements => statements
  | .localVariable _ bindings _ _ => bindings
  | .evaluate expression | .returning expression | .throwing expression => expression.toList
  | .ifElse condition whenTrue whenFalse =>
    condition.toList ++ whenTrue.toList ++ whenFalse.toList
  | .whileLoop condition body | .doLoop condition body => condition.toList ++ body.toList
  | .forLoop start condition update body =>
    start.children ++ condition.toList ++ update ++ body.toList
  | .forEach _ iterable body => iterable.toList ++ body.toList
  | .switch selector groups => selector.toList ++ groups.flatMap groupLabels ++ groups
  | .tryCatch body resources handlers finalBlock =>
    body.toList ++ resources ++ (reachedHandlers handlers).filter counts ++ finalBlock.toList
  | .synchronized _ body => body.toList
  | .assertion condition message => condition.toList ++ message.toList
  | .labeled _ statement => statement.toList
  | .constructorCall _ arguments => arguments
  | .localType declaration => declaration.toList

/-- The parts of a member that are written: an interface has no method bodies. -/
def writtenInMember (inInterface : Bool) : MemberForm Tree → List Tree
  | .field _ bindings _ _ => bindings
  | .method _ _ _ _ body _ _ _ => if inInterface then [] else body.toList
  | .constructor _ _ _ body _ _ _ | .initializer body _ => body.toList
  | .classType _ _ _ _ _ _ members _ => members
  | .enumType _ _ _ _ constants members => constants ++ members
  | .bareType | .bare => []

/-- The parts of any other node that are written: an interface has no initial values. -/
def writtenInPart (inInterface : Bool) : PartForm Tree → List Tree
  | .declarator _ _ initial => if inInterface then [] else initial.toList
  | .switchCase _ statements => statements
  | .catchClause _ body => body.toList
  | .enumConstant _ arguments body _ => arguments ++ body.getD []
  | .unit header imports types => header.toList ++ imports ++ types
  | _ => []

/-- The parts of a node that are written. -/
def writtenIn (counts : Tree → Bool) (inInterface : Bool) : Form Tree → List Tree
  | .expr form => writtenInExpr form
  | .stmt form => writtenInStmt counts form
  | .member form => writtenInMember inInterface form
  | .part form => writtenInPart inInterface form
  | .type _ | .foreign _ => []

/-- Whether what stands in a node belongs to the body of an interface. -/
def inInterfaceBelow (inInterface : Bool) : Form Tree → Bool
  | .member (.classType _ _ _ _ _ _ _ isInterface) => isInterface
  | .member (.field ..) => inInterface
  | _ => false

/-- The comments that the text of a node has to show. -/
inductive Due (counts : Tree → Bool) (comment : Comment) : Bool → Tree → Prop where
  | orphan {inInterface : Bool} {t : Tree} : t.form.lineChildren?.isSome →
    comment ∈ t.trivia.orphans → Due counts comment inInterface t
  | leads {inInterface : Bool} {t child : Tree} : child ∈ t.form.lineChildren?.getD [] →
    child.comment = some comment → Due counts comment inInterface t
  | inside {inInterface : Bool} {t child : Tree} : child ∈ writtenIn counts inInterface t.form →
    Due counts comment (inInterfaceBelow inInterface t.form) child → Due counts comment inInterface t

section Due

variable {counts : Tree → Bool} {comment : Comment} {inInterface : Bool} {t : Tree}
  {form : Form Tree}

/-- What is due in a node that is no container is due in one of its written parts. -/
theorem Due.in_part (h : Due counts comment inInterface t) (hform : t.form = form)
    (hline : form.lineChildren? = none) : ∃ child ∈ writtenIn counts inInterface form,
      Due counts comment (inInterfaceBelow inInterface form) child := by
  subst hform
  cases h with
  | orphan hsome =>
    rw [hline] at hsome
    cases hsome
  | leads hchild =>
    rw [hline] at hchild
    cases hchild
  | inside hchild hdue => exact ⟨_, hchild, hdue⟩

/-- Nothing is due in a node that is no container and has no written parts. -/
theorem not_due (hform : t.form = form) (hline : form.lineChildren? = none)
    (hwritten : writtenIn counts inInterface form = []) : ¬ Due counts comment inInterface t := by
  intro hdue
  obtain ⟨child, hchild, -⟩ := hdue.in_part hform hline
  rw [hwritten] at hchild
  cases hchild

/-- What is due in a container is an orphan of it, or due in one of its line children, or leads one
of them. -/
theorem Due.in_container {children : List Tree} (h : Due counts comment inInterface t)
    (hform : t.form = form) (hline : form.lineChildren? = some children)
    (hwritten : writtenIn counts inInterface form = children) :
    comment ∈ t.trivia.orphans ∨ ∃ child ∈ children,
      Due counts comment (inInterfaceBelow inInterface form) child ∨
        child.comment = some comment := by
  subst hform
  cases h with
  | orphan _ horphan => exact Or.inl horphan
  | leads hchild hcomment =>
    rw [hline] at hchild
    exact Or.inr ⟨_, hchild, Or.inr hcomment⟩
  | inside hchild hdue =>
    rw [hwritten] at hchild
    exact Or.inr ⟨_, hchild, Or.inl hdue⟩

end Due

end Render

end Recast
