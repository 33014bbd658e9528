import Mathlib
import Recast.Proofs.Comment.Attach
import Recast.Proofs.Comment.Closed
import Recast.Proofs.Grammar.Expression
import Recast.Proofs.Render.Literal
import Recast.Proofs.Render.Texts
import Recast.Proofs.Yields

/-!
The words of a tree.

A tree is `Regular` if it is what reading a file gives, as far as words and comments go: names have
no quotes and slashes, literals and operators are Java's, comments are scanned ones and stand where
attaching puts them. There are no annotations. Whatever such a tree writes for a type or a name is
then plain text, and its literals and operators start and end in code.
-/

namespace Recast

variable {α : Type}

/-! ### Plain texts -/

namespace Text

variable {a b : String}

theorem isPlain_iff : isPlain a ↔ ∀ c ∈ a.toList, c ≠ '/' ∧ c ≠ '"' ∧ c ≠ '\'' := by
  simp [isPlain, and_assoc]

@[simp]
theorem isPlain_append : isPlain (a ++ b) ↔ isPlain a ∧ isPlain b := by
  simp only [isPlain_iff, String.toList_append, List.forall_mem_append]

/-- A text made of characters of a plain one is plain. -/
theorem isPlain_of_subset (ha : isPlain a) (h : b.toList ⊆ a.toList) : isPlain b :=
  isPlain_iff.2 fun c hc => isPlain_iff.1 ha c (h hc)

end Text

/-! ### Literals -/

namespace Grammar

/-- What follows the quotes that close a text block; none if they are missing. -/
def afterTextBlock : List Char → Option (List Char)
  | '"' :: '"' :: '"' :: rest => some rest
  | '\\' :: _ :: rest => afterTextBlock rest
  | _ :: rest => afterTextBlock rest
  | [] => none

/-- Whether a text is a text block: a literal in three quotes, which starts on a line of its own. -/
def isTextBlock : List Char → Bool
  | '"' :: '"' :: '"' :: rest =>
    match rest.dropWhile (· ∈ [' ', '\t']) with
    | '\n' :: body => afterTextBlock body = some []
    | _ => false
  | _ => false

/-- Whether a literal is complete: quoted, a text block, or without quotes and slashes at all, as
numbers and keywords are. -/
def isComplete (text : String) : Bool :=
  Text.isPlain text || isQuoted text.toList || isTextBlock text.toList

theorem mem_of_isTextBlock {text : List Char} (h : isTextBlock text) : '\n' ∈ text := by
  unfold isTextBlock at h
  split at h
  · rename_i rest
    split at h
    · rename_i body hbody
      have hline : '\n' ∈ rest.dropWhile (· ∈ [' ', '\t']) := by rw [hbody]; exact List.mem_cons_self
      simp [(List.dropWhile_suffix _).subset hline]
    · cases h
  · cases h

/-- A reader who comes to the quote that closes a literal is back in code. -/
theorem run_afterQuote {quote : Char} {text : List Char} (hquote : quote ≠ '\\')
    (h : afterQuote quote text = some []) : (Spot.quoted quote).run text = (.code, text) := by
  fun_induction afterQuote quote text with
  | case1 | case3 | case4 => cases h
  | case2 rest =>
    obtain rfl := Option.some.inj h
    simp [Spot.run, Spot.step, hquote]
  | case5 c rest _ _ ih => simp [Spot.run, Spot.step, ih h]
  | case6 c rest hclose hbreak hescape ih =>
    have hline : c ≠ '\n' := fun hc => hbreak (.inl hc)
    simp [Spot.run, Spot.step, hclose, hline, hescape, ih h]

theorem reads_isQuoted {text : String} (h : isQuoted text.toList) : Reads text text.toList := by
  unfold Reads
  cases htext : text.toList with
  | nil =>
    rw [htext] at h
    cases h
  | cons quote rest =>
    rw [htext, isQuoted, Bool.and_eq_true, decide_eq_true_eq, decide_eq_true_eq] at h
    obtain ⟨hquote, hclose⟩ := h
    have hescape : quote ≠ '\\' := by rcases hquote with rfl | rfl <;> decide
    have hopen : Spot.code.step quote = (.quoted quote, [quote]) := by
      rcases hquote with rfl | rfl <;> rfl
    rw [Spot.run, hopen, run_afterQuote hescape hclose]
    rfl

end Grammar

namespace Literal

theorem isPlain_render {value : String} (h : Text.isPlain value) : Text.isPlain (render value) := by
  rw [Text.isPlain_iff] at h ⊢
  intro c hc
  rcases mem_of_mem_render hc with hmem | rfl
  · exact h c hmem
  · decide

/-- A complete literal on one line starts and ends in code. -/
theorem exists_reads_render {value : String} (h : Grammar.isComplete value)
    (hline : '\n' ∉ value.toList) : ∃ kept, Reads (render value) kept := by
  rw [Grammar.isComplete, Bool.or_eq_true, Bool.or_eq_true] at h
  rcases h with (hplain | hquoted) | hblock
  · exact ⟨_, Reads.plain (isPlain_render hplain)⟩
  · rw [render_quoted hquoted]
    exact ⟨_, Grammar.reads_isQuoted hquoted⟩
  · exact absurd (Grammar.mem_of_isTextBlock hblock) hline

end Literal

/-! ### Operators -/

namespace Render

/-- A binary operator between its blanks starts and ends in code. -/
theorem exists_reads_operatorText {operator : String}
    (h : operator ∈ Grammar.binaryOperators.map (·.2.1)) :
    ∃ kept, Reads (" " ++ operatorText operator ++ " ") kept := by
  have hall : ∀ operator ∈ Grammar.binaryOperators.map (·.2.1),
      (Spot.code.run (" " ++ operatorText operator ++ " ").toList).1 = .code := by
    decide +kernel
  exact ⟨_, Prod.ext (hall operator h) rfl⟩

/-- An assignment operator between its blanks starts and ends in code. -/
theorem exists_reads_assignment {operator : String} (h : operator ∈ Grammar.assignmentOperators) :
    ∃ kept, Reads (" " ++ operator ++ " ") kept := by
  have hall : ∀ operator ∈ Grammar.assignmentOperators,
      (Spot.code.run (" " ++ operator ++ " ").toList).1 = .code := by
    decide +kernel
  exact ⟨_, Prod.ext (hall operator h) rfl⟩

theorem isPlain_of_mem_prefixOperators :
    ∀ operator ∈ Grammar.prefixOperators, Text.isPlain operator := by
  decide

theorem isPlain_of_mem_updateOperators :
    ∀ operator ∈ Grammar.updateOperators, Text.isPlain operator := by
  decide

end Render

/-! ### Regular trees -/

section Words

open Grammar

/-- Whether the names of a type have no quotes and slashes. -/
def TypeForm.isSpelled : TypeForm α → Bool
  | .named name .. | .primitive name => Text.isPlain name.display
  | _ => true

/-- Whether the names of an expression have no quotes and slashes, and its literal and its operator
are Java's. -/
def ExprForm.isSpelled : ExprForm α → Bool
  | .ident name | .this name | .field _ name | .call name .. | .methodReference _ name =>
    Text.isPlain name.display
  | .literal value => isComplete value.display
  | .binary operator _ _ => operator.display ∈ binaryOperators.map (·.2.1)
  | .unary operator _ true => operator.display ∈ prefixOperators
  | .unary operator _ false => operator.display ∈ updateOperators
  | .assign operator _ _ => operator.display ∈ assignmentOperators
  | _ => true

/-- Whether the label of a statement has no quotes and slashes. -/
def StmtForm.isSpelled : StmtForm α → Bool
  | .breaking label | .continuing label | .labeled label _ => Text.isPlain label.display
  | _ => true

/-- Whether the name of a member has no quotes and slashes. -/
def MemberForm.isSpelled : MemberForm α → Bool
  | .method name .. | .constructor name .. | .classType name .. | .enumType name .. =>
    Text.isPlain name.display
  | _ => true

/-- Whether the name of a part has no quotes and slashes. -/
def PartForm.isSpelled : PartForm α → Bool
  | .typeParameter name _ | .annotationArgument name _ | .annotationUse name _
  | .declarator name .. | .parameter name .. | .enumConstant name .. | .package name _ =>
    Text.isPlain name.display
  | .importing decl => Text.isPlain decl.text
  | _ => true

/-- Whether the words of a layer are names without quotes and slashes, complete literals, and
operators of Java. -/
def Form.isSpelled : Form α → Bool
  | .type form => form.isSpelled
  | .expr form => form.isSpelled
  | .stmt form => form.isSpelled
  | .member form => form.isSpelled
  | .part form => form.isSpelled
  | .foreign _ => true

/-- Whether the literal or the import name of a layer has no line break. -/
def Form.isInLine : Form α → Bool
  | .expr (.literal value) => '\n' ∉ value.display.toList
  | .part (.importing decl) => '\n' ∉ decl.text.toList
  | _ => true

/-- The annotations of a layer. -/
def Form.annotations : Form α → List α
  | .stmt (.localVariable _ _ _ annotations)
  | .member (.field _ _ _ annotations)
  | .member (.method _ _ _ _ _ _ annotations _)
  | .member (.constructor _ _ _ _ _ annotations _)
  | .member (.classType _ _ annotations _ _ _ _ _)
  | .member (.enumType _ _ annotations _ _ _)
  | .part (.parameter _ _ _ annotations _)
  | .part (.enumConstant _ _ _ annotations)
  | .part (.package _ annotations) => annotations
  | _ => []

end Words

namespace Tree

/-- Whether a node has words of Java, no annotations, and scanned comments in the places where
attaching puts them. -/
structure Regular (t : Tree) : Prop where
  spelled : t.form.isSpelled
  unannotated : t.form.annotations = []
  scanned : ∀ c ∈ t.trivia.comments, ∃ source, c ∈ (scan source).comments
  placed : t.Placed

/-- Whether a node is regular, and its literal or import name stands on one line. -/
structure Clear (t : Tree) : Prop extends t.Regular where
  inLine : t.form.isInLine

theorem Regular.closed {t : Tree} (h : t.Regular) : ∀ c ∈ t.trivia.comments, c.Closed := by
  intro c hc
  obtain ⟨source, hsource⟩ := h.scanned c hc
  exact closed_of_scan hsource

end Tree

/-! ### Plain types -/

theorem composes_isPlain : Composes (Text.isPlain ·) where
  append ha hb := Text.isPlain_append.2 ⟨ha, hb⟩
  group ha := Text.isPlain_append.2 ⟨Text.isPlain_append.2 ⟨rfl, ha⟩, rfl⟩
  fixed := by decide

namespace Tree

variable {t : Tree}

theorem Clear.named (h : t.Clear) : t.Named (Text.isPlain ·) := by
  intro name hname
  have hspelled := h.spelled
  unfold Form.typeName? at hname
  split at hname
  · rename_i hform
    obtain rfl := Option.some.inj hname
    rwa [hform] at hspelled
  · rename_i hform
    obtain rfl := Option.some.inj hname
    rwa [hform] at hspelled
  · rename_i hform
    obtain rfl := Option.some.inj hname
    rwa [hform] at hspelled
  · cases hname

/-- The names in a type, where the tree is clear. -/
theorem Everywhere.named (h : t.Everywhere Clear) : t.Everywhere (Named (Text.isPlain ·)) :=
  h.mono fun _ => Clear.named

end Tree

namespace Render

/-! ### Modifiers -/

/-- Modifiers are written plain where `final` leaves no comment. -/
theorem isPlain_renderAll (modifiers : List Modifier) (context : ModifierContext) (topLevel : Bool) :
    Text.isPlain (Modifier.renderAll modifiers context topLevel false) :=
  renderAll_composes composes_isPlain rfl (by decide) nofun

end Render

end Recast
