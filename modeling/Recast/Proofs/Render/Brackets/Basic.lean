import Mathlib
import Recast.Proofs.Render.Basic
import Recast.Proofs.Render.Ensures
import Recast.Proofs.Render.Literal
import Recast.Proofs.Render.Texts
import Recast.Proofs.Tree.Basic

/-!
Brackets and what they enclose.

A reader of a text keeps the brackets that are due: an opening bracket makes its counterpart due,
and a closing one must be the one due first (`meet`). A text is closed if it leaves a reader with
what was due before it (`IsClosed`). That is what rendering keeps up piece by piece, where words
have no brackets of their own; and a closed text has its brackets in pairs, one inside or after the
other (`Nested`).
-/

namespace Recast

/-! ### Brackets -/

/-- The bracket that closes an opening one. -/
@[simp]
def closing? : Char → Option Char
  | '(' => some ')'
  | '[' => some ']'
  | '\x7b' => some '\x7d'
  | _ => none

/-- Whether a character is a bracket. -/
def isBracket (c : Char) : Bool := c ∈ ['(', ')', '[', ']', '\x7b', '\x7d']

/-- Whether brackets stand in pairs, one inside or after the other. -/
inductive Nested : List Char → Prop where
  | nil : Nested []
  | pair {opening closing : Char} {inner rest : List Char} (h : closing? opening = some closing)
      (hinner : Nested inner) (hrest : Nested rest) :
      Nested (opening :: inner ++ closing :: rest)

/-- The brackets that are due after one more character, the one due first in front. -/
@[simp]
def meet (due : List Char) (c : Char) : Option (List Char) :=
  match closing? c with
  | some closing => some (closing :: due)
  | none =>
    if c = ')' ∨ c = ']' ∨ c = '\x7d' then
      match due with
      | [] => none
      | first :: due => if c = first then some due else none
    else some due

/-- Whether a text leaves due what was due before it. -/
def IsClosed (text : String) : Prop := ∀ due, text.toList.foldlM meet due = some due

/-- Whether a text has no brackets. -/
def IsFree (text : String) : Prop := ∀ c ∈ text.toList, isBracket c = false

instance (text : String) : Decidable (IsFree text) :=
  List.decidableBAll (isBracket · = false) text.toList

/-- What a text without anything due before its end has left to close. -/
def Owed : List Char → List Char → Prop
  | [], text => Nested text
  | first :: due, text =>
    ∃ inner rest, text = inner ++ first :: rest ∧ Nested inner ∧ Owed due rest

theorem meet_of_not_isBracket {c : Char} (h : isBracket c = false) (due : List Char) :
    meet due c = some due := by
  simp only [isBracket, List.mem_cons, List.not_mem_nil, or_false, decide_eq_false_iff_not,
    not_or] at h
  obtain ⟨h1, h2, h3, h4, h5, h6⟩ := h
  simp [h2, h4, h6]

/-- A bracket that closes none opens one, or is due. -/
theorem meet_eq_some {c : Char} {due due' : List Char} (hbracket : isBracket c)
    (h : meet due c = some due') :
    (∃ closing, closing? c = some closing ∧ due' = closing :: due) ∨ due = c :: due' := by
  unfold meet at h
  split at h
  · rename_i closing hclosing
    exact .inl ⟨closing, hclosing, (Option.some.inj h).symm⟩
  · rename_i hclosing
    refine .inr ?_
    split at h
    · split at h
      · cases h
      · split at h
        · rename_i hfirst
          rw [hfirst, Option.some.inj h]
        · cases h
    · simp only [isBracket, List.mem_cons, List.not_mem_nil, or_false, decide_eq_true_eq] at hbracket
      rcases hbracket with rfl | rfl | rfl | rfl | rfl | rfl <;> simp_all

/-- What opens a pair may stand before what is owed. -/
theorem Owed.pair {opening closing : Char} {due inner rest : List Char}
    (h : closing? opening = some closing) (hinner : Nested inner) (hrest : Owed due rest) :
    Owed due (opening :: inner ++ closing :: rest) := by
  cases due with
  | nil => exact hinner.pair h hrest
  | cons first due =>
    obtain ⟨next, last, rfl, hnext, hlast⟩ := hrest
    exact ⟨opening :: inner ++ closing :: next, last, by simp, hinner.pair h hnext, hlast⟩

/-- Brackets that leave nothing due close what was. -/
theorem owed_of_foldlM {due brackets : List Char} (hbrackets : ∀ c ∈ brackets, isBracket c)
    (h : brackets.foldlM meet due = some []) : Owed due brackets := by
  induction brackets generalizing due with
  | nil =>
    obtain rfl : due = [] := by simpa using h
    exact Nested.nil
  | cons c rest ih =>
    rw [List.forall_mem_cons] at hbrackets
    rw [List.foldlM_cons] at h
    obtain ⟨due', hmeet, hrest⟩ := Option.bind_eq_some_iff.1 h
    have howed := ih hbrackets.2 hrest
    rcases meet_eq_some hbrackets.1 hmeet with ⟨closing, hclosing, rfl⟩ | rfl
    · obtain ⟨inner, rest, rfl, hinner, hrest⟩ := howed
      exact Owed.pair hclosing hinner hrest
    · exact ⟨[], rest, rfl, Nested.nil, howed⟩

theorem foldlM_filter_isBracket (text due : List Char) :
    (text.filter isBracket).foldlM meet due = text.foldlM meet due := by
  induction text generalizing due with
  | nil => rfl
  | cons c rest ih =>
    cases hc : isBracket c with
    | false =>
      rw [List.filter_cons_of_neg (by simp [hc]), ih, List.foldlM_cons, meet_of_not_isBracket hc]
      rfl
    | true =>
      rw [List.filter_cons_of_pos hc, List.foldlM_cons, List.foldlM_cons]
      exact congrArg _ (funext ih)

namespace IsClosed

variable {a b : String}

/-- The brackets of a closed text are nested. -/
theorem nested (h : IsClosed a) : Nested (a.toList.filter isBracket) := by
  have hnone : (a.toList.filter isBracket).foldlM meet [] = some [] := by
    rw [foldlM_filter_isBracket, h]
  exact owed_of_foldlM (fun c hc => (List.mem_filter.1 hc).2) hnone

theorem of_free (h : IsFree a) : IsClosed a := by
  intro due
  unfold IsFree at h
  generalize a.toList = text at h ⊢
  induction text with
  | nil => rfl
  | cons c rest ih =>
    rw [List.forall_mem_cons] at h
    rw [List.foldlM_cons, meet_of_not_isBracket h.1]
    exact ih h.2

theorem append (ha : IsClosed a) (hb : IsClosed b) : IsClosed (a ++ b) := by
  intro due
  simp [ha _, hb _]

theorem ite {condition : Prop} [Decidable condition] (ha : IsClosed a) (hb : IsClosed b) :
    IsClosed (if condition then a else b) := by
  split
  · exact ha
  · exact hb

theorem group (h : IsClosed a) : IsClosed ("(" ++ a ++ ")") := by
  intro due
  simp [h _]

end IsClosed

theorem composes_isClosed : Composes IsClosed where
  append := IsClosed.append
  group := IsClosed.group
  fixed := by
    intro text htext due
    simp only [List.mem_cons, List.not_mem_nil, or_false] at htext
    rcases htext with rfl | rfl | rfl | rfl | rfl | rfl | rfl | rfl | rfl | rfl | rfl | rfl | rfl <;>
      simp

/-- Closed lines before a last one leave due what the last one does. -/
theorem foldlM_concat {lines : List String} (h : ∀ line ∈ lines, IsClosed line) (last : String)
    (due : List Char) :
    ("\n".intercalate (lines ++ [last])).toList.foldlM meet due = last.toList.foldlM meet due := by
  induction lines with
  | nil => simp
  | cons line lines ih =>
    rw [List.forall_mem_cons] at h
    rw [List.cons_append, intercalate_cons_concat, String.toList_append, String.toList_append,
      List.foldlM_append, List.foldlM_append, h.1]
    exact ih h.2

/-- Closed lines may stand between an opening and a closing one. -/
theorem IsClosed.between {lines : List String} (hlines : ∀ line ∈ lines, IsClosed line)
    {first last : String} (h : IsClosed (first ++ "\n" ++ last)) :
    IsClosed ("\n".intercalate ([first] ++ lines ++ [last])) := by
  intro due
  rw [List.append_assoc, List.singleton_append, intercalate_cons_concat]
  simpa only [String.toList_append, List.foldlM_append, foldlM_concat hlines] using h due

/-- Closed lines may stand before others. -/
theorem IsClosed.below {before lines : List String} {last : String}
    (hbefore : ∀ line ∈ before, IsClosed line) (h : IsClosed ("\n".intercalate (lines ++ [last]))) :
    IsClosed ("\n".intercalate (before ++ lines ++ [last])) := by
  induction before with
  | nil => exact h
  | cons line before ih =>
    rw [List.forall_mem_cons] at hbefore
    rw [List.cons_append, List.cons_append, intercalate_cons_concat]
    exact (hbefore.1.append fun due => by simp).append (ih hbefore.2)

theorem IsFree.of_mem {a b : String} (ha : IsFree a)
    (h : ∀ c ∈ b.toList, c ∈ a.toList ∨ isBracket c = false) : IsFree b :=
  fun c hc => (h c hc).elim (ha c) id

theorem isFree_null : IsFree Value.null.display := by
  simp [IsFree, Value.display, Value.shown, isBracket]

/-! ### Words -/

section Words

variable {α : Type}

/-- The name of a type. -/
def TypeForm.words : TypeForm α → List Word
  | .named name .. | .primitive name => [name]
  | _ => []

/-- The name, the literal or the operator of an expression. -/
def ExprForm.words : ExprForm α → List Word
  | .ident word | .literal word | .this word | .field _ word | .call word .. | .binary word ..
  | .unary word .. | .assign word .. | .methodReference _ word => [word]
  | _ => []

/-- The label of a statement. -/
def StmtForm.words : StmtForm α → List Word
  | .breaking label | .continuing label | .labeled label _ => [label]
  | _ => []

/-- The name of a member. -/
def MemberForm.words : MemberForm α → List Word
  | .method name .. | .constructor name .. | .classType name .. | .enumType name .. => [name]
  | _ => []

/-- The name of a part. -/
def PartForm.words : PartForm α → List Word
  | .typeParameter name _ | .annotationArgument name _ | .annotationUse name _
  | .declarator name .. | .parameter name .. | .enumConstant name .. | .package name _ => [name]
  | .importing decl => [decl.name]
  | _ => []

/-- The names, labels, literals and operators of a layer. -/
def Form.words : Form α → List Word
  | .type form => form.words
  | .expr form => form.words
  | .stmt form => form.words
  | .member form => form.words
  | .part form => form.words
  | .foreign _ => []

end Words

namespace Tree

/-- Whether the words of a node have no brackets and it holds no comments. -/
structure Unbracketed (t : Tree) : Prop where
  words : ∀ word ∈ t.form.words, IsFree word.display
  uncommented : t.trivia.comments = []

instance : DecidablePred Unbracketed := fun t =>
  decidable_of_iff ((∀ word ∈ t.form.words, IsFree word.display) ∧ t.trivia.comments.isEmpty)
    ⟨fun h => ⟨h.1, List.isEmpty_iff.1 h.2⟩, fun h => ⟨h.words, List.isEmpty_iff.2 h.uncommented⟩⟩

variable {t : Tree}

theorem Unbracketed.comment (h : t.Unbracketed) : t.comment = none := by
  have hnone := h.uncommented
  simp only [Trivia.comments, List.append_eq_nil_iff, Option.toList_eq_nil_iff] at hnone
  exact hnone.1

theorem Unbracketed.named (h : t.Unbracketed) : t.Named IsClosed := by
  intro name hname
  refine IsClosed.of_free (h.words name ?_)
  unfold Form.typeName? at hname
  split at hname <;> simp_all [Form.words, TypeForm.words, PartForm.words]

theorem Unbracketed.name (h : t.Unbracketed) : IsFree (t.name?.getD .null).display := by
  cases hname : t.name? with
  | none => exact isFree_null
  | some name =>
    apply h.words
    unfold name? at hname
    split at hname <;> simp_all [Form.words, TypeForm.words, ExprForm.words, MemberForm.words,
      PartForm.words]

theorem Everywhere.namedClosed (h : t.Everywhere Unbracketed) : t.Everywhere (Named IsClosed) :=
  h.mono fun _ => Unbracketed.named

end Tree

namespace Render

/-! ### Scopes and comments -/

/-- Whether each of some lines is closed. -/
def AreClosed (lines : List String) : Prop := ∀ line ∈ lines, IsClosed line

/-- Whether a scope brings no brackets and no comments along, and its hooks no more than they are
given. -/
structure Bare (scope : Scope) : Prop where
  unitIndent : IsFree scope.unitIndent
  package (name : Word) : scope.hooks.onPackage name = .ok none
  imports (decl : ImportName) : scope.hooks.onImport decl = some <$> renderImport .null decl
  throws {types : List String} (h : AreClosed types) : Yields (scope.hooks.throwsSuffix types) IsClosed
  annotations {texts : List String} (h : AreClosed texts) :
    Yields (scope.hooks.annotationsLine texts) fun line => ∀ text ∈ line, IsClosed text
  declared : ∀ t ∈ scope.declared, t.Everywhere Tree.Unbracketed

/-- Whether a node is written with its brackets in pairs, in each place where it can stand. -/
structure Matched (t : Tree) : Prop where
  unbracketed : t.Everywhere Tree.Unbracketed
  expr : Ensures Bare t.rendering.expr IsClosed
  note : Ensures Bare t.rendering.note IsClosed
  part : Ensures Bare t.rendering.part IsClosed
  localVariable : Ensures Bare t.rendering.localVariable IsClosed
  fieldVariable : Ensures Bare t.rendering.fieldVariable IsClosed
  declaration (isResource : Bool) : Ensures Bare (t.rendering.declaration isResource) IsClosed
  bareStmt : Ensures Bare t.rendering.bareStmt IsClosed
  lines {before : List Child} (h : ∀ child ∈ before, Ensures Bare child.text IsClosed) :
    Ensures Bare (t.rendering.lines before) AreClosed
  caseLines : Ensures Bare t.rendering.caseLines AreClosed
  member : Ensures Bare t.rendering.member IsClosed
  typeDeclaration : Ensures Bare t.rendering.typeDeclaration IsClosed
  topLevel : Ensures Bare t.rendering.topLevel IsClosed

section Steps

variable {α : Type} {x : Render α} {P : α → Prop}

theorem indented_bare (h : Ensures Bare x P) : Ensures Bare (indented x) P :=
  h.indented fun _ hscope => { hscope with }

theorem inBody_bare (h : Ensures Bare x P) : Ensures Bare (inBody x) P :=
  h.inBody fun _ hscope => { hscope with }

theorem indent_closed : Ensures Bare indent IsClosed :=
  Ensures.read.bind fun _ hscope =>
    Ensures.pure (composes_isClosed.times (IsClosed.of_free hscope.unitIndent) _)

theorem declaredType_unbracketed :
    Ensures Bare declaredType fun t => t.Everywhere Tree.Unbracketed := by
  refine Ensures.read.bind fun scope hscope => ?_
  split
  · rename_i type htype
    exact Ensures.pure (hscope.declared type htype)
  · exact Ensures.stop

theorem withComment_closed {t : Tree} {text : String} (h : t.Unbracketed) (htext : IsClosed text) :
    Ensures Bare (withComment t text) IsClosed := by
  rw [withComment, h.comment]
  exact Ensures.pure htext

theorem childChunks_closed {node : Tree} (h : node.Unbracketed) {children : List Child}
    (hchildren : ∀ child ∈ children, Ensures Bare child.text IsClosed) :
    Ensures Bare (childChunks node.trivia.orphans children) AreClosed := by
  have hnone : inOrder node.trivia.orphans = [] := by
    have horphans := h.uncommented
    simp only [Trivia.comments, List.append_eq_nil_iff] at horphans
    rw [horphans.2, inOrder, List.mergeSort_nil]
  rw [childChunks, hnone]
  clear hnone
  induction children with
  | nil => exact Ensures.pure nofun
  | cons child rest ih =>
    rw [List.forall_mem_cons] at hchildren
    have hbefore : takeBefore child.position [] = ([], []) := by
      cases child.position <;> rfl
    rw [chunksFrom, hbefore]
    refine Ensures.bind (P := (· = [])) (Ensures.pure rfl) fun _ hleading => ?_
    refine hchildren.1.bind fun text htext => (ih hchildren.2).bind fun chunks hchunks => ?_
    rw [hleading]
    exact Ensures.pure (List.forall_mem_cons.2 ⟨htext, hchunks⟩)

end Steps

/-! ### Blocks and slots -/

section Slots

variable {t : Tree} {slot : Option Tree}

theorem block_closed {r : Rendering} (inline : Bool) (h : Ensures Bare (r.lines []) AreClosed) :
    Ensures Bare (r.block inline) IsClosed := by
  refine indent_closed.bind fun indent hindent => (indented_bare h).bind fun lines hlines => ?_
  refine Ensures.ite (fun _ => Ensures.pure ?_) fun _ => Ensures.pure (IsClosed.between hlines ?_)
  all_goals
    intro due
    cases inline <;> simp [hindent _]

theorem Matched.block (h : Matched t) (inline : Bool) :
    Ensures Bare (t.rendering.block inline) IsClosed :=
  block_closed inline (h.lines nofun)

theorem Matched.stmt (h : Matched t) : Ensures Bare t.rendering.stmt IsClosed := by
  refine h.bareStmt.bind fun text htext => ?_
  rw [Tree.rendering_node]
  exact withComment_closed h.unbracketed.self htext

theorem Matched.body (h : Matched t) : Ensures Bare t.rendering.body IsClosed := by
  refine Ensures.ite (fun _ => h.block true) fun _ => indent_closed.bind fun indent hindent => ?_
  refine (indented_bare h.stmt).bind fun text htext => Ensures.pure fun due => ?_
  simp [htext _, hindent _]

variable (h : ∀ t ∈ slot.toList, Matched t)

include h

theorem slotExpr_closed : Ensures Bare (slotExpr (slot.map Tree.rendering)) IsClosed := by
  cases slot with
  | none => exact Ensures.unsupported
  | some t => exact (h t (by simp)).expr

theorem slotBody_closed : Ensures Bare (slotBody (slot.map Tree.rendering)) IsClosed := by
  cases slot with
  | none => exact Ensures.unsupported
  | some t => exact (h t (by simp)).body

theorem slotBlock_closed (inline : Bool) :
    Ensures Bare (slotBlock inline (slot.map Tree.rendering)) IsClosed := by
  cases slot with
  | none => exact Ensures.unsupported
  | some t => exact (h t (by simp)).block inline

/-- What may stand in a slot, after a text. -/
theorem optionalText_closed {before : String} {text : Rendering → Render String}
    (hbefore : IsClosed before)
    (htext : ∀ t, Matched t → Ensures Bare (text t.rendering) IsClosed) :
    Ensures Bare (optionalText before text (slot.map Tree.rendering)) IsClosed := by
  cases slot with
  | none => exact Ensures.pure (composes_isClosed.fixed "" (by simp))
  | some t =>
    exact (htext t (h t (by simp))).bind fun _ hslot => Ensures.pure (hbefore.append hslot)

theorem unbracketed_slotNode :
    ∀ t ∈ slotNode (slot.map Tree.rendering), t.Everywhere Tree.Unbracketed := by
  intro t ht
  simp only [slotNode, Option.map_map, Option.mem_map] at ht
  obtain ⟨t, hslot, rfl⟩ := ht
  rw [Function.comp_apply, Tree.rendering_node]
  exact (h t (by simpa using hslot)).unbracketed

theorem named_slotNode :
    ∀ t ∈ slotNode (slot.map Tree.rendering), t.Everywhere (Tree.Named IsClosed) :=
  fun t ht => (unbracketed_slotNode h t ht).namedClosed

/-- Inside a declaration of the type in a slot. -/
theorem declaring_bare {α : Type} {x : Render α} {P : α → Prop} (hx : Ensures Bare x P) :
    Ensures Bare (declaring (slotNode (slot.map Tree.rendering)) x) P :=
  hx.declaring fun _ hscope => { hscope with declared := unbracketed_slotNode h }

end Slots

section Lists

variable {ts : List Tree} (h : ∀ t ∈ ts, Matched t)

include h

theorem exprs_closed : Ensures Bare ((ts.map Tree.rendering).mapM (·.expr)) AreClosed :=
  Ensures.mapM (List.forall_mem_map.2 fun t ht => (h t ht).expr)

theorem notes_closed : Ensures Bare ((ts.map Tree.rendering).mapM (·.note)) AreClosed :=
  Ensures.mapM (List.forall_mem_map.2 fun t ht => (h t ht).note)

theorem parts_closed : Ensures Bare ((ts.map Tree.rendering).mapM (·.part)) AreClosed :=
  Ensures.mapM (List.forall_mem_map.2 fun t ht => (h t ht).part)

theorem types_closed : Ensures Bare
    (((ts.map Tree.rendering).map (·.node)).mapM fun t => ofType (typeText t)) AreClosed := by
  rw [List.map_map, List.mapM_map]
  refine Ensures.mapM fun t ht => Ensures.ofType (typeText_composes composes_isClosed ?_)
  rw [Function.comp_apply, Tree.rendering_node]
  exact (h t ht).unbracketed.namedClosed

end Lists

end Render

end Recast
