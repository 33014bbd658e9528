import Mathlib
import Recast.Proofs.Render.Basic
import Recast.Proofs.Render.Code.Words
import Recast.Proofs.Render.Follows

/-!
Code through the parts that all rendering is made of.

A tree is rendered twice, with its comments and without them. `Same` says that two texts have the same
code: `Same Reads` of texts that start and end in code, `Same Fills` of texts that need the line break
behind them for that, `Same Chunks` of lists of such texts. `SameCode` is for expressions, which also
start with the same character. `Twinned` says of a node that the two runs write the same code in each
place where the node can stand. This module has what follows for the comment before a node, the
chunks of a container, blocks, and slots.
-/

namespace Recast

/-! ### Texts with the same code -/

/-- Whether two things have one reading. -/
def Same {α : Type} (R : α → List Char → Prop) (a b : α) : Prop := ∃ kept, R a kept ∧ R b kept

/-- The readings of some texts with a line break behind each of them. -/
inductive Chunks : List String → List Char → Prop where
  | nil : Chunks [] []
  | cons {chunk : String} {chunks : List String} {kept more : List Char} :
    Fills chunk kept → Chunks chunks more → Chunks (chunk :: chunks) (kept ++ more)

/-- Whether two texts have the same code and start with the same character. -/
structure SameCode (a b : String) : Prop where
  head : a.toList.head? = b.toList.head?
  same : Same Reads a b

variable {a b c d : String} {k l : List Char} {cs ds : List String}

theorem Reads.eq_nil (h : Fills "" k) : k = [] := (Prod.mk.inj (h.symm.trans Reads.line)).2

namespace Same

theorem map {α β : Type} {R : α → List Char → Prop} {S : β → List Char → Prop} {f : α → β} {a b : α}
    (h : Same R a b) (hf : ∀ a kept, R a kept → S (f a) kept) : Same S (f a) (f b) := by
  obtain ⟨kept, ha, hb⟩ := h
  exact ⟨kept, hf a kept ha, hf b kept hb⟩

theorem append (h : Same Reads a b) (h' : Same Reads c d) : Same Reads (a ++ c) (b ++ d) := by
  obtain ⟨kept, ha, hb⟩ := h
  obtain ⟨more, hc, hd⟩ := h'
  exact ⟨kept ++ more, ha.append hc, hb.append hd⟩

theorem fills (h : Same Reads a b) : Same Fills a b := by
  obtain ⟨kept, ha, hb⟩ := h
  exact ⟨kept, Fills.of_reads ha, Fills.of_reads hb⟩

theorem dropBlanks (h : Same Reads a b) : Same Reads (Text.dropBlanks a) (Text.dropBlanks b) :=
  h.map fun _ _ => Reads.dropBlanks

end Same

namespace SameCode

theorem refl (h : Reads a k) : SameCode a a := ⟨rfl, k, h, h⟩

theorem plain (h : Text.isPlain a) : SameCode a a := refl (Reads.plain h)

theorem append (h : SameCode a b) (h' : SameCode c d) : SameCode (a ++ c) (b ++ d) := by
  refine ⟨?_, h.same.append h'.same⟩
  rw [String.toList_append, String.toList_append, List.head?_append, List.head?_append, h.head,
    h'.head]

/-- The same text after both. -/
theorem text (h : SameCode a b) (more : String) (hmore : Text.isPlain more) :
    SameCode (a ++ more) (b ++ more) :=
  h.append (plain hmore)

/-- The same text before both. -/
theorem after (before : String) (h : SameCode a b) (hbefore : Text.isPlain before) :
    SameCode (before ++ a) (before ++ b) :=
  (plain hbefore).append h

/-- After some text that is not empty it does not matter how the rest starts. -/
theorem of_same {before : String} (hplain : Text.isPlain before) (hne : before ≠ "")
    (h : Same Reads a b) : SameCode (before ++ a) (before ++ b) := by
  refine ⟨?_, (plain hplain).same.append h⟩
  cases hchars : before.toList with
  | nil => exact absurd (String.toList_eq_nil_iff.1 hchars) hne
  | cons => simp [String.toList_append, hchars]

theorem intercalate {separator : String} (hseparator : Text.isPlain separator)
    (h : List.Forall₂ SameCode cs ds) :
    SameCode (separator.intercalate cs) (separator.intercalate ds) := by
  induction h with
  | nil => exact plain rfl
  | cons hfirst hrest ih =>
    cases hrest with
    | nil => simpa using hfirst
    | cons hsecond hrest =>
      rw [String.intercalate_cons_cons, String.intercalate_cons_cons]
      exact (hfirst.text _ hseparator).append ih

end SameCode

namespace Chunks

theorem single (h : Fills c k) : Chunks [c] k := by
  simpa using cons h nil

theorem append (h : Chunks cs k) (h' : Chunks ds l) : Chunks (cs ++ ds) (k ++ l) := by
  induction h with
  | nil => exact h'
  | cons hfirst hrest ih =>
    rw [List.append_assoc]
    exact cons hfirst ih

/-- Chunks joined by line breaks, before a text that starts and ends in code. -/
theorem reads_concat (h : Chunks cs k) (hlast : Reads c l) :
    Reads ("\n".intercalate (cs ++ [c])) (k ++ l) := by
  induction h with
  | nil => simpa using hlast
  | cons hfirst hrest ih =>
    rw [List.cons_append, intercalate_cons_concat, List.append_assoc]
    exact Reads.append hfirst ih

/-- Chunks joined by line breaks, with blank lines between them or without. -/
theorem fills_intercalate {blanks : String} (hblanks : Reads blanks []) (h : Chunks cs k) :
    Fills (("\n" ++ blanks).intercalate cs) k := by
  induction h with
  | nil => exact Reads.line
  | cons hfirst hrest ih =>
    rename_i first rest kept more
    cases rest with
    | nil =>
      cases hrest
      simpa using hfirst
    | cons second rest =>
      have hjoin := Reads.append hfirst (hblanks.append ih)
      rw [String.intercalate_cons_cons]
      simpa [Fills, String.append_assoc] using hjoin

theorem fills_lines (h : Chunks cs k) : Fills ("\n".intercalate cs) k := by
  have hjoin := h.fills_intercalate Reads.empty
  rwa [String.append_empty] at hjoin

theorem fills_paragraphs (h : Chunks cs k) : Fills ("\n\n".intercalate cs) k := by
  have hjoin := h.fills_intercalate Reads.line
  have hblank : "\n" ++ "\n" = "\n\n" := by decide
  rwa [hblank] at hjoin

/-- Chunks between two texts that start and end in code. -/
theorem sameCode {after : String} (hbefore : SameCode a b) (hafter : Text.isPlain after)
    (h : Same Chunks cs ds) :
    SameCode ("\n".intercalate ([a] ++ cs ++ [after])) ("\n".intercalate ([b] ++ ds ++ [after])) := by
  obtain ⟨kept, hcs, hds⟩ := h
  have hlast := Reads.plain hafter
  have hrest : SameCode ("\n" ++ "\n".intercalate (cs ++ [after]))
      ("\n" ++ "\n".intercalate (ds ++ [after])) :=
    SameCode.of_same rfl (by decide) ⟨_, hcs.reads_concat hlast, hds.reads_concat hlast⟩
  have hcode := hbefore.append hrest
  simpa only [List.cons_append, List.nil_append, intercalate_cons_concat,
    String.append_assoc] using hcode

/-- Chunks in braces, which stay together where there are none. -/
theorem exists_braces (opener : String) {indent : String} (hindent : Reads indent [])
    (h : Chunks cs k) :
    ∃ rest, Reads rest (k ++ ['\x7d']) ∧
      (if cs.isEmpty then opener ++ "\x7d"
        else "\n".intercalate ([opener] ++ cs ++ [indent ++ "\x7d"])) = opener ++ rest := by
  have hclose : Reads "\x7d" ['\x7d'] := rfl
  cases h with
  | nil => exact ⟨"\x7d", hclose, rfl⟩
  | cons hfirst hrest =>
    refine ⟨_, Reads.line.append ((Chunks.cons hfirst hrest).reads_concat (hindent.append hclose)), ?_⟩
    simp [intercalate_cons_concat, String.append_assoc]

/-- Two lists of chunks in braces, of which one may be empty. -/
theorem sameCode_braces {opener indent : String} (hopener : Text.isPlain opener) (hne : opener ≠ "")
    (hindent : Reads indent []) (h : Same Chunks cs ds) :
    SameCode
      (if cs.isEmpty then opener ++ "\x7d"
        else "\n".intercalate ([opener] ++ cs ++ [indent ++ "\x7d"]))
      (if ds.isEmpty then opener ++ "\x7d"
        else "\n".intercalate ([opener] ++ ds ++ [indent ++ "\x7d"])) := by
  obtain ⟨kept, hcs, hds⟩ := h
  obtain ⟨rest, hrest, heq⟩ := hcs.exists_braces opener hindent
  obtain ⟨rest', hrest', heq'⟩ := hds.exists_braces opener hindent
  rw [heq, heq']
  exact SameCode.of_same hopener hne ⟨_, hrest, hrest'⟩

end Chunks

namespace Render

/-! ### Scopes -/

/-- Two scopes in which a tree is rendered with its comments and without them. Nothing but comments
is written as a comment there. -/
structure Twins (scope twin : Scope) : Prop where
  same : twin = { scope with declared := scope.declared.map Tree.uncommented }
  indent : ∀ c ∈ scope.unitIndent.toList, Text.isBlank c
  package (name : Word) : scope.hooks.onPackage name = .ok none
  imports (decl : ImportName) : scope.hooks.onImport decl = some <$> renderImport .null decl
  throws (types : List String) : scope.hooks.throwsSuffix types = .ok ""
  final : scope.commentFinal = false
  declared : ∀ type ∈ scope.declared, type.Everywhere Tree.Clear

namespace Twins

variable {scope twin : Scope}

/-- Both runs ask the same hooks. -/
theorem hooks (h : Twins scope twin) : twin.hooks = scope.hooks := by rw [h.same]

theorem declaring (h : Twins scope twin) {type : Option Tree}
    (htype : ∀ t ∈ type, t.Everywhere Tree.Clear) :
    Twins (scope.inDeclaration type) (twin.inDeclaration (type.map Tree.uncommented)) :=
  { h with
    same := by rw [h.same]; rfl
    declared := htype }

theorem indented (h : Twins scope twin) :
    Twins { scope with level := scope.level + 1 } { twin with level := twin.level + 1 } :=
  { h with same := by rw [h.same] }

theorem inBody (h : Twins scope twin) : Twins scope.inBody twin.inBody :=
  { h with same := by rw [h.same]; rfl }

theorem inType (h : Twins scope twin) (name : Word) (classExtends isInterface : Bool) :
    Twins (scope.inType name classExtends isInterface) (twin.inType name classExtends isInterface) :=
  { h with same := by rw [h.same]; rfl }

end Twins

theorem isBlank_times {unit : String} (h : ∀ c ∈ unit.toList, Text.isBlank c) (n : Nat) :
    ∀ c ∈ (Text.times n unit).toList, Text.isBlank c := by
  induction n with
  | zero => simp [Text.times]
  | succ n ih => simpa [Text.times, or_imp, forall_and] using ⟨h, ih⟩

theorem indent_follows :
    Follows Twins indent indent fun a b => a = b ∧ Text.isPlain a ∧ Reads a [] := by
  refine Follows.read.bind fun scope twin hscope => Follows.pure ⟨?_, ?_, ?_⟩
  · rw [hscope.same]
  · exact Text.isPlain_of_isBlank (isBlank_times hscope.indent _)
  · exact Reads.blank (isBlank_times hscope.indent _)

/-- Both runs write at the same indentation. -/
theorem indent_bind {α : Type} {f g : String → Render α} {R : α → α → Prop}
    (h : ∀ indent, Text.isPlain indent → Follows Twins (f indent) (g indent) R) :
    Follows Twins (indent >>= f) (indent >>= g) R := by
  refine indent_follows.bind ?_
  rintro indent _ ⟨rfl, hindent, -⟩
  exact h indent hindent

/-- A type that both runs write alike. -/
theorem ofType_follows {x y : TypeText} (hxy : y = x) (hx : Yields x (Text.isPlain ·)) :
    Follows Twins (ofType x) (ofType y) fun a b => a = b ∧ Text.isPlain a := by
  subst hxy
  cases y with
  | error => exact Follows.stop
  | ok text => exact Follows.pure ⟨rfl, hx text rfl⟩

/-! ### The comment before a node -/

theorem commentText_fills {comment : Comment} (h : comment.Closed) :
    Ensures (fun scope => ∀ c ∈ scope.unitIndent.toList, Text.isBlank c) (commentText comment)
      (Fills · []) := by
  have hindent : Ensures (fun scope => ∀ c ∈ scope.unitIndent.toList, Text.isBlank c) indent
      fun text => ∀ c ∈ text.toList, Text.isBlank c :=
    Ensures.read.bind fun scope hscope => Ensures.pure (isBlank_times hscope _)
  exact hindent.bind fun text htext => Ensures.pure (h.fills_render htext)

theorem comment_uncommented (t : Tree) : t.uncommented.comment = none := by
  cases t
  rw [Tree.uncommented_node]
  rfl

theorem Closed.of_comment {t : Tree} {comment : Comment} (h : t.Clear)
    (hcomment : t.comment = some comment) : comment.Closed := by
  apply h.closed
  have hmem : comment ∈ t.comment.toList := by simp [hcomment]
  exact List.mem_append_left _ hmem

/-- The comment before a node is no code, whichever way the node's text is read. -/
theorem withComment_same {R : String → List Char → Prop} {t : Tree} {a b : String}
    (hR : ∀ {comment a kept}, Fills comment [] → R a kept → R (comment ++ "\n" ++ a) kept)
    (h : t.Clear) (hab : Same R a b) :
    Follows Twins (withComment t a) (withComment t.uncommented b) (Same R) := by
  unfold withComment
  rw [comment_uncommented]
  cases hcomment : t.comment with
  | none => exact Follows.pure hab
  | some comment =>
    refine Follows.bind_left (commentText_fills (Closed.of_comment h hcomment))
      (fun _ _ hscope => hscope.indent) fun text htext => Follows.pure ?_
    obtain ⟨kept, ha, hb⟩ := hab
    exact ⟨kept, hR htext ha, hb⟩

theorem withComment_follows {t : Tree} {a b : String} (h : t.Clear) (hab : Same Reads a b) :
    Follows Twins (withComment t a) (withComment t.uncommented b) (Same Reads) :=
  withComment_same (fun hcomment ha => Reads.append hcomment ha) h hab

theorem withComment_fills {t : Tree} {a b : String} (h : t.Clear) (hab : Same Fills a b) :
    Follows Twins (withComment t a) (withComment t.uncommented b) (Same Fills) := by
  refine withComment_same (fun hcomment ha => ?_) h hab
  simpa [Fills, String.append_assoc] using Reads.append hcomment ha

/-! ### Containers -/

theorem underComments_fills {leading : List String} {text : String} {kept : List Char}
    (hleading : Chunks leading []) (htext : Fills text kept) :
    Fills (underComments leading text) kept := by
  unfold underComments
  split
  · exact htext
  · split
    · rename_i hempty
      subst hempty
      obtain rfl := Reads.eq_nil htext
      exact hleading.fills_lines
    · exact (hleading.append (Chunks.single htext)).fills_lines

/-- Comments on lines of their own are no code. -/
theorem mapM_commentText_chunks {comments : List Comment} (h : ∀ c ∈ comments, c.Closed) :
    Ensures (fun scope => ∀ c ∈ scope.unitIndent.toList, Text.isBlank c)
      (comments.mapM commentText) (Chunks · []) := by
  induction comments with
  | nil => exact Ensures.pure .nil
  | cons first rest ih =>
    rw [List.forall_mem_cons] at h
    rw [List.mapM_cons]
    refine (commentText_fills h.1).bind fun text htext => ?_
    refine (ih h.2).bind fun texts htexts => Ensures.pure ?_
    exact .cons htext htexts

/-- Two children that write the same code. -/
def SameChild (child twin : Child) : Prop := Follows Twins child.text twin.text (Same Fills)

theorem takeBefore_subset (start : Option Position) (pending : List Comment) :
    (takeBefore start pending).1 ⊆ pending ∧ (takeBefore start pending).2 ⊆ pending := by
  cases start with
  | none => exact ⟨List.nil_subset _, List.Subset.refl _⟩
  | some p => exact ⟨List.takeWhile_subset _, (List.dropWhile_sublist _).subset⟩

/-- The chunks of a container have the code of its children. -/
theorem chunksFrom_follows {pending : List Comment} {children twins : List Child}
    (hpending : ∀ c ∈ pending, c.Closed) (h : List.Forall₂ SameChild children twins) :
    Follows Twins (chunksFrom pending children) (chunksFrom [] twins) (Same Chunks) := by
  induction h generalizing pending with
  | nil =>
    unfold chunksFrom
    by_cases hempty : pending.isEmpty
    · rw [if_pos hempty]
      exact Follows.pure ⟨[], .nil, .nil⟩
    · rw [if_neg hempty]
      refine Follows.bind_left (mapM_commentText_chunks hpending)
        (fun _ _ hscope => hscope.indent) fun texts htexts => Follows.pure ?_
      exact ⟨[], .single htexts.fills_lines, .nil⟩
  | cons hchild hrest ih =>
    rename_i child twin rest twins
    obtain ⟨htaken, hleft⟩ := takeBefore_subset child.position pending
    have hnone : takeBefore twin.position [] = ([], []) := by cases twin.position <;> rfl
    unfold chunksFrom
    rw [hnone]
    refine Follows.bind_left (mapM_commentText_chunks fun c hc => hpending c (htaken hc))
      (fun _ _ hscope => hscope.indent) fun leading hleading => ?_
    refine hchild.bind fun text text' htext => ?_
    refine (ih fun c hc => hpending c (hleft hc)).bind fun chunks chunks' hchunks => ?_
    obtain ⟨kept, hfirst, hfirst'⟩ := htext
    obtain ⟨more, hmore, hmore'⟩ := hchunks
    exact Follows.pure ⟨kept ++ more, .cons (underComments_fills hleading hfirst) hmore,
      .cons hfirst' hmore'⟩

theorem childChunks_follows {t : Tree} {children twins : List Child} (ht : t.Clear)
    (h : List.Forall₂ SameChild children twins) :
    Follows Twins (childChunks t.trivia.orphans children)
      (childChunks t.uncommented.trivia.orphans twins) (Same Chunks) := by
  have horphans : t.uncommented.trivia.orphans = [] := by
    cases t
    rw [Tree.uncommented_node]
    rfl
  have hsorted : inOrder [] = [] := List.mergeSort_nil
  unfold childChunks
  rw [horphans, hsorted]
  refine chunksFrom_follows (fun c hc => ?_) h
  have hmem : c ∈ t.trivia.orphans := (List.mergeSort_perm _ _).mem_iff.1 hc
  exact ht.closed c (List.mem_append_right _ hmem)

/-! ### Nodes -/

end Render

namespace Tree

/-- How a node is written without its comments. -/
def twin (t : Tree) : Rendering := t.uncommented.rendering

variable (t : Tree)

theorem twin_node : t.twin.node = t.uncommented := t.uncommented.rendering_node

theorem form_twin : t.uncommented.form.map rendering = t.form.map twin := by
  rw [form_uncommented, Form.map_map]
  rfl

end Tree

namespace Render

/-- Whether a node is written with the same code with and without comments, in each place where the
node can stand. -/
structure Twinned (t : Tree) : Prop where
  clear : t.Everywhere Tree.Clear
  expr : Follows Twins t.rendering.expr t.twin.expr SameCode
  part : Follows Twins t.rendering.part t.twin.part SameCode
  localVariable : Follows Twins t.rendering.localVariable t.twin.localVariable SameCode
  fieldVariable : Follows Twins t.rendering.fieldVariable t.twin.fieldVariable SameCode
  declaration (isResource : Bool) :
    Follows Twins (t.rendering.declaration isResource) (t.twin.declaration isResource) SameCode
  bareStmt : Follows Twins t.rendering.bareStmt t.twin.bareStmt (Same Reads)
  lines {before before' : List Child} (h : List.Forall₂ SameChild before before') :
    Follows Twins (t.rendering.lines before) (t.twin.lines before') (Same Chunks)
  caseLines : Follows Twins t.rendering.caseLines t.twin.caseLines (Same Chunks)
  member : Follows Twins t.rendering.member t.twin.member (Same Reads)
  typeDeclaration : Follows Twins t.rendering.typeDeclaration t.twin.typeDeclaration (Same Reads)
  topLevel : Follows Twins t.rendering.topLevel t.twin.topLevel (Same Fills)

section Nodes

variable {t : Tree}

theorem isBlock_twin : t.twin.isBlock = t.rendering.isBlock := by
  rw [Rendering.isBlock, Rendering.isBlock, t.twin_node, t.rendering_node]
  rcases t with ⟨trivia, form | form | form | form | form | kind⟩ <;> rw [Tree.uncommented_node]
  case foreign => rfl
  all_goals cases form <;> rfl

/-- Children that are written in one way from nodes. -/
theorem sameChildren (child : Rendering → Child) {ts : List Tree}
    (h : ∀ t ∈ ts, SameChild (child t.rendering) (child t.twin)) :
    List.Forall₂ SameChild ((ts.map Tree.rendering).map child) ((ts.map Tree.twin).map child) := by
  rw [List.map_map, List.map_map, List.forall₂_map_left_iff, List.forall₂_map_right_iff,
    List.forall₂_same]
  exact h

/-! ### Blocks and statements -/

theorem block_follows {r r' : Rendering} (inline : Bool)
    (h : Follows Twins (r.lines []) (r'.lines []) (Same Chunks)) :
    Follows Twins (r.block inline) (r'.block inline) SameCode := by
  refine indent_follows.bind ?_
  rintro indent _ ⟨rfl, hplain, hblank⟩
  have hopener : Text.isPlain (if inline then "\x7b" else indent ++ "\x7b") := by
    split
    · rfl
    · exact Text.isPlain_append.2 ⟨hplain, rfl⟩
  have hne : (if inline then "\x7b" else indent ++ "\x7b") ≠ "" := by
    split <;> simp
  refine (Follows.withReader h fun _ _ hscope => hscope.indented).bind fun lines lines' hlines => ?_
  rw [← apply_ite Pure.pure, ← apply_ite Pure.pure]
  exact Follows.pure (Chunks.sameCode_braces hopener hne hblank hlines)

theorem stmt_follows (h : Twinned t) :
    Follows Twins t.rendering.stmt t.twin.stmt (Same Reads) := by
  refine h.bareStmt.bind fun text text' htext => ?_
  rw [t.rendering_node, t.twin_node]
  exact withComment_follows h.clear.self htext

theorem body_follows (h : Twinned t) : Follows Twins t.rendering.body t.twin.body SameCode := by
  refine Follows.ite (by rw [isBlock_twin]) (fun _ => block_follows true (h.lines .nil)) fun _ => ?_
  refine indent_bind fun indent hindent => ?_
  refine (Follows.withReader (stmt_follows h) fun _ _ hscope => hscope.indented).bind
    fun text text' htext => Follows.pure ?_
  obtain ⟨kept, htext, htext'⟩ := htext.fills
  exact Chunks.sameCode (SameCode.plain rfl) (Text.isPlain_append.2 ⟨hindent, rfl⟩)
    ⟨kept, .single htext, .single htext'⟩

/-! ### Slots -/

section Slots

variable {slot : Option Tree} (h : ∀ t ∈ slot.toList, Twinned t)

include h

theorem slotExpr_follows : Follows Twins (slotExpr (slot.map Tree.rendering))
    (slotExpr (slot.map Tree.twin)) SameCode := by
  cases slot with
  | none => exact Follows.unsupported
  | some t => exact (h t (by simp)).expr

theorem slotStmt_follows : Follows Twins (slotStmt (slot.map Tree.rendering))
    (slotStmt (slot.map Tree.twin)) (Same Reads) := by
  cases slot with
  | none => exact Follows.unsupported
  | some t => exact stmt_follows (h t (by simp))

theorem slotBody_follows : Follows Twins (slotBody (slot.map Tree.rendering))
    (slotBody (slot.map Tree.twin)) SameCode := by
  cases slot with
  | none => exact Follows.unsupported
  | some t => exact body_follows (h t (by simp))

theorem slotBlock_follows (inline : Bool) : Follows Twins
    (slotBlock inline (slot.map Tree.rendering)) (slotBlock inline (slot.map Tree.twin))
    SameCode := by
  cases slot with
  | none => exact Follows.unsupported
  | some t => exact block_follows inline ((h t (by simp)).lines .nil)

theorem slotTypeDeclaration_follows : Follows Twins
    (slotTypeDeclaration (slot.map Tree.rendering)) (slotTypeDeclaration (slot.map Tree.twin))
    (Same Reads) := by
  cases slot with
  | none => exact Follows.unsupported
  | some t => exact (h t (by simp)).typeDeclaration

theorem named_slot : ∀ t ∈ slot, t.Everywhere (Tree.Named (Text.isPlain ·)) :=
  fun t ht => (h t (Option.mem_toList.2 ht)).clear.named

/-- The text of the type in a slot. -/
theorem slotType_follows : Follows Twins (ofType (slotTypeText slot))
    (ofType (slotTypeText (slot.map Tree.uncommented))) fun a b => a = b ∧ Text.isPlain a :=
  ofType_follows (slotTypeText_uncommented slot)
    (slotTypeText_composes composes_isPlain (named_slot h))

end Slots

theorem optionalText_follows {before : String} {text : Rendering → Render String}
    {slot : Option Tree} (hbefore : Text.isPlain before)
    (h : ∀ t ∈ slot.toList, Follows Twins (text t.rendering) (text t.twin) SameCode) :
    Follows Twins (optionalText before text (slot.map Tree.rendering))
      (optionalText before text (slot.map Tree.twin)) SameCode := by
  cases slot with
  | none => exact Follows.pure (SameCode.plain rfl)
  | some t =>
    refine (h t (by simp)).bind fun code code' hcode => Follows.pure ?_
    exact hcode.after before hbefore

attribute [simp] slotNode_rendering

@[simp]
theorem slotNode_twin (slot : Option Tree) :
    slotNode (slot.map Tree.twin) = slot.map Tree.uncommented := by
  cases slot with
  | none => rfl
  | some t => exact congrArg some t.twin_node

theorem nodes_rendering (types : List Tree) : (types.map Tree.rendering).map (·.node) = types := by
  simp [Function.comp_def, Tree.rendering_node]

theorem nodes_twin (types : List Tree) :
    (types.map Tree.twin).map (·.node) = types.map Tree.uncommented := by
  simp [Tree.twin_node]

theorem types_follow {types : List Tree} (h : ∀ t ∈ types, Twinned t) :
    Follows Twins (types.mapM fun t => ofType (typeText t))
      ((types.map Tree.uncommented).mapM fun t => ofType (typeText t)) (List.Forall₂ SameCode) := by
  have hmap : Follows Twins ((types.map id).mapM fun t => ofType (typeText t))
      ((types.map Tree.uncommented).mapM fun t => ofType (typeText t)) (List.Forall₂ SameCode) := by
    apply Follows.mapM
    intro t ht
    refine (ofType_follows (typeText_uncommented t) (typeText_composes composes_isPlain (h t ht).clear.named)).mono ?_
    rintro a _ ⟨rfl, ha⟩
    exact SameCode.plain ha
  rwa [List.map_id] at hmap

end Nodes

end Render

end Recast
