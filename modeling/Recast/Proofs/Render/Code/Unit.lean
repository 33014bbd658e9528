import Mathlib
import Recast.Proofs.Render.Code.Declarations

/-!
Comments never change code.

An import line may have backslashes, and so it is certain to be back in code only after its line
break. A unit has the code of its chunks, wherever the blank lines between them are. With this every
clear unit has the code that it has without its comments.
-/

namespace Recast

variable {a b : String} {cs ds : List String} {k l : List Char}

/-! ### Import lines -/

namespace Spot

/-- A specifier between its quotes, the semicolon and the line break: a backslash at its end takes the
quote, and then the literal ends with the line. -/
theorem run_specifier {text : List Char} (h : ∀ c ∈ text, c ≠ '\'' ∧ c ≠ '\n') :
    ((quoted '\'').run (text ++ "';\n".toList)).1 = code ∧
      ((escaped '\'').run (text ++ "';\n".toList)).1 = code := by
  induction text with
  | nil => decide
  | cons c rest ih =>
    obtain ⟨hquoted, hescaped⟩ := ih fun c hc => h c (List.mem_cons_of_mem _ hc)
    obtain ⟨hquote, hbreak⟩ := h c List.mem_cons_self
    refine ⟨?_, hquoted⟩
    by_cases hslash : c = '\\'
    · simpa [run, step, hslash] using hescaped
    · simpa [run, step, hslash, hquote, hbreak] using hquoted

end Spot

namespace Render

theorem exists_fills_importLine {symbol moduleName : String} (hsymbol : Text.isPlain symbol)
    (hmodule : ∀ c ∈ moduleName.toList, c ≠ '\'' ∧ c ≠ '\n') (isAsterisk : Bool) :
    ∃ kept, Fills (importLine symbol moduleName isAsterisk) kept := by
  have hline (before : String) (hbefore : Text.isPlain before) :
      ∃ kept, Fills (before ++ " from '" ++ moduleName ++ "';") kept := by
    have hplain : Text.isPlain (before ++ " from ") := Text.isPlain_append.2 ⟨hbefore, rfl⟩
    have hsplit : (before ++ " from '" ++ moduleName ++ "';" ++ "\n").toList =
        (before ++ " from ").toList ++ '\'' :: (moduleName.toList ++ "';\n".toList) := by
      simp
    refine ⟨_, Prod.ext ?_ rfl⟩
    rw [hsplit, Spot.run_append, Reads.plain hplain]
    exact (Spot.run_specifier hmodule).1
  cases isAsterisk with
  | true => exact hline _ (Text.isPlain_append.2 ⟨rfl, hsymbol⟩)
  | false =>
    have hbraces : Text.isPlain ("import \x7b " ++ symbol ++ " \x7d") := by
      simp only [Text.isPlain_append]
      exact ⟨⟨rfl, hsymbol⟩, rfl⟩
    have hfrom : " \x7d from '" = " \x7d" ++ " from '" := by decide
    obtain ⟨kept, hkept⟩ := hline _ hbraces
    refine ⟨kept, ?_⟩
    rw [importLine, if_neg (by decide), hfrom]
    simpa only [String.append_assoc] using hkept

/-- An import line without template, whatever its name, as long as the name has no quotes, slashes and
line breaks. -/
theorem exists_renderImport {decl : ImportName} (hplain : Text.isPlain decl.text)
    (hline : '\n' ∉ decl.text.toList) :
    ∃ line kept, renderImport .null decl = .ok line ∧ Fills line kept := by
  obtain ⟨symbol, moduleName, hrender, hsymbol, hmodule⟩ := renderImport_null decl
  have hchars : ∀ c ∈ moduleName.toList, c ≠ '\'' ∧ c ≠ '\n' := by
    intro c hc
    rcases hmodule c hc with hname | hfixed
    · exact ⟨(Text.isPlain_iff.1 hplain c hname).2.2, fun hbreak => hline (hbreak ▸ hname)⟩
    · fin_cases hfixed <;> decide
  obtain ⟨kept, hkept⟩ :=
    exists_fills_importLine (Text.isPlain_of_subset hplain hsymbol) hchars decl.isAsterisk
  exact ⟨_, kept, hrender, hkept⟩

/-! ### Declarations at module level -/

theorem commentOnly_follows {t : Tree} (h : t.Clear) :
    Follows Twins (headLine.commentOnly t) (headLine.commentOnly t.uncommented) (Same Fills) := by
  unfold headLine.commentOnly
  rw [comment_uncommented]
  cases hcomment : t.comment with
  | none => exact Follows.pure ⟨[], Reads.line, Reads.line⟩
  | some comment =>
    intro scope twin hscope log log' text htext
    have hfills := commentText_fills (Closed.of_comment h hcomment) scope hscope.indent log text htext
    exact ⟨"", rfl, [], hfills, Reads.line⟩

theorem headLine_follows {t : Tree} (h : t.Clear) {line : Option String}
    (hline : ∀ text ∈ line, ∃ kept, Fills text kept) :
    Follows Twins (headLine t line) (headLine t.uncommented line) (Same Fills) := by
  cases line with
  | none => exact commentOnly_follows h
  | some text =>
    refine Follows.ite Iff.rfl (fun _ => commentOnly_follows h) fun _ => withComment_fills h ?_
    obtain ⟨kept, hkept⟩ := hline text rfl
    exact ⟨kept, hkept, hkept⟩

theorem topLevelOf_follows {t : Tree} (hclear : t.Clear) {typeDeclaration typeDeclaration' : Render String}
    (h : Follows Twins typeDeclaration typeDeclaration' (Same Reads)) :
    Follows Twins (topLevelOf t typeDeclaration (t.form.map Tree.rendering))
      (topLevelOf t.uncommented typeDeclaration' (t.form.map Tree.twin)) (Same Fills) := by
  have htype := h.mono fun _ _ => Same.fills
  have hspelled := hclear.spelled
  have hline := hclear.inLine
  cases hform : t.form with
  | part form =>
    rw [hform] at hspelled hline
    cases form with
    | package name annotations =>
      refine Follows.read.bind fun scope twin hscope => ?_
      rw [hscope.hooks, hscope.package]
      exact Follows.bind (R := fun a b => a = none ∧ b = none) (Follows.pure ⟨rfl, rfl⟩) (by
        rintro _ _ ⟨rfl, rfl⟩
        exact headLine_follows hclear nofun)
    | importing decl =>
      refine Follows.read.bind fun scope twin hscope => ?_
      obtain ⟨line, kept, hrender, hfills⟩ := exists_renderImport hspelled (by
        simpa [Form.isInLine] using hline)
      rw [hscope.hooks, hscope.imports, hrender]
      refine Follows.bind (R := fun a b => a = some line ∧ b = some line) (Follows.pure ⟨rfl, rfl⟩) ?_
      rintro _ _ ⟨rfl, rfl⟩
      refine headLine_follows hclear ?_
      rintro text ⟨⟩
      exact ⟨kept, hfills⟩
    | _ => exact htype
  | _ => exact htype

/-! ### Trees -/

/-- A clear node is written with the same code with and without its comments, if its children are. -/
theorem twinned_of_children {t : Tree} (hclear : t.Everywhere Tree.Clear)
    (h : ∀ child ∈ t.form.children, Twinned child) : Twinned t := by
  have hself := hclear.self
  have hspelled := hself.spelled
  have hannotations := hself.unannotated
  have hlines {before before' : List Child} (hbefore : List.Forall₂ SameChild before before') :
      Follows Twins (t.rendering.lines before) (t.twin.lines before') (Same Chunks) := by
    rw [Tree.twin, t.rendering_lines, t.uncommented.rendering_lines, t.form_twin]
    exact linesOf_follows hself h hbefore
  have hdeclaration (isResource : Bool) : Follows Twins (t.rendering.declaration isResource)
      (t.twin.declaration isResource) SameCode := by
    rw [Tree.twin, t.rendering_declaration, t.uncommented.rendering_declaration, t.form_twin]
    exact declarationOf_follows hannotations h isResource
  have htype : Follows Twins t.rendering.typeDeclaration t.twin.typeDeclaration (Same Reads) := by
    rw [Tree.twin, t.rendering_typeDeclaration, t.uncommented.rendering_typeDeclaration, t.form_twin]
    exact typeDeclarationOf_follows hself h
  exact {
    clear := hclear
    expr := expr_follows hself h
    part := by
      rw [Tree.twin, t.rendering_part, t.uncommented.rendering_part, t.form_twin]
      exact partOf_follows hspelled hannotations h
    localVariable := by
      rw [Tree.twin, t.rendering_localVariable, t.uncommented.rendering_localVariable, t.form_twin]
      exact localVariableOf_follows hspelled h
    fieldVariable := by
      rw [Tree.twin, t.rendering_fieldVariable, t.uncommented.rendering_fieldVariable, t.form_twin]
      exact fieldVariableOf_follows hspelled h
    declaration := hdeclaration
    bareStmt := by
      rw [Tree.twin, t.rendering_bareStmt, t.uncommented.rendering_bareStmt, t.form_twin]
      exact bareStmtOf_follows (hdeclaration false) (block_follows false (hlines .nil)) hspelled
        hself.placed.leads h
    lines := hlines
    caseLines := by
      rw [Tree.twin, t.rendering_caseLines, t.uncommented.rendering_caseLines, t.form_twin]
      exact caseLinesOf_follows h
    member := by
      rw [Tree.twin, t.rendering_member, t.uncommented.rendering_member, t.form_twin]
      exact (memberOf_follows hspelled hannotations h).mono fun _ _ => SameCode.same
    typeDeclaration := htype
    topLevel := by
      rw [Tree.twin, t.rendering_topLevel, t.uncommented.rendering_topLevel, t.form_twin]
      exact topLevelOf_follows hself htype }

theorem twinned_of_clear {t : Tree} (h : t.Everywhere Tree.Clear) : Twinned t := by
  induction t using Tree.induct with
  | step trivia form ih =>
    exact twinned_of_children h fun child hchild => ih child hchild (h.child hchild)

/-! ### Units -/

end Render

namespace Chunks

theorem split (h : Chunks cs k) (n : Nat) : ∃ before after, Chunks (cs.take n) before ∧
    Chunks (cs.drop n) after ∧ k = before ++ after := by
  induction h generalizing n with
  | nil => exact ⟨[], [], by simpa using nil, by simpa using nil, rfl⟩
  | @cons chunk chunks kept more hchunk hrest ih =>
    cases n with
    | zero => exact ⟨[], kept ++ more, nil, .cons hchunk hrest, rfl⟩
    | succ n =>
      obtain ⟨before, after, hbefore, hafter, rfl⟩ := ih n
      exact ⟨kept ++ before, after, .cons hchunk hbefore, hafter, by simp⟩

/-- The head of a unit and its types, with a blank line between them if there are both. -/
theorem reads_sections (hcs : Chunks cs k) (hds : Chunks ds l) :
    Reads ("\n".intercalate cs ++ (if cs.isEmpty || ds.isEmpty then "" else "\n\n")
      ++ "\n\n".intercalate ds ++ "\n") (k ++ l) := by
  have hhead := hcs.fills_lines
  have hbody := hds.fills_paragraphs
  cases hcs with
  | nil => simpa [Fills] using hbody
  | cons hfirst hrest =>
    cases hds with
    | nil => simpa [Fills] using hhead
    | cons =>
      have hjoin := Reads.append hhead (Reads.line.append hbody)
      have hblank : "\n\n" = "\n" ++ "\n" := by decide
      generalize "\n".intercalate _ = head at hjoin ⊢
      generalize "\n\n".intercalate _ = body at hjoin ⊢
      simp only [List.isEmpty_cons, Bool.or_self, Bool.false_eq_true, if_false]
      rw [hblank]
      simpa only [Fills, String.append_assoc, List.nil_append] using hjoin

/-- Chunks put together as a unit, of which the first some are its head. -/
theorem reads_unit (h : Chunks cs k) (n : Nat) :
    Reads ("\n".intercalate ((cs.take n).filter (· ≠ ""))
      ++ (if ((cs.take n).filter (· ≠ "")).isEmpty || ((cs.drop n).filter (· ≠ "")).isEmpty then ""
        else "\n\n")
      ++ "\n\n".intercalate ((cs.drop n).filter (· ≠ "")) ++ "\n") k := by
  obtain ⟨before, after, hbefore, hafter, rfl⟩ := h.split n
  exact hbefore.filter.reads_sections hafter.filter

end Chunks

namespace Render

theorem map_twin_unit (header : Option Tree) (imports types : List Tree) :
    (header.map Tree.twin).toList ++ imports.map Tree.twin ++ types.map Tree.twin =
      (header.toList ++ imports ++ types).map Tree.twin := by
  cases header <;> simp

theorem unit_follows {t : Tree} (h : t.Everywhere Tree.Clear) :
    Follows Twins t.rendering.unit t.twin.unit (Same Reads) := by
  have hchildren : ∀ child ∈ t.form.children, Twinned child :=
    fun child hchild => twinned_of_clear (h.child hchild)
  rw [Tree.twin, t.rendering_unit, t.uncommented.rendering_unit, t.form_twin]
  cases hform : t.form with
  | part form =>
    cases form with
    | unit header imports types =>
      rw [hform] at hchildren
      simp only [unitOf, Form.map, PartForm.map]
      rw [Tree.map_rendering_unit, map_twin_unit]
      refine (childChunks_follows h.self (sameChildren (fun r => ⟨r.node.position, r.topLevel⟩)
        fun child hchild => (hchildren child hchild).topLevel)).bind fun chunks chunks' hchunks => Follows.pure ?_
      obtain ⟨kept, hchunks, hchunks'⟩ := hchunks
      exact ⟨kept, hchunks.reads_unit _, hchunks'.reads_unit _⟩
    | _ => exact Follows.unsupported
  | _ => exact Follows.unsupported

/-- Comments never change code: a unit whose words are Java's, with scanned comments in the places
where attaching puts them, has the code that it has without comments. -/
theorem code_renderUnit {scope : Scope} {c : Config} {unit : Tree} {file text : String}
    (hindent : ∀ c ∈ scope.unitIndent.toList, Text.isBlank c) (hhooks : scope.hooks = .ofConfig c)
    (hpackage : c.packageTemplate = .null) (himport : c.unknownImportTemplate = .null)
    (hthrows : c.commentThrows.isSet = false) (hfinal : scope.commentFinal = false)
    (hunit : unit.Everywhere Tree.Clear) (hok : (renderUnit scope unit file).result = .ok text) :
    ∃ bareText, (renderUnit scope unit.uncommented file).result = .ok bareText ∧
      Text.code text = Text.code bareText := by
  have hscope : Twins (scope.forFile file) (scope.forFile file) :=
    { same := rfl
      indent := hindent
      package := hhooks ▸ Hooks.onPackage_ofConfig hpackage
      imports := hhooks ▸ Hooks.onImport_ofConfig himport
      throws := hhooks ▸ Hooks.throwsSuffix_ofConfig hthrows
      final := hfinal
      declared := fun _ hnone => nomatch hnone }
  obtain ⟨bareText, hbare, kept, htext, hbareText⟩ := (unit_follows hunit).of_runIn hscope hok
  exact ⟨bareText, hbare, htext.code.trans hbareText.code.symm⟩

/-- A tree is regular if its words are, and its comments are those of one text. -/
theorem regular_of_scan {t : Tree} (source : String)
    (hscan : ∀ c ∈ t.comments, c ∈ (scan source).comments)
    (h : t.Everywhere fun node => (node.form.isSpelled ∧ node.form.annotations = []) ∧
      (node.trivia.orphans ≠ [] → node.form.isContainer) ∧
      ∀ child ∈ node.form.sideChildren, child.comment = none) :
    t.Everywhere Tree.Regular := by
  intro node hnode
  obtain ⟨⟨hspelled, hannotations⟩, horphans, hleads⟩ := h node hnode
  refine ⟨hspelled, hannotations, fun c hc => ⟨source, hscan c ?_⟩, horphans, hleads⟩
  exact List.mem_flatMap.2 ⟨node, hnode, hc⟩

/-- A class with some members and a method, with a comment before the method and comments in its
body. -/
def countingUnit (imports members : List Tree) (lead : Comment) (inside : List Comment) : Tree :=
  let body : Tree := .node { orphans := inside } (.stmt (.block []))
  let method : Tree := .node { comment := lead } (.member (.method (.text "count")
    (some (.node {} (.type .void))) [] [] (some body) [] [] []))
  .node {} (.part (.unit none imports
    [.node {} (.member (.classType (.text "Counter") [] [] [] [] [] (members ++ [method]) false))]))

/-- The comments `/** Counts. */` before a method and `// none` in its body. -/
def commentedUnit : Tree :=
  countingUnit [] [] ⟨" Counts. ", .javadoc, some ⟨1, 1⟩⟩ [⟨" none", .line, some ⟨2, 1⟩⟩]

theorem commentedUnit_regular : commentedUnit.Everywhere Tree.Regular :=
  regular_of_scan "/** Counts. */\n// none\n" (by decide +kernel) (by decide +kernel)

theorem code_renderUnit_commentedUnit : ∃ text bareText,
    (renderUnit {} commentedUnit "").result = .ok text ∧
      (renderUnit {} commentedUnit.uncommented "").result = .ok bareText ∧ text ≠ bareText ∧
      Text.code text = Text.code bareText := by
  have hok : (renderUnit {} commentedUnit "").result = .ok
      ("class Counter \x7b\n  /** Counts. */\n  count(): void \x7b\n    // none\n  \x7d\n\x7d\n") := by
    decide +kernel
  have hbareOk : (renderUnit {} commentedUnit.uncommented "").result = .ok
      "class Counter \x7b\n  count(): void \x7b\x7d\n\x7d\n" := by
    decide +kernel
  have hline : commentedUnit.Everywhere fun node => node.form.isInLine := by decide +kernel
  have hclear : commentedUnit.Everywhere Tree.Clear := fun node hnode =>
    ⟨commentedUnit_regular node hnode, hline node hnode⟩
  have hindent : ∀ c ∈ ({} : Scope).unitIndent.toList, Text.isBlank c :=
    List.all_eq_true.1 (by decide)
  obtain ⟨bareText, hbare, hcode⟩ :=
    code_renderUnit hindent Hooks.ofConfig_default.symm rfl rfl rfl rfl hclear hok
  obtain rfl := Except.ok.inj (hbareOk.symm.trans hbare)
  exact ⟨_, _, hok, hbareOk, by decide, hcode⟩

/-- Whether a unit has other code with its comments than without them. -/
def changesCode (scope : Scope) (unit : Tree) : Bool :=
  match (renderUnit scope unit "").result, (renderUnit scope unit.uncommented "").result with
  | .ok text, .ok bareText => Text.code text ≠ Text.code bareText
  | _, _ => false

/-- A field with a text block in which a comment seems to open, and a comment after it. -/
def textBlockUnit : Tree :=
  let start : Tree := .node {} (.expr (.literal (.text "\"\"\"\n/*\"\"\"")))
  let field : Tree := .node {} (.member (.field
    (some (.node {} (.type (.named (.text "Text") none none false))))
    [.node {} (.part (.declarator (.text "start") 0 (some start)))] [] []))
  countingUnit [] [field] ⟨" x ", .block, some ⟨1, 1⟩⟩ []

/-- An import from a module in whose name a comment seems to open on a new line. -/
def brokenImportUnit : Tree :=
  countingUnit [.node {} (.part (.importing ⟨.text "a\n.*.C", false, false, false⟩))] []
    ⟨" x ", .block, some ⟨1, 1⟩⟩ []

/-- A text block and an import name with a line break may look as if a comment opened in them, which
the next comment then ends; and an indentation that is not blank is code before a comment. -/
theorem comments_change_code :
    (textBlockUnit.Everywhere Tree.Regular ∧ changesCode {} textBlockUnit) ∧
      (brokenImportUnit.Everywhere Tree.Regular ∧ changesCode {} brokenImportUnit) ∧
      commentedUnit.Everywhere Tree.Regular ∧ changesCode { unitIndent := "x" } commentedUnit := by
  refine ⟨⟨?_, by decide +kernel⟩, ⟨?_, by decide +kernel⟩, commentedUnit_regular, by decide +kernel⟩
  · exact regular_of_scan "/* x */" (by decide +kernel) (by decide +kernel)
  · exact regular_of_scan "/* x */" (by decide +kernel) (by decide +kernel)

end Render

end Recast
