import Mathlib
import Recast.Pass.Select
import Recast.Proofs.Specifier

/-!
Equal imports of encoded names.

The marks of a dotted form are told apart by their first characters, and none of them is a character
of the specifier. Read in one sweep from left to right, a dotted form gives its specifier back
(`readMarks_encodeChars`), so an import name says which symbol it imports from where. Therefore, of
encoded imports, removing the equal ones removes exactly those whose specifier, symbol and asterisk
an earlier one has.
-/

namespace Recast

namespace Specifier

variable {c : Char} {rest : List Char}

/-! ### One sweep -/

/-- The marks of a dotted form and what they stand for. -/
def marks : List (List Char × List Char) :=
  [(dotDotMark, ['.', '.']), (dotMark, ['.']), (dotSlashMark ++ ['.'], ['.', '/']),
    (atMark ++ ['.'], ['@']), (['.'], ['/'])]

/-- A dotted form with all marks read in one sweep. `held` characters of the mark that is being read
are skipped. -/
def readMarks (held : Nat) : List Char → List Char
  | [] => []
  | c :: rest =>
    match held with
    | n + 1 => readMarks n rest
    | 0 =>
      match marks.find? fun mark => mark.1.isPrefixOf (c :: rest) with
      | some (mark, new) => new ++ readMarks (mark.length - 1) rest
      | none => c :: readMarks 0 rest

theorem readMarks_cons (hdot : c ≠ '.') (hsign : c ≠ '%') :
    readMarks 0 (c :: rest) = c :: readMarks 0 rest := by
  have hstart : ∀ mark ∈ marks, mark.1.head? = some '%' ∨ mark.1.head? = some '.' := by decide
  have hnone : (marks.find? fun mark => mark.1.isPrefixOf (c :: rest)) = none := by
    rw [List.find?_eq_none]
    intro mark hmark hprefix
    obtain ⟨after, hafter⟩ := List.isPrefixOf_iff_prefix.1 hprefix
    rcases hstart mark hmark with hhead | hhead
    · obtain ⟨tail, htail⟩ := List.head?_eq_some_iff.1 hhead
      rw [htail] at hafter
      exact hsign (List.cons.inj hafter).1.symm
    · obtain ⟨tail, htail⟩ := List.head?_eq_some_iff.1 hhead
      rw [htail] at hafter
      exact hdot (List.cons.inj hafter).1.symm
  rw [readMarks, hnone]

theorem readMarks_escapePath (path : List Char) (h : '%' ∉ path) :
    readMarks 0 (escapePath path) = path := by
  fun_induction escapePath path with
  | case1 rest ih =>
    have hrest : '%' ∉ rest := fun hmem => h (by simp [hmem])
    exact congrArg (['.', '.'] ++ ·) (ih hrest)
  | case2 rest hdot ih =>
    have hrest : '%' ∉ rest := fun hmem => h (List.mem_cons_of_mem _ hmem)
    exact congrArg (['.'] ++ ·) (ih hrest)
  | case3 rest ih =>
    have hrest : '%' ∉ rest := fun hmem => h (List.mem_cons_of_mem _ hmem)
    exact congrArg (['/'] ++ ·) (ih hrest)
  | case4 c rest hpair hc hslash ih =>
    have hrest : '%' ∉ rest := fun hmem => h (List.mem_cons_of_mem _ hmem)
    have hsign : c ≠ '%' := fun hsign => h (hsign ▸ List.mem_cons_self)
    rw [readMarks_cons hc hsign, ih hrest]
  | case5 => rfl

/-- A dotted form tells its specifier. -/
theorem readMarks_encodeChars (specifier : List Char) (h : '%' ∉ specifier) :
    readMarks 0 (encodeChars specifier) = specifier := by
  fun_cases encodeChars specifier with
  | case1 rest =>
    have hrest : '%' ∉ rest := fun hmem => h (by simp [hmem])
    exact congrArg (['.', '/'] ++ ·) (readMarks_escapePath rest hrest)
  | case2 rest =>
    have hrest : '%' ∉ rest := fun hmem => h (List.mem_cons_of_mem _ hmem)
    exact congrArg (['@'] ++ ·) (readMarks_escapePath rest hrest)
  | case3 => exact readMarks_escapePath specifier h

theorem importName_eq {specifier : String} (h : '%' ∉ specifier.toList) (symbol : String) :
    importName specifier symbol =
      .ok (String.ofList (encodeChars specifier.toList) ++ String.singleton '.' ++ symbol) := by
  rw [importName, encode_eq specifier h]
  rfl

/-- An import name tells its specifier and its symbol. -/
theorem importName_eq_iff {specifier specifier' symbol symbol' : String}
    (h : '%' ∉ specifier.toList) (h' : '%' ∉ specifier'.toList) (hsymbol : '.' ∉ symbol.toList)
    (hsymbol' : '.' ∉ symbol'.toList) :
    importName specifier symbol = importName specifier' symbol' ↔
      specifier = specifier' ∧ symbol = symbol' := by
  constructor
  · intro hname
    rw [importName_eq h, importName_eq h'] at hname
    have hname := Except.ok.inj hname
    have hbefore := congrArg (Text.beforeLast '.') hname
    have hafter := congrArg (Text.afterLast '.') hname
    rw [Text.beforeLast_append _ hsymbol, Text.beforeLast_append _ hsymbol'] at hbefore
    rw [Text.afterLast_append _ hsymbol, Text.afterLast_append _ hsymbol'] at hafter
    have hchars := congrArg (readMarks 0) (String.ofList_inj.1 hbefore)
    rw [readMarks_encodeChars _ h, readMarks_encodeChars _ h'] at hchars
    exact ⟨String.toList_inj.1 hchars, hafter⟩
  · rintro ⟨rfl, rfl⟩
    rfl

end Specifier

namespace Pass

/-! ### First entries -/

section Firsts

variable {α β κ μ : Type} [DecidableEq κ] [DecidableEq μ]

/-- Whether the key of an entry, given with its index, neither has been seen nor belongs to an entry
before it. -/
def isNew (key : α → κ) (seen : List κ) (items : List α) (entry : α × Nat) : Bool :=
  key entry.1 ∉ seen ++ (items.take entry.2).map key

/-- The entries whose key no entry before them has. -/
def firsts (key : α → κ) (items : List α) : List α :=
  (items.zipIdx.filter (isNew key [] items)).map Prod.fst

/-- The entries whose key an entry before them has. -/
def repeats (key : α → κ) (items : List α) : List α :=
  (items.zipIdx.filter fun entry => !isNew key [] items entry).map Prod.fst

theorem isNew_cons (key : α → κ) (seen : List κ) (first : α) (items : List α) (entry : α × Nat) :
    isNew key seen (first :: items) (Prod.map id (· + 1) entry) =
      isNew key (key first :: seen) items entry := by
  simp only [isNew, Prod.map, id_eq, List.take_succ_cons, List.map_cons, decide_eq_decide,
    List.mem_append, List.mem_cons]
  tauto

/-- After its first entry, a list is gone through with one more key seen. -/
theorem filter_zipIdx_cons (p : Bool → Bool) (key : α → κ) (seen : List κ) (first : α)
    (items : List α) :
    (((first :: items).zipIdx.filter fun entry => p (isNew key seen (first :: items) entry)).map
        Prod.fst) =
      (if p (key first ∉ seen) then [first] else []) ++
        (items.zipIdx.filter fun entry => p (isNew key (key first :: seen) items entry)).map
          Prod.fst := by
  have hfirst : isNew key seen (first :: items) (first, 0) = decide (key first ∉ seen) := by
    simp [isNew]
  have hrest : (items.zipIdx 1).filter (fun entry => p (isNew key seen (first :: items) entry)) =
      (items.zipIdx.filter fun entry => p (isNew key (key first :: seen) items entry)).map
        (Prod.map id (· + 1)) := by
    rw [List.zipIdx_succ, List.filter_map]
    exact congrArg _ (List.filter_congr fun entry _ => congrArg p (isNew_cons key seen first items entry))
  rw [List.zipIdx_cons, List.filter_cons, hfirst, zero_add, hrest]
  split <;> simp [Function.comp_def]

/-- Entries that stand for others with keys that are equal for equal keys. -/
theorem isNew_map {key : β → κ} {key' : α → μ} (f : α → β)
    (h : ∀ a b, key (f a) = key (f b) ↔ key' a = key' b) (items : List α) (entry : α × Nat) :
    isNew key [] (items.map f) (Prod.map f id entry) = isNew key' [] items entry := by
  simp only [isNew, List.nil_append, Prod.map, id_eq, ← List.map_take, List.map_map, List.mem_map,
    Function.comp_apply, h]

theorem filter_zipIdx_map (p : Bool → Bool) {key : β → κ} {key' : α → μ} (f : α → β)
    (h : ∀ a b, key (f a) = key (f b) ↔ key' a = key' b) (items : List α) :
    ((items.map f).zipIdx.filter fun entry => p (isNew key [] (items.map f) entry)).map Prod.fst =
      ((items.zipIdx.filter fun entry => p (isNew key' [] items entry)).map Prod.fst).map f := by
  rw [List.zipIdx_map, List.filter_map, List.map_map, List.map_map]
  have hsame : (items.zipIdx.filter ((fun entry => p (isNew key [] (items.map f) entry)) ∘
      Prod.map f id)) = items.zipIdx.filter fun entry => p (isNew key' [] items entry) :=
    List.filter_congr fun entry _ => by rw [Function.comp_apply, isNew_map f h]
  rw [hsame]
  rfl

end Firsts

/-! ### Equal imports -/

theorem dedupe_congr {seen seen' : List (String × Bool × Bool)} (h : ∀ key, key ∈ seen ↔ key ∈ seen')
    (nodes : List Tree) : dedupe seen nodes = dedupe seen' nodes := by
  induction nodes generalizing seen seen' with
  | nil => rfl
  | cons first rest ih =>
    have hseen : ∀ key, key ∈ importKey first :: seen ↔ key ∈ importKey first :: seen' := by
      intro key
      simp [h]
    rw [dedupe, dedupe, ih h, ih hseen]
    simp only [h]

/-- Of equal imports the first stays, where it stood, and the others leave their comments. -/
theorem dedupe_eq (seen : List (String × Bool × Bool)) (nodes : List Tree) :
    dedupe seen nodes =
      ((nodes.zipIdx.filter (isNew importKey seen nodes)).map Prod.fst,
        ((nodes.zipIdx.filter fun entry => !isNew importKey seen nodes entry).map Prod.fst).flatMap
          (·.comment.toList)) := by
  induction nodes generalizing seen with
  | nil => rfl
  | cons first rest ih =>
    have hkept := filter_zipIdx_cons id importKey seen first rest
    have hdropped := filter_zipIdx_cons (!·) importKey seen first rest
    simp only [id_eq] at hkept
    rw [hkept, hdropped, dedupe]
    by_cases hseen : importKey first ∈ seen
    · have hsame : dedupe seen rest = dedupe (importKey first :: seen) rest :=
        dedupe_congr (fun key => by simpa using fun heq => heq ▸ hseen) rest
      simp [hseen, hsame, ih]
    · simp [hseen, ih]

/-- An import declaration of a symbol from a specifier. -/
structure EncodedImport where
  specifier : String
  symbol : String
  isAsterisk : Bool := false
  isStatic : Bool := false
  trivia : Trivia := {}
  noMark : '%' ∉ specifier.toList := by decide
  noDot : '.' ∉ symbol.toList := by decide

namespace EncodedImport

/-- The declaration, with its import name. -/
def declaration (e : EncodedImport) : Except ConfigFault Tree := do
  let name ← Specifier.importName e.specifier e.symbol
  return .node e.trivia (.part (.importing
    { name := .text name, isStatic := e.isStatic, isAsterisk := e.isAsterisk, encoded := true }))

/-- What is imported from where, and how. -/
def key (e : EncodedImport) : String × String × Bool := (e.specifier, e.symbol, e.isAsterisk)

theorem exists_declaration (e : EncodedImport) : ∃ name node,
    Specifier.importName e.specifier e.symbol = .ok name ∧ e.declaration = .ok node ∧
      importKey node = (name, e.isAsterisk, true) ∧ node.comment = e.trivia.comment := by
  have hname := Specifier.importName_eq e.noMark e.symbol
  exact ⟨_, _, hname, by rw [declaration, hname]; rfl, rfl, rfl⟩

end EncodedImport

/-- Import names tell what they import. Two import names are equal only for one specifier and one
symbol; so of encoded imports the first stays for each specifier, symbol and asterisk, in the order
in which they stood, and all others leave their comments. -/
theorem dedupe_encodedImports :
    (∀ specifier specifier' symbol symbol' : String,
      '%' ∉ specifier.toList → '%' ∉ specifier'.toList →
      '.' ∉ symbol.toList → '.' ∉ symbol'.toList →
      (Specifier.importName specifier symbol = Specifier.importName specifier' symbol' ↔
        specifier = specifier' ∧ symbol = symbol')) ∧
    ∀ imports : List EncodedImport, ∃ nodes kept,
      imports.mapM EncodedImport.declaration = .ok nodes ∧
      (firsts EncodedImport.key imports).mapM EncodedImport.declaration = .ok kept ∧
      dedupe [] nodes =
        (kept, (repeats EncodedImport.key imports).flatMap (·.trivia.comment.toList)) := by
  constructor
  · intro specifier specifier' symbol symbol' h h' hsymbol hsymbol'
    exact Specifier.importName_eq_iff h h' hsymbol hsymbol'
  · intro imports
    choose name node hname hnode hkey hcomment using EncodedImport.exists_declaration
    have hall (entries : List EncodedImport) :
        entries.mapM EncodedImport.declaration = .ok (entries.map node) := by
      rw [show EncodedImport.declaration = fun e => pure (node e) from funext hnode]
      exact List.mapM_pure
    have hsame (a b : EncodedImport) : importKey (node a) = importKey (node b) ↔ a.key = b.key := by
      have hnames : name a = name b ↔ a.specifier = b.specifier ∧ a.symbol = b.symbol := by
        rw [← Specifier.importName_eq_iff a.noMark b.noMark a.noDot b.noDot, hname, hname,
          Except.ok.injEq]
      rw [hkey, hkey]
      simp [EncodedImport.key, hnames, and_assoc]
    refine ⟨imports.map node, (firsts EncodedImport.key imports).map node, hall _, hall _, ?_⟩
    have hkept := filter_zipIdx_map id node hsame imports
    have hdropped := filter_zipIdx_map (!·) node hsame imports
    simp only [id_eq] at hkept
    rw [dedupe_eq, hkept, hdropped, firsts, repeats, List.flatMap_map]
    simp only [hcomment]

/-- An import, one of the same symbol from elsewhere, and the first again with a comment. -/
def repeatedImports : List EncodedImport :=
  [{ specifier := "./Foo", symbol := "Foo" }, { specifier := "Foo", symbol := "Foo" },
    { specifier := "./Foo", symbol := "Foo", isStatic := true,
      trivia := { comment := some { content := "again" } } }]

/-- Specifiers with the text of marks are told apart, and of three imports the one that repeats
another goes. -/
theorem dedupe_repeatedImports :
    Specifier.importName ".DOT_DOT." "y" ≠ Specifier.importName "..DOT.." "y" ∧
    ∃ nodes, repeatedImports.mapM EncodedImport.declaration = .ok nodes ∧
      dedupe [] nodes = (nodes.take 2, [{ content := "again" }]) := by
  constructor
  · have hnames := dedupe_encodedImports.1 ".DOT_DOT." "..DOT.." "y" "y" (by decide) (by decide)
      (by decide) (by decide)
    rw [Ne, hnames]
    decide
  · obtain ⟨nodes, kept, hnodes, hkept, hdedupe⟩ := dedupe_encodedImports.2 repeatedImports
    refine ⟨nodes, hnodes, hdedupe.trans ?_⟩
    cases hnodes
    rw [← Except.ok.inj hkept]
    rfl

end Pass

end Recast
