import Mathlib
import Recast.Proofs.Pass.Table

/-!
The imports of classes beside a unit.

A class that has a file of its own in the same directory is visible in Java without an import, and is
imported in the output. `neededSiblings` selects such classes by what the unit uses, declares and
imports (`mem_neededSiblings_iff`). Their imports come last, and of equal imports the first stays, so
that it has to be shown that none of them is equal to an import before it (`Drawn.ne_of_missing`) or to
one another (`siblingImport_unique`); then all of them are left (`Drawn.exists_sibling_iff`). `siblings_imported` compares what selection makes of a unit with
what it makes of the unit without anything beside it.
-/

namespace Recast.Text

theorem mem_distinct {text : String} {texts : List String} : text ∈ distinct texts ↔ text ∈ texts := by
  induction texts with
  | nil => rfl
  | cons first rest ih =>
    by_cases h : text = first
    · simp [distinct, h]
    · simp [distinct, h, ih]

theorem mem_sorted {text : String} {texts : List String} : text ∈ sorted texts ↔ text ∈ texts :=
  List.mem_mergeSort

end Recast.Text

namespace Recast.Specifier

/-- Escaping never makes a path shorter. -/
theorem length_le_escapePath (path : List Char) : path.length ≤ (escapePath path).length := by
  have hpair : dotDotMark.length = 9 := by decide
  have hdot : dotMark.length = 5 := by decide
  fun_induction escapePath path with
  | case1 rest ih => simp only [List.length_append, List.length_cons]; omega
  | case2 rest _ ih => simp only [List.length_append, List.length_cons]; omega
  | case3 rest ih => simp only [List.length_cons]; omega
  | case4 c rest _ _ _ ih => simp only [List.length_cons]; omega
  | case5 => exact Nat.le_refl 0

/-- Escaping keeps the length of a path without dots. -/
theorem length_escapePath {path : List Char} (h : '.' ∉ path) :
    (escapePath path).length = path.length := by
  fun_induction escapePath path <;> simp_all

end Recast.Specifier

namespace Recast.Pass

open Recast.Tree

variable {around : Surroundings} {unit result t : Tree} {header : Option Tree}
  {imports types : List Tree} {passes : List Pass} {found : List Diagnostic} {name other : String}
  {key : Key}

/-! ### Which classes beside a unit it needs -/

/-- Whether the types of a unit use a name: as the root of a type reference or as an expression. -/
def Uses (unit : Tree) (name : String) : Prop :=
  ∃ decl ∈ unit.unitTypes, ∃ node ∈ decl.walk,
    (∃ own arguments scope orNull, node.form = .type (.named own arguments scope orNull) ∧
      node.rootName = .text name) ∨
    node.form = .expr (.ident (.text name))

/-- Whether the types of a unit declare a type of a name, at whatever depth. -/
def Declares (unit : Tree) (name : String) : Prop :=
  ∃ decl ∈ unit.unitTypes, ∃ node ∈ decl.walk, node.declaredName? = some (.text name)

/-- Whether an import that the table does not take, of whatever kind, ends in a name. -/
def Binds (imports : List Tree) (name : String) : Prop :=
  ∃ node ∈ imports, ∃ decl, node.form = .part (.importing decl) ∧ (∀ entry, ¬ Covers entry decl) ∧
    decl.identifier = name

/-- Whether an import of one type, which the table may take or leave, has a simple name. -/
def ImportsType (imports : List Tree) (name : String) : Prop :=
  ∃ node ∈ imports, ∃ decl, node.form = .part (.importing decl) ∧ decl.isStatic = false ∧
    decl.isAsterisk = false ∧ decl.identifier = name

theorem text?_eq_some {word : Word} : word.text? = some name ↔ word = .text name := by
  cases word <;> simp [Value.text?]

theorem usedName?_eq_some {node : Tree} : node.usedName? = some (.text name) ↔
    (∃ own arguments scope orNull, node.form = .type (.named own arguments scope orNull) ∧
      node.rootName = .text name) ∨ node.form = .expr (.ident (.text name)) := by
  unfold usedName?
  split <;> simp_all

/-- A name found in the types of a unit was found at one of their nodes. -/
theorem mem_distinct_filterMap_walk {types : List Tree} {f : Tree → Option Word} :
    name ∈ Text.distinct (((types.flatMap walk).filterMap f).filterMap Value.text?) ↔
      ∃ decl ∈ types, ∃ node ∈ decl.walk, f node = some (.text name) := by
  simp only [Text.mem_distinct, List.mem_filterMap, List.mem_flatMap, text?_eq_some]
  constructor
  · rintro ⟨_, ⟨node, ⟨decl, hdecl, hnode⟩, hname⟩, rfl⟩
    exact ⟨decl, hdecl, node, hnode, hname⟩
  · rintro ⟨decl, hdecl, node, hnode, hname⟩
    exact ⟨_, ⟨node, ⟨decl, hdecl, hnode⟩, hname⟩, rfl⟩

theorem mem_referencedNames_iff : name ∈ unit.referencedNames ↔ Uses unit name := by
  simp only [referencedNames, mem_distinct_filterMap_walk, usedName?_eq_some, Uses]

theorem mem_declaredNames_iff : name ∈ unit.declaredNames ↔ Declares unit name :=
  mem_distinct_filterMap_walk

theorem mem_boundNames_iff : name ∈ imports.flatMap boundNames ↔ Binds imports name := by
  rw [List.mem_flatMap, Binds]
  apply exists_congr
  intro node
  apply and_congr_right
  intro _
  unfold boundNames
  split
  · next decl hform =>
    rw [hform]
    constructor
    · intro h
      split at h
      · next hhits => exact ⟨decl, rfl, hits_eq_nil_iff.1 hhits, (List.mem_singleton.1 h).symm⟩
      · cases h
    · rintro ⟨_, hform, hnone, rfl⟩
      cases hform
      rw [if_pos (hits_eq_nil_iff.2 hnone)]
      exact List.mem_singleton_self _
  · next hother =>
    constructor
    · intro h
      cases h
    · rintro ⟨decl, hform, -⟩
      exact absurd hform (hother decl)

theorem mem_neededSiblings_iff {siblings names : List String} :
    name ∈ neededSiblings unit siblings names ↔
      name ∈ siblings ∧ Uses unit name ∧ ¬ Declares unit name ∧ name ∉ names := by
  simp [neededSiblings, Text.mem_sorted, Text.mem_distinct, mem_referencedNames_iff,
    mem_declaredNames_iff]

theorem neededSiblings_nil (unit : Tree) (names : List String) : neededSiblings unit [] names = [] := by
  rw [List.eq_nil_iff_forall_not_mem]
  intro name hname
  cases (mem_neededSiblings_iff.1 hname).1

theorem mem_missing_iff : name ∈ missing around unit imports ↔
    name ∈ around.siblings ∧ Uses unit name ∧ ¬ Declares unit name ∧ ¬ Binds imports name := by
  rw [missing, mem_neededSiblings_iff, mem_boundNames_iff]

/-! ### Their imports -/

/-- The dotted name of the import of a class from its file. -/
def besideName (name : String) : String :=
  String.ofList (Specifier.dotSlashMark ++ '.' :: Specifier.escapePath name.toList) ++ "." ++ name

theorem siblingImport_eq_ok (h : siblingImport name = .ok t) :
    t = .node {} (.part (.importing { name := .text (besideName name), encoded := true })) := by
  have hlead : (siblingSpecifier name).toList = '.' :: '/' :: name.toList := by
    simp [siblingSpecifier]
  unfold siblingImport EmittedImport.declaration Specifier.importName Specifier.encode at h
  simp only [hlead] at h
  split at h
  · cases h
  · simp only [Specifier.encodeChars] at h
    cases h
    rfl

/-- The classes beside a unit are told apart by their imports. -/
theorem siblingImport_unique (hname : '.' ∉ name.toList) (h : siblingImport name = .ok t)
    (hother : siblingImport other = .ok t) : other = name := by
  have hsame : besideName name = besideName other := by
    have h := siblingImport_eq_ok h
    rw [siblingImport_eq_ok hother] at h
    injection h with _ h
    injection h with h
    injection h with h
    injection h with h
    injection h with h
    exact h.symm
  have hlist := congrArg String.toList hsame
  have hpoint : ".".toList = ['.'] := by decide
  simp only [besideName, String.toList_append, String.toList_ofList, List.append_assoc,
    List.cons_append, List.append_cancel_left_eq, List.cons.injEq, true_and, hpoint,
    List.nil_append] at hlist
  have hlength := congrArg List.length hlist
  simp only [List.length_append, Specifier.length_escapePath hname, List.length_cons] at hlength
  have hlonger := Specifier.length_le_escapePath other.toList
  -- both names end one text, and the one that may have dots is not the longer one
  have hown := List.suffix_append (Specifier.escapePath name.toList) ('.' :: name.toList)
  have hother := List.suffix_append (Specifier.escapePath other.toList) ('.' :: other.toList)
  rw [← hlist] at hother
  have hsuffix : '.' :: other.toList <:+ '.' :: name.toList :=
    List.suffix_of_suffix_length_le hother hown (by simp only [List.length_cons]; omega)
  rcases List.suffix_cons_iff.1 hsuffix with hequal | hshorter
  · exact String.toList_injective (List.cons.inj hequal).2
  · exact absurd (hshorter.subset List.mem_cons_self) hname

theorem symbolOf_of_standsFor {package : String} {decl : ImportName}
    (h : StandsFor around package decl key) : symbolOf key = decl.identifier := by
  rcases h with ⟨specifier, name, -, hname, rfl⟩ | ⟨-, -, rfl⟩
  · exact (symbolOf_importName _ _ name hname).trans
      (Text.afterLast_eq_self (Text.not_mem_afterLast '.' decl.text))
  · rfl

theorem symbolOf_sibling (hname : '.' ∉ name.toList) (h : siblingImport name = .ok t) :
    symbolOf (importKey t) = name :=
  symbolOf_of_mem_siblingKeys hname (by simp [siblingKeys, h, Except.toOption])

/-- No pass needs an import from a file of the same directory. -/
theorem ne_of_needs {pass : Pass} {e : EmittedImport} {emitted : Tree} (he : e ∈ pass.needs)
    (hemitted : e.declaration = .ok emitted) (h : siblingImport name = .ok t) :
    importKey emitted ≠ importKey t := by
  have hplain : ∀ pass ∈ Pass.all, ∀ key ∈ pass.neededKeys, '%' ∉ key.1.toList := by decide +kernel
  have hkey : importKey emitted ∈ pass.neededKeys :=
    List.mem_filterMap.2 ⟨e, he, by rw [hemitted]; rfl⟩
  have hmark : '%' ∈ (importKey t).1.toList := by
    have hhead : ∃ rest, Specifier.dotSlashMark = '%' :: rest := ⟨_, rfl⟩
    obtain ⟨rest, hrest⟩ := hhead
    have hkeyText : (importKey t).1 = besideName name := by
      rw [siblingImport_eq_ok h]
      rfl
    simp [hkeyText, besideName, hrest]
  intro hsame
  exact hplain pass (mem_all pass) _ hkey (hsame ▸ hmark)

/-- What has been drawn from the imports of a unit has no import of a class that it has to import. -/
theorem Drawn.ne_of_missing {package : String} {asked : List Pass} {selection : Selection}
    (h : Drawn around package asked imports selection) (hname : '.' ∉ name.toList)
    (hmissing : ¬ Binds imports name) (ht : siblingImport name = .ok t) :
    ∀ u ∈ selection.imports, importKey u ≠ importKey t := by
  intro u hu hsame
  rcases h.origin u hu with ⟨pass, -, e, he, hemitted⟩ | ⟨node, hnode, found, hsettled⟩
  · exact ne_of_needs he hemitted ht hsame
  · obtain ⟨decl, hform, hnone, hstands⟩ := standsFor_of_settled hsettled
    refine hmissing ⟨node, hnode, decl, hform, hnone, ?_⟩
    rw [← symbolOf_of_standsFor hstands, hsame, symbolOf_sibling hname ht]

/-! ### Of equal imports the first stays -/

theorem dedupe_cons (seen : List Key) (t : Tree) (nodes : List Tree) :
    (dedupe seen (t :: nodes)).1 = if importKey t ∈ seen then (dedupe seen nodes).1
      else t :: (dedupe (importKey t :: seen) nodes).1 := by
  rw [dedupe]
  split <;> rfl

theorem dedupe_append (seen : List Key) (first second : List Tree) :
    ∃ later, (∀ key ∈ later, key ∈ seen ∨ key ∈ first.map importKey) ∧
      (dedupe seen (first ++ second)).1 = (dedupe seen first).1 ++ (dedupe later second).1 := by
  induction first generalizing seen with
  | nil => exact ⟨seen, fun key hkey => .inl hkey, rfl⟩
  | cons t first ih =>
    rw [List.cons_append, dedupe_cons, dedupe_cons]
    split
    · obtain ⟨later, hlater, heq⟩ := ih seen
      refine ⟨later, ?_, heq⟩
      intro key hkey
      exact (hlater key hkey).imp_right (List.mem_cons_of_mem _)
    · obtain ⟨later, hlater, heq⟩ := ih (importKey t :: seen)
      refine ⟨later, ?_, by rw [heq, List.cons_append]⟩
      intro key hkey
      rcases hlater key hkey with hseen | hfirst
      · rcases List.mem_cons.1 hseen with rfl | hold
        · exact .inr List.mem_cons_self
        · exact .inl hold
      · exact .inr (List.mem_cons_of_mem _ hfirst)

/-- An import that has not been seen stays if it is the only one with its key. -/
theorem mem_dedupe {seen : List Key} {nodes : List Tree} (ht : t ∈ nodes) (hnew : importKey t ∉ seen)
    (honly : ∀ u ∈ nodes, importKey u = importKey t → u = t) : t ∈ (dedupe seen nodes).1 := by
  have hkey := (mem_map_importKey_dedupe seen nodes (importKey t)).2 ⟨List.mem_map_of_mem ht, hnew⟩
  obtain ⟨u, hu, hsame⟩ := List.mem_map.1 hkey
  rwa [← honly u (mem_of_mem_dedupe hu) hsame]

/-- Behind what has been drawn from the imports of a unit, one import is left for each class beside it
that it needs. -/
theorem Drawn.exists_sibling_iff {package : String} {asked : List Pass} {selection : Selection}
    {siblings : List Tree} {later : List Key} (hdrawn : Drawn around package asked imports selection)
    (himports : List.Forall₂ (fun name t => siblingImport name = .ok t) (missing around unit imports)
      siblings)
    (hlater : ∀ key ∈ later, key ∈ selection.imports.map importKey) (hsimple : '.' ∉ name.toList) :
    (∃ t ∈ (dedupe later siblings).1, siblingImport name = .ok t) ↔
      name ∈ missing around unit imports := by
  constructor
  · rintro ⟨t, ht, himport⟩
    obtain ⟨other, hother, hsame⟩ := exists_entry himports t (mem_of_mem_dedupe ht)
    rwa [← siblingImport_unique hsimple himport hsame]
  · intro hname
    obtain ⟨t, ht, himport⟩ := exists_partner himports name hname
    refine ⟨t, mem_dedupe ht ?_ ?_, himport⟩
    · intro hseen
      obtain ⟨u, hu, hsame⟩ := List.mem_map.1 (hlater _ hseen)
      exact hdrawn.ne_of_missing hsimple (mem_missing_iff.1 hname).2.2.2 himport u hu hsame
    · intro u hu hsame
      obtain ⟨other, -, hother⟩ := exists_entry himports u hu
      rw [siblingImport_eq_ok hother, siblingImport_eq_ok himport] at hsame
      have hname : besideName other = besideName name := congrArg (·.1) hsame
      rw [siblingImport_eq_ok hother, siblingImport_eq_ok himport, hname]

/-! ### Whole units -/

/-- The unit is selected without anything beside it as it is with the classes beside it, up to the
imports of these, which come last. Such an import is that of a class that the unit uses and does not
declare. It is written exactly if no import of the unit that the table leaves ends in the name of the
class. An import that the table takes does not count. -/
theorem siblings_imported (hunit : unit.IsUnit header imports types)
    (h : select around unit = .ok (passes, result, found)) :
    ∃ alone own beside,
      select { around with siblings := [] } unit = .ok (passes, alone, found) ∧
      alone.IsUnit header own types ∧ result.IsUnit header (own ++ beside) types ∧
      ((own ++ beside).map importKey).Nodup ∧
      (∀ t ∈ beside, ∃ name ∈ around.siblings, siblingImport name = .ok t ∧
        Uses unit name ∧ ¬ Declares unit name) ∧
      ∀ name, '.' ∉ name.toList →
        ((∃ t ∈ beside, siblingImport name = .ok t) ↔
          name ∈ around.siblings ∧ Uses unit name ∧ ¬ Declares unit name ∧ ¬ Binds imports name) := by
  obtain ⟨kept, hkept, hnodup, -⟩ := keys_of_select hunit h
  obtain ⟨selection, siblings, hfold, hsiblings, heq⟩ := (select_eq_ok_iff hunit.form).1 h
  cases heq
  obtain ⟨-, rfl, -⟩ := by simpa using hkept.form
  have hdrawn := drawn_foldlM hunit.imports selection hfold
  rw [explicitNames_of_foldlM hunit.imports hfold] at hsiblings
  have himports := mapM_eq_ok_iff.1 hsiblings
  obtain ⟨later, hlater, hsplit⟩ := dedupe_append [] selection.imports siblings
  rw [hsplit] at hkept hnodup
  have halone : select { around with siblings := [] } unit = .ok (selection.passes, _, selection.diagnostics) :=
    (select_eq_ok_iff hunit.form).2 ⟨selection, [], hfold, by rw [neededSiblings_nil]; rfl, rfl⟩
  rw [List.append_nil] at halone
  refine ⟨_, _, _, halone, ⟨rfl, hunit.header, ?_⟩, ?_, hnodup, ?_, ?_⟩
  · intro t ht
    exact hkept.imports t (List.mem_append_left _ ht)
  · rw [hsplit]
    exact hkept
  · intro t ht
    obtain ⟨name, hname, himport⟩ := exists_entry himports t (mem_of_mem_dedupe ht)
    obtain ⟨hsibling, huses, hdeclares, -⟩ := mem_missing_iff.1 hname
    exact ⟨name, hsibling, himport, huses, hdeclares⟩
  · intro name hsimple
    rw [← mem_missing_iff]
    exact hdrawn.exists_sibling_iff himports
      (fun key hkey => (hlater key hkey).resolve_left List.not_mem_nil) hsimple

theorem siblings_imported_mixedUnit : ∃ passes result found own beside,
    select besideHelper mixedUnit = .ok (passes, result, found) ∧
      result.IsUnit none (own ++ beside) [fieldsOf ["InputStream", "Helper"]] ∧
      ∃ t ∈ beside, siblingImport "Helper" = .ok t := by
  have hunit : mixedUnit.IsUnit none mixedImports [fieldsOf ["InputStream", "Helper"]] :=
    ⟨rfl, nofun, by decide⟩
  obtain ⟨passes, result, found, hselect, -⟩ := exists_select_of_toOption
    besideHelper mixedUnit ["Fs", "Readable", "Widget", "Helper"] (by decide +kernel)
  obtain ⟨alone, own, beside, -, -, hresult, -, -, hiff⟩ := siblings_imported hunit hselect
  refine ⟨passes, result, found, own, beside, hselect, hresult, (hiff "Helper" (by decide)).2 ?_⟩
  rw [← mem_missing_iff]
  decide +kernel

/-- A class that uses one type, in a unit with one import. -/
def importingUnit (decl : ImportName) (name : String) : Tree :=
  .node {} (.part (.unit none [.node {} (.part (.importing decl))] [fieldsOf [name]]))

/-- A unit that imports and uses the `Map` of the library. -/
def mapUnit : Tree := importingUnit { name := .text "java.util.Map" } "Map"

/-- A class named `Map` beside the unit. -/
def besideMap : Surroundings := { besideHelper with siblings := ["Map"] }

/-- A unit that uses `Helper`, and imports all that is nested in another class of that name. -/
def nestedUnit : Tree := importingUnit { name := .text "org.acme.Helper", isAsterisk := true } "Helper"

theorem importsType_importingUnit {decl : ImportName} :
    ImportsType (importingUnit decl name).form.importSlots other ↔
      decl.isStatic = false ∧ decl.isAsterisk = false ∧ decl.identifier = other := by
  constructor
  · rintro ⟨node, hnode, decl', hform, hone⟩
    obtain rfl := List.mem_singleton.1 hnode
    cases hform
    exact hone
  · intro hone
    exact ⟨_, List.mem_singleton_self _, decl, rfl, hone⟩

/-- The imports of one type do not decide which class beside a unit is imported. That of
`java.util.Map` is taken by the table, and a class `Map` beside the unit is imported as well. What is
nested in another `Helper` is imported under this name, and a class `Helper` beside the unit is not. -/
theorem map_imported_nested_helper_not :
    (∃ passes result found, select besideMap mapUnit = .ok (passes, result, found) ∧
      ImportsType mapUnit.form.importSlots "Map" ∧
      ∃ t, siblingImport "Map" = .ok t ∧ importKey t ∈ result.form.importSlots.map importKey) ∧
    ∃ passes result found, select besideHelper nestedUnit = .ok (passes, result, found) ∧
      "Helper" ∈ besideHelper.siblings ∧ Uses nestedUnit "Helper" ∧ ¬ Declares nestedUnit "Helper" ∧
      ¬ ImportsType nestedUnit.form.importSlots "Helper" ∧
      ∀ t, siblingImport "Helper" = .ok t → importKey t ∉ result.form.importSlots.map importKey := by
  constructor
  · obtain ⟨passes, result, found, hselect, hkeys⟩ := exists_select_of_view
      (·.form.importSlots.map importKey) besideMap mapUnit [(besideName "Map", false, true)]
      (by decide +kernel)
    refine ⟨passes, result, found, hselect, importsType_importingUnit.2 (by decide), _, rfl, ?_⟩
    rw [hkeys]
    decide +kernel
  · obtain ⟨passes, result, found, hselect, hkeys⟩ := exists_select_of_view
      (·.form.importSlots.map importKey) besideHelper nestedUnit [("org.acme.Helper", true, false)]
      (by decide +kernel)
    refine ⟨passes, result, found, hselect, by decide, mem_referencedNames_iff.1 (by decide +kernel),
      fun hdeclares => absurd (mem_declaredNames_iff.2 hdeclares) (by decide +kernel),
      fun himports => absurd (importsType_importingUnit.1 himports) (by decide), ?_⟩
    intro t himport
    rw [hkeys, siblingImport_eq_ok himport]
    decide +kernel

end Recast.Pass
