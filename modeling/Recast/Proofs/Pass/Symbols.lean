import Mathlib
import Recast.Proofs.Pass.Order
import Recast.Proofs.Specifier

/-!
The symbols that imports bind.

An import binds the last segment of its name. What selection writes is told apart by name, asterisk
and encoding, and two imports that differ there may bind one symbol. They do so exactly where two of
the imports that are to be written do (`nodup_boundSymbols_iff`). `Apart` is a condition on what the
unit imports itself and on the classes beside it that rules this out.
-/

namespace Recast.Text

/-- What follows the last separator of a text follows that of any longer one. -/
theorem afterLast_concat (separator : Char) (before after : String) :
    afterLast separator (before ++ String.singleton separator ++ after) = afterLast separator after := by
  have htake (l r : List Char) :
      (l ++ separator :: r).takeWhile (· ≠ separator) = l.takeWhile (· ≠ separator) := by
    induction l with
    | nil => simp
    | cons c l ih =>
      by_cases hc : c = separator
      · simp [hc]
      · simpa [hc] using ih
  have hreverse : (before ++ String.singleton separator ++ after).toList.reverse =
      after.toList.reverse ++ separator :: before.toList.reverse := by
    simp
  rw [afterLast, hreverse, htake, afterLast]

theorem not_mem_afterLast (separator : Char) (text : String) :
    separator ∉ (afterLast separator text).toList := by
  rw [afterLast, String.toList_ofList, List.mem_reverse]
  intro hmem
  simpa using List.mem_takeWhile_imp hmem

theorem afterLast_eq_self {separator : Char} {text : String} (h : separator ∉ text.toList) :
    afterLast separator text = text := by
  have htake : ∀ c ∈ text.toList.reverse, decide (c ≠ separator) = true := fun c hc =>
    decide_eq_true (ne_of_mem_of_not_mem (List.mem_reverse.1 hc) h)
  rw [afterLast, List.takeWhile_eq_self_iff.2 htake]
  simp

end Recast.Text

namespace Recast.Pass

open Recast.Tree

/-! ### Symbols -/

/-- The symbol that an import of a key binds. -/
def symbolOf (key : Key) : String := Text.afterLast '.' key.1

/-- The symbols that the imports of a unit bind, in order. -/
def boundSymbols (unit : Tree) : List String :=
  unit.form.importSlots.filterMap fun t =>
    match t.form with
    | .part (.importing decl) => some decl.identifier
    | _ => none

/-- The key of the import of a class beside a unit. -/
def siblingKeys (name : String) : List Key := ((siblingImport name).toOption.map importKey).toList

variable {around : Surroundings} {unit result : Tree} {header : Option Tree}
  {imports types : List Tree} {passes : List Pass} {found : List Diagnostic} {key : Key} {t : Tree}

/-- The classes beside a unit that it has to import. -/
def missing (around : Surroundings) (unit : Tree) (imports : List Tree) : List String :=
  neededSiblings unit around.siblings (imports.flatMap boundNames)

/-- The keys of the imports that a unit is to have: its own ones as they are settled, those that the
passes need, and those of the classes beside it. -/
def writtenKeys (around : Surroundings) (unit : Tree) (header : Option Tree) (imports : List Tree) :
    List Key :=
  imports.flatMap (settledKeys around (packageName header))
    ++ (imports.flatMap asks).flatMap neededKeys ++ (missing around unit imports).flatMap siblingKeys

theorem boundSymbols_eq (h : unit.IsUnit header imports types) :
    boundSymbols unit = (imports.map importKey).map symbolOf := by
  rw [boundSymbols, h.form, List.map_map, ← List.filterMap_eq_map]
  apply List.filterMap_congr
  intro t ht
  obtain ⟨trivia, form⟩ := t
  have himport := h.imports _ ht
  unfold Form.isImport at himport
  split at himport
  · next heq =>
    obtain rfl := heq
    rfl
  · cases himport

/-- Of equal imports one is left. -/
theorem nodup_map_importKey_dedupe (seen : List Key) (nodes : List Tree) :
    ((dedupe seen nodes).1.map importKey).Nodup := by
  induction nodes generalizing seen with
  | nil => exact List.nodup_nil
  | cons t nodes ih =>
    unfold dedupe
    split
    · exact ih seen
    · rw [List.map_cons, List.nodup_cons, mem_map_importKey_dedupe]
      exact ⟨fun hmem => hmem.2 List.mem_cons_self, ih _⟩

theorem map_importKey_of_mapM {names : List String} {siblings : List Tree}
    (h : names.mapM siblingImport = .ok siblings) :
    siblings.map importKey = names.flatMap siblingKeys := by
  have himports := mapM_eq_ok_iff.1 h
  clear h
  induction himports with
  | nil => rfl
  | cons hfirst _ ih =>
    rw [List.map_cons, ih, List.flatMap_cons, siblingKeys, hfirst]
    rfl

/-- The imports of a selected unit have the keys that are to be written, each once. -/
theorem keys_of_select (hunit : unit.IsUnit header imports types)
    (h : select around unit = .ok (passes, result, found)) :
    ∃ kept, result.IsUnit header kept types ∧ (kept.map importKey).Nodup ∧
      ∀ key, key ∈ kept.map importKey ↔ key ∈ writtenKeys around unit header imports := by
  obtain ⟨siblings, hselected⟩ := selected_of_select hunit h
  obtain ⟨kept, hkept, hkeys⟩ := hselected.kept
  refine ⟨kept, hkept, ?_, fun key => ?_⟩
  · obtain ⟨selection, _, -, -, hresult⟩ := (select_eq_ok_iff hunit.form).1 h
    cases hresult
    obtain ⟨rfl, rfl, rfl⟩ := by simpa using hkept.form
    exact nodup_map_importKey_dedupe _ _
  · have hbeside := map_importKey_of_mapM hselected.beside
    simp only [hkeys, hbeside, writtenKeys, missing, List.mem_append, List.mem_flatMap]

/-- The symbols that the imports of a selected unit bind are distinct exactly if no two different
imports that are to be written bind one symbol. -/
theorem nodup_boundSymbols_iff (hunit : unit.IsUnit header imports types)
    (h : select around unit = .ok (passes, result, found)) :
    (boundSymbols result).Nodup ↔ ∀ key ∈ writtenKeys around unit header imports,
      ∀ key' ∈ writtenKeys around unit header imports, symbolOf key = symbolOf key' → key = key' := by
  obtain ⟨kept, hkept, hnodup, hkeys⟩ := keys_of_select hunit h
  rw [boundSymbols_eq hkept, List.nodup_map_iff_inj_on hnodup]
  simp only [hkeys]

/-! ### Imports with distinct symbols -/

/-- The imports of a unit that have no entry in the table. -/
def ownImports (imports : List Tree) : List ImportName :=
  imports.filterMap fun t =>
    match t.form with
    | .part (.importing decl) => if hits decl = [] then some decl else none
    | _ => none

/-- Whether two imports are written alike. -/
def Alike (a b : ImportName) : Prop :=
  a.text = b.text ∧ a.isStatic = b.isStatic ∧ a.isAsterisk = b.isAsterisk

instance (a b : ImportName) : Decidable (Alike a b) :=
  inferInstanceAs (Decidable (_ ∧ _ ∧ _))

/-- Whether what a unit imports, what its passes need and the classes beside it are apart. -/
structure Apart (around : Surroundings) (unit : Tree) (imports : List Tree) : Prop where
  /-- Imports without an entry in the table, of whatever kind, differ in their last segments. -/
  own : ∀ a ∈ ownImports imports, ∀ b ∈ ownImports imports, a.identifier = b.identifier → Alike a b
  /-- No such import has the symbol of an import that a pass needs. -/
  passes : ∀ pass ∈ imports.flatMap asks, ∀ e ∈ pass.needs, ∀ a ∈ ownImports imports,
    a.identifier ≠ e.symbol
  /-- Neither has a class beside the unit. -/
  beside : ∀ pass ∈ imports.flatMap asks, ∀ e ∈ pass.needs, e.symbol ∉ missing around unit imports
  /-- The classes beside the unit have simple names. -/
  simple : ∀ name ∈ missing around unit imports, '.' ∉ name.toList

theorem symbolOf_importName (specifier symbol : String) :
    Yields (Specifier.importName specifier symbol) fun name =>
      Text.afterLast '.' name = Text.afterLast '.' symbol :=
  Yields.bind Yields.trivial fun encoded _ => Yields.pure (Text.afterLast_concat '.' encoded symbol)

/-- An import is settled with its last segment. -/
theorem symbolOf_settleImport (package : String) (trivia : Trivia) (decl : ImportName) :
    Yields (settleImport around package trivia decl) fun settled =>
      symbolOf (importKey settled.1) = decl.identifier := by
  refine Yields.bind Yields.trivial fun specifier _ => ?_
  cases specifier with
  | some specifier =>
    refine (symbolOf_importName specifier.display decl.identifier).bind fun name hname => ?_
    exact Yields.pure (hname.trans (Text.afterLast_eq_self (Text.not_mem_afterLast '.' decl.text)))
  | none =>
    dsimp only
    split
    · exact Yields.throw
    · exact Yields.pure rfl

/-- Imports that are written alike are settled as one. -/
theorem importKey_settleImport {a b : ImportName} (h : Alike a b) (package : String)
    (trivia trivia' : Trivia) :
    (settleImport around package trivia a).map (importKey ·.1) =
      (settleImport around package trivia' b).map (importKey ·.1) := by
  obtain ⟨htext, hstatic, hasterisk⟩ := h
  have hidentifier : a.identifier = b.identifier := by
    rw [ImportName.identifier, htext, ImportName.identifier]
  have hresolved : resolvedBy a = resolvedBy b := by
    simp only [resolvedBy, ImportName.qualifier, htext, hstatic, hasterisk]
  unfold settleImport
  rw [hresolved, hidentifier, htext]
  dsimp only
  cases Config.resolveName around.modules (resolvedBy b).1 around.moduleName package
      (resolvedBy b).2 with
  | error fault => rfl
  | ok specifier =>
    cases specifier with
    | none =>
      cases around.unresolvedImports with
      | fail => rfl
      | wildcard => exact congrArg (fun text => Except.ok (text, true, false)) htext
    | some specifier =>
      cases hname : Specifier.importName specifier.display b.identifier with
      | error fault => simp [bind, Except.bind, hname, Except.map]
      | ok name => simp [bind, Except.bind, hname, Except.map, pure, Except.pure, importKey,
          ImportName.text, hasterisk]

theorem mem_settledKeys {package : String} (ht : t ∈ imports)
    (h : key ∈ settledKeys around package t) : ∃ decl ∈ ownImports imports,
      (settleImport around package t.trivia decl).map (importKey ·.1) = .ok key := by
  unfold settledKeys settled at h
  split at h
  · rename_i result _ hresult
    obtain rfl := List.mem_singleton.1 h
    split at hresult
    · rename_i decl hform
      split at hresult
      · rename_i hhits
        refine ⟨decl, List.mem_filterMap.2 ⟨t, ht, by simp [hform, hhits]⟩, ?_⟩
        cases hsettled : settleImport around package t.trivia decl with
        | error fault =>
          rw [hsettled] at hresult
          cases hresult
        | ok settled =>
          rw [hsettled] at hresult
          cases hresult
          rfl
      · cases hresult
    · cases hresult
  · cases h

theorem symbolOf_of_mem_siblingKeys {name : String} (hname : '.' ∉ name.toList)
    (h : key ∈ siblingKeys name) : symbolOf key = name := by
  unfold siblingKeys at h
  cases himport : siblingImport name with
  | error fault =>
    rw [himport] at h
    cases h
  | ok sibling =>
    have hsymbol : Yields (siblingImport name) fun t => symbolOf (importKey t) = name := by
      refine (symbolOf_importName _ _).bind fun text htext => Yields.pure ?_
      exact htext.trans (Text.afterLast_eq_self hname)
    rw [himport] at h
    obtain rfl := List.mem_singleton.1 h
    exact hsymbol sibling himport

theorem mem_all (pass : Pass) : pass ∈ Pass.all := by
  cases pass <;> decide

/-- The imports that passes need bind different symbols. -/
theorem neededKeys_unique : ∀ pass ∈ Pass.all, ∀ key ∈ pass.neededKeys,
    symbolOf key ∈ pass.needs.map (·.symbol) ∧
      ∀ other ∈ Pass.all, ∀ key' ∈ other.neededKeys, symbolOf key = symbolOf key' → key = key' := by
  decide +kernel

/-- What an import that is to be written comes from. -/
theorem origin_of_mem_writtenKeys (h : key ∈ writtenKeys around unit header imports) :
    (∃ decl ∈ ownImports imports, ∃ trivia,
      (settleImport around (packageName header) trivia decl).map (importKey ·.1) = .ok key) ∨
      (∃ pass ∈ imports.flatMap asks, key ∈ pass.neededKeys) ∨
      ∃ name ∈ missing around unit imports, key ∈ siblingKeys name := by
  rcases List.mem_append.1 h with h | hbeside
  · rcases List.mem_append.1 h with hown | hneeded
    · obtain ⟨t, ht, hkey⟩ := List.mem_flatMap.1 hown
      obtain ⟨decl, hdecl, hsettled⟩ := mem_settledKeys ht hkey
      exact .inl ⟨decl, hdecl, t.trivia, hsettled⟩
    · exact .inr (.inl (List.mem_flatMap.1 hneeded))
  · exact .inr (.inr (List.mem_flatMap.1 hbeside))

theorem mem_boundNames_of_mem_ownImports {decl : ImportName} (h : decl ∈ ownImports imports) :
    decl.identifier ∈ imports.flatMap boundNames := by
  obtain ⟨t, ht, hdecl⟩ := List.mem_filterMap.1 h
  refine List.mem_flatMap.2 ⟨t, ht, ?_⟩
  split at hdecl
  · rename_i hform
    split at hdecl
    · rename_i hhits
      obtain rfl := Option.some.inj hdecl
      simp only [boundNames, hform, hhits, if_true, List.mem_singleton]
    · cases hdecl
  · cases hdecl

theorem symbolOf_of_settled {package : String} {trivia : Trivia} {decl : ImportName}
    (h : (settleImport around package trivia decl).map (importKey ·.1) = .ok key) :
    symbolOf key = decl.identifier := by
  cases hrun : settleImport around package trivia decl with
  | error fault =>
    rw [hrun] at h
    cases h
  | ok settled =>
    rw [hrun] at h
    cases h
    exact symbolOf_settleImport _ _ _ settled hrun

namespace Apart

variable {decl : ImportName} {name : String} {pass : Pass} (h : Apart around unit imports)

include h

theorem ne_of_needed (hdecl : decl ∈ ownImports imports) (hpass : pass ∈ imports.flatMap asks)
    (hkey : key ∈ pass.neededKeys) : symbolOf key ≠ decl.identifier := by
  obtain ⟨e, he, hsymbol⟩ := List.mem_map.1 (neededKeys_unique pass (mem_all pass) key hkey).1
  rw [← hsymbol]
  exact (h.passes pass hpass e he decl hdecl).symm

theorem ne_of_beside (hname : name ∈ missing around unit imports)
    (hpass : pass ∈ imports.flatMap asks) (hkey : key ∈ pass.neededKeys) : symbolOf key ≠ name := by
  rintro rfl
  obtain ⟨e, he, hsymbol⟩ := List.mem_map.1 (neededKeys_unique pass (mem_all pass) key hkey).1
  exact h.beside pass hpass e he (hsymbol ▸ hname)

omit h in
theorem ne_of_own (hdecl : decl ∈ ownImports imports) (hname : name ∈ missing around unit imports) :
    name ≠ decl.identifier := by
  rintro rfl
  have hbound := (List.mem_filter.1 hname).2
  simp only [mem_boundNames_of_mem_ownImports hdecl, not_true_eq_false, and_false, decide_false,
    Bool.false_eq_true] at hbound

theorem symbolOf_beside (hname : name ∈ missing around unit imports) (hkey : key ∈ siblingKeys name) :
    symbolOf key = name :=
  symbolOf_of_mem_siblingKeys (h.simple name hname) hkey

/-- No two different imports that are to be written bind one symbol, if they are apart. -/
theorem unique : ∀ key ∈ writtenKeys around unit header imports,
    ∀ key' ∈ writtenKeys around unit header imports, symbolOf key = symbolOf key' → key = key' := by
  intro key hkey key' hkey' hsame
  rcases origin_of_mem_writtenKeys hkey with ⟨a, ha, trivia, hkey⟩ | ⟨pass, hpass, hkey⟩ |
      ⟨name, hname, hkey⟩ <;>
    rcases origin_of_mem_writtenKeys hkey' with ⟨b, hb, trivia', hkey'⟩ | ⟨other, hother, hkey'⟩ |
      ⟨name', hname', hkey'⟩
  -- An import of the unit, with each of the three kinds.
  · have halike := h.own a ha b hb
      (by rw [← symbolOf_of_settled hkey, ← symbolOf_of_settled hkey', hsame])
    rw [importKey_settleImport halike _ trivia trivia', hkey'] at hkey
    exact (Except.ok.inj hkey).symm
  · exact absurd (hsame.symm.trans (symbolOf_of_settled hkey)) (h.ne_of_needed ha hother hkey')
  · refine absurd ?_ (ne_of_own ha hname')
    rw [← h.symbolOf_beside hname' hkey', ← hsame, symbolOf_of_settled hkey]
  -- An import that a pass needs.
  · exact absurd (hsame.trans (symbolOf_of_settled hkey')) (h.ne_of_needed hb hpass hkey)
  · exact (neededKeys_unique pass (mem_all pass) key hkey).2 other (mem_all other) key' hkey' hsame
  · exact absurd (hsame.trans (h.symbolOf_beside hname' hkey')) (h.ne_of_beside hname' hpass hkey)
  -- A class beside the unit.
  · refine absurd ?_ (ne_of_own hb hname)
    rw [← h.symbolOf_beside hname hkey, hsame, symbolOf_of_settled hkey']
  · exact absurd (hsame.symm.trans (h.symbolOf_beside hname hkey))
      (h.ne_of_beside hname hother hkey')
  · obtain rfl : name = name' := by
      rw [← h.symbolOf_beside hname hkey, ← h.symbolOf_beside hname' hkey', hsame]
    unfold siblingKeys at hkey hkey'
    rw [Option.mem_toList] at hkey hkey'
    exact Option.mem_unique hkey hkey'

end Apart

/-- Imports that are apart bind distinct symbols. In general those of a selected unit do exactly if
any two imports that are to be written and bind one symbol agree in name, asterisk and encoding. -/
theorem boundSymbols_nodup (hunit : unit.IsUnit header imports types)
    (h : select around unit = .ok (passes, result, found)) :
    (Apart around unit imports → (boundSymbols result).Nodup) ∧
      ((boundSymbols result).Nodup ↔ ∀ key ∈ writtenKeys around unit header imports,
        ∀ key' ∈ writtenKeys around unit header imports, symbolOf key = symbolOf key' → key = key') :=
  ⟨fun hapart => (nodup_boundSymbols_iff hunit h).2 hapart.unique, nodup_boundSymbols_iff hunit h⟩

/-! ### A stream and what is named like one -/

/-- A class with fields of the given types. -/
def fieldsOf (names : List String) : Tree :=
  .node {} (.member (.classType (.text "Copy") [] [] [] [] [] (names.map fun name =>
    .node {} (.member (.field (some (.node {} (.type (.named (.text name) none none false))))
      [.node {} (.part (.declarator (.text "it") 0 none))] [] []))) false))

/-- A class that reads a stream, in a unit that also imports a given class. -/
def streamUnit (name : String) : Tree :=
  .node {} (.part (.unit none [importOf "java.io.InputStream", importOf name]
    [fieldsOf ["InputStream", "Helper"]]))

/-- A class named `Helper` beside the unit. -/
def besideHelper : Surroundings := { modules := [], moduleName := "core", siblings := ["Helper"] }

/-- A selected unit, from what can be seen of it. -/
theorem exists_select_of_view {α : Type} (view : Tree → α) (around : Surroundings) (unit : Tree)
    (seen : α) (h : (select around unit).toOption.map (view ·.2.1) = some seen) :
    ∃ passes result found, select around unit = .ok (passes, result, found) ∧ view result = seen := by
  cases hselect : select around unit with
  | error fault =>
    rw [hselect] at h
    cases h
  | ok selected =>
    rw [hselect] at h
    exact ⟨_, _, _, rfl, Option.some.inj h⟩

/-- A selected unit, from the symbols that its imports bind. -/
theorem exists_select_of_toOption (around : Surroundings) (unit : Tree) (symbols : List String)
    (h : (select around unit).toOption.map (boundSymbols ·.2.1) = some symbols) :
    ∃ passes result found, select around unit = .ok (passes, result, found) ∧
      boundSymbols result = symbols :=
  exists_select_of_view boundSymbols around unit symbols h

theorem boundSymbols_nodup_streamUnit : ∃ passes result found,
    select besideHelper (streamUnit "org.acme.Widget") = .ok (passes, result, found) ∧
      boundSymbols result = ["Fs", "Readable", "Widget", "Helper"] ∧ (boundSymbols result).Nodup := by
  have hunit : (streamUnit "org.acme.Widget").IsUnit none
      [importOf "java.io.InputStream", importOf "org.acme.Widget"] [fieldsOf ["InputStream", "Helper"]] :=
    ⟨rfl, nofun, by decide⟩
  have hapart : Apart besideHelper (streamUnit "org.acme.Widget")
      [importOf "java.io.InputStream", importOf "org.acme.Widget"] :=
    ⟨by decide +kernel, by decide +kernel, by decide +kernel, by decide +kernel⟩
  obtain ⟨passes, result, found, hselect, hsymbols⟩ := exists_select_of_toOption
    besideHelper (streamUnit "org.acme.Widget") ["Fs", "Readable", "Widget", "Helper"]
    (by decide +kernel)
  exact ⟨passes, result, found, hselect, hsymbols, (boundSymbols_nodup hunit hselect).1 hapart⟩

/-- Both imports of the unit name one type each, and no two of them have the same name. The pass that
the first one asks for needs an import with the name of the second. -/
theorem readable_bound_twice :
    boundSymbols (streamUnit "org.acme.Readable") = ["InputStream", "Readable"] ∧
      ∃ passes result found,
        select besideHelper (streamUnit "org.acme.Readable") = .ok (passes, result, found) ∧
        boundSymbols result = ["Fs", "Readable", "Readable", "Helper"] ∧
        ¬ (boundSymbols result).Nodup := by
  obtain ⟨passes, result, found, hselect, hsymbols⟩ := exists_select_of_toOption
    besideHelper (streamUnit "org.acme.Readable") ["Fs", "Readable", "Readable", "Helper"]
    (by decide +kernel)
  exact ⟨by decide +kernel, passes, result, found, hselect, hsymbols, by rw [hsymbols]; decide⟩

end Recast.Pass
