import Mathlib
import Recast.Proofs.Pass.Symbols

/-!
What the table makes of the imports of a unit.

Selection goes over the imports once. `Drawn` says what it has drawn from those gone through: the
passes asked for, each in the place where it was asked for first, the imports that these passes need,
and every import without an entry as it is settled. Taking one entry and going over one import keep
it (`drawn_take`, `drawn_selectImport`), so that it holds of all imports (`drawn_foldlM`).
`table_consumed` adds that of equal imports one is left.
-/

namespace Recast

section Distinct

variable {α : Type} [BEq α] [LawfulBEq α]

/-- One more entry is one of the distinct ones if it is new. -/
theorem eraseDups_concat (l : List α) (a : α) :
    (l ++ [a]).eraseDups = if a ∈ l then l.eraseDups else l.eraseDups ++ [a] := by
  rw [List.eraseDups_append]
  by_cases h : a ∈ l
  · simp [List.removeAll, h]
  · simp [List.removeAll, h, List.eraseDups_cons]

theorem nodup_eraseDups (l : List α) : l.eraseDups.Nodup := by
  induction l using List.reverseRecOn with
  | nil => exact List.nodup_nil
  | append_singleton l a ih =>
    rw [eraseDups_concat]
    split
    · exact ih
    · next hnew =>
      rw [← List.concat_eq_append, List.nodup_concat]
      exact ⟨fun hmem => hnew (List.mem_eraseDups.1 hmem), ih⟩

/-- Distinct entries stand in the order in which they occur first. -/
theorem pairwise_idxOf_eraseDups (l : List α) :
    l.eraseDups.Pairwise fun a b => l.idxOf a < l.idxOf b := by
  induction l using List.reverseRecOn with
  | nil => exact List.Pairwise.nil
  | append_singleton l a ih =>
    have hold : l.eraseDups.Pairwise fun b c => (l ++ [a]).idxOf b < (l ++ [a]).idxOf c := by
      refine ih.imp_of_mem fun hb hc hlt => ?_
      rwa [List.idxOf_append_of_mem (List.mem_eraseDups.1 hb),
        List.idxOf_append_of_mem (List.mem_eraseDups.1 hc)]
    rw [eraseDups_concat]
    split
    · exact hold
    · next hnew =>
      rw [List.pairwise_append]
      refine ⟨hold, List.pairwise_singleton _ _, ?_⟩
      intro b hb c hc
      obtain rfl := List.mem_singleton.1 hc
      have hmem := List.mem_eraseDups.1 hb
      rw [List.idxOf_append_of_mem hmem, List.idxOf_append_of_notMem hnew]
      exact Nat.lt_of_lt_of_le (List.idxOf_lt_length_of_mem hmem) (Nat.le_add_right ..)

end Distinct

end Recast

namespace Recast.Pass

open Recast.Tree

variable {around : Surroundings} {package : String} {unit result : Tree} {header : Option Tree}
  {imports types done : List Tree} {passes asked : List Pass} {found : List Diagnostic} {t : Tree}
  {selection : Selection} {decl : ImportName} {entry : Registration} {key : Key}

/-! ### Entries of the table -/

/-- Whether an entry of the table is one for an import. An import of a whole package has all entries
of the package. An import of a class has the entry of the class, or that of its package if the table
does not know the class. -/
def Covers (entry : Registration) (decl : ImportName) : Prop :=
  entry ∈ registrations ∧
    if decl.isAsterisk ∧ ¬ decl.isStatic then entry.package = decl.text
    else entry.package = decl.qualifier ∧ (entry.className = some decl.identifier ∨
      entry.className = none ∧ ∀ other ∈ registrations, other.package = decl.qualifier →
        other.className ≠ some decl.identifier)

/-- The table has one entry for a package and class at most. -/
theorem registrations_unique : ∀ a ∈ registrations, ∀ b ∈ registrations,
    a.package = b.package → a.className = b.className → a = b := by
  decide

theorem mem_lookupPackage (package : String) :
    entry ∈ lookupPackage package ↔ entry ∈ registrations ∧ entry.package = package := by
  simp [lookupPackage]

/-- The entry of a package that a search by class finds. -/
theorem find?_lookupPackage_eq_some (package : String) (className : Option String) :
    (lookupPackage package).find? (·.className = className) = some entry ↔
      entry ∈ registrations ∧ entry.package = package ∧ entry.className = className := by
  constructor
  · intro h
    have hmem := (mem_lookupPackage package).1 (List.mem_of_find?_eq_some h)
    exact ⟨hmem.1, hmem.2, by simpa using List.find?_some h⟩
  · rintro ⟨hentry, hpackage, hclass⟩
    cases hfound : (lookupPackage package).find? (·.className = className) with
    | none =>
      have hnone := List.find?_eq_none.1 hfound entry ((mem_lookupPackage package).2 ⟨hentry, hpackage⟩)
      exact absurd (by simpa using hclass) hnone
    | some other =>
      have hother := (mem_lookupPackage package).1 (List.mem_of_find?_eq_some hfound)
      have hsame : other.className = className := by simpa using List.find?_some hfound
      rw [registrations_unique other hother.1 entry hentry (hother.2.trans hpackage.symm)
        (hsame.trans hclass.symm)]

/-- The entries that selection finds for an import are those that cover it. -/
theorem mem_hits_iff : entry ∈ hits decl ↔ Covers entry decl := by
  have hisNone : (fun e : Registration => e.className.isNone) = fun e => decide (e.className = none) := by
    funext e
    cases e.className <;> rfl
  unfold hits Covers
  split
  · exact mem_lookupPackage decl.text
  · rw [Option.mem_toList, lookup, hisNone, Option.or_eq_some_iff, find?_lookupPackage_eq_some,
      List.find?_eq_none, find?_lookupPackage_eq_some]
    simp only [mem_lookupPackage, decide_eq_true_eq]
    constructor
    · rintro (⟨hentry, hpackage, hclass⟩ | ⟨hnone, hentry, hpackage, hclass⟩)
      · exact ⟨hentry, hpackage, .inl hclass⟩
      · exact ⟨hentry, hpackage, .inr ⟨hclass, fun other hother hsame =>
          hnone other ⟨hother, hsame⟩⟩⟩
    · rintro ⟨hentry, hpackage, hclass | ⟨hclass, hnone⟩⟩
      · exact .inl ⟨hentry, hpackage, hclass⟩
      · exact .inr ⟨fun other hother => hnone other hother.1 hother.2, hentry, hpackage, hclass⟩

theorem mem_asks_iff (pass : Pass) : pass ∈ asks t ↔ ∃ decl, t.form = .part (.importing decl) ∧
    ∃ entry, Covers entry decl ∧ entry.pass = some pass := by
  unfold asks
  split
  · next decl hform =>
    simp only [List.mem_filterMap, mem_hits_iff]
    constructor
    · intro h
      exact ⟨decl, hform, h⟩
    · rintro ⟨other, hother, h⟩
      rw [hform] at hother
      cases hother
      exact h
  · next hother =>
    constructor
    · intro h
      cases h
    · rintro ⟨decl, hform, -⟩
      exact absurd hform (hother decl)

/-! ### Imports without an entry -/

/-- Whether a key is that of the import that stands for one without an entry: the import of its symbol
from the specifier that its name leads to, or the whole of what it names if no module maps it. -/
def StandsFor (around : Surroundings) (package : String) (decl : ImportName) (key : Key) : Prop :=
  let target := Config.resolveName around.modules (resolvedBy decl).1 around.moduleName package
    (resolvedBy decl).2
  (∃ specifier name, target = .ok (some specifier) ∧
      Specifier.importName specifier.display decl.identifier = .ok name ∧
      key = (name, decl.isAsterisk, true)) ∨
    target = .ok none ∧ around.unresolvedImports = .wildcard ∧ key = (decl.text, true, false)

theorem settleImport_standsFor (trivia : Trivia) :
    Yields (settleImport around package trivia decl) fun settled =>
      StandsFor around package decl (importKey settled.1) := by
  intro settled hsettled
  unfold settleImport at hsettled
  unfold StandsFor
  cases hresolved : Config.resolveName around.modules (resolvedBy decl).1 around.moduleName package
      (resolvedBy decl).2 with
  | error fault =>
    simp only [hresolved] at hsettled
    cases hsettled
  | ok specifier =>
    simp only [hresolved] at hsettled
    cases specifier with
    | some specifier =>
      refine .inl ⟨specifier, ?_⟩
      cases hname : Specifier.importName specifier.display decl.identifier with
      | error fault =>
        simp only [bind, Except.bind, hname] at hsettled
        cases hsettled
      | ok name =>
        simp only [bind, Except.bind, hname] at hsettled
        cases hsettled
        exact ⟨name, rfl, rfl, rfl⟩
    | none =>
      refine .inr ⟨rfl, ?_⟩
      cases hpolicy : around.unresolvedImports with
      | fail =>
        simp only [bind, Except.bind, hpolicy] at hsettled
        cases hsettled
      | wildcard =>
        simp only [bind, Except.bind, hpolicy] at hsettled
        cases hsettled
        exact ⟨rfl, rfl⟩

/-! ### What has been drawn from some imports -/

/-- What selection has drawn from the imports gone through and the passes asked for. -/
structure Drawn (around : Surroundings) (package : String) (asked : List Pass) (done : List Tree)
    (selection : Selection) : Prop where
  passes : selection.passes = mandatory ++ asked.eraseDups
  /-- Each import that is to be written is needed by a pass, or stands for one without an entry. -/
  origin : ∀ t ∈ selection.imports,
    (∃ pass ∈ asked, ∃ e ∈ pass.needs, e.declaration = .ok t) ∨
      ∃ node ∈ done, ∃ found, settled around package node = .ok (some (t, found))
  needed : ∀ pass ∈ asked, ∀ e ∈ pass.needs, ∃ t ∈ selection.imports, e.declaration = .ok t
  settled : ∀ node ∈ done, ∀ t found, settled around package node = .ok (some (t, found)) →
    t ∈ selection.imports

namespace Drawn

variable {pass : Pass} (h : Drawn around package asked done selection)

include h

/-- A pass that has been asked for before. -/
theorem ask_again (hpass : pass ∈ asked) : Drawn around package (asked ++ [pass]) done selection where
  passes := by rw [eraseDups_concat, if_pos hpass, h.passes]
  origin t ht := (h.origin t ht).imp_left fun ⟨other, hother, hneeds⟩ =>
    ⟨other, List.mem_append_left _ hother, hneeds⟩
  needed other hother := by
    rcases List.mem_append.1 hother with hold | hnew
    · exact h.needed other hold
    · rw [List.mem_singleton.1 hnew]
      exact h.needed pass hpass
  settled := h.settled

/-- A pass that is asked for the first time, with the imports it needs. -/
theorem ask (hpass : pass ∉ asked) {emitted : List Tree}
    (hemitted : pass.needs.mapM (·.declaration) = .ok emitted) :
    Drawn around package (asked ++ [pass]) done { selection with
      passes := selection.passes ++ [pass], imports := selection.imports ++ emitted } where
  passes := by
    show selection.passes ++ [pass] = _
    rw [eraseDups_concat, if_neg hpass, h.passes, List.append_assoc]
  origin t ht := by
    rcases List.mem_append.1 ht with hold | hnew
    · exact (h.origin t hold).imp_left fun ⟨other, hother, hneeds⟩ =>
        ⟨other, List.mem_append_left _ hother, hneeds⟩
    · obtain ⟨e, he, hdeclared⟩ := exists_entry (mapM_eq_ok_iff.1 hemitted) t hnew
      exact .inl ⟨pass, List.mem_append_right _ (List.mem_singleton_self pass), e, he, hdeclared⟩
  needed other hother e he := by
    rcases List.mem_append.1 hother with hold | hnew
    · obtain ⟨t, ht, hdeclared⟩ := h.needed other hold e he
      exact ⟨t, List.mem_append_left _ ht, hdeclared⟩
    · rw [List.mem_singleton.1 hnew] at he
      obtain ⟨t, ht, hdeclared⟩ := exists_partner (mapM_eq_ok_iff.1 hemitted) e he
      exact ⟨t, List.mem_append_right _ ht, hdeclared⟩
  settled node hnode t found hsettled := List.mem_append_left _ (h.settled node hnode t found hsettled)

/-- An import without an entry, as it is settled. -/
theorem settle {node : Tree} {name : String} {found more : List Diagnostic}
    (hsettled : Pass.settled around package node = .ok (some (t, found))) :
    Drawn around package asked (done ++ [node]) { selection with
      imports := selection.imports ++ [t], explicitNames := selection.explicitNames ++ [name],
      diagnostics := selection.diagnostics ++ more } where
  passes := h.passes
  origin u hu := by
    rcases List.mem_append.1 hu with hold | hnew
    · exact (h.origin u hold).imp_right fun ⟨other, hother, hfound⟩ =>
        ⟨other, List.mem_append_left _ hother, hfound⟩
    · rw [List.mem_singleton.1 hnew]
      exact .inr ⟨node, List.mem_append_right _ (List.mem_singleton_self node), found, hsettled⟩
  needed pass hpass e he := by
    obtain ⟨u, hu, hdeclared⟩ := h.needed pass hpass e he
    exact ⟨u, List.mem_append_left _ hu, hdeclared⟩
  settled other hother u found' hfound := by
    rcases List.mem_append.1 hother with hold | hnew
    · exact List.mem_append_left _ (h.settled other hold u found' hfound)
    · rw [List.mem_singleton.1 hnew, hsettled] at hfound
      cases hfound
      exact List.mem_append_right _ (List.mem_singleton_self t)

/-- An import with an entry is gone through and leaves nothing but its comment. -/
theorem consume {node : Tree} (hnode : Pass.settled around package node = .ok none)
    (orphans : List Comment) :
    Drawn around package asked (done ++ [node]) { selection with orphans } where
  passes := h.passes
  origin u hu := (h.origin u hu).imp_right fun ⟨other, hother, hfound⟩ =>
    ⟨other, List.mem_append_left _ hother, hfound⟩
  needed := h.needed
  settled other hother u found hfound := by
    rcases List.mem_append.1 hother with hold | hnew
    · exact h.settled other hold u found hfound
    · rw [List.mem_singleton.1 hnew, hnode] at hfound
      cases hfound

end Drawn

theorem not_mem_mandatory {pass : Pass} (h : pass ∈ triggered) : pass ∉ mandatory := by
  have hall : ∀ pass ∈ triggered, pass ∉ mandatory := by decide
  exact hall pass h

/-- One entry of the table. -/
theorem drawn_take (hentry : entry ∈ registrations) (h : Drawn around package asked done selection) :
    Yields (take selection entry) (Drawn around package (asked ++ entry.pass.toList) done) := by
  unfold take
  split
  · next hpass =>
    rw [hpass, Option.toList_none, List.append_nil]
    exact Yields.pure h
  · next pass hpass =>
    obtain ⟨htriggered, hemits⟩ := registrations_pass entry hentry pass hpass
    have hmem : pass ∈ selection.passes ↔ pass ∈ asked := by
      simp [h.passes, not_mem_mandatory htriggered]
    rw [hpass, Option.toList_some, hemits]
    split
    · next htaken => exact Yields.pure (h.ask_again (hmem.1 htaken))
    · next hnew =>
      intro next hnext
      cases hemitted : pass.needs.mapM (·.declaration) with
      | error fault =>
        rw [hemitted] at hnext
        cases hnext
      | ok emitted =>
        rw [hemitted] at hnext
        cases hnext
        exact h.ask (fun hasked => hnew (hmem.2 hasked)) hemitted

/-- One import of the unit. -/
theorem drawn_selectImport (himport : t.form.isImport) (h : Drawn around package asked done selection) :
    Yields (selectImport around package selection t)
      (Drawn around package (asked ++ asks t) (done ++ [t])) := by
  obtain ⟨trivia, form⟩ := t
  unfold Form.isImport at himport
  split at himport
  · next decl heq =>
    obtain rfl := heq
    intro next hnext
    cases hhits : hits decl with
    | nil =>
      have hasks : asks (.node trivia (.part (.importing decl))) = [] := by
        simp [asks, hhits]
      simp only [selectImport, form_node, hhits, trivia_node] at hnext
      cases hsettle : settleImport around package trivia decl with
      | error fault =>
        rw [hsettle] at hnext
        cases hnext
      | ok settlement =>
        rw [hsettle] at hnext
        cases hnext
        have hown : settled around package (.node trivia (.part (.importing decl))) =
            .ok (some (settlement.1, settlement.2)) := by
          simp only [settled, form_node, if_pos hhits, trivia_node, hsettle]
          rfl
        rw [hasks, List.append_nil]
        exact h.settle hown
    | cons entry entries =>
      have hasks : asks (.node trivia (.part (.importing decl))) =
          (entry :: entries).filterMap (·.pass) := by
        simp only [asks, form_node, hhits]
      have hentries : ∀ e ∈ entry :: entries, e ∈ registrations := fun e he =>
        mem_registrations_of_mem_hits (hhits ▸ he)
      -- going over the entries, with the passes of those gone over among those asked for
      have hfold : Yields ((entry :: entries).foldlM take selection)
          (Drawn around package (asked ++ (entry :: entries).filterMap (·.pass)) done) := by
        apply Yields.foldlM fun (past : List Registration) =>
          Drawn around package (asked ++ past.filterMap (·.pass)) done
        · intro past e s he hs
          rw [List.filterMap_append, ← List.append_assoc]
          have htake := drawn_take (hentries e he) hs
          cases hpass : e.pass <;> simpa [hpass] using htake
        · simpa using h
      simp only [selectImport, form_node, hhits] at hnext
      cases htaken : (entry :: entries).foldlM take selection with
      | error fault =>
        rw [htaken] at hnext
        cases hnext
      | ok taken =>
        rw [htaken] at hnext
        cases hnext
        rw [hasks]
        apply (hfold taken htaken).consume
        simp only [settled, form_node, hhits, if_neg (List.cons_ne_nil entry entries)]
        rfl
  · cases himport

/-- All imports of the unit. -/
theorem drawn_foldlM (himports : ∀ t ∈ imports, t.form.isImport) :
    Yields (imports.foldlM (selectImport around package) {})
      (Drawn around package (imports.flatMap asks) imports) := by
  apply Yields.foldlM fun done => Drawn around package (done.flatMap asks) done
  · intro done t selection ht hdone
    rw [List.flatMap_append, List.flatMap_singleton]
    exact drawn_selectImport (himports t ht) hdone
  · exact ⟨rfl, nofun, nofun, nofun⟩

/-- No entry covers an import that selection finds none for. -/
theorem hits_eq_nil_iff : hits decl = [] ↔ ∀ entry, ¬ Covers entry decl := by
  rw [List.eq_nil_iff_forall_not_mem]
  simp only [mem_hits_iff]

theorem standsFor_of_settled {node : Tree} (h : settled around package node = .ok (some (t, found))) :
    ∃ decl, node.form = .part (.importing decl) ∧ (∀ entry, ¬ Covers entry decl) ∧
      StandsFor around package decl (importKey t) := by
  unfold settled at h
  split at h
  · next decl hform =>
    split at h
    · next hhits =>
      refine ⟨decl, hform, hits_eq_nil_iff.1 hhits, ?_⟩
      cases hsettle : settleImport around package node.trivia decl with
      | error fault =>
        rw [hsettle] at h
        cases h
      | ok settlement =>
        rw [hsettle] at h
        cases h
        exact settleImport_standsFor node.trivia _ hsettle
    · cases h
  · cases h

theorem exists_settled {node : Tree} (hform : node.form = .part (.importing decl))
    (hnone : ∀ entry, ¬ Covers entry decl)
    (h : ∃ settlement, settled around package node = .ok settlement) :
    ∃ t found, settled around package node = .ok (some (t, found)) := by
  obtain ⟨settlement, h⟩ := h
  simp only [settled, hform, if_pos (hits_eq_nil_iff.2 hnone)] at h ⊢
  cases hsettle : settleImport around package node.trivia decl with
  | error fault =>
    rw [hsettle] at h
    cases h
  | ok settled =>
    obtain ⟨t, found⟩ := settled
    exact ⟨t, found, rfl⟩

theorem explicitNames_of_foldlM (himports : ∀ t ∈ imports, t.form.isImport)
    (h : imports.foldlM (selectImport around package) {} = .ok selection) :
    selection.explicitNames = imports.flatMap boundNames := by
  obtain ⟨last, hlast, htally⟩ := tally_foldlM himports (settled_of_foldlM h) tally_nil
  cases h.symm.trans hlast
  exact htally.names

/-! ### Whole units -/

/-- What the table makes of the imports of a unit: which passes run, and which imports are left. -/
structure Consumed (around : Surroundings) (unit : Tree) (header : Option Tree)
    (imports kept : List Tree) (passes : List Pass) : Prop where
  /-- The mandatory passes come first. -/
  first : mandatory <+: passes
  once : passes.Nodup
  /-- Any other pass runs if an import has an entry with it. -/
  asked : ∀ pass ∉ mandatory, pass ∈ passes ↔ ∃ t ∈ imports, ∃ decl,
    t.form = .part (.importing decl) ∧ ∃ entry, Covers entry decl ∧ entry.pass = some pass
  /-- These passes run in the order in which they are first asked for. -/
  inTurn : (passes.drop mandatory.length).Pairwise fun a b =>
    (imports.flatMap asks).idxOf a < (imports.flatMap asks).idxOf b
  /-- What an entry with a selected pass emits is imported once. -/
  emitted : ∀ entry ∈ registrations, ∀ pass ∈ passes, entry.pass = some pass → ∀ e ∈ entry.emits,
    ∃ t, e.declaration = .ok t ∧ (kept.map importKey).count (importKey t) = 1
  /-- Each import is one that a selected pass needs, stands for one that no entry covers, or is that
  of a class beside the unit. -/
  origin : ∀ t ∈ kept,
    (∃ entry ∈ registrations, ∃ pass ∈ passes, entry.pass = some pass ∧
      ∃ e ∈ entry.emits, e.declaration = .ok t) ∨
    (∃ node ∈ imports, ∃ decl, node.form = .part (.importing decl) ∧
      (∀ entry, ¬ Covers entry decl) ∧ StandsFor around (packageName header) decl (importKey t)) ∨
    ∃ name ∈ missing around unit imports, siblingImport name = .ok t
  /-- Every import that no entry covers is represented. -/
  represented : ∀ node ∈ imports, ∀ decl, node.form = .part (.importing decl) →
    (∀ entry, ¬ Covers entry decl) → ∃ t ∈ kept, StandsFor around (packageName header) decl (importKey t)
  /-- No two imports agree in name, asterisk and encoding. -/
  distinct : (kept.map importKey).Nodup

/-- Selection is complete and free of doubles, and takes just the imports that the table knows. -/
theorem table_consumed (hunit : unit.IsUnit header imports types)
    (h : select around unit = .ok (passes, result, found)) :
    ∃ kept, result.IsUnit header kept types ∧ Consumed around unit header imports kept passes := by
  obtain ⟨kept, hkept, hnodup, -⟩ := keys_of_select hunit h
  refine ⟨kept, hkept, ?_⟩
  obtain ⟨selection, siblings, hfold, hsiblings, heq⟩ := (select_eq_ok_iff hunit.form).1 h
  cases heq
  obtain ⟨-, rfl, -⟩ := by simpa using hkept.form
  have hdrawn := drawn_foldlM hunit.imports selection hfold
  have hpasses := hdrawn.passes
  rw [explicitNames_of_foldlM hunit.imports hfold] at hsiblings
  have hbeside : ∀ t ∈ siblings, ∃ name ∈ missing around unit imports, siblingImport name = .ok t :=
    exists_entry (mapM_eq_ok_iff.1 hsiblings)
  have hasked : ∀ pass ∈ imports.flatMap asks, pass ∉ mandatory := by
    intro pass hpass
    obtain ⟨t, -, hasks⟩ := List.mem_flatMap.1 hpass
    exact not_mem_mandatory (mem_triggered_of_mem_asks hasks)
  have hmem : ∀ pass ∉ mandatory, pass ∈ selection.passes ↔ pass ∈ imports.flatMap asks := by
    intro pass hpass
    rw [hpasses, List.mem_append, List.mem_eraseDups, or_iff_right hpass]
  -- what is to be written is there under its key
  have hwritten : ∀ t ∈ selection.imports,
      importKey t ∈ (dedupe [] (selection.imports ++ siblings)).1.map importKey := by
    intro t ht
    rw [mem_map_importKey_dedupe]
    exact ⟨List.mem_map_of_mem (List.mem_append_left _ ht), List.not_mem_nil⟩
  exact {
    first := by
      rw [hpasses]
      exact List.prefix_append _ _
    once := by
      rw [hpasses, List.nodup_append']
      refine ⟨by decide, nodup_eraseDups _, ?_⟩
      intro pass hpass hlater
      exact hasked pass (List.mem_eraseDups.1 hlater) hpass
    asked := by
      intro pass hpass
      rw [hmem pass hpass, List.mem_flatMap]
      simp only [mem_asks_iff]
    inTurn := by
      rw [hpasses, List.drop_left]
      exact pairwise_idxOf_eraseDups _
    emitted := by
      intro entry hentry pass hpass hentrypass e he
      obtain ⟨htriggered, hemits⟩ := registrations_pass entry hentry pass hentrypass
      have hasks := (hmem pass (not_mem_mandatory htriggered)).1 hpass
      obtain ⟨t, ht, hdeclared⟩ := hdrawn.needed pass hasks e (hemits ▸ he)
      exact ⟨t, hdeclared, List.count_eq_one_of_mem hnodup (hwritten t ht)⟩
    origin := by
      intro t ht
      rcases List.mem_append.1 (mem_of_mem_dedupe ht) with hselected | hsibling
      · rcases hdrawn.origin t hselected with ⟨pass, hpass, e, he, hdeclared⟩ |
          ⟨node, hnode, found, hsettled⟩
        · obtain ⟨u, hu, hasks⟩ := List.mem_flatMap.1 hpass
          obtain ⟨decl, -, entry, hcovers, hentry⟩ := (mem_asks_iff pass).1 hasks
          have hemits := (registrations_pass entry hcovers.1 pass hentry).2
          exact .inl ⟨entry, hcovers.1, pass, (hmem pass (hasked pass hpass)).2 hpass, hentry, e,
            hemits ▸ he, hdeclared⟩
        · exact .inr (.inl ⟨node, hnode, standsFor_of_settled hsettled⟩)
      · exact .inr (.inr (hbeside t hsibling))
    represented := by
      intro node hnode decl hform hnone
      obtain ⟨t, found, hsettled⟩ := exists_settled hform hnone (settled_of_foldlM hfold node hnode)
      obtain ⟨decl', hform', -, hstands⟩ := standsFor_of_settled hsettled
      rw [hform] at hform'
      cases hform'
      obtain ⟨u, hu, hkey⟩ := List.mem_map.1 (hwritten t (hdrawn.settled node hnode t found hsettled))
      exact ⟨u, hu, hkey ▸ hstands⟩
    distinct := hnodup }

/-- Imports with and without entries: two of one pass, a whole package, and one class twice. -/
def mixedImports : List Tree :=
  [importOf "java.io.InputStream", importOf "org.acme.Widget",
   .node {} (.part (.importing { name := .text "lombok", isAsterisk := true })),
   importOf "java.io.FileInputStream", importOf "org.acme.Widget"]

/-- A class that uses a stream and a class beside it. -/
def mixedUnit : Tree :=
  .node {} (.part (.unit none mixedImports [fieldsOf ["InputStream", "Helper"]]))

theorem table_consumed_mixedUnit : ∃ passes result found,
    select besideHelper mixedUnit = .ok (passes, result, found) ∧
      boundSymbols result = ["Fs", "Readable", "Widget", "Helper"] ∧
      ∃ kept, result.IsUnit none kept [fieldsOf ["InputStream", "Helper"]] ∧
        Consumed besideHelper mixedUnit none mixedImports kept passes := by
  have hunit : mixedUnit.IsUnit none mixedImports [fieldsOf ["InputStream", "Helper"]] :=
    ⟨rfl, nofun, by decide⟩
  obtain ⟨passes, result, found, hselect, hsymbols⟩ := exists_select_of_toOption
    besideHelper mixedUnit ["Fs", "Readable", "Widget", "Helper"] (by decide +kernel)
  exact ⟨passes, result, found, hselect, hsymbols, table_consumed hunit hselect⟩

end Recast.Pass
