import Mathlib
import Recast.Proofs.Pass.Materialize
import Recast.Proofs.Pass.Select
import Recast.Render.Import

/-!
The order of imports and of the passes they ask for.

Any two passes that imports ask for commute on a tree of ready nodes (`commute_run?`), so all orders of
these passes leave the same types (`typesAfter_perm`). What selection collects from the imports of a
unit is collected from each of them on its own: `Tally` says what that is, up to order, and
`tally_selectImport` that every import adds its share. `select_perm` puts the two together.
-/

namespace Recast

open Recast.Lowering Recast.Tree

variable {mappings : List (String × Value)} {pass : Pass} {t r : Tree} {trivia : Trivia}

namespace Pass

/-! ### Any two passes -/

/-- The nodes that a pass does not leave to their children: the declarations of the header, and the
shapes that it may replace. -/
theorem not_passive_cases {form : Form Tree} (h : ¬ Passive pass form) :
    (form.isPackage ∨ form.isImport) ∨
      (∃ name arguments scope orNull, form = .type (.named name arguments scope orNull)) ∨
      (∃ name arguments target typeArguments,
        form = .expr (.call name arguments target typeArguments)) ∨
      (pass = .fileInputStream ∧ ∃ slot arguments body, form = .expr (.create slot arguments body)) ∨
      (pass = .logging ∧ ∃ name arguments, form = .part (.annotationUse name arguments)) ∨
      pass = .accessors ∧ ∃ name modifiers annotations typeParameters parents interfaces members
        isInterface, form = .member (.classType name modifiers annotations typeParameters parents
          interfaces members isInterface) := by
  cases hpackage : form.isPackage with
  | true => exact .inl (.inl rfl)
  | false =>
    cases himport : form.isImport with
    | true => exact .inl (.inr rfl)
    | false =>
      have hacts : pass.actsOn form = true := by
        by_contra hacts
        exact h ⟨Bool.eq_false_iff.2 hacts, hpackage, himport⟩
      unfold actsOn at hacts
      grind

/-- A pass commutes with any other on a node that it does not leave to its children. -/
theorem commute_of_not_passive {other : Pass} {form : Form Tree} (hpass : pass ∈ triggered)
    (hother : other ∈ triggered) (hne : pass ≠ other) (h : (node trivia form).Everywhere Ready)
    (hchildren : ∀ child ∈ form.children, Commute (pass.run? mappings) (other.run? mappings) child)
    (hacts : ¬ Passive pass form) :
    Commute (pass.run? mappings) (other.run? mappings) (.node trivia form) := by
  rcases not_passive_cases hacts with hheader | ⟨_, _, _, _, rfl⟩ | ⟨_, _, _, _, rfl⟩ |
    ⟨rfl, _, _, _, rfl⟩ | ⟨rfl, _, _, rfl⟩ | ⟨rfl, _, _, _, _, _, _, _, _, rfl⟩
  · have hkept : ∀ pass : Pass, pass.run? mappings (.node trivia form) = some (.node trivia form) := by
      intro pass
      rcases hheader with hpackage | himport
      · exact run?_package mappings pass hpackage
      · exact run?_import mappings pass himport
    rw [Commute, hkept, hkept, Option.bind_some, Option.bind_some, hkept, hkept]
  · exact commute_named hpass hother hchildren
  · exact commute_call hpass hother hne h hchildren
  · refine commute_create hother hne.symm ?_ hchildren
    intro t ht
    exact h.self.typed.bases t (Option.mem_toList.2 ht)
  · exact commute_annotationUse hother hne.symm
  · exact commute_class hother hne.symm h hchildren

/-- Any two passes that imports ask for commute on a tree of ready nodes. -/
theorem commute_run? {other : Pass} (hpass : pass ∈ triggered) (hother : other ∈ triggered)
    (h : t.Everywhere Ready) : Commute (pass.run? mappings) (other.run? mappings) t := by
  by_cases hsame : pass = other
  · rw [hsame]
    rfl
  induction t using induct with
  | step trivia form ih =>
    have hchildren : ∀ child ∈ form.children,
        Commute (pass.run? mappings) (other.run? mappings) child := fun child hchild =>
      ih child hchild ((everywhere_node.1 h).2 child hchild)
    by_cases hacts : Passive pass form
    · by_cases hacts' : Passive other form
      · exact commute_passive hpass hother hacts hacts' hchildren
      · exact (commute_of_not_passive hother hpass (Ne.symm hsame) h
          (fun child hchild => (hchildren child hchild).symm) hacts').symm
    · exact commute_of_not_passive hpass hother hsame h hchildren hacts

/-! ### All orders of the passes -/

/-- The types of a unit after some passes. -/
def typesAfter (mappings : List (String × Value)) (passes : List Pass) (types : List Tree) : List Tree :=
  passes.foldl (fun types pass => types.filterMap (pass.run? mappings)) types

theorem unitTypes_runAll {unit : Tree} {header : Option Tree} {imports types : List Tree}
    (passes : List Pass) (h : unit.IsUnit header imports types) :
    (runAll mappings passes unit).unitTypes = typesAfter mappings passes types := by
  induction passes generalizing unit types with
  | nil =>
    show unit.unitTypes = types
    rw [unitTypes, h.form]
  | cons pass passes ih => exact ih (isUnit_run mappings pass h)

theorem ready_filterMap (pass : Pass) {types : List Tree} (h : ∀ t ∈ types, t.Everywhere Ready) :
    ∀ t ∈ types.filterMap (pass.run? mappings), t.Everywhere Ready := by
  intro r hr
  obtain ⟨t, ht, hrun⟩ := List.mem_filterMap.1 hr
  exact (leavesReady_run? mappings pass (h t ht)).ready r hrun

theorem ready_typesAfter (passes : List Pass) {types : List Tree}
    (h : ∀ t ∈ types, t.Everywhere Ready) : ∀ t ∈ typesAfter mappings passes types, t.Everywhere Ready := by
  induction passes generalizing types with
  | nil => exact h
  | cons pass passes ih => exact ih (ready_filterMap pass h)

/-- Two passes over a list of types, in either order. -/
theorem filterMap_run?_comm {other : Pass} (hpass : pass ∈ triggered) (hother : other ∈ triggered)
    {types : List Tree} (h : ∀ t ∈ types, t.Everywhere Ready) :
    (types.filterMap (pass.run? mappings)).filterMap (other.run? mappings) =
      (types.filterMap (other.run? mappings)).filterMap (pass.run? mappings) := by
  rw [List.filterMap_filterMap, List.filterMap_filterMap]
  exact List.filterMap_congr fun t ht => commute_run? hpass hother (h t ht)

/-- All orders of the passes that imports ask for leave the same types. -/
theorem typesAfter_perm {passes passes' : List Pass} (hperm : passes.Perm passes')
    (htriggered : ∀ pass ∈ passes, pass ∈ triggered) {types : List Tree}
    (h : ∀ t ∈ types, t.Everywhere Ready) :
    typesAfter mappings passes types = typesAfter mappings passes' types := by
  induction hperm generalizing types with
  | nil => rfl
  | cons pass _ ih =>
    exact ih (fun pass hpass => htriggered pass (List.mem_cons_of_mem _ hpass)) (ready_filterMap pass h)
  | swap pass other passes =>
    apply congrArg (typesAfter mappings passes)
    exact filterMap_run?_comm (htriggered other List.mem_cons_self)
      (htriggered pass (List.mem_cons_of_mem _ List.mem_cons_self)) h
  | trans hfirst _ ih ih' =>
    exact (ih htriggered h).trans (ih' (fun pass hpass => htriggered pass (hfirst.mem_iff.2 hpass)) h)

/-! ### What each import adds -/

/-- What makes two imports equal. -/
abbrev Key := String × Bool × Bool

/-- The imports that the output of a pass needs. -/
def needs : Pass → List EmittedImport
  | .fileInputStream => fileInputImports
  | .stringWriter => [⟨"stream", "Writable", false⟩]
  | _ => []

/-- The keys of the imports that the output of a pass needs. -/
def neededKeys (pass : Pass) : List Key :=
  pass.needs.filterMap fun e => e.declaration.toOption.map importKey

/-- The passes that an import asks for. -/
def asks (t : Tree) : List Pass :=
  match t.form with
  | .part (.importing decl) => (hits decl).filterMap (·.pass)
  | _ => []

/-- The name that an import without an entry in the table binds. -/
def boundNames (t : Tree) : List String :=
  match t.form with
  | .part (.importing decl) => if hits decl = [] then [decl.identifier] else []
  | _ => []

/-- What an import without an entry in the table is settled as. -/
def settled (around : Surroundings) (package : String) (t : Tree) :
    Except ConfigFault (Option (Tree × List Diagnostic)) :=
  match t.form with
  | .part (.importing decl) =>
    if hits decl = [] then some <$> settleImport around package t.trivia decl else return none
  | _ => return none

/-- The key of the import that an import is settled as. -/
def settledKeys (around : Surroundings) (package : String) (t : Tree) : List Key :=
  match settled around package t with
  | .ok (some (result, _)) => [importKey result]
  | _ => []

/-- What has been selected, up to order: the names bound, the keys of the imports settled, and the
passes asked for. -/
structure Tally (names : List String) (keys : List Key) (asked : List Pass) (selection : Selection) :
    Prop where
  names : selection.explicitNames = names
  passes : ∃ taken, selection.passes = mandatory ++ taken ∧ taken.Nodup ∧ ∀ pass, pass ∈ taken ↔ pass ∈ asked
  keys : ∀ key, key ∈ selection.imports.map importKey ↔ key ∈ keys ∨ ∃ pass ∈ asked, key ∈ pass.neededKeys
  imports : ∀ t ∈ selection.imports, t.form.isImport

/-- Every entry of the table that names a pass names one that imports ask for, and needs what the pass
needs. -/
theorem registrations_pass : ∀ entry ∈ registrations, ∀ pass ∈ entry.pass,
    pass ∈ triggered ∧ entry.emits = pass.needs := by
  decide

theorem mem_registrations_of_mem_hits {decl : ImportName} {entry : Registration}
    (h : entry ∈ hits decl) : entry ∈ registrations := by
  have hfind : ∀ {package : String} {p : Registration → Bool},
      (lookupPackage package).find? p = some entry → entry ∈ registrations := fun hfound =>
    List.mem_of_mem_filter (List.mem_of_find?_eq_some hfound)
  unfold hits at h
  split at h
  · exact List.mem_of_mem_filter h
  · rcases Option.or_eq_some_iff.1 (Option.mem_toList.1 h) with hown | ⟨-, hpackage⟩
    · exact hfind hown
    · exact hfind hpackage

theorem mem_triggered_of_mem_asks (h : pass ∈ asks t) : pass ∈ triggered := by
  unfold asks at h
  split at h
  · obtain ⟨entry, hentry, hpass⟩ := List.mem_filterMap.1 h
    exact (registrations_pass entry (mem_registrations_of_mem_hits hentry) pass hpass).1
  · cases h

theorem declaration_needs (e : EmittedImport) (h : e ∈ pass.needs) :
    ∃ t, e.declaration = .ok t ∧ t.form.isImport := by
  have hplain : '%' ∉ e.specifier.toList := by
    have hall : ∀ pass ∈ Pass.all, ∀ e ∈ pass.needs, '%' ∉ e.specifier.toList := by decide
    exact hall pass (by cases pass <;> decide) e h
  have hencode : Specifier.encode e.specifier =
      .ok (String.ofList (Specifier.encodeChars e.specifier.toList)) := by
    simp [Specifier.encode, hplain]
  rw [EmittedImport.declaration, Specifier.importName, hencode]
  exact ⟨_, rfl, rfl⟩

theorem mapM_declaration {l : List EmittedImport} (h : ∀ e ∈ l, e ∈ pass.needs) :
    ∃ emitted, l.mapM (·.declaration) = .ok emitted ∧
      emitted.map importKey = l.filterMap (fun e => e.declaration.toOption.map importKey) ∧
      ∀ t ∈ emitted, t.form.isImport := by
  obtain ⟨emitted, hemitted⟩ := exists_forall₂ fun e he => declaration_needs e (h e he)
  refine ⟨emitted, mapM_eq_ok_iff.2 (hemitted.imp fun _ _ ht => ht.1), ?_,
    forall_mem_partners hemitted fun _ _ ht => ht.2⟩
  clear h
  induction hemitted with
  | nil => rfl
  | cons hfirst _ ih =>
    rw [List.map_cons, ih, List.filterMap_cons_some]
    rw [hfirst.1]
    rfl

variable {names : List String} {keys : List Key} {asked : List Pass} {selection : Selection}

namespace Tally

/-- A pass that has been asked for before. -/
theorem ask_again (h : Tally names keys asked selection) (hpass : pass ∈ asked) :
    Tally names keys (asked ++ [pass]) selection := by
  obtain ⟨taken, hpasses, hnodup, hasked⟩ := h.passes
  refine ⟨h.names, ⟨taken, hpasses, hnodup, ?_⟩, ?_, h.imports⟩
  · intro other
    rw [hasked other]
    grind
  · intro key
    rw [h.keys key]
    grind

/-- A pass that is asked for the first time, with the imports it needs. -/
theorem ask (h : Tally names keys asked selection) (hnew : pass ∉ selection.passes)
    {emitted : List Tree} (hkeys : emitted.map importKey = pass.neededKeys)
    (himports : ∀ t ∈ emitted, t.form.isImport) :
    Tally names keys (asked ++ [pass]) { selection with
      passes := selection.passes ++ [pass], imports := selection.imports ++ emitted } := by
  obtain ⟨taken, hpasses, hnodup, hasked⟩ := h.passes
  have hfresh : pass ∉ taken := by
    intro hmem
    rw [hpasses] at hnew
    exact hnew (List.mem_append_right _ hmem)
  refine ⟨h.names, ⟨taken ++ [pass], by simp [hpasses], ?_, ?_⟩, ?_, ?_⟩
  · simpa [List.nodup_append] using ⟨hnodup, fun other hother => by grind⟩
  · intro other
    rw [List.mem_append, List.mem_append, hasked other]
  · intro key
    rw [List.map_append, List.mem_append, h.keys key, hkeys]
    grind
  · intro t ht
    rcases List.mem_append.1 ht with hold | hemitted
    · exact h.imports t hold
    · exact himports t hemitted

/-- An import without an entry in the table. -/
theorem settle (h : Tally names keys asked selection) {t : Tree} (himport : t.form.isImport)
    (name : String) (found : List Diagnostic) :
    Tally (names ++ [name]) (keys ++ [importKey t]) asked { selection with
      imports := selection.imports ++ [t], explicitNames := selection.explicitNames ++ [name],
      diagnostics := selection.diagnostics ++ found } := by
  refine ⟨by simp [h.names], h.passes, ?_, ?_⟩
  · intro key
    rw [List.map_append, List.mem_append, h.keys key]
    grind
  · intro t ht
    rcases List.mem_append.1 ht with hold | hnew
    · exact h.imports t hold
    · exact List.mem_singleton.1 hnew ▸ himport

end Tally

theorem tally_take {entry : Registration} (hentry : entry ∈ registrations)
    (h : Tally names keys asked selection) :
    ∃ taken, take selection entry = .ok taken ∧ Tally names keys (asked ++ entry.pass.toList) taken := by
  unfold take
  split
  · next hpass => exact ⟨selection, rfl, by simpa [hpass] using h⟩
  · next pass hpass =>
    obtain ⟨htriggered, hemits⟩ := registrations_pass entry hentry pass hpass
    rw [hpass, Option.toList_some]
    split
    · next hmem =>
      have hmandatory : ∀ pass ∈ triggered, pass ∉ mandatory := by decide
      obtain ⟨taken, hpasses, -, hasked⟩ := h.passes
      rw [hpasses, List.mem_append] at hmem
      exact ⟨selection, rfl,
        h.ask_again ((hasked pass).1 (hmem.resolve_left (hmandatory pass htriggered)))⟩
    · next hnew =>
      obtain ⟨emitted, hemitted, hkeys, himports⟩ := mapM_declaration fun e (he : e ∈ pass.needs) => he
      rw [hemits, hemitted]
      exact ⟨_, rfl, h.ask hnew hkeys himports⟩

theorem tally_foldlM_take {entries : List Registration} (hentries : ∀ entry ∈ entries, entry ∈ registrations)
    (h : Tally names keys asked selection) :
    ∃ taken, entries.foldlM take selection = .ok taken ∧
      Tally names keys (asked ++ entries.filterMap (·.pass)) taken := by
  induction entries generalizing asked selection with
  | nil => exact ⟨selection, rfl, by simpa using h⟩
  | cons entry entries ih =>
    obtain ⟨next, hnext, htally⟩ := tally_take (hentries entry List.mem_cons_self) h
    obtain ⟨taken, htaken, hlast⟩ := ih (fun entry he => hentries entry (List.mem_cons_of_mem _ he)) htally
    refine ⟨taken, by rw [List.foldlM_cons, hnext]; exact htaken, ?_⟩
    cases hpass : entry.pass with
    | none => simpa [hpass] using hlast
    | some pass => simpa [hpass] using hlast

theorem isImport_settleImport (around : Surroundings) (package : String) (trivia : Trivia)
    (decl : ImportName) :
    Yields (settleImport around package trivia decl) fun result => result.1.form.isImport :=
  (yields_settleImport around package trivia decl).mono fun _ h => h.1.form

/-- One import adds what it binds, what it is settled as and the passes that it asks for. -/
theorem tally_selectImport (around : Surroundings) (package : String) (himport : t.form.isImport)
    {result : Option (Tree × List Diagnostic)} (hsettled : settled around package t = .ok result)
    (h : Tally names keys asked selection) :
    ∃ next, selectImport around package selection t = .ok next ∧
      Tally (names ++ boundNames t) (keys ++ settledKeys around package t) (asked ++ asks t) next := by
  obtain ⟨trivia, form⟩ := t
  unfold Form.isImport at himport
  split at himport
  · next decl heq =>
    obtain rfl := heq
    cases hhits : hits decl with
    | nil =>
      simp only [settled, form_node, if_pos hhits, trivia_node] at hsettled
      cases hsettle : settleImport around package trivia decl with
      | error fault =>
        rw [hsettle] at hsettled
        cases hsettled
      | ok settlement =>
        obtain ⟨settlement, found⟩ := settlement
        have hkeys : settledKeys around package (.node trivia (.part (.importing decl))) =
            [importKey settlement] := by
          simp only [settledKeys, settled, form_node, if_pos hhits, trivia_node, hsettle]
          rfl
        have hasks : asks (.node trivia (.part (.importing decl))) = [] := by
          simp [asks, hhits]
        have hnames : boundNames (.node trivia (.part (.importing decl))) = [decl.identifier] := by
          simp [boundNames, hhits]
        rw [hkeys, hasks, hnames, List.append_nil]
        simp only [selectImport, form_node, hhits, trivia_node, hsettle]
        exact ⟨_, rfl, h.settle (isImport_settleImport around package trivia decl _ hsettle) _ _⟩
    | cons entry entries =>
      have hkeys : settledKeys around package (.node trivia (.part (.importing decl))) = [] := by
        simp only [settledKeys, settled, form_node, hhits, if_neg (List.cons_ne_nil entry entries)]
        rfl
      have hnames : boundNames (.node trivia (.part (.importing decl))) = [] := by
        simp [boundNames, hhits]
      have hasks : asks (.node trivia (.part (.importing decl))) =
          (entry :: entries).filterMap (·.pass) := by
        simp only [asks, form_node, hhits]
      have hentries : ∀ e ∈ entry :: entries, e ∈ registrations := fun e he =>
        mem_registrations_of_mem_hits (hhits ▸ he)
      obtain ⟨taken, htaken, htally⟩ := tally_foldlM_take hentries h
      rw [hkeys, hasks, hnames, List.append_nil, List.append_nil]
      simp only [selectImport, form_node, hhits, htaken]
      exact ⟨_, rfl, htally.names, htally.passes, htally.keys, htally.imports⟩
  · cases himport

theorem settled_of_selectImport {around : Surroundings} {package : String} {next : Selection}
    (h : selectImport around package selection t = .ok next) :
    ∃ result, settled around package t = .ok result := by
  by_cases himport : ∃ decl, t.form = .part (.importing decl)
  · obtain ⟨decl, hform⟩ := himport
    rw [selectImport, hform] at h
    cases hhits : hits decl with
    | nil =>
      cases hsettle : settleImport around package t.trivia decl with
      | error fault =>
        simp only [hhits, hsettle] at h
        cases h
      | ok settlement =>
        refine ⟨some settlement, ?_⟩
        simp only [settled, hform, hhits, hsettle]
        rfl
    | cons entry entries =>
      refine ⟨none, ?_⟩
      simp only [settled, hform, hhits]
      rfl
  · refine ⟨none, ?_⟩
    unfold settled
    split
    · next decl hform => exact absurd ⟨decl, hform⟩ himport
    · rfl

/-- What is selected from all imports of a unit. -/
theorem tally_foldlM {around : Surroundings} {package : String} {imports : List Tree}
    (himports : ∀ t ∈ imports, t.form.isImport)
    (hsettled : ∀ t ∈ imports, ∃ result, settled around package t = .ok result)
    (h : Tally names keys asked selection) :
    ∃ last, imports.foldlM (selectImport around package) selection = .ok last ∧
      Tally (names ++ imports.flatMap boundNames) (keys ++ imports.flatMap (settledKeys around package))
        (asked ++ imports.flatMap asks) last := by
  induction imports generalizing names keys asked selection with
  | nil => exact ⟨selection, rfl, by simpa using h⟩
  | cons t imports ih =>
    obtain ⟨result, hresult⟩ := hsettled t List.mem_cons_self
    obtain ⟨next, hnext, htally⟩ := tally_selectImport around package (himports t List.mem_cons_self) hresult h
    obtain ⟨last, hlast, hrest⟩ := ih (fun t ht => himports t (List.mem_cons_of_mem _ ht))
      (fun t ht => hsettled t (List.mem_cons_of_mem _ ht)) htally
    refine ⟨last, by rw [List.foldlM_cons, hnext]; exact hlast, ?_⟩
    simpa only [List.flatMap_cons, List.append_assoc] using hrest

theorem settled_of_foldlM {around : Surroundings} {package : String} {imports : List Tree}
    {last : Selection} (h : imports.foldlM (selectImport around package) selection = .ok last) :
    ∀ t ∈ imports, ∃ result, settled around package t = .ok result := by
  induction imports generalizing selection with
  | nil => exact nofun
  | cons t imports ih =>
    rw [List.foldlM_cons] at h
    cases hnext : selectImport around package selection t with
    | error fault =>
      rw [hnext] at h
      cases h
    | ok next =>
      rw [hnext] at h
      simpa using ⟨settled_of_selectImport hnext, ih h⟩

/-! ### Whole units -/

theorem mem_map_importKey_dedupe (seen : List Key) (nodes : List Tree) (key : Key) :
    key ∈ (dedupe seen nodes).1.map importKey ↔ key ∈ nodes.map importKey ∧ key ∉ seen := by
  induction nodes generalizing seen with
  | nil => simp [dedupe]
  | cons t nodes ih =>
    unfold dedupe
    split
    · next hseen =>
      rw [ih seen]
      grind
    · next hnew =>
      rw [List.map_cons, List.mem_cons, ih (importKey t :: seen)]
      grind

theorem mem_of_mem_dedupe {seen : List Key} {nodes : List Tree} (h : t ∈ (dedupe seen nodes).1) :
    t ∈ nodes := by
  induction nodes generalizing seen with
  | nil => cases h
  | cons first nodes ih =>
    unfold dedupe at h
    split at h
    · exact List.mem_cons_of_mem _ (ih h)
    · rcases List.mem_cons.1 h with rfl | hrest
      · exact List.mem_cons_self
      · exact List.mem_cons_of_mem _ (ih hrest)

/-- The import lines of a unit, without a template. -/
def importLines (unit : Tree) : List (Except Fault String) :=
  unit.form.importSlots.filterMap fun t =>
    match t.form with
    | .part (.importing decl) => some (Render.renderImport .null decl)
    | _ => none

/-- The import line of a key. -/
def keyLine (key : Key) : Except Fault String :=
  Render.renderImport .null { name := .text key.1, isAsterisk := key.2.1, encoded := key.2.2 }

/-- The lines of imports depend on their keys only. -/
theorem importLines_eq {unit : Tree} {header : Option Tree} {imports types : List Tree}
    (h : unit.IsUnit header imports types) :
    importLines unit = (imports.map importKey).map keyLine := by
  rw [importLines, h.form, List.map_map, ← List.filterMap_eq_map]
  apply List.filterMap_congr
  intro t ht
  obtain ⟨trivia, form⟩ := t
  have himport := h.imports _ ht
  unfold Form.isImport at himport
  split at himport
  · next heq =>
    obtain rfl := heq
    rfl
  · cases himport

/-- What selection makes of a unit. -/
theorem select_eq_ok_iff {around : Surroundings} {unit : Tree} {header : Option Tree}
    {imports types : List Tree} (hform : unit.form = .part (.unit header imports types))
    {result : List Pass × Tree × List Diagnostic} :
    select around unit = .ok result ↔ ∃ selection siblings,
      imports.foldlM (selectImport around (packageName header)) {} = .ok selection ∧
      (neededSiblings unit around.siblings selection.explicitNames).mapM siblingImport = .ok siblings ∧
      result = (selection.passes, .node (unit.trivia.addOrphans (selection.orphans ++
          (dedupe [] (selection.imports ++ siblings)).2))
        (.part (.unit header (dedupe [] (selection.imports ++ siblings)).1 types)),
        selection.diagnostics) := by
  obtain ⟨trivia, form⟩ := unit
  obtain rfl : form = .part (.unit header imports types) := hform
  simp only [select, form_node]
  cases hfold : imports.foldlM (selectImport around (packageName header)) {} with
  | error fault => exact ⟨nofun, fun ⟨_, _, h, _⟩ => nomatch h⟩
  | ok selection =>
    cases hsiblings : (neededSiblings (.node trivia (.part (.unit header imports types)))
      around.siblings selection.explicitNames).mapM siblingImport with
    | error fault => 
      constructor
      · intro h
        simp only [bind, Except.bind, hsiblings] at h
        cases h
      · rintro ⟨_, _, h, h', -⟩
        cases h
        rw [hsiblings] at h'
        cases h'
    | ok siblings =>
      constructor
      · intro h
        simp only [bind, Except.bind, hsiblings] at h
        exact ⟨selection, siblings, rfl, hsiblings, (Except.ok.inj h).symm⟩
      · rintro ⟨_, _, h, h', rfl⟩
        cases h
        rw [hsiblings] at h'
        cases h'
        simp only [bind, Except.bind, hsiblings]
        rfl

variable {around : Surroundings} {unit unit' : Tree} {header : Option Tree}
  {imports imports' types : List Tree}

/-- What is selected for a unit, up to order. -/
structure Selected (around : Surroundings) (unit : Tree) (header : Option Tree)
    (imports types siblings : List Tree) (passes : List Pass) (result : Tree) : Prop where
  beside : (neededSiblings unit around.siblings (imports.flatMap boundNames)).mapM siblingImport =
    .ok siblings
  taken : ∃ taken, passes = mandatory ++ taken ∧ taken.Nodup ∧
    ∀ pass, pass ∈ taken ↔ pass ∈ imports.flatMap asks
  kept : ∃ kept, result.IsUnit header kept types ∧ ∀ key, key ∈ kept.map importKey ↔
    (key ∈ imports.flatMap (settledKeys around (packageName header)) ∨
      ∃ pass ∈ imports.flatMap asks, key ∈ pass.neededKeys) ∨ key ∈ siblings.map importKey

theorem tally_nil : Tally [] [] [] {} :=
  ⟨rfl, ⟨[], rfl, List.nodup_nil, fun _ => Iff.rfl⟩, by simp, nofun⟩

theorem selected_of_select {passes : List Pass} {result : Tree} {found : List Diagnostic}
    (hunit : unit.IsUnit header imports types)
    (h : select around unit = .ok (passes, result, found)) :
    ∃ siblings, Selected around unit header imports types siblings passes result := by
  obtain ⟨selection, siblings, hfold, hsiblings, heq⟩ := (select_eq_ok_iff hunit.form).1 h
  cases heq
  obtain ⟨last, hlast, htally⟩ := tally_foldlM hunit.imports (settled_of_foldlM hfold) tally_nil
  cases hfold.symm.trans hlast
  rw [htally.names] at hsiblings
  refine ⟨siblings, hsiblings, htally.passes, _, ⟨rfl, hunit.header, ?_⟩, ?_⟩
  · intro t ht
    rcases List.mem_append.1 (mem_of_mem_dedupe ht) with hselected | hsibling
    · exact htally.imports t hselected
    · exact (Yields.mapM (fun name _ => yields_declaration _) siblings hsiblings t hsibling).1.form
  · intro key
    rw [mem_map_importKey_dedupe, List.map_append, List.mem_append, htally.keys]
    simp

/-- A unit can be selected if its imports can be settled and the classes beside it imported. -/
theorem exists_select_iff (hunit : unit.IsUnit header imports types) :
    (∃ result, select around unit = .ok result) ↔
      (∀ t ∈ imports, ∃ result, settled around (packageName header) t = .ok result) ∧
      ∃ siblings, (neededSiblings unit around.siblings (imports.flatMap boundNames)).mapM
        siblingImport = .ok siblings := by
  constructor
  · rintro ⟨⟨passes, result, found⟩, h⟩
    obtain ⟨selection, _, hfold, -, -⟩ := (select_eq_ok_iff hunit.form).1 h
    obtain ⟨siblings, hselected⟩ := selected_of_select hunit h
    exact ⟨settled_of_foldlM hfold, siblings, hselected.beside⟩
  · rintro ⟨hsettled, siblings, hsiblings⟩
    obtain ⟨last, hlast, htally⟩ := tally_foldlM hunit.imports hsettled tally_nil
    refine ⟨_, (select_eq_ok_iff hunit.form).2 ⟨last, siblings, hlast, ?_, rfl⟩⟩
    rw [htally.names]
    exact hsiblings

theorem neededSiblings_congr (hunit : unit.unitTypes = unit'.unitTypes) {names names' : List String}
    (hnames : ∀ name, name ∈ names ↔ name ∈ names') (siblings : List String) :
    neededSiblings unit siblings names = neededSiblings unit' siblings names' := by
  have hused : unit.referencedNames = unit'.referencedNames := by
    rw [referencedNames, referencedNames, hunit]
  have hown : unit.declaredNames = unit'.declaredNames := by
    rw [declaredNames, declaredNames, hunit]
  apply List.filter_congr
  intro name _
  rw [decide_eq_decide, hused, hown, hnames name]

/-- The order of imports does not matter: whether selection succeeds, the passes and import lines that
it selects, and what the passes leave of the types. Any two of the passes that imports ask for commute
on the unit. -/
theorem select_perm (around : Surroundings) (mappings : List (String × Value))
    (hunit : unit.IsUnit header imports types) (hunit' : unit'.IsUnit header imports' types)
    (hperm : imports.Perm imports') :
    ((∃ result, select around unit = .ok result) ↔ ∃ result, select around unit' = .ok result) ∧
      (∀ passes result found passes' result' found',
        select around unit = .ok (passes, result, found) →
        select around unit' = .ok (passes', result', found') →
        (∀ pass, pass ∈ passes ↔ pass ∈ passes') ∧
        (∀ line, line ∈ importLines result ↔ line ∈ importLines result') ∧
        ((∀ t ∈ types, t.Everywhere Ready) →
          (runAll mappings passes result).unitTypes = (runAll mappings passes' result').unitTypes)) ∧
      ((∀ t ∈ types, t.Everywhere Ready) → ∀ pass ∈ triggered, ∀ other ∈ triggered,
        other.run mappings (pass.run mappings unit) = pass.run mappings (other.run mappings unit)) := by
  have hmem : ∀ {α : Type} (f : Tree → List α) (a : α), a ∈ imports.flatMap f ↔ a ∈ imports'.flatMap f := by
    intro α f a
    simp only [List.mem_flatMap, hperm.mem_iff]
  have hneeded : neededSiblings unit around.siblings (imports.flatMap boundNames) =
      neededSiblings unit' around.siblings (imports'.flatMap boundNames) :=
    neededSiblings_congr (by rw [unitTypes, unitTypes, hunit.form, hunit'.form]) (hmem boundNames) _
  refine ⟨?_, ?_, ?_⟩
  · rw [exists_select_iff hunit, exists_select_iff hunit', hneeded]
    simp only [hperm.mem_iff]
  · intro passes result found passes' result' found' hselect hselect'
    obtain ⟨siblings, hbeside, ⟨taken, hpasses, hnodup, htaken⟩, kept, hkept, hkeys⟩ :=
      selected_of_select hunit hselect
    obtain ⟨siblings', hbeside', ⟨taken', hpasses', hnodup', htaken'⟩, kept', hkept', hkeys'⟩ :=
      selected_of_select hunit' hselect'
    rw [hneeded, hbeside'] at hbeside
    cases hbeside
    have hsame : taken.Perm taken' := (List.perm_ext_iff_of_nodup hnodup hnodup').2 fun pass => by
      rw [htaken, htaken', hmem]
    refine ⟨?_, ?_, ?_⟩
    · intro pass
      rw [hpasses, hpasses', List.mem_append, List.mem_append, hsame.mem_iff]
    · intro line
      have hkept_iff : ∀ key, key ∈ kept.map importKey ↔ key ∈ kept'.map importKey := by
        intro key
        simp only [hkeys, hkeys', hmem]
      rw [importLines_eq hkept, importLines_eq hkept', List.mem_map, List.mem_map]
      simp only [hkept_iff]
    · intro hready
      have htriggered : ∀ pass ∈ taken, pass ∈ triggered := by
        intro pass hpass
        obtain ⟨t, -, hasks⟩ := List.mem_flatMap.1 ((htaken pass).1 hpass)
        exact mem_triggered_of_mem_asks hasks
      rw [unitTypes_runAll passes hkept, unitTypes_runAll passes' hkept', hpasses, hpasses']
      simp only [typesAfter, List.foldl_append]
      exact typesAfter_perm hsame htriggered (ready_typesAfter mandatory hready)
  · intro hready pass hpass other hother
    rw [run_unit mappings other (isUnit_run mappings pass hunit),
      run_unit mappings pass (isUnit_run mappings other hunit), filterMap_run?_comm hpass hother hready,
      run_unit mappings pass hunit, run_unit mappings other hunit]
    rfl

/-- A class with a list for which a getter is asked. -/
def stallTypes : List Tree :=
  [.node {} (.member (.classType (.text "Stall") [.pub] [] [] [] []
    [.node {} (.member (.field (some (.node {} (.type (.named (.text "List") none none false))))
      [.node {} (.part (.declarator (.text "fruits") 0 none))] [.priv]
      [.node {} (.part (.annotationUse (.text "Getter") []))]))] false))]

/-- An import. -/
def importOf (name : String) : Tree := .node {} (.part (.importing { name := .text name }))

/-- The class, in a unit with some imports. -/
def stall (imports : List Tree) : Tree := .node {} (.part (.unit none imports stallTypes))

theorem ready_stallTypes : ∀ t ∈ stallTypes, t.Everywhere Ready := by
  simp [stallTypes, everywhere_node, Form.children, MemberForm.children, TypeForm.children,
    PartForm.children]
  exact ⟨ready_of_values_eq_nil rfl rfl rfl, ready_of_values_eq_nil rfl rfl rfl,
    ready_of_values_eq_nil rfl rfl rfl, ready_of_values_eq_nil rfl rfl rfl,
    ready_of_values_eq_nil rfl rfl rfl⟩

/-- Both orders of two imports of the class, which ask for a pass each. -/
theorem select_perm_stall :
    (∃ result, select ⟨[], "", "", .wildcard, []⟩
        (stall [importOf "lombok.Getter", importOf "java.util.List"]) = .ok result) ∧
      (∃ result, select ⟨[], "", "", .wildcard, []⟩
        (stall [importOf "java.util.List", importOf "lombok.Getter"]) = .ok result) ∧
      Pass.containers.run [] (Pass.accessors.run []
          (stall [importOf "lombok.Getter", importOf "java.util.List"])) =
        Pass.accessors.run [] (Pass.containers.run []
          (stall [importOf "lombok.Getter", importOf "java.util.List"])) := by
  have hunit : (stall [importOf "lombok.Getter", importOf "java.util.List"]).IsUnit none
      [importOf "lombok.Getter", importOf "java.util.List"] stallTypes :=
    ⟨rfl, nofun, by simp [importOf, Form.isImport]⟩
  have hunit' : (stall [importOf "java.util.List", importOf "lombok.Getter"]).IsUnit none
      [importOf "java.util.List", importOf "lombok.Getter"] stallTypes :=
    ⟨rfl, nofun, by simp [importOf, Form.isImport]⟩
  have hsome : ∃ result, select ⟨[], "", "", .wildcard, []⟩
      (stall [importOf "lombok.Getter", importOf "java.util.List"]) = .ok result := by
    have hgetter : hits { name := .text "lombok.Getter" } ≠ [] := by decide
    have hlist : hits { name := .text "java.util.List" } ≠ [] := by decide
    refine (exists_select_iff hunit).2 ⟨?_, [], ?_⟩
    · simp only [List.forall_mem_cons, settled, importOf, form_node, if_neg hgetter, if_neg hlist]
      exact ⟨⟨_, rfl⟩, ⟨_, rfl⟩, nofun⟩
    · simp [neededSiblings, Text.distinct, Text.sorted]
      rfl
  obtain ⟨hiff, -, hcomm⟩ := select_perm ⟨[], "", "", .wildcard, []⟩ [] hunit hunit' (.swap _ _ _)
  exact ⟨hsome, hiff.1 hsome, hcomm ready_stallTypes _ (by decide) _ (by decide)⟩

end Pass

end Recast
