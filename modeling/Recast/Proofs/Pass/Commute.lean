import Mathlib
import Recast.Proofs.Pass.Ready

/-!
Passes that can be run in any order.

The passes that imports ask for rewrite different nodes: `actsOn` lists the shapes that each of them
may replace, and on all other shapes it only goes through the children (`run?_passive`). Where two of
them act on the same shape, the tables that they consult have no name in common. `commute_run?` puts
this together: on a tree of ready nodes any two of these passes commute.
-/

namespace Recast

open Recast.Lowering Recast.Tree

variable {mappings : List (String × Value)} {pass other : Pass} {t r : Tree} {trivia : Trivia}

namespace Form

variable {α β : Type}

@[simp]
theorem isPackage_filterMap (f : α → Option β) (form : Form α) :
    (form.filterMap f).isPackage = form.isPackage := by
  cases form with
  | part form => cases form <;> rfl
  | _ => rfl

@[simp]
theorem isImport_filterMap (f : α → Option β) (form : Form α) :
    (form.filterMap f).isImport = form.isImport := by
  cases form with
  | part form => cases form <;> rfl
  | _ => rfl

end Form

namespace Pass

/-- The passes that imports ask for. -/
def triggered : List Pass :=
  [.accessors, .logging, .containers, .optional, .fileInputStream, .stringWriter]

/-- Whether the rule of a pass may replace nodes of a shape. -/
def actsOn {α : Type} : Pass → Form α → Bool
  | .accessors, .member (.classType ..) => true
  | .logging, .expr (.call ..) | .logging, .part (.annotationUse ..) => true
  | .optional, .expr (.call ..) | .optional, .type (.named ..) => true
  | .fileInputStream, .expr (.create ..) | .fileInputStream, .type (.named ..) => true
  | .containers, .type (.named ..) | .stringWriter, .type (.named ..) => true
  | _, _ => false

@[simp]
theorem actsOn_filterMap {α β : Type} (f : α → Option β) (form : Form α) :
    pass.actsOn (form.filterMap f) = pass.actsOn form := by
  rcases form with form | form | form | form | form | kind
  case foreign => cases pass <;> rfl
  all_goals cases form <;> cases pass <;> rfl

/-- Whether a pass leaves a node of a shape to its children. -/
structure Passive {α : Type} (pass : Pass) (form : Form α) : Prop where
  acts : pass.actsOn form = false
  package : form.isPackage = false
  importing : form.isImport = false

theorem Passive.filterMap {α β : Type} {form : Form α} (h : Passive pass form) (f : α → Option β) :
    Passive pass (form.filterMap f) :=
  ⟨by simpa using h.acts, by simpa using h.package, by simpa using h.importing⟩

/-- A pass goes through the children of a node that it does not act on. -/
theorem run?_passive (hpass : pass ∈ triggered) {form : Form Tree} (h : Passive pass form) :
    pass.run? mappings (.node trivia form) =
      some (.node trivia (form.filterMap (pass.run? mappings))) := by
  rw [run?_node mappings pass h.package h.importing]
  have hacts := h.acts
  rcases form with form | form | form | form | form | kind
  case foreign => cases pass <;> rfl
  all_goals
    cases pass
    case coreTypes => simp [triggered] at hpass
    case builtinCalls => simp [triggered] at hpass
    all_goals cases form <;> first | rfl | cases hacts

/-- Whether it does not matter which of two replacements comes first. -/
def Commute (p q : Tree → Option Tree) (t : Tree) : Prop := (p t).bind q = (q t).bind p

theorem Commute.symm {p q : Tree → Option Tree} (h : Commute p q t) : Commute q p t := Eq.symm h

/-- The children of a layer after two passes, in either order. -/
theorem filterMap_comm {p q : Tree → Option Tree} {form : Form Tree}
    (h : ∀ child ∈ form.children, Commute p q child) :
    (form.filterMap p).filterMap q = (form.filterMap q).filterMap p := by
  rw [Form.filterMap_filterMap, Form.filterMap_filterMap]
  exact Form.filterMap_congr h

/-- Two passes commute on a node that neither acts on. -/
theorem commute_passive (hpass : pass ∈ triggered) (hother : other ∈ triggered) {form : Form Tree}
    (h : Passive pass form) (h' : Passive other form)
    (hchildren : ∀ child ∈ form.children, Commute (pass.run? mappings) (other.run? mappings) child) :
    Commute (pass.run? mappings) (other.run? mappings) (.node trivia form) := by
  rw [Commute, run?_passive hpass h, run?_passive hother h', Option.bind_some, Option.bind_some,
    run?_passive hother (h'.filterMap _), run?_passive hpass (h.filterMap _),
    filterMap_comm hchildren]

/-! ### Types -/

/-- The table of types that a pass renames. -/
def table : Pass → List (String × String)
  | .containers => containerTypes
  | .fileInputStream => fileInputTypes
  | .stringWriter => stringWriterTypes
  | _ => []

/-- The name that a pass gives to a type. -/
def typeName (pass : Pass) (name : Word) : Word := (renamed? pass.table name).getD name

/-- Whether a pass leaves the scope of a type. -/
def keepsScope (pass : Pass) (name : Word) : Bool := (renamed? pass.table name).isNone

/-- Whether a type is marked after a pass. -/
def marks (pass : Pass) (name : Word) (orNull : Bool) : Bool :=
  orNull || (pass = .optional && name.isText "Optional")

theorem renameTypes_named (table : List (String × String)) (name : Word)
    (arguments : Option (List Tree)) (scope : Option Tree) (orNull : Bool) :
    renameTypes table (.node trivia (.type (.named name arguments scope orNull))) =
      .node trivia (.type (.named ((renamed? table name).getD name) arguments
        (if (renamed? table name).isNone then scope else none) orNull)) := by
  simp only [renameTypes, form_node]
  cases renamed? table name <;> rfl

theorem optional_named (before : Tree) (name : Word) (arguments : Option (List Tree))
    (scope : Option Tree) (orNull : Bool) :
    Lowering.optional before (.node trivia (.type (.named name arguments scope orNull))) =
      some (.node trivia (.type (.named name arguments scope
        (orNull || name.isText "Optional")))) := by
  rcases optional_cases before (.node trivia (.type (.named name arguments scope orNull))) with
    ⟨hnot, heq⟩ | ⟨-, ⟨_, _, _, hmark, heq⟩ | ⟨_, _, _, -, hempty, -⟩ | ⟨_, _, _, _, _, -, -, hvalue, -⟩⟩
  · have hsame : (orNull || name.isText "Optional") = orNull := by
      cases orNull with
      | true => rfl
      | false => simpa [isOptional] using hnot
    rw [heq, hsame]
  · cases hmark
    rw [heq]
    rfl
  · cases hempty
  · cases hvalue

/-- What a pass makes of a named type. -/
theorem run?_named (hpass : pass ∈ triggered) (name : Word) (arguments : Option (List Tree))
    (scope : Option Tree) (orNull : Bool) :
    pass.run? mappings (.node trivia (.type (.named name arguments scope orNull))) =
      some (.node trivia (.type (.named (pass.typeName name)
        (arguments.map (·.filterMap (pass.run? mappings)))
        (if pass.keepsScope name then scope.bind (pass.run? mappings) else none)
        (pass.marks name orNull)))) := by
  have hnamed : (Form.type (.named name arguments scope orNull)).filterMap (pass.run? mappings) =
      .type (.named name (arguments.map (·.filterMap (pass.run? mappings)))
        (scope.bind (pass.run? mappings)) orNull) := rfl
  have hmarks : pass ≠ .optional → pass.marks name orNull = orNull := by
    intro hne
    simp [marks, hne]
  cases pass with
  | coreTypes => simp [triggered] at hpass
  | builtinCalls => simp [triggered] at hpass
  | accessors => rw [run?_passive hpass ⟨rfl, rfl, rfl⟩, hnamed, hmarks nofun]; rfl
  | logging => rw [run?_passive hpass ⟨rfl, rfl, rfl⟩, hnamed, hmarks nofun]; rfl
  | containers =>
    rw [run?_node mappings .containers rfl rfl, hnamed, hmarks nofun]
    exact congrArg some (renameTypes_named containerTypes name _ _ orNull)
  | stringWriter =>
    rw [run?_node mappings .stringWriter rfl rfl, hnamed, hmarks nofun]
    exact congrArg some (renameTypes_named stringWriterTypes name _ _ orNull)
  | fileInputStream =>
    rw [run?_node mappings .fileInputStream rfl rfl, hnamed, hmarks nofun]
    exact congrArg some (renameTypes_named fileInputTypes name _ _ orNull)
  | optional =>
    rw [run?_node mappings .optional rfl rfl, hnamed]
    exact optional_named (.node trivia (.type (.named name arguments scope orNull))) name _ _ orNull

/-- The names that some pass looks for. -/
def knownTypes : List String :=
  ["List", "ArrayList", "InputStream", "FileInputStream", "StringWriter", "Optional"]

theorem renamed?_of_unknown {name : Word} (hname : ∀ word ∈ knownTypes, name ≠ .text word) :
    renamed? pass.table name = none := by
  cases hrenamed : renamed? pass.table name with
  | none => rfl
  | some mapped =>
    obtain ⟨entry, hentry, rfl, -⟩ := mem_of_renamed? hrenamed
    have hall : ∀ entry ∈ pass.table, entry.1 ∈ knownTypes := by cases pass <;> decide
    exact absurd rfl (hname entry.1 (hall entry hentry))

theorem typeName_comm (pass other : Pass) (name : Word) :
    pass.typeName (other.typeName name) = other.typeName (pass.typeName name) ∧
      (pass.keepsScope (other.typeName name) && other.keepsScope name) =
        (other.keepsScope (pass.typeName name) && pass.keepsScope name) ∧
      ∀ orNull, pass.marks (other.typeName name) (other.marks name orNull) =
        other.marks (pass.typeName name) (pass.marks name orNull) := by
  by_cases hknown : ∃ word ∈ knownTypes, name = .text word
  · obtain ⟨word, hword, rfl⟩ := hknown
    simp only [knownTypes, List.mem_cons, List.not_mem_nil, or_false] at hword
    rcases hword with rfl | rfl | rfl | rfl | rfl | rfl <;> cases pass <;> cases other <;>
      exact ⟨rfl, rfl, fun orNull => by cases orNull <;> rfl⟩
  · have hname : ∀ word ∈ knownTypes, name ≠ .text word := fun word hword h => hknown ⟨word, hword, h⟩
    have hoptional : name.isText "Optional" = false := 
      Bool.eq_false_iff.2 fun h => hname _ (by decide) (Value.isText_iff.1 h)
    simp [typeName, keepsScope, marks, renamed?_of_unknown hname, hoptional]

/-- A scope is left only if both passes leave it, and then it has gone through both. -/
theorem ite_bind_ite {a b c d : Bool} {x y : Option Tree} {p q : Tree → Option Tree}
    (h : (c && d) = (a && b)) (hxy : x.bind q = y.bind p) :
    (if a then (if b then x else none).bind q else none) =
      if c then (if d then y else none).bind p else none := by
  cases a <;> cases b <;> cases c <;> cases d <;> simp_all

theorem commute_named (hpass : pass ∈ triggered) (hother : other ∈ triggered) {name : Word}
    {arguments : Option (List Tree)} {scope : Option Tree} {orNull : Bool}
    (hchildren : ∀ child ∈ (Form.type (.named name arguments scope orNull)).children,
      Commute (pass.run? mappings) (other.run? mappings) child) :
    Commute (pass.run? mappings) (other.run? mappings)
      (.node trivia (.type (.named name arguments scope orNull))) := by
  obtain ⟨hname, hscope, hmark⟩ := typeName_comm pass other name
  have hform := filterMap_comm hchildren
  simp only [Form.filterMap, TypeForm.filterMap, Form.type.injEq, TypeForm.named.injEq, true_and,
    and_true] at hform
  obtain ⟨harguments, hscopes⟩ := hform
  rw [Commute, run?_named hpass, run?_named hother, Option.bind_some, Option.bind_some,
    run?_named hother, run?_named hpass, harguments, hname, hmark]
  rw [ite_bind_ite hscope hscopes]

/-! ### Annotations -/

/-- The annotation of a logger goes, and every other stays as it was. -/
theorem run?_logging_use (name : Word) (arguments : List Tree) :
    Pass.logging.run? mappings (.node trivia (.part (.annotationUse name arguments))) =
      if Text.afterLast '.' name.display = "Slf4j" then none
      else some (.node trivia (.part (.annotationUse name arguments))) :=
  run?_node mappings .logging rfl rfl

theorem commute_annotationUse (hpass : pass ∈ triggered) (hne : pass ≠ .logging) {name : Word}
    {arguments : List Tree} :
    Commute (Pass.logging.run? mappings) (pass.run? mappings)
      (.node trivia (.part (.annotationUse name arguments))) := by
  have hpassive : ∀ form : List Tree, Passive pass (Form.part (.annotationUse name form)) := by
    intro arguments
    cases pass <;> first | exact ⟨rfl, rfl, rfl⟩ | exact absurd rfl hne
  have hrun : ∀ arguments, pass.run? mappings (.node trivia (.part (.annotationUse name arguments))) =
      some (.node trivia (.part (.annotationUse name (arguments.filterMap (pass.run? mappings))))) :=
    fun arguments => run?_passive hpass (hpassive arguments)
  rw [Commute, run?_logging_use, hrun, Option.bind_some, run?_logging_use]
  split
  · rfl
  · rw [Option.bind_some, hrun]

/-! ### Object creations -/

theorem run?_ident (hpass : pass ∈ triggered) (trivia : Trivia) (name : Word) :
    pass.run? mappings (.node trivia (.expr (.ident name))) =
      some (.node trivia (.expr (.ident name))) :=
  run?_passive hpass ⟨by cases pass <;> rfl, rfl, rfl⟩

theorem isText_typeName (hpass : pass ∈ triggered) (hne : pass ≠ .fileInputStream) (name : Word) :
    (pass.typeName name).isText "FileInputStream" = name.isText "FileInputStream" := by
  unfold typeName
  cases hrenamed : renamed? pass.table name with
  | none => rfl
  | some mapped =>
    obtain ⟨entry, hentry, rfl, rfl⟩ := mem_of_renamed? hrenamed
    have hall : ∀ entry ∈ pass.table, (Value.text entry.2).isText "FileInputStream" = false ∧
        (Value.text entry.1).isText "FileInputStream" = false := by
      cases pass with
      | fileInputStream => exact absurd rfl hne
      | _ => decide
    rw [Option.getD_some, (hall entry hentry).1, (hall entry hentry).2]

/-- No pass but that of the file streams changes which types are named `FileInputStream`. -/
theorem run?_type (mappings : List (String × Value)) (hpass : pass ∈ triggered) (hne : pass ≠ .fileInputStream) (h : t.form.isType) :
    ∃ r, pass.run? mappings t = some r ∧ r.name?.any (·.isText "FileInputStream") =
      t.name?.any (·.isText "FileInputStream") := by
  obtain ⟨trivia, form⟩ := t
  cases form with
  | type form =>
    cases form with
    | named name arguments scope orNull =>
      exact ⟨_, run?_named hpass name arguments scope orNull, isText_typeName hpass hne name⟩
    | _ =>
      refine ⟨_, run?_passive hpass ⟨?_, rfl, rfl⟩, ?_⟩
      · cases pass <;> rfl
      · rw [name?_filterMap]
  | _ => cases h

/-- What the pass of the file streams makes of an object creation. -/
theorem run?_fileInputStream_create (slot : Option Tree) (arguments : List Tree)
    (body : Option (List Tree)) :
    Pass.fileInputStream.run? mappings (.node trivia (.expr (.create slot arguments body))) =
      if isPlainCreation "FileInputStream" (.node trivia (.expr (.create slot arguments body))) then
        some (.node (Trivia.at? trivia.position) (.expr (.call (.text "createReadStream")
          (arguments.filterMap (Pass.fileInputStream.run? mappings)) (some (ident "Fs")) [])))
      else some (.node trivia ((Form.expr (.create slot arguments body)).filterMap
        (Pass.fileInputStream.run? mappings))) := by
  rw [run?_node mappings .fileInputStream rfl rfl]
  cases slot with
  | none => rfl
  | some created =>
    cases body with
    | none => rfl
    | some members => rfl

/-- What the pass of the logger makes of a call: the target of a log level may become the console. -/
def consoleTarget (name : Word) (target : Option Tree) : Option Tree :=
  target.map fun target =>
    if target.isIdent "log" ∧ logLevels.any (name.isText ·) then
      inPlaceOf target (.expr (.ident (.text "console")))
    else target

theorem run?_logging_call (name : Word) (arguments : List Tree) (target : Option Tree)
    (typeArguments : List Tree) :
    Pass.logging.run? mappings (.node trivia (.expr (.call name arguments target typeArguments))) =
      some (.node trivia (.expr (.call name (arguments.filterMap (Pass.logging.run? mappings))
        (consoleTarget name (target.bind (Pass.logging.run? mappings)))
        (typeArguments.filterMap (Pass.logging.run? mappings))))) := by
  rw [run?_node mappings .logging rfl rfl]
  simp only [rule, Form.filterMap, ExprForm.filterMap]
  cases htarget : target.bind (Pass.logging.run? mappings) with
  | none => rfl
  | some target =>
    simp only [Lowering.logging, form_node, consoleTarget, Option.map_some]
    split <;> rfl

/-- The names of the calls that make optional values. -/
def factoryNames : List String := ["of", "ofNullable", "empty"]

/-- A pass goes through the children of a call, unless its name is a log level or that of a factory
and the pass looks for such calls. -/
theorem run?_call (hpass : pass ∈ triggered) {name : Word}
    (hlogging : pass = .logging → logLevels.any (name.isText ·) = false)
    (hoptional : pass = .optional → factoryNames.any (name.isText ·) = false)
    (arguments : List Tree) (target : Option Tree) (typeArguments : List Tree) :
    pass.run? mappings (.node trivia (.expr (.call name arguments target typeArguments))) =
      some (.node trivia ((Form.expr (.call name arguments target typeArguments)).filterMap
        (pass.run? mappings))) := by
  cases pass with
  | logging =>
    rw [run?_logging_call]
    have hsame : consoleTarget name (target.bind (Pass.logging.run? mappings)) =
        target.bind (Pass.logging.run? mappings) := by
      simp [consoleTarget, hlogging rfl]
    rw [hsame]
    rfl
  | optional =>
    rw [run?_node mappings .optional rfl rfl]
    have hname := hoptional rfl
    rcases optional_cases (.node trivia (.expr (.call name arguments target typeArguments)))
      (.node trivia ((Form.expr (.call name arguments target typeArguments)).filterMap
        (Pass.optional.run? mappings))) with
      ⟨-, heq⟩ | ⟨-, ⟨_, _, _, hmark, -⟩ | ⟨_, _, _, -, hempty, -⟩ | ⟨_, _, _, _, _, hof, -, hvalue, -⟩⟩
    · exact heq
    · cases hmark
    · obtain rfl := (ExprForm.call.inj (Form.expr.inj (node.inj hempty).2)).1
      cases hname
    · obtain rfl := (ExprForm.call.inj (Form.expr.inj (node.inj hvalue).2)).1
      rcases hof with rfl | rfl <;> cases hname
  | coreTypes => simp [triggered] at hpass
  | builtinCalls => simp [triggered] at hpass
  | _ => exact run?_passive hpass ⟨rfl, rfl, rfl⟩

theorem commute_create (hpass : pass ∈ triggered) (hne : pass ≠ .fileInputStream)
    {slot : Option Tree} {arguments : List Tree} {body : Option (List Tree)}
    (hslot : ∀ t ∈ slot, t.form.isType)
    (hchildren : ∀ child ∈ (Form.expr (.create slot arguments body)).children,
      Commute (Pass.fileInputStream.run? mappings) (pass.run? mappings) child) :
    Commute (Pass.fileInputStream.run? mappings) (pass.run? mappings)
      (.node trivia (.expr (.create slot arguments body))) := by
  have hpassive : ∀ slot arguments body,
      Passive pass (Form.expr (.create slot arguments body) : Form Tree) := by
    intro slot arguments body
    cases pass <;> first | exact ⟨rfl, rfl, rfl⟩ | exact absurd rfl hne
  have hsame : isPlainCreation "FileInputStream" (.node trivia
      (.expr (.create (slot.bind (pass.run? mappings)) (arguments.filterMap (pass.run? mappings))
        (body.map (·.filterMap (pass.run? mappings)))))) =
      isPlainCreation "FileInputStream" (.node trivia (.expr (.create slot arguments body))) := by
    cases slot with
    | none => rfl
    | some created =>
      obtain ⟨r, hr, hname⟩ := run?_type mappings hpass hne (hslot created rfl)
      cases body with
      | none => simpa [isPlainCreation, hr] using hname
      | some members => simp [isPlainCreation, hr]
  have hform : (Form.expr (.create slot arguments body)).filterMap (pass.run? mappings) =
      .expr (.create (slot.bind (pass.run? mappings)) (arguments.filterMap (pass.run? mappings))
        (body.map (·.filterMap (pass.run? mappings)))) := rfl
  have hcomm := filterMap_comm hchildren
  rw [Commute, run?_fileInputStream_create, run?_passive hpass (hpassive _ _ _), hform,
    Option.bind_some, run?_fileInputStream_create, hsame]
  split
  · obtain ⟨-, harguments, -⟩ := ExprForm.create.inj (Form.expr.inj hcomm)
    rw [Option.bind_some, run?_call hpass (fun _ => rfl) (fun _ => rfl), ← harguments]
    simp [Form.filterMap, ExprForm.filterMap, ident, plain, run?_ident hpass]
  · rw [Option.bind_some, run?_passive hpass ((hpassive _ _ _).filterMap _), hcomm]
    rfl

/-! ### Calls -/

theorem isIdent_renameTypes (word : String) (table : List (String × String)) (t : Tree) :
    (renameTypes table t).isIdent word = t.isIdent word := by
  rcases renameTypes_cases table t with ⟨-, heq⟩ | ⟨_, _, _, _, _, _, -, rfl, heq⟩
  · rw [heq]
  · rw [heq]
    rfl

/-- A pass makes no name out of anything else, but for the values in factories. -/
theorem isIdent_of_run? (hpass : pass ∈ triggered) (h : t.Everywhere Ready)
    (hfactory : pass = .optional → t.isFactory = false) (hrun : pass.run? mappings t = some r)
    (word : String) : r.isIdent word = t.isIdent word := by
  obtain ⟨trivia, form⟩ := t
  obtain ⟨-, halike⟩ := ready_rebuilt h fun child hchild =>
    leavesReady_run? mappings pass ((everywhere_node.1 h).2 child hchild)
  rcases run?_cases mappings pass trivia form with ⟨-, hkept⟩ | ⟨-, -, hrule⟩
  · rw [hkept] at hrun
    rw [Option.some.inj hrun]
  rw [hrule] at hrun
  rw [← isIdent_filterMap word (pass.run? mappings) trivia form]
  have hlike := halike.factory
  generalize hafter : node trivia (form.filterMap (pass.run? mappings)) = after at hrun hlike ⊢
  cases pass with
  | coreTypes => simp [triggered] at hpass
  | builtinCalls => simp [triggered] at hpass
  | containers => exact Option.some.inj hrun ▸ isIdent_renameTypes word _ _
  | stringWriter => exact Option.some.inj hrun ▸ isIdent_renameTypes word _ _
  | fileInputStream =>
    rcases fileInputStream_cases (.node trivia form) after with
      ⟨_, _, _, _, _, _, -, rfl, ⟨-, heq⟩ | ⟨-, heq⟩⟩ | ⟨heq, -⟩
    · rw [Option.some.inj (heq.symm.trans hrun)]
    · rw [← Option.some.inj (heq.symm.trans hrun)]
      rfl
    · rw [← Option.some.inj (heq.symm.trans hrun)]
      exact isIdent_renameTypes word _ _
  | accessors =>
    have haccessors : Lowering.accessors (.node trivia form) after = some r := hrun
    unfold Lowering.accessors at haccessors
    split at haccessors
    · next hform =>
      obtain ⟨trivia, form⟩ := after
      obtain rfl := hform
      rw [← Option.some.inj haccessors]
      rfl
    · rw [Option.some.inj haccessors]
  | logging =>
    rcases logging_cases (.node trivia form) after with
      ⟨-, heq⟩ | ⟨_, name, arguments, rfl, heq⟩ | ⟨-, _, _, _, _, _, rfl, -, heq⟩
    · rw [Option.some.inj (heq.symm.trans hrun)]
    · obtain ⟨old, rfl⟩ := Form.eq_annotationUse_of_filterMap (node.inj hafter).2
      have hkept := heq.symm.trans hrun
      split at hkept
      · cases hkept
      · rw [← Option.some.inj hkept]
        rfl
    · rw [← Option.some.inj (heq.symm.trans hrun)]
      rfl
  | optional =>
    rcases optional_cases (.node trivia form) after with ⟨-, heq⟩ | ⟨-, hmark | hempty | hvalue⟩
    · rw [Option.some.inj (heq.symm.trans hrun)]
    · obtain ⟨_, _, _, rfl, heq⟩ := hmark
      rw [← Option.some.inj (heq.symm.trans hrun)]
      rfl
    · obtain ⟨_, _, _, -, rfl, heq⟩ := hempty
      rw [← Option.some.inj (heq.symm.trans hrun)]
      rfl
    · obtain ⟨_, name, _, _, _, hname, -, rfl, -⟩ := hvalue
      have hnot := hlike (hfactory rfl)
      rcases hname with rfl | rfl <;> cases hnot

theorem run?_of_isIdent (hpass : pass ∈ triggered) {word : String} (h : t.isIdent word) :
    pass.run? mappings t = some t := by
  obtain ⟨trivia, form⟩ := t
  unfold isIdent at h
  split at h
  · next name hform =>
    obtain rfl : form = .expr (.ident name) := hform
    exact run?_ident hpass trivia name
  · cases h

/-- Replacing the target of a log level commutes with any pass that uncovers no logger. -/
theorem bind_consoleTarget (hpass : pass ∈ triggered) {name : Word} {target : Option Tree}
    (hready : ∀ t ∈ target, t.Everywhere Ready)
    (hfactory : pass = .optional → logLevels.any (name.isText ·) → ∀ t ∈ target, t.isFactory = false) :
    (consoleTarget name target).bind (pass.run? mappings) =
      consoleTarget name (target.bind (pass.run? mappings)) := by
  cases target with
  | none => rfl
  | some t =>
    by_cases hlevel : logLevels.any (name.isText ·) = true
    · by_cases hident : t.isIdent "log" = true
      · have hsame : pass.run? mappings t = some t := run?_of_isIdent hpass hident
        simp [consoleTarget, hlevel, hident, hsame, inPlaceOf, run?_ident hpass]
      · cases hrun : pass.run? mappings t with
        | none => simp [consoleTarget, hident, hrun]
        | some r =>
          have hnot := isIdent_of_run? hpass (hready t rfl)
            (fun hoptional => hfactory hoptional hlevel t rfl) hrun "log"
          simp [consoleTarget, hident, hrun, hnot]
    · simp [consoleTarget, hlevel]

theorem commute_logging_call (hpass : pass ∈ triggered) (hne : pass ≠ .logging) {name : Word}
    {arguments : List Tree} {target : Option Tree} {typeArguments : List Tree}
    (h : (node trivia (.expr (.call name arguments target typeArguments))).Everywhere Ready)
    (hname : pass = .optional → factoryNames.any (name.isText ·) = false)
    (hchildren : ∀ child ∈ (Form.expr (.call name arguments target typeArguments)).children,
      Commute (Pass.logging.run? mappings) (pass.run? mappings) child) :
    Commute (Pass.logging.run? mappings) (pass.run? mappings)
      (.node trivia (.expr (.call name arguments target typeArguments))) := by
  obtain ⟨hself, hbelow⟩ := everywhere_node.1 h
  obtain ⟨-, harguments, htarget, htypes⟩ := ExprForm.call.inj (Form.expr.inj (filterMap_comm hchildren))
  have hform : ∀ arguments target typeArguments,
      pass.run? mappings (.node trivia (.expr (.call name arguments target typeArguments))) =
        some (.node trivia (.expr (.call name (arguments.filterMap (pass.run? mappings))
          (target.bind (pass.run? mappings)) (typeArguments.filterMap (pass.run? mappings))))) :=
    fun arguments target typeArguments => 
      run?_call hpass (fun heq => absurd heq hne) hname arguments target typeArguments
  have hready : ∀ t ∈ target, t.Everywhere Ready := fun t ht =>
    hbelow t (Form.mem_children_call.2 (.inr (.inl ht)))
  -- The target after the pass of the logger is as ready as before, and no factory at a log level.
  have hlogged : (consoleTarget name (target.bind (Pass.logging.run? mappings))).bind
      (pass.run? mappings) =
      consoleTarget name ((target.bind (pass.run? mappings)).bind (Pass.logging.run? mappings)) := by
    rw [← htarget]
    apply bind_consoleTarget hpass
    · intro t ht
      obtain ⟨old, hold, hrun⟩ := Option.bind_eq_some_iff.1 ht
      exact (leavesReady_run? mappings .logging (hready old hold)).ready t hrun
    · intro hoptional hlevel t ht
      obtain ⟨old, rfl, hrun⟩ := Option.bind_eq_some_iff.1 ht
      have hfactory : (logLevels.any (name.isText ·) && old.isFactory) = false := hself.logger
      rw [hlevel, Bool.true_and] at hfactory
      exact ((leavesReady_run? mappings .logging (hready old rfl)).alike t hrun).factory hfactory
  rw [Commute, run?_logging_call, hform, Option.bind_some, Option.bind_some, hform,
    run?_logging_call, harguments, htypes, hlogged]

/-- No factory is named like a log level. -/
theorem logLevels_of_factory {name : Word} (h : factoryNames.any (name.isText ·)) :
    logLevels.any (name.isText ·) = false := by
  obtain ⟨word, hword, htext⟩ := List.any_eq_true.1 h
  rw [Value.isText_iff.1 htext]
  have hall : ∀ word ∈ factoryNames, logLevels.any ((Value.text word).isText ·) = false := by decide
  exact hall word hword

/-- A factory call stays one under every pass but that of optional values. -/
theorem isOptional_call (mappings : List (String × Value)) (hpass : pass ∈ triggered) (hne : pass ≠ .optional) {name : Word}
    {arguments : List Tree} {target : Option Tree} {typeArguments : List Tree}
    (h : (node trivia (.expr (.call name arguments target typeArguments))).Everywhere Ready) :
    (node trivia ((Form.expr (.call name arguments target typeArguments)).filterMap
        (pass.run? mappings))).isOptional =
      (node trivia (.expr (.call name arguments target typeArguments))).isOptional := by
  obtain ⟨hself, hbelow⟩ := everywhere_node.1 h
  cases target with
  | none => rfl
  | some target =>
    have htarget := hbelow target (Form.mem_children_call.2 (.inr (.inl rfl)))
    have hlength : (arguments.filterMap (pass.run? mappings)).length = arguments.length := by
      apply length_filterMap_of_isSome
      intro argument hargument
      exact (leavesReady_run? mappings pass
        (hbelow argument (Form.mem_children_call.2 (.inl hargument)))).isSome
        (hself.typed.values argument hargument)
    cases hrun : pass.run? mappings target with
    | none =>
      have hnot : target.isIdent "Optional" = false := by
        refine Bool.eq_false_iff.2 fun hident => ?_
        rw [run?_of_isIdent hpass hident] at hrun
        cases hrun
      simp [isOptional, Form.filterMap, ExprForm.filterMap, hrun, hnot]
    | some result =>
      have hident := isIdent_of_run? hpass htarget (fun heq => absurd heq hne) hrun "Optional"
      have hempty : (arguments.filterMap (pass.run? mappings)).isEmpty = arguments.isEmpty := by
        rw [Bool.eq_iff_iff, List.isEmpty_iff, List.isEmpty_iff, ← List.length_eq_zero_iff, hlength,
          List.length_eq_zero_iff]
      simp [isOptional, Form.filterMap, ExprForm.filterMap, hrun, hident, hlength, hempty]

theorem optional_empty (before : Tree) {owner : Tree} (h : owner.isIdent "Optional")
    (typeArguments : List Tree) :
    Lowering.optional before
        (.node trivia (.expr (.call (.text "empty") [] (some owner) typeArguments))) =
      some (.node (Trivia.at? trivia.position) (.expr (.literal (.text "null")))) := by
  simp only [Lowering.optional, form_node, h, if_true]
  rfl

theorem optional_value (before : Tree) {name : Word}
    (hname : name = .text "of" ∨ name = .text "ofNullable") {owner : Tree}
    (h : owner.isIdent "Optional") (value : Tree) (typeArguments : List Tree) :
    Lowering.optional before (.node trivia (.expr (.call name [value] (some owner) typeArguments))) =
      value.present? := by
  rcases hname with rfl | rfl <;> simp only [Lowering.optional, form_node, h, if_true]

/-- What takes the place of a factory call, and what takes the place of the call over the children
that another pass leaves. -/
theorem bind_optional_call (hpass : pass ∈ triggered) (hne : pass ≠ .optional) {name : Word}
    (hname : factoryNames.any (name.isText ·)) {arguments : List Tree} {target : Option Tree}
    {typeArguments : List Tree} (before : Tree)
    (h : (node trivia (.expr (.call name arguments target typeArguments))).Everywhere Ready) :
    (Lowering.optional before (.node trivia (.expr (.call name arguments target typeArguments)))).bind
        (pass.run? mappings) =
      Lowering.optional before (.node trivia ((Form.expr (.call name arguments target
        typeArguments)).filterMap (pass.run? mappings))) := by
  have hlevel := logLevels_of_factory hname
  have hsame := isOptional_call mappings hpass hne h
  have hident : ∀ t : Tree, t.isIdent "Optional" → pass.run? mappings t = some t := fun t ht =>
    run?_of_isIdent hpass ht
  rcases optional_cases before (.node trivia (.expr (.call name arguments target typeArguments))) with
    ⟨hnot, heq⟩ | ⟨-, ⟨_, _, _, hmark, -⟩ | ⟨_, owner, _, howner, hempty, heq⟩ |
      ⟨_, _, value, owner, _, hof, howner, hvalue, heq⟩⟩
  · rw [heq, Option.bind_some, run?_call hpass (fun _ => hlevel) (fun heq => absurd heq hne)]
    rcases optional_cases before (.node trivia ((Form.expr (.call name arguments target
      typeArguments)).filterMap (pass.run? mappings))) with ⟨-, heq'⟩ | ⟨htrigger, -⟩
    · rw [heq']
    · rw [hsame, hnot] at htrigger
      cases htrigger
  · cases hmark
  · obtain ⟨rfl, rfl, rfl, rfl⟩ := ExprForm.call.inj (Form.expr.inj (node.inj hempty).2)
    rw [optional_empty before howner, Option.bind_some,
      run?_passive hpass ⟨by cases pass <;> rfl, rfl, rfl⟩]
    simp only [Form.filterMap, ExprForm.filterMap, Option.bind_some, hident owner howner,
      List.filterMap_nil]
    rw [optional_empty before howner]
  · obtain ⟨rfl, rfl, rfl, rfl⟩ := ExprForm.call.inj (Form.expr.inj (node.inj hvalue).2)
    obtain ⟨hself, hbelow⟩ := everywhere_node.1 h
    have hexpr : value.form.isExpr := hself.typed.values value List.mem_cons_self
    have hleaves := leavesReady_run? mappings pass
      (hbelow value (Form.mem_children_call.2 (.inl List.mem_cons_self)))
    obtain ⟨result, hrun⟩ := Option.isSome_iff_exists.1 (hleaves.isSome hexpr)
    rw [optional_value before hof howner, present?_of_isExpr hexpr, Option.bind_some, hrun]
    simp only [Form.filterMap, ExprForm.filterMap, Option.bind_some, hident owner howner,
      List.filterMap_cons_some hrun, List.filterMap_nil]
    rw [optional_value before hof howner, present?_of_isExpr ((hleaves.alike result hrun).expr hexpr)]

theorem commute_factory_call (hpass : pass ∈ triggered) (hne : pass ≠ .optional) {name : Word}
    (hname : factoryNames.any (name.isText ·)) {arguments : List Tree} {target : Option Tree}
    {typeArguments : List Tree}
    (h : (node trivia (.expr (.call name arguments target typeArguments))).Everywhere Ready)
    (hchildren : ∀ child ∈ (Form.expr (.call name arguments target typeArguments)).children,
      Commute (Pass.optional.run? mappings) (pass.run? mappings) child) :
    Commute (Pass.optional.run? mappings) (pass.run? mappings)
      (.node trivia (.expr (.call name arguments target typeArguments))) := by
  obtain ⟨hafter, -⟩ := ready_rebuilt h fun child hchild =>
    leavesReady_run? mappings .optional ((everywhere_node.1 h).2 child hchild)
  have hlevel := logLevels_of_factory hname
  have hcomm := filterMap_comm hchildren
  rw [Commute, run?_node mappings .optional rfl rfl,
    run?_call hpass (fun _ => hlevel) (fun heq => absurd heq hne), Option.bind_some,
    run?_node mappings .optional rfl rfl, ← hcomm]
  exact bind_optional_call hpass hne hname (.node trivia (.expr (.call name arguments target
    typeArguments))) hafter

/-- Two passes commute on a call that neither looks for. -/
theorem commute_other_call (hpass : pass ∈ triggered) (hother : other ∈ triggered) {name : Word}
    (hlogging : logLevels.any (name.isText ·) = false ∨ pass ≠ .logging ∧ other ≠ .logging)
    (hoptional : factoryNames.any (name.isText ·) = false ∨ pass ≠ .optional ∧ other ≠ .optional)
    {arguments : List Tree} {target : Option Tree} {typeArguments : List Tree}
    (hchildren : ∀ child ∈ (Form.expr (.call name arguments target typeArguments)).children,
      Commute (pass.run? mappings) (other.run? mappings) child) :
    Commute (pass.run? mappings) (other.run? mappings)
      (.node trivia (.expr (.call name arguments target typeArguments))) := by
  have hgo : ∀ pass' : Pass, pass' = pass ∨ pass' = other →
      ∀ arguments target typeArguments, pass'.run? mappings
        (.node trivia (.expr (.call name arguments target typeArguments))) =
      some (.node trivia ((Form.expr (.call name arguments target typeArguments)).filterMap
        (pass'.run? mappings))) := by
    intro pass' hpass' arguments target typeArguments
    apply run?_call
    · rcases hpass' with rfl | rfl
      · exact hpass
      · exact hother
    · intro heq
      grind
    · intro heq
      grind
  have hcomm := filterMap_comm hchildren
  rw [Commute, hgo pass (.inl rfl), hgo other (.inr rfl), Option.bind_some, Option.bind_some]
  exact (hgo other (.inr rfl) _ _ _).trans
    ((congrArg (fun form => some (node trivia form)) hcomm).trans (hgo pass (.inl rfl) _ _ _).symm)

theorem commute_call (hpass : pass ∈ triggered) (hother : other ∈ triggered) (hne : pass ≠ other)
    {name : Word} {arguments : List Tree} {target : Option Tree} {typeArguments : List Tree}
    (h : (node trivia (.expr (.call name arguments target typeArguments))).Everywhere Ready)
    (hchildren : ∀ child ∈ (Form.expr (.call name arguments target typeArguments)).children,
      Commute (pass.run? mappings) (other.run? mappings) child) :
    Commute (pass.run? mappings) (other.run? mappings)
      (.node trivia (.expr (.call name arguments target typeArguments))) := by
  have hchildren' : ∀ child ∈ (Form.expr (.call name arguments target typeArguments)).children,
      Commute (other.run? mappings) (pass.run? mappings) child := fun child hchild =>
    (hchildren child hchild).symm
  by_cases hfactory : factoryNames.any (name.isText ·) = true
  · have hlevel := logLevels_of_factory hfactory
    by_cases hoptional : pass = .optional
    · subst hoptional
      exact commute_factory_call hother hne.symm hfactory h hchildren
    by_cases hoptional' : other = .optional
    · subst hoptional'
      exact (commute_factory_call hpass hne hfactory h hchildren').symm
    exact commute_other_call hpass hother (.inl hlevel) (.inr ⟨hoptional, hoptional'⟩) hchildren
  · rw [Bool.not_eq_true] at hfactory
    by_cases hlogging : pass = .logging
    · subst hlogging
      exact commute_logging_call hother hne.symm h (fun _ => hfactory) hchildren
    by_cases hlogging' : other = .logging
    · subst hlogging'
      exact (commute_logging_call hpass hne h (fun _ => hfactory) hchildren').symm
    exact commute_other_call hpass hother (.inr ⟨hlogging, hlogging'⟩) (.inl hfactory) hchildren

end Pass

end Recast
