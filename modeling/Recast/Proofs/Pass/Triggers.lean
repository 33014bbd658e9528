import Mathlib
import Recast.Pass
import Recast.Proofs.Tree.Substitute

/-!
What a pass looks for, and what its rule does there.

A pass rewrites the nodes that trigger it and leaves all others alone. `Pass.isTrigger` says which
nodes these are, in terms of the node alone. For each rule one lemma lists all that the rule can do
(`coreTypes_cases`, `builtinCalls_cases` and so on), with the trigger that goes with it.
-/

namespace Recast

open Recast.Lowering Recast.Tree

variable {mappings : List (String × Value)} {pass : Pass} {t r before after : Tree}

/-! ### Triggers -/

namespace Tree

/-- Whether a node is a named type whose name a table lists. -/
def isTypeIn (table : List (String × String)) (t : Tree) : Bool :=
  match t.form with
  | .type (.named name ..) => table.any fun entry => name.isText entry.1
  | _ => false

/-- Whether a node creates an object of a class without giving it a body. -/
def isPlainCreation (className : String) (t : Tree) : Bool :=
  match t.form with
  | .expr (.create (some created) _ none) => created.name?.any (·.isText className)
  | _ => false

/-- Whether a node is the type `boolean` and nothing more, its position aside. -/
def isPlainBoolean : Tree → Bool
  | .node trivia (.type (.named (.text "boolean") none none false)) => trivia.comments.isEmpty
  | _ => false

/-- Whether a node is a scalar type: a primitive, or a class without type arguments that has no scope
or that of `java.lang`. -/
def isScalar (t : Tree) : Bool :=
  match t.form with
  | .type (.primitive name) => scalarTypes.any fun entry => name.isText entry.1
  | .type (.named name arguments scope _) =>
    (scalarTypes.any fun entry => name.isText entry.1) && (arguments.getD []).isEmpty &&
      (scope.all fun scope => scope.qualifiedName = "java.lang") && !t.isPlainBoolean
  | _ => false

/-- Whether a node is a call that a comparison or the console stands for. -/
def isBuiltinCall (t : Tree) : Bool :=
  match t.form with
  | .expr (.call name arguments (some target) _) =>
    (name.isText "equals" && arguments.length = 1) ||
      ((name.isText "println" || name.isText "print") && (streamTarget? (some target)).isSome)
  | _ => false

/-- Whether a node is an optional type that is not marked, or a call that makes an optional value. -/
def isOptional (t : Tree) : Bool :=
  match t.form with
  | .type (.named name _ _ orNull) => name.isText "Optional" && !orNull
  | .expr (.call name arguments (some target) _) =>
    target.isIdent "Optional" && ((name.isText "empty" && arguments.isEmpty) ||
      ((name.isText "of" || name.isText "ofNullable") && arguments.length = 1))
  | _ => false

/-- Whether a node declares a logger or calls it. -/
def isLogging (t : Tree) : Bool :=
  match t.form with
  | .part (.annotationUse ..) => t.annotationName = "Slf4j"
  | .expr (.call name _ (some target) _) =>
    target.isIdent "log" && logLevels.any (name.isText ·)
  | _ => false

/-- Whether a member is an instance field that asks for accessors. -/
def isAccessorField (t : Tree) : Bool :=
  match t.form with
  | .member (.field _ _ modifiers annotations) =>
    decide (.static ∉ modifiers) && annotations.any (·.annotationName ∈ fieldAnnotations)
  | _ => false

/-- Whether a node is a class that asks for members, itself or through its fields. -/
def isAccessorClass (t : Tree) : Bool :=
  match t.form with
  | .member (.classType _ _ annotations _ _ _ members false) =>
    annotations.any (·.annotationName ∈ classAnnotations) || members.any isAccessorField
  | _ => false

end Tree

namespace Pass

/-- Whether a node is one that a pass rewrites. -/
def isTrigger : Pass → Tree → Bool
  | .coreTypes, t => t.isScalar
  | .builtinCalls, t => t.isBuiltinCall
  | .accessors, t => t.isAccessorClass
  | .logging, t => t.isLogging
  | .containers, t => t.isTypeIn containerTypes
  | .optional, t => t.isOptional
  | .fileInputStream, t => t.isTypeIn fileInputTypes || t.isPlainCreation "FileInputStream"
  | .stringWriter, t => t.isTypeIn stringWriterTypes

end Pass

/-! ### What each rule does -/

theorem Value.isText_iff {s : String} {value : Value} : value.isText s = true ↔ value = .text s := by
  cases value <;> simp [Value.isText, Value.text?]

namespace Lowering

theorem eq_of_present? (h : t.present? = some r) : t = r := by
  unfold present? at h
  split at h
  · split at h
    · cases h
    · exact Option.some.inj h
  · exact Option.some.inj h

theorem renamed?_eq_none_iff {table : List (String × String)} {name : Word} :
    renamed? table name = none ↔ (table.any fun entry => name.isText entry.1) = false := by
  simp [renamed?]

theorem mem_of_renamed? {table : List (String × String)} {name mapped : Word}
    (h : renamed? table name = some mapped) :
    ∃ entry ∈ table, name = .text entry.1 ∧ mapped = .text entry.2 := by
  obtain ⟨entry, hfind, rfl⟩ := Option.map_eq_some_iff.1 h
  have hname := List.find?_some hfind
  exact ⟨entry, List.mem_of_find?_eq_some hfind, Value.isText_iff.1 hname, rfl⟩

/-- A type is renamed and loses its scope, or stays. -/
theorem renameTypes_cases (table : List (String × String)) (t : Tree) :
    (t.isTypeIn table = false ∧ renameTypes table t = t) ∨
      ∃ trivia name arguments scope orNull mapped, renamed? table name = some mapped ∧
        t = .node trivia (.type (.named name arguments scope orNull)) ∧
        renameTypes table t = .node trivia (.type (.named mapped arguments none orNull)) := by
  obtain ⟨trivia, form⟩ := t
  unfold renameTypes
  split
  · next name arguments scope orNull hform =>
    obtain rfl : form = .type (.named name arguments scope orNull) := hform
    split
    · next mapped hmapped => exact .inr ⟨_, _, _, _, _, mapped, hmapped, rfl, rfl⟩
    · next hnone => exact .inl ⟨renamed?_eq_none_iff.1 hnone, rfl⟩
  · next hother =>
    left
    constructor
    · unfold isTypeIn
      split
      · next name arguments scope orNull hform => exact absurd hform (hother name arguments scope orNull)
      · rfl
    · rfl

theorem scalarType?_nil (name : Word) : scalarType? [] name = renamed? scalarTypes name := by
  unfold scalarType?
  cases name.text? <;> rfl

/-- The names of TypeScript's scalar types. -/
def scalarNames : List String := ["string", "number", "boolean"]

theorem scalarType?_mem {name mapped : Word} (h : scalarType? [] name = some mapped) :
    ∃ word ∈ scalarNames, mapped = .text word := by
  rw [scalarType?_nil] at h
  obtain ⟨entry, hentry, -, rfl⟩ := mem_of_renamed? h
  have hall : ∀ entry ∈ scalarTypes, entry.2 ∈ scalarNames := by decide
  exact ⟨entry.2, hall entry hentry, rfl⟩

theorem inPlaceOf_of_isPlainBoolean (h : t.isPlainBoolean) :
    inPlaceOf t (.type (.named (.text "boolean") none none false)) = t := by
  unfold isPlainBoolean at h
  split at h
  · next trivia =>
    obtain ⟨position, comment, orphans⟩ := trivia
    simp only [Trivia.comments, List.isEmpty_iff, List.append_eq_nil_iff] at h
    obtain ⟨hcomment, rfl⟩ := h
    obtain rfl : comment = none := by simpa using hcomment
    rfl
  · cases h

theorem hasArguments_named {trivia : Trivia} {name : Word} {arguments : Option (List Tree)}
    {scope : Option Tree} {orNull : Bool} :
    hasArguments (.node trivia (.type (.named name arguments scope orNull))) =
      !(arguments.getD []).isEmpty := by
  rcases arguments with _ | _ | ⟨first, rest⟩ <;> rfl

theorem isScalarScope_eq (scope : Option Tree) :
    isScalarScope scope = scope.all fun scope => scope.qualifiedName = "java.lang" := by
  cases scope <;> simp [isScalarScope]

theorem isScalar_named {trivia : Trivia} {name : Word} {arguments : Option (List Tree)}
    {scope : Option Tree} {orNull : Bool}
    (h : ¬ (isScalarScope scope ∧
      ¬ hasArguments (.node trivia (.type (.named name arguments scope orNull))))) :
    (node trivia (.type (.named name arguments scope orNull))).isScalar = false := by
  rw [hasArguments_named, isScalarScope_eq] at h
  simp only [isScalar, form_node]
  grind

/-- A scalar type gets its name of TypeScript, an object creation keeps its class, and all else
stays. -/
theorem coreTypes_cases (before after : Tree) :
    (after.isScalar = false ∧ coreTypes [] before after = some after) ∨
      (after.isScalar = true ∧ ∃ word ∈ scalarNames, coreTypes [] before after =
        some (inPlaceOf after (.type (.named (.text word) none none false)))) ∨
      ∃ trivia created oldArguments oldBody slot arguments body,
        before.form = .expr (.create (some created) oldArguments oldBody) ∧
        after = .node trivia (.expr (.create slot arguments body)) ∧
        coreTypes [] before after = some (.node trivia (.expr
          (.create (if hasArguments created then slot else some created) arguments body))) := by
  obtain ⟨trivia, form⟩ := after
  unfold coreTypes
  split
  · next name arguments scope orNull hform =>
    obtain rfl : form = .type (.named name arguments scope orNull) := hform
    split
    · next hcondition =>
      cases hname : scalarType? [] name with
      | none =>
        rw [scalarType?_nil] at hname
        exact .inl ⟨by simp [isScalar, renamed?_eq_none_iff.1 hname], rfl⟩
      | some mapped =>
        obtain ⟨word, hword, rfl⟩ := scalarType?_mem hname
        by_cases hplain : (node trivia (.type (.named name arguments scope orNull))).isPlainBoolean
        · have hself := inPlaceOf_of_isPlainBoolean hplain
          obtain rfl : name = .text "boolean" := by
            unfold isPlainBoolean at hplain
            split at hplain
            · next heq => cases heq; rfl
            · cases hplain
          obtain rfl : word = "boolean" := by
            rw [scalarType?_nil] at hname
            exact (Value.text.inj (Option.some.inj hname)).symm
          exact .inl ⟨by simp [isScalar, hplain], congrArg some hself⟩
        · rw [scalarType?_nil] at hname
          have htable : (scalarTypes.any fun entry => name.isText entry.1) = true := by
            obtain ⟨entry, hentry, rfl, -⟩ := mem_of_renamed? hname
            exact List.any_eq_true.2 ⟨entry, hentry, Value.isText_iff.2 rfl⟩
          rw [isScalarScope_eq, hasArguments_named] at hcondition
          refine .inr (.inl ⟨?_, word, hword, rfl⟩)
          simp only [isScalar, form_node, htable, hcondition.1, hplain, Bool.true_and, Bool.and_true,
            Bool.not_false]
          simpa using hcondition.2
    · next hother => exact .inl ⟨isScalar_named hother, rfl⟩
  · next name hform =>
    obtain rfl : form = .type (.primitive name) := hform
    cases hname : scalarType? [] name with
    | none =>
      rw [scalarType?_nil] at hname
      exact .inl ⟨renamed?_eq_none_iff.1 hname, rfl⟩
    | some mapped =>
      obtain ⟨word, hword, rfl⟩ := scalarType?_mem hname
      rw [scalarType?_nil] at hname
      obtain ⟨entry, hentry, rfl, -⟩ := mem_of_renamed? hname
      exact .inr (.inl ⟨List.any_eq_true.2 ⟨entry, hentry, Value.isText_iff.2 rfl⟩, word, hword, rfl⟩)
  · next slot arguments body hform =>
    obtain rfl : form = .expr (.create slot arguments body) := hform
    split
    · next created _ _ hbefore =>
      exact .inr (.inr ⟨_, created, _, _, slot, arguments, body, hbefore, rfl, rfl⟩)
    · exact .inl ⟨rfl, rfl⟩
  · next hnamed hprimitive hcreate =>
    left
    constructor
    · unfold isScalar
      split
      · next hform => exact absurd hform (hprimitive _)
      · next hform => exact absurd hform (hnamed _ _ _ _)
      · rfl
    · rfl

/-- The names of the calls that take the place of printing. -/
def printNames : List String := ["log", "error", "write"]

theorem fst_mem_printNames {target : Option Tree} {stream : String × String}
    (h : streamTarget? target = some stream) : stream.1 ∈ printNames := by
  have hall : ∀ {handle : Word}, systemStream? handle = some stream → stream.1 ∈ printNames := by
    intro handle hhandle
    unfold systemStream? at hhandle
    split at hhandle
    · cases hhandle
      decide
    · cases hhandle
      decide
    · cases hhandle
  unfold streamTarget? at h
  split at h
  · split at h
    · exact hall h
    · cases h
  · cases h

/-- A comparison or a call to the console takes the place of a built-in call. -/
theorem builtinCalls_cases (before after : Tree) :
    (after.isBuiltinCall = false ∧ builtinCalls before after = some after) ∨
      after.isBuiltinCall = true ∧
      ((∃ trivia argument target typeArguments,
        after = .node trivia (.expr (.call (.text "equals") [argument] (some target) typeArguments)) ∧
        builtinCalls before after =
          some (inPlaceOf after (.expr (.binary (.text "==") (some target) argument.present?)))) ∨
      ∃ trivia name arguments target typeArguments, ∃ word ∈ printNames, ∃ target',
        (target' = ident "console" ∨ ∃ stream, target' =
          plain (.expr (.field (some (ident "process")) (.text stream)))) ∧
        after = .node trivia (.expr (.call name arguments (some target) typeArguments)) ∧
        builtinCalls before after =
          some (.node trivia (.expr (.call (.text word) arguments (some target') typeArguments)))) := by
  obtain ⟨trivia, form⟩ := after
  unfold builtinCalls
  split
  · next argument target typeArguments hform =>
    obtain rfl : form = .expr (.call (.text "equals") [argument] (some target) typeArguments) := hform
    exact .inr ⟨rfl, .inl ⟨_, argument, target, typeArguments, rfl, rfl⟩⟩
  · next name arguments target typeArguments hequals hform =>
    obtain rfl : form = .expr (.call name arguments target typeArguments) := hform
    split
    · next console stream hstream =>
      cases target with
      | none => cases hstream
      | some target =>
        refine .inr ⟨by simp [isBuiltinCall, hstream, Value.isText, Value.text?], .inr ?_⟩
        exact ⟨trivia, _, arguments, target, typeArguments, console, fst_mem_printNames hstream, _,
          .inl rfl, rfl, rfl⟩
    · next console stream hstream =>
      cases target with
      | none => cases hstream
      | some target =>
        refine .inr ⟨by simp [isBuiltinCall, hstream, Value.isText, Value.text?], .inr ?_⟩
        exact ⟨trivia, _, arguments, target, typeArguments, "write", by decide, _, .inr ⟨stream, rfl⟩,
          rfl, rfl⟩
    · next hprintln hprint =>
      refine .inl ⟨Bool.eq_false_iff.2 ?_, rfl⟩
      intro htrigger
      cases target with
      | none => cases htrigger
      | some target =>
        simp only [isBuiltinCall, form_node, Bool.or_eq_true, Bool.and_eq_true, Value.isText_iff,
          decide_eq_true_eq] at htrigger
        rcases htrigger with ⟨hname, hlength⟩ | ⟨hname, hstream⟩
        · obtain ⟨argument, rfl⟩ := List.length_eq_one_iff.1 hlength
          exact hequals argument target hname rfl rfl
        · obtain ⟨stream, hstream⟩ := Option.isSome_iff_exists.1 hstream
          rcases hname with rfl | rfl
          · exact hprintln _ _ rfl hstream
          · exact hprint _ _ rfl hstream
  · next hnone hcall =>
    refine .inl ⟨?_, rfl⟩
    unfold isBuiltinCall
    split
    · next hform => exact absurd hform (hcall _ _ _ _)
    · rfl

/-- An optional type is marked, and a call that makes an optional value becomes the value. -/
theorem optional_cases (before after : Tree) :
    (after.isOptional = false ∧ optional before after = some after) ∨
      after.isOptional = true ∧
      ((∃ trivia arguments scope,
        after = .node trivia (.type (.named (.text "Optional") arguments scope false)) ∧
        optional before after =
          some (.node trivia (.type (.named (.text "Optional") arguments scope true)))) ∨
      (∃ trivia target typeArguments, target.isIdent "Optional" ∧
        after = .node trivia (.expr (.call (.text "empty") [] (some target) typeArguments)) ∧
        optional before after = some (inPlaceOf after (.expr (.literal (.text "null"))))) ∨
      ∃ trivia name value target typeArguments, (name = .text "of" ∨ name = .text "ofNullable") ∧
        target.isIdent "Optional" ∧
        after = .node trivia (.expr (.call name [value] (some target) typeArguments)) ∧
        optional before after = value.present?) := by
  obtain ⟨trivia, form⟩ := after
  unfold optional
  split
  · next arguments scope orNull hform =>
    obtain rfl : form = .type (.named (.text "Optional") arguments scope orNull) := hform
    cases orNull with
    | false => exact .inr ⟨rfl, .inl ⟨_, _, _, rfl, rfl⟩⟩
    | true => exact .inl ⟨rfl, rfl⟩
  · next name arguments target typeArguments hform =>
    obtain rfl : form = .expr (.call name arguments (some target) typeArguments) := hform
    split
    · next hident =>
      split
      · refine .inr ⟨?_, .inr (.inl ⟨_, _, _, hident, rfl, rfl⟩)⟩
        simp [isOptional, hident, Value.isText, Value.text?]
      · refine .inr ⟨?_, .inr (.inr ⟨_, _, _, _, _, .inl rfl, hident, rfl, rfl⟩)⟩
        simp [isOptional, hident, Value.isText, Value.text?]
      · refine .inr ⟨?_, .inr (.inr ⟨_, _, _, _, _, .inr rfl, hident, rfl, rfl⟩)⟩
        simp [isOptional, hident, Value.isText, Value.text?]
      · next hempty hof hofNullable =>
        refine .inl ⟨Bool.eq_false_iff.2 ?_, rfl⟩
        intro htrigger
        simp only [isOptional, form_node, Bool.or_eq_true, Bool.and_eq_true, Value.isText_iff,
          decide_eq_true_eq, List.isEmpty_iff, hident, true_and] at htrigger
        rcases htrigger with ⟨rfl, rfl⟩ | ⟨hname, hlength⟩
        · exact hempty rfl rfl
        · obtain ⟨value, rfl⟩ := List.length_eq_one_iff.1 hlength
          rcases hname with rfl | rfl
          · exact hof value rfl rfl
          · exact hofNullable value rfl rfl
    · next hident =>
      refine .inl ⟨?_, rfl⟩
      simp [isOptional, hident]
  · next htype hcall =>
    refine .inl ⟨?_, rfl⟩
    unfold isOptional
    split
    · next name arguments scope orNull hform =>
      have hname : name.isText "Optional" = false := by
        refine Bool.eq_false_iff.2 fun hname => ?_
        rw [Value.isText_iff.1 hname] at hform
        exact htype _ _ _ hform
      rw [hname, Bool.false_and]
    · next hform => exact absurd hform (hcall _ _ _ _)
    · rfl

/-- The annotation of a logger goes, other annotations stay as they were, and the calls of the logger
go to the console. -/
theorem logging_cases (before after : Tree) :
    (after.isLogging = false ∧ logging before after = some after) ∨
      (∃ trivia name arguments, after = .node trivia (.part (.annotationUse name arguments)) ∧
        logging before after = if before.annotationName = "Slf4j" then none else some before) ∨
      after.isLogging = true ∧ ∃ trivia name arguments target typeArguments,
        after = .node trivia (.expr (.call name arguments (some target) typeArguments)) ∧
        target.isIdent "log" ∧ logging before after =
          some (.node trivia (.expr (.call name arguments
            (some (inPlaceOf target (.expr (.ident (.text "console"))))) typeArguments))) := by
  obtain ⟨trivia, form⟩ := after
  unfold logging
  split
  · next name arguments hform =>
    obtain rfl : form = .part (.annotationUse name arguments) := hform
    exact .inr (.inl ⟨_, _, _, rfl, rfl⟩)
  · next name arguments target typeArguments hform =>
    obtain rfl : form = .expr (.call name arguments (some target) typeArguments) := hform
    split
    · next htrigger =>
      exact .inr (.inr ⟨by simpa [isLogging] using htrigger, _, _, _, _, _, rfl, htrigger.1, rfl⟩)
    · next htrigger =>
      exact .inl ⟨by simpa [isLogging] using htrigger, rfl⟩
  · next huse hcall =>
    refine .inl ⟨?_, rfl⟩
    unfold isLogging
    split
    · next hform => exact absurd hform (huse _ _)
    · next hform => exact absurd hform (hcall _ _ _ _)
    · rfl

/-- Opening a file becomes a call, and the types of input streams are renamed. -/
theorem fileInputStream_cases (before after : Tree) :
    (∃ trivia created oldArguments slot arguments body,
        before.form = .expr (.create (some created) oldArguments none) ∧
        after = .node trivia (.expr (.create slot arguments body)) ∧
        ((before.isPlainCreation "FileInputStream" = false ∧ fileInputStream before after = some after) ∨
        before.isPlainCreation "FileInputStream" = true ∧ fileInputStream before after =
          some (inPlaceOf after
            (.expr (.call (.text "createReadStream") arguments (some (ident "Fs")) []))))) ∨
      fileInputStream before after = some (renameTypes fileInputTypes after) ∧ 
        ¬ (∃ created oldArguments slot arguments body, before.form = .expr (.create (some created) oldArguments none) ∧
           after.form = .expr (.create slot arguments body)) := by
  obtain ⟨trivia, form⟩ := after
  unfold fileInputStream
  split
  · next created oldArguments slot arguments body hbefore hform =>
    obtain rfl : form = .expr (.create slot arguments body) := hform
    refine .inl ⟨_, _, _, _, _, _, hbefore, rfl, ?_⟩
    split
    · next hname => exact .inr ⟨by rw [isPlainCreation, hbefore]; exact hname, rfl⟩
    · next hname => exact .inl ⟨by rw [isPlainCreation, hbefore]; exact Bool.eq_false_iff.2 hname, rfl⟩
  · next hother =>
    refine .inr ⟨rfl, ?_⟩
    rintro ⟨created, oldArguments, slot, arguments, body, hbefore, hform⟩
    exact hother _ _ _ _ _ hbefore hform

end Lowering

end Recast
