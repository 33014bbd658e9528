import Mathlib
import Recast.Proofs.Render.Basic
import Recast.Proofs.Render.Uncommented
import Recast.Proofs.Yields

/-!
What the texts of types and modifiers are made of.

The text of a type is put together from the names in it and a few fixed texts. So a property of
texts holds of it if it holds of these and goes through appending and parentheses (`Composes`). The
same goes for type parameters and for lists of modifiers. The names that handlers and loops write are
names of their parts, and an import line has hardly a character that its name does not have.
-/

namespace Recast

/-- The first of some pieces, before those that end with a given one. -/
theorem intercalate_cons_concat (separator first last : String) (pieces : List String) :
    separator.intercalate (first :: (pieces ++ [last])) =
      first ++ separator ++ separator.intercalate (pieces ++ [last]) := by
  cases pieces <;> exact String.intercalate_cons_cons

/-- Whether a property of texts goes through the ways in which the text of a type is put
together. -/
structure Composes (Q : String → Prop) : Prop where
  append {a b : String} : Q a → Q b → Q (a ++ b)
  group {a : String} : Q a → Q ("(" ++ a ++ ")")
  fixed : ∀ text ∈ ["", ".", "<", ", ", ">", " | null", "[]", " | ", "any", "Array", "void",
    " extends ", " & "], Q text

namespace Composes

variable {Q : String → Prop} (hQ : Composes Q)

include hQ

theorem times {a : String} (h : Q a) (n : Nat) : Q (Text.times n a) := by
  induction n with
  | zero => exact hQ.fixed "" (by simp)
  | succ n ih => exact hQ.append h ih

theorem intercalate {separator : String} {pieces : List String} (hseparator : Q separator)
    (h : ∀ piece ∈ pieces, Q piece) : Q (separator.intercalate pieces) := by
  induction pieces with
  | nil => exact hQ.fixed "" (by simp)
  | cons first rest ih =>
    rw [List.forall_mem_cons] at h
    cases rest with
    | nil => simpa using h.1
    | cons second rest =>
      rw [String.intercalate_cons_cons]
      exact hQ.append (hQ.append h.1 hseparator) (ih h.2)

theorem join {pieces : List String} (h : ∀ piece ∈ pieces, Q piece) : Q (String.join pieces) := by
  induction pieces with
  | nil => exact hQ.fixed "" (by simp)
  | cons first rest ih =>
    rw [List.forall_mem_cons] at h
    rw [String.join_cons]
    exact hQ.append h.1 (ih h.2)

end Composes

/-- The name that a layer gives to the text of a type. -/
def Form.typeName? {α : Type} : Form α → Option Word
  | .type (.named name ..) | .type (.primitive name) | .part (.typeParameter name _) => some name
  | _ => none

/-- Whether the names in a type have a property. -/
def Tree.Named (Q : String → Prop) (t : Tree) : Prop := ∀ name ∈ t.form.typeName?, Q name.display

namespace Render

section Types

variable {Q : String → Prop} {t : Tree} (hQ : Composes Q)

include hQ

theorem qualifiedName_composes (h : t.Everywhere (Tree.Named Q)) : Q t.qualifiedName := by
  induction t using Tree.induct with
  | step trivia form ih =>
    have hnone := hQ.fixed "" (by simp)
    rw [Tree.qualifiedName, Tree.fold_node]
    obtain ⟨hself, hbelow⟩ := Tree.everywhere_node.1 h
    cases form with
    | type form =>
      cases form with
      | named name arguments scope orNull =>
        have hname : Q name.display := hself name rfl
        cases scope with
        | none => exact hname
        | some scope =>
          have hmem : scope ∈ (Form.type (.named name arguments (some scope) orNull)).children := by
            simp [Form.children, TypeForm.children]
          have hscope : Q scope.qualifiedName := ih scope hmem (hbelow scope hmem)
          exact hQ.append (hQ.append hscope (hQ.fixed "." (by simp))) hname
      | _ => exact hnone
    | _ => exact hnone

theorem elementText_composes {text : String} (h : Q text) : Q (elementText text) := by
  unfold elementText
  split
  · exact hQ.group h
  · exact h

omit hQ in
theorem typeTexts_yield {types : List Tree} (h : ∀ t ∈ types, Yields (typeText t) Q) :
    Yields ((types.map typeText).mapM id) fun texts => ∀ text ∈ texts, Q text := by
  rw [List.mapM_map]
  exact Yields.mapM h

/-- The text of a type. -/
theorem typeText_composes (h : t.Everywhere (Tree.Named Q)) : Yields (typeText t) Q := by
  induction t using Tree.induct with
  | step trivia form ih =>
    have hname := qualifiedName_composes hQ h
    have hany := hQ.fixed "any" (by simp)
    obtain ⟨hself, hbelow⟩ := Tree.everywhere_node.1 h
    replace ih := fun child hchild => ih child hchild (hbelow child hchild)
    rw [typeText_node]
    cases form with
    | type form =>
      cases form with
      | named name arguments scope orNull =>
        have harguments : ∀ t ∈ arguments.getD [], Yields (typeText t) Q :=
          fun t ht => ih t (List.mem_append_left _ ht)
        rcases orNull with _ | _
        · rcases arguments with _ | _ | ⟨first, rest⟩
          · exact Yields.pure hname
          · exact Yields.pure hname
          · refine (typeTexts_yield harguments).bind fun texts htexts => Yields.pure ?_
            have hinner := hQ.intercalate (hQ.fixed ", " (by simp)) htexts
            exact hQ.append (hQ.append (hQ.append hname (hQ.fixed "<" (by simp))) hinner)
              (hQ.fixed ">" (by simp))
        · rcases arguments with _ | _ | ⟨argument, _ | ⟨second, rest⟩⟩
          · exact Yields.error
          · exact Yields.error
          · refine (harguments argument List.mem_cons_self).bind fun text htext => Yields.pure ?_
            exact hQ.append htext (hQ.fixed " | null" (by simp))
          · exact Yields.error
      | primitive name => exact Yields.pure (hself name rfl)
      | array element dimensions =>
        have helement : Yields ((element.map typeText).getD (.ok "any")) Q := by
          cases element with
          | none => exact Yields.pure hany
          | some element => exact ih element List.mem_cons_self
        refine helement.bind fun text htext => Yields.pure ?_
        exact hQ.append (elementText_composes hQ htext) (hQ.times (hQ.fixed "[]" (by simp)) _)
      | union elements =>
        refine (typeTexts_yield ih).bind fun texts htexts => Yields.pure ?_
        exact hQ.intercalate (hQ.fixed " | " (by simp)) htexts
      | void => exact Yields.pure (hQ.fixed "void" (by simp))
      | wildcard bound kind =>
        rcases bound with _ | bound
        · exact Yields.pure hany
        · rcases kind with _ | _ | _
          · exact Yields.pure hany
          · exact ih bound List.mem_cons_self
          · exact Yields.pure hany
      | bare => exact Yields.pure hany
    | _ => exact Yields.pure hany

theorem slotTypeText_composes {slot : Option Tree} (h : ∀ t ∈ slot, t.Everywhere (Tree.Named Q)) :
    Yields (slotTypeText slot) Q := by
  cases slot with
  | none => exact Yields.pure (hQ.fixed "any" (by simp))
  | some t => exact typeText_composes hQ (h t rfl)

theorem arrayTypeText_composes {slot : Option Tree} (h : ∀ t ∈ slot, t.Everywhere (Tree.Named Q))
    (dimensions : Int) : Yields (arrayTypeText slot dimensions) Q := by
  refine (slotTypeText_composes hQ h).bind fun text htext => Yields.pure ?_
  exact hQ.append (elementText_composes hQ htext) (hQ.times (hQ.fixed "[]" (by simp)) _)

theorem variableType_composes {base : Option Tree} (h : ∀ t ∈ base, t.Everywhere (Tree.Named Q))
    (dimensions : Int) : Yields (slotTypeText (Tree.variableType base dimensions)) Q := by
  rw [slotTypeText_variableType]
  split
  · exact slotTypeText_composes hQ h
  · split
    · rename_i element outer
      apply arrayTypeText_composes hQ
      intro t ht
      exact (h _ rfl).child (by simpa [Form.children, TypeForm.children] using ht)
    · exact arrayTypeText_composes hQ h dimensions

theorem runtimeName_composes {slot : Option Tree} (h : ∀ t ∈ slot, t.Everywhere (Tree.Named Q)) :
    Yields (runtimeName slot) Q := by
  unfold runtimeName
  split
  · cases slot with
    | none => exact Yields.pure (hQ.fixed "" (by simp))
    | some t => exact Yields.pure (qualifiedName_composes hQ (h t rfl))
  · exact Yields.pure (hQ.fixed "Array" (by simp))
  · exact slotTypeText_composes hQ h

theorem typeParameterText_composes (h : t.Everywhere (Tree.Named Q)) :
    Yields (typeParameterText t) Q := by
  unfold typeParameterText
  have hself := h.self
  unfold Tree.Named at hself
  split
  · rename_i name hform
    rw [hform] at hself
    exact Yields.pure (hself name rfl)
  · rename_i name bounds _ hform
    rw [hform] at hself
    have hbounds : ∀ bound ∈ bounds, Yields (typeText bound) Q := fun bound hbound =>
      typeText_composes hQ (h.child (by rw [hform]; exact hbound))
    refine (Yields.mapM hbounds).bind fun texts htexts => Yields.pure ?_
    exact hQ.append (hQ.append (hself name rfl) (hQ.fixed " extends " (by simp)))
      (hQ.intercalate (hQ.fixed " & " (by simp)) htexts)
  · exact Yields.pure (hQ.fixed "" (by simp))

theorem typeParametersText_composes {types : List Tree}
    (h : ∀ t ∈ types, t.Everywhere (Tree.Named Q)) : Yields (typeParametersText types) Q := by
  cases types with
  | nil => exact Yields.pure (hQ.fixed "" (by simp))
  | cons first rest =>
    have htypes : ∀ t ∈ first :: rest, Yields (typeParameterText t) Q :=
      fun t ht => typeParameterText_composes hQ (h t ht)
    refine (Yields.mapM htypes).bind fun texts htexts => Yields.pure ?_
    exact hQ.append (hQ.append (hQ.fixed "<" (by simp))
      (hQ.intercalate (hQ.fixed ", " (by simp)) htexts)) (hQ.fixed ">" (by simp))

end Types

/-! ### Modifiers -/

/-- Words collected without repetition are some of those given. -/
theorem mem_of_mem_foldl {words given : List String} {word : String}
    (h : word ∈ given.foldl (fun words word => if word ∈ words then words else words ++ [word]) words) :
    word ∈ words ∨ word ∈ given := by
  induction given generalizing words with
  | nil => exact .inl h
  | cons first rest ih =>
    rw [List.foldl_cons] at h
    rcases ih h with hwords | hrest
    · by_cases hknown : first ∈ words
      · rw [if_pos hknown] at hwords
        exact .inl hwords
      · rw [if_neg hknown] at hwords
        rcases List.mem_append.1 hwords with hwords | hfirst
        · exact .inl hwords
        · exact .inr (List.mem_cons.2 (.inl (List.mem_singleton.1 hfirst)))
    · exact .inr (List.mem_cons_of_mem _ hrest)

/-- The words that modifiers are spelled with, apart from the comment for a `final` parameter. -/
def modifierWords : List String :=
  ["public", "protected", "private", "abstract", "static", "const", "readonly", "export"]

theorem mem_modifierWords (context : ModifierContext) (topLevel commentFinal : Bool) :
    ∀ m ∈ Modifier.all, ∀ word ∈ m.spell context topLevel commentFinal,
      word ∈ modifierWords ∨ commentFinal = true ∧ word = "/*const*/" := by
  cases context <;> cases topLevel <;> cases commentFinal <;> decide

/-- A list of modifiers, from the words that they are spelled with. -/
theorem renderAll_composes {Q : String → Prop} (hQ : Composes Q) (hblank : Q " ")
    {modifiers : List Modifier} {context : ModifierContext} {topLevel commentFinal : Bool}
    (hwords : ∀ word ∈ modifierWords, Q word) (hcomment : commentFinal = true → Q "/*const*/") :
    Q (Modifier.renderAll modifiers context topLevel commentFinal) := by
  apply hQ.join
  intro piece hpiece
  obtain ⟨word, hword, rfl⟩ := List.mem_map.1 hpiece
  obtain ⟨slot, -, hslot⟩ := List.mem_flatMap.1 hword
  have hspelled := (mem_of_mem_foldl hslot).resolve_left List.not_mem_nil
  obtain ⟨modifier, -, hspell⟩ := List.mem_filterMap.1 hspelled
  refine hQ.append ?_ hblank
  rcases mem_modifierWords context topLevel commentFinal modifier (by cases modifier <;> decide)
    word hspell with hmem | ⟨hfinal, rfl⟩
  · exact hwords word hmem
  · exact hcomment hfinal

/-! ### Handlers and loops -/

section Handlers

variable {P : Tree → Prop} {t : Tree}

theorem present?_eq_some {type : Tree} (h : t.present? = some type) : type = t := by
  unfold Tree.present? at h
  split at h
  · split at h
    · cases h
    · exact (Option.some.inj h).symm
  · exact (Option.some.inj h).symm

/-- What a handler catches stands in it. -/
theorem everywhere_of_mem_caughtTypes (h : t.Everywhere P) {type : Tree}
    (htype : some type ∈ caughtTypes t) : type.Everywhere P := by
  unfold caughtTypes at htype
  split at htype
  · rename_i trivia name caught modifiers annotations isVarargs body hform
    have hmem : .node trivia (.part (.parameter name caught modifiers annotations isVarargs)) ∈
        t.form.children := by
      simp [hform, Form.children, PartForm.children]
    have hbinding := h.child hmem
    have hcaught : ∀ u ∈ caught, u.Everywhere P := fun u hu =>
      hbinding.child (by simp [Form.children, PartForm.children, Option.mem_def.1 hu])
    split at htype
    · rename_i elements
      obtain ⟨element, helement, hpresent⟩ := List.mem_map.1 htype
      rw [present?_eq_some hpresent]
      exact (hcaught _ rfl).child helement
    · obtain rfl := List.mem_singleton.1 htype
      exact hcaught type rfl
  · simp at htype

theorem armType_eq_some {caught : Option Tree} {type : Tree} (h : armType caught = some type) :
    caught = some type := by
  unfold armType at h
  split at h
  · split at h
    · split at h
      · cases h
      · exact h
    · exact h
  · cases h

/-- A handler binds the name of its parameter. -/
theorem boundName_eq_name? (h : t.Everywhere P) :
    boundName t = .null ∨ ∃ binding, P binding ∧ binding.name? = some (boundName t) := by
  unfold boundName
  split
  · rename_i trivia name type modifiers annotations isVarargs body hform
    have hmem : .node trivia (.part (.parameter name type modifiers annotations isVarargs)) ∈
        t.form.children := by
      simp [hform, Form.children, PartForm.children]
    exact .inr ⟨_, (h.child hmem).self, rfl⟩
  · exact .inl rfl

/-- A loop declares the names of the variables in its declaration. -/
theorem exists_of_mem_loopVariables {binding : Option Tree}
    (h : ∀ t ∈ binding.toList, t.Everywhere P) {name : Word}
    (hname : name ∈ loopVariables (binding.map Tree.rendering)) :
    ∃ declared, P declared ∧ name = declared.name?.getD .null := by
  cases binding with
  | none => cases hname
  | some t =>
    have ht := h t (by simp)
    simp only [loopVariables, slotNode, Option.map_some, Tree.rendering_node] at hname
    split at hname
    · rename_i type bindings modifiers annotations hform
      obtain ⟨declared, hdeclared, rfl⟩ := List.mem_map.1 hname
      refine ⟨declared, (ht.child ?_).self, rfl⟩
      simp [Option.some.inj hform, Form.children, StmtForm.children, hdeclared]
    · rename_i type bindings modifiers annotations hform
      obtain ⟨declared, hdeclared, rfl⟩ := List.mem_map.1 hname
      refine ⟨declared, (ht.child ?_).self, rfl⟩
      simp [Option.some.inj hform, Form.children, MemberForm.children, hdeclared]
    · cases hname

end Handlers
/-! ### Import names -/

section Imports

open Specifier

theorem mem_of_mem_afterLast {separator c : Char} {text : String}
    (h : c ∈ (Text.afterLast separator text).toList) : c ∈ text.toList := by
  rw [Text.afterLast, String.toList_ofList, List.mem_reverse] at h
  exact List.mem_reverse.1 ((List.takeWhile_prefix _).subset h)

theorem mem_of_mem_beforeLast {separator c : Char} {text : String}
    (h : c ∈ (Text.beforeLast separator text).toList) : c ∈ text.toList := by
  rw [Text.beforeLast, String.toList_ofList, List.mem_reverse] at h
  exact List.mem_reverse.1 ((List.dropWhile_suffix _).subset (List.mem_of_mem_drop h))

theorem mem_of_mem_replaceMark {mark new text : List Char} {held : Nat} {c : Char}
    (h : c ∈ replaceMark mark new held text) : c ∈ text ∨ c ∈ new := by
  fun_induction replaceMark mark new held text with
  | case1 => cases h
  | case2 first rest n ih => exact (ih h).imp_left (List.mem_cons_of_mem _)
  | case3 first rest hmark ih =>
    rcases List.mem_append.1 h with hnew | hrest
    · exact .inr hnew
    · exact (ih hrest).imp_left (List.mem_cons_of_mem _)
  | case4 first rest hmark ih =>
    rcases List.mem_cons.1 h with rfl | hrest
    · exact .inl List.mem_cons_self
    · exact (ih hrest).imp_left (List.mem_cons_of_mem _)

theorem mem_of_mem_unescapePath {path : List Char} {c : Char} (h : c ∈ unescapePath path) :
    c ∈ path ∨ c = '.' := by
  rcases mem_of_mem_replaceMark h with hpairs | hdot
  · exact (mem_of_mem_replaceMark hpairs).imp_right fun hdots => by simpa using hdots
  · exact .inr (List.mem_singleton.1 hdot)

/-- A specifier has the characters of its dotted form, and those that a specifier starts or is
divided with. -/
theorem mem_of_mem_decode {dotted : String} {c : Char} (h : c ∈ (decode dotted).toList) :
    c ∈ dotted.toList ∨ c ∈ ['/', '.', '@'] := by
  have hpath : ∀ c ∈ dotted.toList.map fun c => if c = '.' then '/' else c,
      c ∈ dotted.toList ∨ c ∈ ['/', '.', '@'] := by
    refine List.forall_mem_map.2 fun c hc => ?_
    split
    · exact .inr (by simp)
    · exact .inl hc
  have hread {path : List Char} (hsub : path ⊆ dotted.toList.map fun c => if c = '.' then '/' else c)
      (hc : c ∈ unescapePath path) : c ∈ dotted.toList ∨ c ∈ ['/', '.', '@'] := by
    rcases mem_of_mem_unescapePath hc with hc | rfl
    · exact hpath c (hsub hc)
    · exact .inr (by simp)
  rw [decode, String.toList_ofList, decodeChars] at h
  split at h
  · rcases List.mem_cons.1 h with rfl | h
    · exact .inr (by simp)
    · exact hread (List.drop_subset _ _) h
  · split at h
    · rcases List.mem_cons.1 h with rfl | h
      · exact .inr (by simp)
      · rcases List.mem_cons.1 h with rfl | h
        · exact .inr (by simp)
        · exact hread (List.drop_subset _ _) h
    · exact hread (List.Subset.refl _) h

/-- Without a template an import declaration is an import line, of a symbol and a specifier with the
characters of its name. -/
theorem renderImport_null (decl : ImportName) : ∃ symbol moduleName : String,
    renderImport .null decl = .ok (importLine symbol moduleName decl.isAsterisk) ∧
      (∀ c ∈ symbol.toList, c ∈ decl.text.toList) ∧
      ∀ c ∈ moduleName.toList, c ∈ decl.text.toList ∨ c ∈ ['/', '.', '@'] := by
  cases hencoded : decl.encoded with
  | true =>
    refine ⟨Text.afterLast '.' decl.text, decode (Text.beforeLast '.' decl.text), ?_,
      fun c => mem_of_mem_afterLast, fun c hc => ?_⟩
    · simp [renderImport, hencoded, splitImportName]
    · exact (mem_of_mem_decode hc).imp_left mem_of_mem_beforeLast
  | false =>
    refine ⟨decl.identifier, Text.replaceChar '.' '/' decl.qualifier, ?_,
      fun c => mem_of_mem_afterLast, fun c hc => ?_⟩
    · simp [renderImport, hencoded]
    · rw [Text.replaceChar, String.toList_ofList] at hc
      obtain ⟨d, hd, rfl⟩ := List.mem_map.1 hc
      split
      · exact .inr (by simp)
      · exact .inl (mem_of_mem_beforeLast hd)

end Imports

end Render

end Recast
