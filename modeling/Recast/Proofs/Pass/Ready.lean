import Mathlib
import Recast.Proofs.Pass.Run
import Recast.Proofs.Pass.Synthesized
import Recast.Proofs.Pass.Triggers

/-!
Trees on which passes do not get in each other's way.

Some passes look at the number of a call's arguments, at the class that an object creation names or at
whether a class has a parent. `Form.Typed` says that these slots hold expressions and types, as they
are meant to.
`Tree.logsFactory` is the one shape in which a pass uncovers what another looks for: a call of a log
level on what a factory of optional values makes. A node is `Ready` if it is typed and not of that
shape, and every pass leaves a tree of ready nodes as one (`leavesReady_run?`).
-/

namespace Recast

open Recast.Lowering Recast.Tree

variable {α β : Type}

namespace Form

def isExpr : Form α → Bool
  | .expr _ => true
  | _ => false

/-- The arguments of a call or of an object creation. -/
def values : Form α → List α
  | .expr (.call _ arguments _ _) => arguments
  | .expr (.create _ arguments _) => arguments
  | _ => []

/-- The class that an object creation names, or the parents that a class extends. -/
def bases : Form α → List α
  | .expr (.create slot _ _) => slot.toList
  | .member (.classType _ _ _ _ parents _ _ _) => parents
  | _ => []

/-- Whether the arguments of a layer are expressions, and the classes that it builds on are types. -/
structure Typed (form : Form Tree) : Prop where
  values : ∀ t ∈ form.values, t.form.isExpr
  bases : ∀ t ∈ form.bases, t.form.isType

@[simp]
theorem isExpr_filterMap (f : α → Option β) (form : Form α) :
    (form.filterMap f).isExpr = form.isExpr := by
  cases form <;> rfl

@[simp]
theorem isType_filterMap (f : α → Option β) (form : Form α) :
    (form.filterMap f).isType = form.isType := by
  cases form <;> rfl

theorem values_filterMap (f : α → Option β) (form : Form α) :
    (form.filterMap f).values = form.values.filterMap f := by
  cases form with
  | expr form => cases form <;> rfl
  | _ => rfl

theorem bases_filterMap (f : α → Option β) (form : Form α) :
    (form.filterMap f).bases = form.bases.filterMap f := by
  cases form with
  | expr form =>
    cases form with
    | create slot arguments body => exact toList_bind f slot
    | _ => rfl
  | member form => cases form <;> rfl
  | _ => rfl

theorem mem_children_of_mem_values {form : Form α} {a : α} (h : a ∈ form.values) :
    a ∈ form.children := by
  cases form with
  | expr form =>
    cases form with
    | call => exact mem_children_call.2 (.inl h)
    | create => exact mem_children_create.2 (.inr (.inl h))
    | _ => cases h
  | _ => cases h

theorem mem_children_of_mem_bases {form : Form α} {a : α} (h : a ∈ form.bases) :
    a ∈ form.children := by
  cases form with
  | expr form =>
    cases form with
    | create => exact mem_children_create.2 (.inl (Option.mem_toList.1 h))
    | _ => cases h
  | member form =>
    cases form with
    | classType name modifiers annotations typeParameters parents interfaces members isInterface =>
      have hparent : a ∈ parents := h
      simp [children, MemberForm.children, hparent]
    | _ => cases h
  | _ => cases h

end Form

namespace Tree

/-- Whether a node calls `of` or `ofNullable` with one argument. -/
def isFactory (t : Tree) : Bool :=
  match t.form with
  | .expr (.call name arguments _ _) =>
    (name.isText "of" || name.isText "ofNullable") && arguments.length = 1
  | _ => false

/-- Whether a node calls a log level on what a factory makes. -/
def logsFactory (t : Tree) : Bool :=
  match t.form with
  | .expr (.call name _ (some target) _) => logLevels.any (name.isText ·) && target.isFactory
  | _ => false

/-- Whether passes can be run in any order on a node. -/
structure Ready (t : Tree) : Prop where
  typed : t.form.Typed
  logger : t.logsFactory = false

/-- What a node and the node in its place have in common. -/
structure Alike (t r : Tree) : Prop where
  expr : t.form.isExpr → r.form.isExpr
  type : t.form.isType → r.form.isType
  factory : t.isFactory = false → r.isFactory = false

theorem Alike.refl (t : Tree) : Alike t t := ⟨id, id, id⟩

theorem Alike.trans {s t r : Tree} (h : Alike s t) (h' : Alike t r) : Alike s r :=
  ⟨h'.expr ∘ h.expr, h'.type ∘ h.type, h'.factory ∘ h.factory⟩

variable {t r : Tree}

/-- Only calls, object creations and classes can be other than ready. -/
theorem ready_of_values_eq_nil (hvalues : t.form.values = []) (hbases : t.form.bases = [])
    (hcall : t.logsFactory = false) : t.Ready :=
  ⟨⟨by simp [hvalues], by simp [hbases]⟩, hcall⟩

/-- What takes the place of a node: something like it, made of ready nodes, and never nothing for an
expression. -/
structure LeavesReady (t : Tree) (result : Option Tree) : Prop where
  isSome : t.form.isExpr → result.isSome
  alike : ∀ r, result = some r → Alike t r
  ready : ∀ r, result = some r → r.Everywhere Ready

theorem LeavesReady.of_some (halike : Alike t r) (hready : r.Everywhere Ready) :
    LeavesReady t (some r) :=
  ⟨fun _ => rfl, fun _ h => Option.some.inj h ▸ halike, fun _ h => Option.some.inj h ▸ hready⟩

theorem LeavesReady.refl (h : t.Everywhere Ready) : LeavesReady t (some t) :=
  .of_some (.refl t) h

theorem LeavesReady.of_alike {s : Tree} {result : Option Tree} (halike : Alike s t)
    (h : LeavesReady t result) : LeavesReady s result :=
  ⟨h.isSome ∘ halike.expr, fun r hr => halike.trans (h.alike r hr), h.ready⟩

end Tree

theorem length_filterMap_of_isSome {f : α → Option β} {l : List α} (h : ∀ a ∈ l, (f a).isSome) :
    (l.filterMap f).length = l.length := by
  induction l with
  | nil => rfl
  | cons a l ih =>
    obtain ⟨b, hb⟩ := Option.isSome_iff_exists.1 (h a List.mem_cons_self)
    rw [List.filterMap_cons_some hb, List.length_cons, List.length_cons,
      ih fun a ha => h a (List.mem_cons_of_mem _ ha)]

namespace Tree

variable {trivia : Trivia} {form : Form Tree} {f : Tree → Option Tree}

/-- A node over children that stay ready stays ready, and is like what it was. -/
theorem ready_rebuilt (h : (node trivia form).Everywhere Ready)
    (hf : ∀ child ∈ form.children, LeavesReady child (f child)) :
    (node trivia (form.filterMap f)).Everywhere Ready ∧
      Alike (node trivia form) (node trivia (form.filterMap f)) := by
  obtain ⟨hself, hbelow⟩ := everywhere_node.1 h
  have hlength : ∀ child ∈ form.values, (f child).isSome := fun child hchild =>
    (hf child (Form.mem_children_of_mem_values hchild)).isSome (hself.typed.values child hchild)
  have htyped : (form.filterMap f).Typed := by
    constructor
    · intro t ht
      rw [Form.values_filterMap] at ht
      obtain ⟨old, hold, hnew⟩ := List.mem_filterMap.1 ht
      exact ((hf old (Form.mem_children_of_mem_values hold)).alike t hnew).expr
        (hself.typed.values old hold)
    · intro t ht
      rw [Form.bases_filterMap] at ht
      obtain ⟨old, hold, hnew⟩ := List.mem_filterMap.1 ht
      exact ((hf old (Form.mem_children_of_mem_bases hold)).alike t hnew).type
        (hself.typed.bases old hold)
  have hlogger : (node trivia (form.filterMap f)).logsFactory = false := by
    rcases form with form | form | form | form | form | kind
    case expr =>
      cases form with
      | call name arguments target typeArguments =>
        cases target with
        | none => rfl
        | some target =>
          have hold : (logLevels.any (name.isText ·) && target.isFactory) = false := hself.logger
          cases hnew : f target with
          | none => simp [logsFactory, Form.filterMap, ExprForm.filterMap, hnew]
          | some result =>
            have halike := (hf target (Form.mem_children_call.2 (.inr (.inl rfl)))).alike result hnew
            have hfactory := halike.factory
            simp only [logsFactory, form_node, Form.filterMap, ExprForm.filterMap, Option.bind_some,
              hnew]
            grind
      | _ => rfl
    all_goals rfl
  have hfactory : (node trivia form).isFactory = false →
      (node trivia (form.filterMap f)).isFactory = false := by
    rcases form with form | form | form | form | form | kind
    case expr =>
      cases form with
      | call name arguments target typeArguments =>
        intro hold
        have hsame : (arguments.filterMap f).length = arguments.length :=
          length_filterMap_of_isSome hlength
        simpa [isFactory, Form.filterMap, ExprForm.filterMap, hsame] using hold
      | _ => exact fun _ => rfl
    all_goals exact fun _ => rfl
  constructor
  · refine everywhere_node.2 ⟨⟨htyped, hlogger⟩, ?_⟩
    intro child hchild
    rw [Form.children_filterMap] at hchild
    obtain ⟨old, hold, hnew⟩ := List.mem_filterMap.1 hchild
    exact (hf old hold).ready child hnew
  · exact ⟨by simp, by simp, hfactory⟩

end Tree

/-! ### The rules -/

namespace Lowering

variable {before after r : Tree}

theorem leavesReady_renameTypes (table : List (String × String)) (h : after.Everywhere Ready) :
    LeavesReady after (some (renameTypes table after)) := by
  rcases renameTypes_cases table after with ⟨-, heq⟩ |
    ⟨trivia, name, arguments, scope, orNull, mapped, -, rfl, heq⟩
  · rw [heq]
    exact .refl h
  · rw [heq]
    refine .of_some ⟨id, id, id⟩ (everywhere_node.2 ⟨ready_of_values_eq_nil rfl rfl rfl, ?_⟩)
    intro child hchild
    apply h.child
    simp only [Form.children, TypeForm.children, Option.toList_none, List.append_nil] at hchild
    exact List.mem_append_left _ hchild

theorem isExpr_eq_false_of_isType {form : Form Tree} (h : form.isType) : form.isExpr = false := by
  cases form with
  | type => rfl
  | _ => cases h

/-- A node without children in place of a type. -/
theorem leavesReady_scalar (name : Word) (h : after.form.isType) :
    LeavesReady after (some (inPlaceOf after (.type (.named name none none false)))) := by
  apply LeavesReady.of_some
  · refine ⟨?_, fun _ => rfl, fun _ => rfl⟩
    intro hexpr
    rw [isExpr_eq_false_of_isType h] at hexpr
    cases hexpr
  · refine everywhere_node.2 ⟨ready_of_values_eq_nil rfl rfl rfl, ?_⟩
    simp [Form.children, TypeForm.children]

theorem leavesReady_coreTypes (mappings : List (String × Value)) (hbefore : before.Everywhere Ready)
    (h : after.Everywhere Ready) : LeavesReady after (coreTypes mappings before after) := by
  obtain ⟨trivia, form⟩ := after
  unfold coreTypes
  split
  · next name arguments scope orNull hform =>
    split
    · split
      · exact leavesReady_scalar _ (by rw [hform]; rfl)
      · exact .refl h
    · exact .refl h
  · next name hform =>
    split
    · exact leavesReady_scalar _ (by rw [hform]; rfl)
    · exact .refl h
  · next slot arguments body hform =>
    obtain rfl : form = .expr (.create slot arguments body) := hform
    split
    · next created _ _ hform =>
      split
      · exact .refl h
      · have hin : created ∈ before.form.bases := by simp [hform, Form.bases]
        have hold := hbefore.child (Form.mem_children_of_mem_bases hin)
        obtain ⟨hself, hbelow⟩ := everywhere_node.1 h
        refine .of_some ⟨id, id, id⟩ (everywhere_node.2 ⟨⟨⟨hself.typed.values, ?_⟩, rfl⟩, ?_⟩)
        · intro t ht
          obtain rfl := List.mem_singleton.1 ht
          exact hbefore.self.typed.bases t hin
        · intro child hchild
          rcases Form.mem_children_create.1 hchild with hcreated | hrest
          · exact Option.some.inj hcreated ▸ hold
          · exact hbelow child (Form.mem_children_create.2 (.inr hrest))
    · exact .refl h
  · exact .refl h

theorem ready_ident (trivia : Trivia) (name : Word) :
    (node trivia (.expr (.ident name))).Everywhere Ready :=
  everywhere_node.2 ⟨ready_of_values_eq_nil rfl rfl rfl, by simp [Form.children, ExprForm.children]⟩

/-- A call with another name and another target in place of a call. -/
theorem leavesReady_call {trivia : Trivia} {name name' : Word} {arguments typeArguments : List Tree}
    {target : Option Tree} {target' : Tree}
    (h : (node trivia (.expr (.call name arguments target typeArguments))).Everywhere Ready)
    (hname : (name'.isText "of" || name'.isText "ofNullable") = false ∨ name' = name)
    (htarget : target'.isFactory = false) (htarget' : target'.Everywhere Ready) :
    LeavesReady (.node trivia (.expr (.call name arguments target typeArguments)))
      (some (.node trivia (.expr (.call name' arguments (some target') typeArguments)))) := by
  obtain ⟨hself, hbelow⟩ := everywhere_node.1 h
  apply LeavesReady.of_some
  · refine ⟨fun _ => rfl, id, ?_⟩
    intro hold
    rcases hname with hname | rfl
    · simp [isFactory, hname]
    · exact hold
  · refine everywhere_node.2 ⟨⟨⟨hself.typed.values, nofun⟩, ?_⟩, ?_⟩
    · simp [logsFactory, htarget]
    · intro child hchild
      rcases Form.mem_children_call.1 hchild with hargument | hchild | htype
      · exact hbelow child (Form.mem_children_call.2 (.inl hargument))
      · exact Option.some.inj hchild ▸ htarget'
      · exact hbelow child (Form.mem_children_call.2 (.inr (.inr htype)))

theorem leavesReady_builtinCalls (before : Tree) (h : after.Everywhere Ready) :
    LeavesReady after (builtinCalls before after) := by
  rcases builtinCalls_cases before after with ⟨-, heq⟩ | ⟨-, hequals | hprint⟩
  · rw [heq]
    exact .refl h
  · obtain ⟨trivia, argument, target, typeArguments, rfl, heq⟩ := hequals
    rw [heq]
    refine .of_some ⟨fun _ => rfl, id, fun _ => rfl⟩
      (everywhere_node.2 ⟨ready_of_values_eq_nil rfl rfl rfl, ?_⟩)
    intro child hchild
    simp only [Form.children, ExprForm.children, List.mem_append, Option.mem_toList] at hchild
    rcases hchild with htarget | hargument
    · exact h.child (Form.mem_children_call.2 (.inr (.inl htarget)))
    · obtain rfl := eq_of_present? hargument
      exact h.child (Form.mem_children_call.2 (.inl List.mem_cons_self))
  · obtain ⟨trivia, name, arguments, target, typeArguments, word, hword, target', htarget, rfl, heq⟩ :=
      hprint
    rw [heq]
    apply leavesReady_call h
    · left
      simp only [printNames, List.mem_cons, List.not_mem_nil, or_false] at hword
      rcases hword with rfl | rfl | rfl <;> rfl
    · rcases htarget with rfl | ⟨stream, rfl⟩ <;> rfl
    · rcases htarget with rfl | ⟨stream, rfl⟩
      · exact ready_ident _ _
      · refine everywhere_node.2 ⟨ready_of_values_eq_nil rfl rfl rfl, ?_⟩
        intro child hchild
        obtain rfl : child = ident "process" := by
          simpa [Form.children, ExprForm.children] using hchild
        exact ready_ident _ _

theorem present?_of_isExpr {t : Tree} (h : t.form.isExpr) : t.present? = some t := by
  unfold present?
  split
  · next hform =>
    rw [hform] at h
    cases h
  · rfl

theorem leavesReady_optional (before : Tree) (h : after.Everywhere Ready) :
    LeavesReady after (optional before after) := by
  rcases optional_cases before after with ⟨-, heq⟩ | ⟨-, hmark | hempty | hvalue⟩
  · rw [heq]
    exact .refl h
  · obtain ⟨trivia, arguments, scope, rfl, heq⟩ := hmark
    rw [heq]
    obtain ⟨-, hbelow⟩ := everywhere_node.1 h
    exact .of_some ⟨id, id, id⟩ (everywhere_node.2 ⟨ready_of_values_eq_nil rfl rfl rfl, hbelow⟩)
  · obtain ⟨trivia, target, typeArguments, -, rfl, heq⟩ := hempty
    rw [heq]
    refine .of_some ⟨fun _ => rfl, id, fun _ => rfl⟩
      (everywhere_node.2 ⟨ready_of_values_eq_nil rfl rfl rfl, ?_⟩)
    simp [Form.children, ExprForm.children]
  · obtain ⟨trivia, name, value, target, typeArguments, hname, -, rfl, heq⟩ := hvalue
    have hexpr : value.form.isExpr := h.self.typed.values value List.mem_cons_self
    rw [heq, present?_of_isExpr hexpr]
    refine .of_some ⟨fun _ => hexpr, ?_, ?_⟩
      (h.child (Form.mem_children_call.2 (.inl List.mem_cons_self)))
    · intro htype
      cases htype
    · intro hnot
      rcases hname with rfl | rfl <;> cases hnot

theorem leavesReady_logging {f : Tree → Option Tree} {trivia : Trivia} {form : Form Tree}
    (hbefore : (node trivia form).Everywhere Ready)
    (h : (node trivia (form.filterMap f)).Everywhere Ready) :
    LeavesReady (.node trivia (form.filterMap f))
      (logging (.node trivia form) (.node trivia (form.filterMap f))) := by
  rcases logging_cases (.node trivia form) (.node trivia (form.filterMap f)) with
    ⟨-, heq⟩ | ⟨_, name, arguments, hafter, heq⟩ | ⟨-, hcall⟩
  · rw [heq]
    exact .refl h
  · obtain ⟨-, hform⟩ := node.inj hafter
    obtain ⟨old, rfl⟩ := Form.eq_annotationUse_of_filterMap hform
    rw [heq]
    split
    · exact ⟨nofun, nofun, nofun⟩
    · exact .of_some ⟨nofun, nofun, fun _ => rfl⟩ hbefore
  · obtain ⟨_, name, arguments, target, typeArguments, hafter, -, heq⟩ := hcall
    rw [heq]
    rw [hafter] at h ⊢
    exact leavesReady_call h (.inr rfl) rfl (ready_ident _ _)

theorem leavesReady_fileInputStream (before : Tree) (h : after.Everywhere Ready) :
    LeavesReady after (fileInputStream before after) := by
  rcases fileInputStream_cases before after with
    ⟨_, created, oldArguments, slot, arguments, body, -, rfl, ⟨-, heq⟩ | ⟨-, heq⟩⟩ | ⟨heq, -⟩
  · rw [heq]
    exact .refl h
  · rw [heq]
    obtain ⟨hself, hbelow⟩ := everywhere_node.1 h
    refine .of_some ⟨fun _ => rfl, id, fun _ => rfl⟩ (everywhere_node.2 ⟨⟨⟨hself.typed.values, nofun⟩, rfl⟩, ?_⟩)
    intro child hchild
    rcases Form.mem_children_call.1 hchild with hargument | htarget | htype
    · exact hbelow child (Form.mem_children_create.2 (.inr (.inl hargument)))
    · exact Option.some.inj htarget ▸ ready_ident _ _
    · cases htype
  · rw [heq]
    exact leavesReady_renameTypes _ h

theorem builds_ready : Builds (Everywhere Ready) := by
  intro form hform hchildren
  refine everywhere_node.2 ⟨?_, hchildren⟩
  rcases form with form | form | form | form | form | kind
  case expr =>
    cases form with
    | call => cases hform
    | create => cases hform
    | _ => exact ready_of_values_eq_nil rfl rfl rfl
  case member =>
    cases form with
    | classType => cases hform
    | _ => exact ready_of_values_eq_nil rfl rfl rfl
  all_goals exact ready_of_values_eq_nil rfl rfl rfl

theorem ready_stripField {member : Tree} (h : member.Everywhere Ready) :
    (stripField member).Everywhere Ready := by
  obtain ⟨trivia, form⟩ := member
  unfold stripField
  split
  · next slot bindings modifiers annotations hform =>
    obtain rfl : form = .member (.field slot bindings modifiers annotations) := hform
    split
    · exact h
    · refine everywhere_node.2 ⟨ready_of_values_eq_nil rfl rfl rfl, ?_⟩
      intro child hchild
      apply h.child
      rcases List.mem_append.1 hchild with hchild | hnote
      · exact List.mem_append_left _ hchild
      · exact List.mem_append_right _ (List.mem_of_mem_filter hnote)
  · exact h

theorem leavesReady_accessors (before : Tree) (h : after.Everywhere Ready) :
    LeavesReady after (accessors before after) := by
  obtain ⟨trivia, form⟩ := after
  unfold accessors
  split
  · next name modifiers annotations typeParameters parents interfaces members hform =>
    obtain rfl : form = .member (.classType name modifiers annotations typeParameters parents
      interfaces members false) := hform
    obtain ⟨hself, hbelow⟩ := everywhere_node.1 h
    have hmember : ∀ member ∈ members, member.Everywhere Ready := fun member hmem =>
      hbelow member (by simp [Form.children, MemberForm.children, hmem])
    refine .of_some ⟨id, id, fun _ => rfl⟩
      (everywhere_node.2 ⟨⟨⟨List.forall_mem_nil _, hself.typed.bases⟩, rfl⟩, ?_⟩)
    intro child hchild
    simp only [Form.children, MemberForm.children, List.mem_append] at hchild hbelow
    rcases hchild with (((hnote | hparameter) | hparent) | hinterface) | hold | hnew
    · exact hbelow child (by simp [List.mem_of_mem_filter hnote])
    · exact hbelow child (by simp [hparameter])
    · exact hbelow child (by simp [hparent])
    · exact hbelow child (by simp [hinterface])
    · obtain ⟨old, hmem, rfl⟩ := List.mem_map.1 hold
      exact ready_stripField (hmember old hmem)
    · refine builds_ready.synthesized ?_ child hnew
      intro field hfield
      obtain ⟨member, hmem, hfield⟩ := List.mem_flatMap.1 hfield
      refine builds_ready.accessorFields ?_ _ _ field hfield
      intro slot bindings modifiers annotations hform t ht
      have hslot : t.Everywhere Ready := by
        apply (hmember member hmem).child
        rw [hform]
        simpa [Form.children, MemberForm.children] using Or.inl ht
      apply And.intro hslot
      intro element outer harray child hchild
      apply hslot.child
      rw [harray]
      simpa [Form.children, TypeForm.children] using hchild
  · exact .refl h

end Lowering

/-! ### Whole runs -/

namespace Pass

variable {t r : Tree}

/-- Every pass leaves ready trees as such. -/
theorem leavesReady_run? (mappings : List (String × Value)) (pass : Pass) (h : t.Everywhere Ready) :
    LeavesReady t (pass.run? mappings t) := by
  induction t using induct with
  | step trivia form ih =>
    have hbelow := (everywhere_node.1 h).2
    obtain ⟨hafter, halike⟩ := ready_rebuilt h fun child hchild => ih child hchild (hbelow child hchild)
    rcases run?_cases mappings pass trivia form with ⟨-, hkept⟩ | ⟨-, -, hrule⟩
    · rw [hkept]
      exact .refl h
    · rw [hrule]
      apply LeavesReady.of_alike halike
      cases pass with
      | coreTypes => exact leavesReady_coreTypes mappings h hafter
      | builtinCalls => exact leavesReady_builtinCalls (.node trivia form) hafter
      | accessors => exact leavesReady_accessors (.node trivia form) hafter
      | logging => exact leavesReady_logging h hafter
      | containers => exact leavesReady_renameTypes _ hafter
      | optional => exact leavesReady_optional (.node trivia form) hafter
      | fileInputStream => exact leavesReady_fileInputStream (.node trivia form) hafter
      | stringWriter => exact leavesReady_renameTypes _ hafter

end Pass

end Recast
