import Mathlib
import Recast.Proofs.Render.Basic
import Recast.Proofs.Render.Follows
import Recast.Proofs.Tree.Basic

/-!
Declarations are never stray.

Two broken states have a fault of their own: a local declaration outside a body, and a variable
outside a declaration. Rendering a unit gets into neither, because a statement is only rendered in
the scope of a body and a variable only in the scope of a declaration, and a scope is never changed
but for a part. The hooks of the caller may stop with any fault of their own; what is asked of them is
that it is not one of these two (`Hooks.IsSteady`), and a configuration asks for none that are
(`Hooks.isSteady_ofConfig`).

`Steady K x` says that `x` does not stop with one of these faults in a scope of the kind `K`. What a
step gives does not matter, and so it goes through sequences of steps with hardly a condition.
`Sound` says in which scopes a rendering is steady, place by place.
-/

namespace Recast

/-- Whether a state is one in which a declaration or a variable is stray. -/
def BrokenState.isStray : BrokenState → Bool
  | .strayVariable | .strayLocal _ => true
  | _ => false

/-- Whether a fault reports a stray declaration or variable. -/
def Fault.isStray : Fault → Bool
  | .broken state => state.isStray
  | _ => false

/-- Whether a declaration of variables says what type they have. -/
def Tree.isTyped (t : Tree) : Bool :=
  match t.form with
  | .stmt (.localVariable type ..) | .member (.field type ..) => type.isSome
  | _ => true

namespace Render

variable {α β : Type}

/-! ### Types -/

/-- Whether no type is stray: a type's text fails for a reason of its own. -/
def Rooted (x : Except BrokenState α) : Prop := ∀ state, x = .error state → state.isStray = false

namespace Rooted

theorem ok {a : α} : Rooted (.ok a) := by
  rintro _ ⟨⟩

theorem bind {x : Except BrokenState α} {f : α → Except BrokenState β} (hx : Rooted x)
    (hf : ∀ a, Rooted (f a)) : Rooted (x >>= f) := by
  intro state hstate
  cases x with
  | error e =>
    obtain rfl := Except.error.inj hstate
    exact hx e rfl
  | ok a => exact hf a state hstate

theorem mapM {f : α → Except BrokenState β} {items : List α} (hf : ∀ a ∈ items, Rooted (f a)) :
    Rooted (items.mapM f) := by
  induction items with
  | nil => exact ok
  | cons first rest ih =>
    rw [List.forall_mem_cons] at hf
    rw [List.mapM_cons]
    exact hf.1.bind fun _ => (ih hf.2).bind fun _ => ok

end Rooted

theorem typeText_rooted (t : Tree) : Rooted (typeText t) := by
  induction t using Tree.induct with
  | step trivia form ih =>
    have htexts : ∀ types : List Tree, types ⊆ form.children →
        Rooted ((types.map typeText).mapM id) := by
      intro types htypes
      rw [List.mapM_map]
      exact Rooted.mapM fun t ht => ih t (htypes ht)
    rw [typeText, Tree.fold_node]
    cases form with
    | type form =>
      cases form with
      | named name arguments scope orNull =>
        rcases orNull with _ | _
        · rcases arguments with _ | _ | ⟨first, rest⟩
          · exact Rooted.ok
          · exact Rooted.ok
          · exact (htexts (first :: rest) (List.subset_append_left ..)).bind fun _ => Rooted.ok
        · rcases arguments with _ | _ | ⟨argument, _ | ⟨second, rest⟩⟩
          · rintro _ ⟨⟩; rfl
          · rintro _ ⟨⟩; rfl
          · exact (ih argument List.mem_cons_self).bind fun _ => Rooted.ok
          · rintro _ ⟨⟩; rfl
      | array element dimensions =>
        cases element with
        | none => exact Rooted.ok
        | some element => exact (ih element List.mem_cons_self).bind fun _ => Rooted.ok
      | union elements => exact (htexts elements (List.Subset.refl _)).bind fun _ => Rooted.ok
      | wildcard bound kind =>
        rcases bound with _ | bound
        · exact Rooted.ok
        · rcases kind with _ | _ | _
          · exact Rooted.ok
          · exact ih bound List.mem_cons_self
          · exact Rooted.ok
      | _ => exact Rooted.ok
    | _ => exact Rooted.ok

theorem slotTypeText_rooted (slot : Option Tree) : Rooted (slotTypeText slot) := by
  cases slot with
  | none => exact Rooted.ok
  | some t => exact typeText_rooted t

theorem runtimeName_rooted (type : Option Tree) : Rooted (runtimeName type) := by
  unfold runtimeName
  split
  · exact Rooted.ok
  · exact Rooted.ok
  · exact slotTypeText_rooted type

theorem typeParametersText_rooted (parameters : List Tree) :
    Rooted (typeParametersText parameters) := by
  have hparameter (t : Tree) : Rooted (typeParameterText t) := by
    unfold typeParameterText
    split
    · exact Rooted.ok
    · exact (Rooted.mapM fun t _ => typeText_rooted t).bind fun _ => Rooted.ok
    · exact Rooted.ok
  cases parameters with
  | nil => exact Rooted.ok
  | cons first rest => exact (Rooted.mapM fun t _ => hparameter t).bind fun _ => Rooted.ok

/-! ### Hooks -/

/-- Whether a result is not the report of a stray declaration or variable. -/
def NeverStray (x : Except Fault α) : Prop := ∀ fault, x = .error fault → fault.isStray = false

theorem NeverStray.ok {a : α} : NeverStray (.ok a) := by
  rintro _ ⟨⟩

theorem NeverStray.error {fault : Fault} (h : fault.isStray = false) :
    NeverStray (.error fault : Except Fault α) := by
  rintro _ ⟨⟩
  exact h

theorem NeverStray.map {x : Except Fault α} (h : NeverStray x) (f : α → β) : NeverStray (f <$> x) := by
  cases x with
  | error fault => exact error (h fault rfl)
  | ok a => exact ok

/-- A template that cannot be filled in has a fault of its own. -/
theorem fillTemplate_neverStray (template : Value) (arguments : List Word) :
    NeverStray (fillTemplate template arguments) := by
  unfold fillTemplate
  split
  · split
    · exact NeverStray.ok
    · exact NeverStray.error rfl
  · exact NeverStray.error rfl

theorem renderImport_neverStray (template : Value) (decl : ImportName) :
    NeverStray (renderImport template decl) := by
  unfold renderImport
  split
  · exact NeverStray.ok
  · split
    · exact NeverStray.ok
    · exact fillTemplate_neverStray _ _

namespace Hooks

variable {hooks : Hooks}

/-- Whether no hook of the caller reports a stray declaration or variable. -/
structure IsSteady (hooks : Hooks) : Prop where
  onPackage (name : Word) : NeverStray (hooks.onPackage name)
  onImport (decl : ImportName) : NeverStray (hooks.onImport decl)
  onThrows (types : List String) : NeverStray (hooks.onThrows types)
  onAnnotations (texts : List String) : NeverStray (hooks.onAnnotations texts)

theorem IsSteady.throwsSuffix (h : hooks.IsSteady) (types : List String) :
    NeverStray (hooks.throwsSuffix types) := by
  unfold Hooks.throwsSuffix
  split
  · exact NeverStray.ok
  · exact h.onThrows types

theorem IsSteady.annotationsLine (h : hooks.IsSteady) (texts : List String) :
    NeverStray (hooks.annotationsLine texts) := by
  unfold Hooks.annotationsLine
  split
  · exact NeverStray.ok
  · exact h.onAnnotations texts

/-- The hooks that a configuration makes stop at templates and at annotations only. -/
theorem isSteady_ofConfig (c : Config) : (ofConfig c).IsSteady where
  onPackage name := by
    simp only [ofConfig]
    split
    · exact NeverStray.ok
    · exact (fillTemplate_neverStray _ _).map some
  onImport decl := (renderImport_neverStray _ decl).map some
  onThrows types := NeverStray.ok
  onAnnotations texts := by
    simp only [ofConfig]
    split
    · exact NeverStray.error rfl
    · exact NeverStray.ok
    · exact NeverStray.ok

end Hooks

/-! ### Steady steps -/

/-- Whether a step of rendering never stops at a stray declaration or variable, in scopes of a
kind. -/
def Steady (K : Scope → Prop) (x : Render α) : Prop :=
  ∀ scope, scope.hooks.IsSteady → K scope →
    ∀ log halt, (x scope log).1 = .error halt → halt.fault.isStray = false

namespace Steady

variable {K L : Scope → Prop} {x y : Render α} {f : α → Render β}

theorem pure {a : α} : Steady K (pure a) := by
  rintro _ _ _ _ _ ⟨⟩

theorem stop {fault : Fault} (h : fault.isStray = false) :
    Steady K (Render.stop fault : Render α) := by
  rintro _ _ _ _ _ ⟨⟩
  exact h

theorem unsupported {cause : Unsupported} : Steady K (Render.unsupported cause : Render α) :=
  stop rfl

theorem bind (hx : Steady K x) (hf : ∀ a, Steady K (f a)) : Steady K (x >>= f) := by
  intro scope hhooks hscope log halt hhalt
  rcases hrun : x scope log with ⟨result | a, log'⟩
  · rw [bind_eq_of_error hrun] at hhalt
    obtain rfl := Except.error.inj hhalt
    exact hx scope hhooks hscope log _ (by rw [hrun])
  · rw [bind_eq_of_ok hrun] at hhalt
    exact hf a scope hhooks hscope log' halt hhalt

theorem map {f : α → β} (hx : Steady K x) : Steady K (f <$> x) := by
  rw [map_eq_pure_bind]
  exact hx.bind fun _ => pure

theorem discard (hx : Steady K x) : Steady K (discard x) := hx.map

/-- Nothing comes after a stop. -/
theorem stop_bind {cause : Unsupported} :
    Steady K ((Render.unsupported cause : Render α) >>= f) := by
  rintro _ _ _ _ _ ⟨⟩
  rfl

/-- A step that looks at the scope. -/
theorem read_bind {f : Scope → Render β} (hf : ∀ scope, K scope → Steady K (f scope)) :
    Steady K (read >>= f) :=
  fun scope hhooks hscope log halt hhalt => hf scope hscope scope hhooks hscope log halt hhalt

/-- A step that asks the hooks. -/
theorem hooks_bind {f : Scope → Render β} (hf : ∀ scope, scope.hooks.IsSteady → Steady K (f scope)) :
    Steady K (read >>= f) :=
  fun scope hhooks hscope log halt hhalt => hf scope hhooks scope hhooks hscope log halt hhalt

theorem withReader {g : Scope → Scope} (hx : Steady L x) (hg : ∀ scope, K scope → L (g scope))
    (hhooks : ∀ scope, (g scope).hooks = scope.hooks) : Steady K (withReader g x : Render α) :=
  fun scope hsteady hscope => hx (g scope) ((hhooks scope).symm ▸ hsteady) (hg scope hscope)

theorem ite {condition : Prop} [Decidable condition] (hx : condition → Steady K x)
    (hy : ¬ condition → Steady K y) : Steady K (if condition then x else y) := by
  split
  · exact hx ‹_›
  · exact hy ‹_›

theorem mapM {f : α → Render β} {items : List α} (hf : ∀ a ∈ items, Steady K (f a)) :
    Steady K (items.mapM f) := by
  induction items with
  | nil => exact pure
  | cons first rest ih =>
    rw [List.forall_mem_cons] at hf
    rw [List.mapM_cons]
    exact hf.1.bind fun _ => (ih hf.2).bind fun _ => pure

theorem ofType {x : Except BrokenState α} (h : Rooted x) : Steady K (Render.ofType x) := by
  cases x with
  | error state => exact stop (h state rfl)
  | ok a => exact pure

theorem ofExcept {x : Except Fault α} (h : NeverStray x) : Steady K (Render.ofExcept x) := by
  cases x with
  | error fault => exact stop (h fault rfl)
  | ok a => exact pure

theorem report {finding : Finding} {line : Option Int} : Steady K (Render.report finding line) := by
  rintro _ _ _ _ _ ⟨⟩

theorem reportIf {condition : Bool} {finding : Finding} {line : Option Int} :
    Steady K (Render.reportIf condition finding line) :=
  ite (fun _ => report) fun _ => pure

theorem indent : Steady K Render.indent := read_bind fun _ _ => pure

theorem commentText {comment : Comment} : Steady K (Render.commentText comment) :=
  indent.bind fun _ => pure

theorem withComment {t : Tree} {text : String} : Steady K (Render.withComment t text) := by
  unfold Render.withComment
  split
  · exact pure
  · exact commentText.bind fun _ => pure

/-- What is steady in every scope does not stop at a stray declaration or variable when it is run. -/
theorem neverStray_runIn {scope : Scope} (hx : Steady (fun _ => True) x)
    (hhooks : scope.hooks.IsSteady) : NeverStray (runIn scope x).result := by
  intro fault hfault
  simp only [runIn, ReaderT.run, ExceptT.run, StateT.run] at hfault
  rcases hrun : x scope [] with ⟨halt | a, log⟩
  · rw [hrun] at hfault
    obtain rfl := Except.error.inj hfault
    exact hx scope hhooks True.intro [] halt (by rw [hrun])
  · rw [hrun] at hfault
    cases hfault

end Steady

/-! ### Scopes -/

/-- The scope of a body. -/
def Within (scope : Scope) : Prop := scope.inMethod = true

/-- The scope of a declaration. -/
def Declaring (scope : Scope) : Prop := scope.declared.isSome

/-- Whether a kind of scopes does not depend on the indentation. -/
def Level (K : Scope → Prop) : Prop :=
  ∀ scope level, K scope → K { scope with level }

theorem Steady.indented {K : Scope → Prop} {x : Render α} (hK : Level K) (hx : Steady K x) :
    Steady K (Render.indented x) :=
  hx.withReader (fun scope hscope => hK scope (scope.level + 1) hscope) fun _ => rfl

theorem level_within : Level Within := fun _ _ h => h

theorem level_any : Level fun _ => True := fun _ _ _ => True.intro

theorem chunksFrom_steady {K : Scope → Prop} {pending : List Comment} {children : List Child}
    (h : ∀ child ∈ children, Steady K child.text) : Steady K (chunksFrom pending children) := by
  have hcomments (comments : List Comment) : Steady K (comments.mapM commentText) :=
    Steady.mapM fun _ _ => Steady.commentText
  induction children generalizing pending with
  | nil =>
    unfold chunksFrom
    exact Steady.ite (fun _ => Steady.pure) fun _ => (hcomments _).bind fun _ => Steady.pure
  | cons child rest ih =>
    rw [List.forall_mem_cons] at h
    unfold chunksFrom
    exact (hcomments _).bind fun _ => h.1.bind fun _ => (ih h.2).bind fun _ => Steady.pure

theorem declaredType_steady : Steady Declaring declaredType := by
  refine Steady.read_bind fun scope hscope => ?_
  obtain ⟨type, htype⟩ := Option.isSome_iff_exists.1 hscope
  rw [htype]
  exact Steady.pure

/-- Whether a node is rendered without stray declarations, by the place where it stands: a statement
in a body, a variable in a declaration, anything else everywhere. -/
structure Sound (t : Tree) : Prop where
  expr {K : Scope → Prop} : Steady K t.rendering.expr
  note {K : Scope → Prop} : Steady K t.rendering.note
  part {K : Scope → Prop} : Steady K t.rendering.part
  localVariable : Steady Declaring t.rendering.localVariable
  fieldVariable : Steady Declaring t.rendering.fieldVariable
  declaration (isResource : Bool) : Steady Within (t.rendering.declaration isResource)
  bareStmt : Steady Within t.rendering.bareStmt
  lines {before : List Child} (h : ∀ child ∈ before, Steady Within child.text) :
    Steady Within (t.rendering.lines before)
  caseLines : Steady Within t.rendering.caseLines
  member {K : Scope → Prop} : Steady K t.rendering.member
  typeDeclaration {K : Scope → Prop} : Steady K t.rendering.typeDeclaration
  topLevel {K : Scope → Prop} : Steady K t.rendering.topLevel

/-! ### Blocks, statements and slots -/

section Slots

variable {K : Scope → Prop} {t : Tree} {slot : Option Tree}

theorem block_steady {r : Rendering} (inline : Bool) (h : Steady Within (r.lines [])) :
    Steady Within (r.block inline) := by
  refine Steady.indent.bind fun _ => (h.indented level_within).bind fun _ => ?_
  exact Steady.ite (fun _ => Steady.pure) fun _ => Steady.pure

theorem Sound.block (h : Sound t) (inline : Bool) : Steady Within (t.rendering.block inline) :=
  block_steady inline (h.lines nofun)

theorem Sound.stmt (h : Sound t) : Steady Within t.rendering.stmt :=
  h.bareStmt.bind fun _ => Steady.withComment

theorem Sound.body (h : Sound t) : Steady Within t.rendering.body := by
  refine Steady.ite (fun _ => h.block true) fun _ => Steady.indent.bind fun _ => ?_
  exact (h.stmt.indented level_within).bind fun _ => Steady.pure

theorem slotExpr_steady (h : ∀ t ∈ slot.toList, Sound t) :
    Steady K (slotExpr (slot.map Tree.rendering)) := by
  cases slot with
  | none => exact Steady.unsupported
  | some t => exact (h t (by simp)).expr

theorem slotBody_steady (h : ∀ t ∈ slot.toList, Sound t) :
    Steady Within (slotBody (slot.map Tree.rendering)) := by
  cases slot with
  | none => exact Steady.unsupported
  | some t => exact (h t (by simp)).body

theorem slotBlock_steady (inline : Bool) (h : ∀ t ∈ slot.toList, Sound t) :
    Steady Within (slotBlock inline (slot.map Tree.rendering)) := by
  cases slot with
  | none => exact Steady.unsupported
  | some t => exact (h t (by simp)).block inline

theorem optionalText_steady {before : String} {text : Rendering → Render String}
    (h : ∀ t ∈ slot.toList, Steady K (text t.rendering)) :
    Steady K (optionalText before text (slot.map Tree.rendering)) := by
  cases slot with
  | none => exact Steady.pure
  | some t => exact (h t (by simp)).bind fun _ => Steady.pure

theorem notes_steady {ts : List Tree} (h : ∀ t ∈ ts, Sound t) :
    Steady K ((ts.map Tree.rendering).mapM (·.note)) :=
  Steady.mapM (List.forall_mem_map.2 fun t ht => (h t ht).note)

theorem parts_steady {ts : List Tree} (h : ∀ t ∈ ts, Sound t) :
    Steady K ((ts.map Tree.rendering).mapM (·.part)) :=
  Steady.mapM (List.forall_mem_map.2 fun t ht => (h t ht).part)

theorem types_steady (types : List Tree) :
    Steady K (types.mapM fun t => ofType (typeText t)) :=
  Steady.mapM fun t _ => Steady.ofType (typeText_rooted t)

end Slots

end Render

end Recast
