import Mathlib
import Recast.Proofs.Render.Basic
import Recast.Proofs.Render.Follows
import Recast.Proofs.Tree.Basic

/-!
What rendering can do.

Every rendering is put together from six kinds of steps: giving a value, looking at the scope,
stopping, reporting, one step after another, and a step in another scope. `Built` says so of a step,
and this module and the next two say it of every rendering of every tree, without a condition. What
all rendering has in common is then proved by induction over the six kinds. The first such fact is
that nothing reads the reports: a step adds the same reports to any log, and does the same whatever
has been reported before (`Built.run_eq`).
-/

namespace Recast.Render

variable {α β : Type}

/-- Whether a step of rendering is put together from the elementary ones. -/
inductive Built : {α : Type} → Render α → Prop
  | pure {α : Type} (a : α) : Built (Pure.pure a)
  | read : Built (MonadReaderOf.read : Render Scope)
  | stop {α : Type} (fault : Fault) : Built (Render.stop fault : Render α)
  | report (finding : Finding) (line : Option Int) : Built (Render.report finding line)
  | bind {α β : Type} {x : Render α} {f : α → Render β} (hx : Built x) (hf : ∀ a, Built (f a)) :
    Built (x >>= f)
  | withReader {α : Type} (g : Scope → Scope) {x : Render α} (hx : Built x) :
    Built (MonadWithReaderOf.withReader g x : Render α)

namespace Built

variable {x y : Render α} {f : α → Render β}

/-- What a step does does not depend on the log, and it adds to any log what it adds to none. -/
theorem run_eq (h : Built x) (scope : Scope) (log : List Diagnostic) :
    x scope log = ((x scope []).1, log ++ (x scope []).2) := by
  induction h generalizing scope log with
  | pure a => exact congrArg (Prod.mk _) (List.append_nil log).symm
  | read => exact congrArg (Prod.mk _) (List.append_nil log).symm
  | stop fault => exact congrArg (Prod.mk _) (List.append_nil log).symm
  | report finding line => rfl
  | @bind _ _ x f _ _ ihx ihf =>
    have hx := ihx scope log
    rcases hrun : x scope [] with ⟨halt | a, added⟩
    · rw [hrun] at hx
      rw [bind_eq_of_error hx, bind_eq_of_error hrun]
    · rw [hrun] at hx
      rw [bind_eq_of_ok hx, bind_eq_of_ok hrun, ihf a scope added, ihf a scope (log ++ added),
        List.append_assoc]
  | withReader g _ ih => exact ih (g scope) log

/-! ### Steps put together -/

theorem read_bind {f : Scope → Render β} (hf : ∀ scope, Built (f scope)) :
    Built (MonadReader.read >>= f) :=
  read.bind hf

theorem unsupported {cause : Unsupported} : Built (Render.unsupported cause : Render α) := stop _

/-- Nothing comes after a stop. -/
theorem stop_bind {fault : Fault} : Built ((Render.stop fault : Render α) >>= f) :=
  show Built (Render.stop fault : Render β) from stop fault

theorem map {f : α → β} (hx : Built x) : Built (f <$> x) := by
  rw [map_eq_pure_bind]
  exact hx.bind fun a => pure (f a)

theorem discard (hx : Built x) : Built (discard x) := hx.map

theorem ite {condition : Prop} [Decidable condition] (hx : Built x) (hy : Built y) :
    Built (if condition then x else y) := by
  split
  · exact hx
  · exact hy

theorem mapM {f : α → Render β} {items : List α} (hf : ∀ a ∈ items, Built (f a)) :
    Built (items.mapM f) := by
  induction items with
  | nil => exact pure []
  | cons first rest ih =>
    rw [List.forall_mem_cons] at hf
    rw [List.mapM_cons]
    exact hf.1.bind fun b => (ih hf.2).bind fun bs => pure (b :: bs)

theorem ofType (y : Except BrokenState α) : Built (Render.ofType y) := by
  cases y with
  | error state => exact stop _
  | ok a => exact pure a

theorem ofExcept (y : Except Fault α) : Built (Render.ofExcept y) := by
  cases y with
  | error fault => exact stop fault
  | ok a => exact pure a

theorem reportIf (condition : Bool) (finding : Finding) (line : Option Int) :
    Built (Render.reportIf condition finding line) :=
  ite (report finding line) (pure ())

theorem indent : Built Render.indent := read_bind fun _ => pure _

theorem indented (hx : Built x) : Built (Render.indented x) := hx.withReader _

theorem declaring (type : Option Tree) (hx : Built x) : Built (Render.declaring type x) :=
  hx.withReader _

theorem inBody (hx : Built x) : Built (Render.inBody x) := hx.withReader _

theorem inType (name : Word) (classExtends isInterface : Bool) (hx : Built x) :
    Built (Render.inType name classExtends isInterface x) :=
  hx.withReader _

theorem declaredType : Built Render.declaredType := by
  refine read_bind fun scope => ?_
  split
  · exact pure _
  · exact stop _

theorem commentText (comment : Comment) : Built (Render.commentText comment) :=
  indent.bind fun _ => pure _

theorem withComment (t : Tree) (text : String) : Built (Render.withComment t text) := by
  unfold Render.withComment
  split
  · exact pure _
  · exact (commentText _).bind fun _ => pure _

theorem types (types : List Tree) : Built (types.mapM fun t => Render.ofType (typeText t)) :=
  mapM fun _ _ => ofType _

theorem chunksFrom {pending : List Comment} {children : List Child}
    (h : ∀ child ∈ children, Built child.text) : Built (chunksFrom pending children) := by
  have hcomments (comments : List Comment) : Built (comments.mapM Render.commentText) :=
    mapM fun comment _ => commentText comment
  induction children generalizing pending with
  | nil => exact ite (pure _) ((hcomments _).bind fun _ => pure _)
  | cons child rest ih =>
    rw [List.forall_mem_cons] at h
    unfold Render.chunksFrom
    exact (hcomments _).bind fun _ => h.1.bind fun _ => (ih h.2).bind fun _ => pure _

/-! ### Runs -/

/-- A run of two steps is a run of each, from empty logs. -/
theorem of_runIn_bind {scope : Scope} {b : β} (hf : ∀ a, Built (f a))
    (hok : (runIn scope (x >>= f)).result = .ok b) : ∃ a, (runIn scope x).result = .ok a ∧
      (runIn scope (f a)).result = .ok b ∧ (runIn scope (x >>= f)).diagnostics =
        (runIn scope x).diagnostics ++ (runIn scope (f a)).diagnostics := by
  simp only [runIn, ReaderT.run, ExceptT.run, StateT.run] at hok ⊢
  rcases hrun : x scope [] with ⟨halt | a, added⟩
  · rw [bind_eq_of_error hrun] at hok
    cases hok
  · rw [bind_eq_of_ok hrun, run_eq (hf a) scope added] at hok ⊢
    refine ⟨a, rfl, ?_⟩
    rcases hnext : f a scope [] with ⟨halt | b', added'⟩
    · rw [hnext] at hok
      cases hok
    · rw [hnext] at hok
      exact ⟨hok, rfl⟩

/-- A run of a step for each entry of a list is a run for each entry. -/
theorem of_runIn_mapM {f : α → Render β} {items : List α} {scope : Scope} {results : List β}
    (hf : ∀ a ∈ items, Built (f a)) (hok : (runIn scope (items.mapM f)).result = .ok results) :
    List.Forall₂ (fun a b => (runIn scope (f a)).result = .ok b) items results ∧
      (runIn scope (items.mapM f)).diagnostics =
        items.flatMap fun a => (runIn scope (f a)).diagnostics := by
  induction items generalizing results with
  | nil =>
    obtain rfl : [] = results := Except.ok.inj hok
    exact ⟨.nil, rfl⟩
  | cons first rest ih =>
    rw [List.forall_mem_cons] at hf
    rw [List.mapM_cons] at hok ⊢
    obtain ⟨b, hb, hothers, hadded⟩ :=
      of_runIn_bind (fun b => (mapM hf.2).bind fun bs => pure (b :: bs)) hok
    obtain ⟨bs, hbs, hpure, hadded'⟩ := of_runIn_bind (fun bs => pure (b :: bs)) hothers
    obtain rfl : b :: bs = results := Except.ok.inj hpure
    obtain ⟨hresults, hdiagnostics⟩ := ih hf.2 hbs
    refine ⟨.cons hb hresults, ?_⟩
    rw [hadded, hadded', hdiagnostics, List.flatMap_cons]
    exact congrArg _ (List.append_nil _)

end Built

end Recast.Render

namespace Recast.Rendering

open Render

/-- Whether every way to write a node is put together from elementary steps. -/
structure Built (r : Rendering) : Prop where
  expr : Render.Built r.expr
  note : Render.Built r.note
  part : Render.Built r.part
  localVariable : Render.Built r.localVariable
  fieldVariable : Render.Built r.fieldVariable
  declaration (isResource : Bool) : Render.Built (r.declaration isResource)
  bareStmt : Render.Built r.bareStmt
  lines {before : List Child} (h : ∀ child ∈ before, Render.Built child.text) :
    Render.Built (r.lines before)
  caseLines : Render.Built r.caseLines
  member : Render.Built r.member
  typeDeclaration : Render.Built r.typeDeclaration
  topLevel : Render.Built r.topLevel
  unit : Render.Built r.unit

namespace Built

variable {r : Rendering}

theorem stmt (h : r.Built) : Render.Built r.stmt :=
  h.bareStmt.bind fun _ => .withComment _ _

theorem block (h : r.Built) (inline : Bool) : Render.Built (r.block inline) := by
  refine Render.Built.indent.bind fun _ => ?_
  exact (h.lines (List.forall_mem_nil _)).indented.bind fun _ => .ite (.pure _) (.pure _)

theorem body (h : r.Built) : Render.Built r.body := by
  refine .ite (h.block true) ?_
  exact Render.Built.indent.bind fun _ => h.stmt.indented.bind fun _ => .pure _

end Built

end Recast.Rendering

namespace Recast.Render

/-! ### Slots and lists -/

section Slots

variable {slot : Option Rendering} {rs : List Rendering}

theorem slotExpr_built (h : ∀ r ∈ slot.toList, r.Built) : Built (slotExpr slot) := by
  cases slot with
  | none => exact .unsupported
  | some r => exact (h r (by simp)).expr

theorem slotStmt_built (h : ∀ r ∈ slot.toList, r.Built) : Built (slotStmt slot) := by
  cases slot with
  | none => exact .unsupported
  | some r => exact (h r (by simp)).stmt

theorem slotBody_built (h : ∀ r ∈ slot.toList, r.Built) : Built (slotBody slot) := by
  cases slot with
  | none => exact .unsupported
  | some r => exact (h r (by simp)).body

theorem slotBlock_built (inline : Bool) (h : ∀ r ∈ slot.toList, r.Built) :
    Built (slotBlock inline slot) := by
  cases slot with
  | none => exact .unsupported
  | some r => exact (h r (by simp)).block inline

theorem slotTypeDeclaration_built (h : ∀ r ∈ slot.toList, r.Built) :
    Built (slotTypeDeclaration slot) := by
  cases slot with
  | none => exact .unsupported
  | some r => exact (h r (by simp)).typeDeclaration

theorem optionalText_built {before : String} {text : Rendering → Render String}
    (h : ∀ r ∈ slot.toList, Built (text r)) : Built (optionalText before text slot) := by
  cases slot with
  | none => exact .pure _
  | some r => exact (h r (by simp)).bind fun _ => .pure _

theorem notes_built (h : ∀ r ∈ rs, r.Built) : Built (rs.mapM (·.note)) :=
  .mapM fun r hr => (h r hr).note

theorem parts_built (h : ∀ r ∈ rs, r.Built) : Built (rs.mapM (·.part)) :=
  .mapM fun r hr => (h r hr).part

end Slots

end Recast.Render
