import Mathlib
import Recast.Proofs.Yields
import Recast.Render

/-!
What steps of rendering ensure where they succeed.

`Ensures K x P` says that `P` holds of the result of `x` in every scope of the kind `K`, if `x` has
a result there. It goes through sequences of steps by one lemma for each way to combine them. What
was reported before a step does not matter.
-/

namespace Recast.Render

variable {α β : Type}

/-- Whether a property holds of the result of a step of rendering, in scopes of a kind. -/
def Ensures (K : Scope → Prop) (x : Render α) (P : α → Prop) : Prop :=
  ∀ scope, K scope → ∀ log : List Diagnostic, Yields (x scope log).1 P

namespace Ensures

variable {K L : Scope → Prop} {x : Render α} {P Q : α → Prop} {R : β → Prop}

theorem pure {a : α} (h : P a) : Ensures K (pure a) P :=
  fun _ _ _ => Yields.pure h

theorem stop {fault : Fault} : Ensures K (Render.stop fault : Render α) P :=
  fun _ _ _ => Yields.error

theorem unsupported {cause : Unsupported} : Ensures K (Render.unsupported cause : Render α) P :=
  stop

theorem bind {f : α → Render β} (hx : Ensures K x P) (hf : ∀ a, P a → Ensures K (f a) R) :
    Ensures K (x >>= f) R := by
  intro scope hscope log
  have hfirst := hx scope hscope log
  rcases hrun : x scope log with ⟨result, log'⟩
  rw [hrun] at hfirst
  cases result with
  | error halt =>
    have hbind : (x >>= f) scope log = (.error halt, log') := by
      simp only [Bind.bind, ReaderT.bind, ExceptT.bind, ExceptT.mk, StateT.bind, hrun]
      rfl
    rw [hbind]
    exact Yields.error
  | ok a =>
    have hbind : (x >>= f) scope log = f a scope log' := by
      simp only [Bind.bind, ReaderT.bind, ExceptT.bind, ExceptT.mk, StateT.bind, hrun]
      rfl
    rw [hbind]
    exact hf a (hfirst a rfl) scope hscope log'

/-- Nothing comes after a stop. -/
theorem stop_bind {fault : Fault} {f : α → Render β} :
    Ensures K ((Render.stop fault : Render α) >>= f) R :=
  bind (P := fun _ => False) stop fun _ hfalse => hfalse.elim

/-- A step whose result does not matter. -/
theorem bind_any {f : α → Render β} (hf : ∀ a, Ensures K (f a) R) : Ensures K (x >>= f) R :=
  bind (P := fun _ => True) (fun _ _ _ _ _ => True.intro) fun a _ => hf a

theorem mono (hx : Ensures K x P) (h : ∀ a, P a → Q a) : Ensures K x Q :=
  fun scope hscope log => (hx scope hscope log).mono h

theorem weaken (hx : Ensures L x P) (h : ∀ scope, K scope → L scope) : Ensures K x P :=
  fun scope hscope log => hx scope (h scope hscope) log

/-- A premise on no scope and no result may be taken first. -/
theorem of_imp {D : Prop} (hx : D → Ensures K x P) : Ensures K x fun a => D → P a :=
  fun scope hscope log a ha hD => hx hD scope hscope log a ha

theorem read : Ensures K (read : Render Scope) K :=
  fun _ hscope _ => Yields.pure hscope

theorem withReader {f : Scope → Scope} (hx : Ensures L x P) (hf : ∀ scope, K scope → L (f scope)) :
    Ensures K (withReader f x : Render α) P :=
  fun scope hscope log => hx (f scope) (hf scope hscope) log

theorem indented (hx : Ensures K x P)
    (hK : ∀ scope, K scope → K { scope with level := scope.level + 1 }) :
    Ensures K (Render.indented x) P :=
  withReader hx hK

theorem declaring {type : Option Tree} (hx : Ensures K x P)
    (hK : ∀ scope, K scope → K (scope.inDeclaration type)) :
    Ensures K (Render.declaring type x) P :=
  withReader hx hK

theorem inBody (hx : Ensures K x P) (hK : ∀ scope, K scope → K scope.inBody) :
    Ensures K (Render.inBody x) P :=
  withReader hx hK

theorem ite {condition : Prop} [Decidable condition] {y : Render α}
    (hx : condition → Ensures K x P) (hy : ¬ condition → Ensures K y P) :
    Ensures K (if condition then x else y) P := by
  split
  · exact hx ‹_›
  · exact hy ‹_›

/-- A step for each entry of a list gives a list of results. -/
theorem mapM {f : α → Render β} {items : List α} (h : ∀ a ∈ items, Ensures K (f a) R) :
    Ensures K (items.mapM f) fun results => ∀ b ∈ results, R b := by
  induction items with
  | nil => exact pure nofun
  | cons first rest ih =>
    rw [List.forall_mem_cons] at h
    rw [List.mapM_cons]
    refine bind h.1 fun b hb => bind (ih h.2) fun results hresults => ?_
    exact pure (List.forall_mem_cons.2 ⟨hb, hresults⟩)

theorem ofType {y : Except BrokenState α} (h : Yields y P) : Ensures K (Render.ofType y) P := by
  cases y with
  | error state => exact stop
  | ok a => exact pure (h a rfl)

theorem ofExcept {y : Except Fault α} (h : Yields y P) : Ensures K (Render.ofExcept y) P := by
  cases y with
  | error fault => exact stop
  | ok a => exact pure (h a rfl)

/-- A step for each entry of a list, of which one ensures a property of its result. -/
theorem mapM_exists {f : α → Render β} {items : List α} (h : ∃ a ∈ items, Ensures K (f a) R) :
    Ensures K (items.mapM f) fun results => ∃ b ∈ results, R b := by
  induction items with
  | nil => simp at h
  | cons first rest ih =>
    rw [List.mapM_cons]
    obtain ⟨a, ha, hensures⟩ := h
    rcases List.mem_cons.1 ha with rfl | ha
    · refine bind hensures fun b hb => bind_any fun results => ?_
      exact pure ⟨b, List.mem_cons_self, hb⟩
    · refine bind_any fun b => bind (ih ⟨a, ha, hensures⟩) fun results hresults => ?_
      obtain ⟨b', hb', hR⟩ := hresults
      exact pure ⟨b', List.mem_cons_of_mem _ hb', hR⟩

/-- A step for each entry of a list, each of which ensures something of its entry. -/
theorem mapM_forall {f : α → Render β} {items : List α}
    (h : ∀ a ∈ items, Ensures K (f a) fun _ => P a) :
    Ensures K (items.mapM f) fun _ => ∀ a ∈ items, P a := by
  intro scope hscope log results hresults a ha
  obtain ⟨_, -, hP⟩ := mapM_exists (R := fun _ => P a) ⟨a, ha, h a ha⟩ scope hscope log _ hresults
  exact hP

/-- What a step ensures holds of the result of running it. -/
theorem of_runIn {scope : Scope} {a : α} (hx : Ensures K x P) (hscope : K scope)
    (hok : (runIn scope x).result = .ok a) : P a := by
  have hensured := hx scope hscope []
  simp only [runIn, ReaderT.run, ExceptT.run, StateT.run] at hok
  rcases hrun : x scope [] with ⟨result, log⟩
  rw [hrun] at hok hensured
  cases result with
  | error halt => cases hok
  | ok b =>
    obtain rfl := Except.ok.inj hok
    exact hensured b rfl

end Ensures

end Recast.Render
