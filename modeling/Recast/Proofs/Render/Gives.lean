import Mathlib
import Recast.Proofs.Render.Follows

/-!
Steps of rendering that have a result.

`Gives K x P` says that `x` has a result in every scope of the kind `K`, and that `P` holds of it.
It goes through sequences of steps like `Ensures`, which leaves open whether there is a result.
-/

namespace Recast.Render

variable {α β : Type}

/-- Whether a step of rendering has a result with a property, in scopes of a kind. -/
def Gives (K : Scope → Prop) (x : Render α) (P : α → Prop) : Prop :=
  ∀ scope, K scope → ∀ log : List Diagnostic, ∃ a log', x scope log = (.ok a, log') ∧ P a

namespace Gives

variable {K L : Scope → Prop} {x : Render α} {P Q : α → Prop} {R : β → Prop}

theorem pure {a : α} (h : P a) : Gives K (pure a) P :=
  fun _ _ log => ⟨a, log, rfl, h⟩

theorem bind {f : α → Render β} (hx : Gives K x P) (hf : ∀ a, P a → Gives K (f a) R) :
    Gives K (x >>= f) R := by
  intro scope hscope log
  obtain ⟨a, log', hrun, ha⟩ := hx scope hscope log
  rw [bind_eq_of_ok hrun]
  exact hf a ha scope hscope log'

theorem mono (hx : Gives K x P) (h : ∀ a, P a → Q a) : Gives K x Q := by
  intro scope hscope log
  obtain ⟨a, log', hrun, ha⟩ := hx scope hscope log
  exact ⟨a, log', hrun, h a ha⟩

theorem read : Gives K (read : Render Scope) K :=
  fun scope hscope log => ⟨scope, log, rfl, hscope⟩

theorem withReader {f : Scope → Scope} (hx : Gives L x P) (hf : ∀ scope, K scope → L (f scope)) :
    Gives K (withReader f x : Render α) P :=
  fun scope hscope log => hx (f scope) (hf scope hscope) log

theorem ofType {y : Except BrokenState α} {a : α} (hy : y = .ok a) (ha : P a) :
    Gives K (Render.ofType y) P := by
  rw [hy]
  exact pure ha

/-- A step for each entry of a list gives a result for each. -/
theorem mapM {f : α → Render β} {S : α → β → Prop} {items : List α}
    (h : ∀ a ∈ items, Gives K (f a) (S a)) : Gives K (items.mapM f) (List.Forall₂ S items) := by
  induction items with
  | nil => exact pure .nil
  | cons first rest ih =>
    rw [List.forall_mem_cons] at h
    rw [List.mapM_cons]
    refine bind h.1 fun b hb => bind (ih h.2) fun results hresults => ?_
    exact pure (.cons hb hresults)

/-- The result of a run. -/
theorem runIn {scope : Scope} (hx : Gives K x P) (hscope : K scope) :
    ∃ a, (Render.runIn scope x).result = .ok a ∧ P a := by
  obtain ⟨a, log', hrun, ha⟩ := hx scope hscope []
  refine ⟨a, ?_, ha⟩
  simp only [Render.runIn, ReaderT.run, ExceptT.run, StateT.run]
  rw [hrun]

end Gives

end Recast.Render
