import Mathlib
import Recast.Proofs.Render.Ensures

/-!
Two runs of rendering side by side.

`Follows K x y R` says that `y` goes along with `x`: wherever `x` has a result, `y` has one too, in
every scope that `K` relates to the scope of `x`, and `R` holds of the two results. It goes through
sequences of steps by one lemma for each way to combine them. What was reported before does not
matter to either run.
-/

namespace Recast.Render

variable {α β γ δ : Type}

/-- Whether a step of rendering has a result where another one has, and the results are related. -/
def Follows (K : Scope → Scope → Prop) (x : Render α) (y : Render β) (R : α → β → Prop) : Prop :=
  ∀ scope twin, K scope twin → ∀ log log' : List Diagnostic,
    Yields (x scope log).1 fun a => ∃ b, (y twin log').1 = .ok b ∧ R a b

theorem bind_eq_of_ok {x : Render α} {f : α → Render β} {scope : Scope} {log log' : List Diagnostic}
    {a : α} (h : x scope log = (.ok a, log')) : (x >>= f) scope log = f a scope log' := by
  simp only [Bind.bind, ReaderT.bind, ExceptT.bind, ExceptT.mk, StateT.bind, h]
  rfl

theorem bind_eq_of_error {x : Render α} {f : α → Render β} {scope : Scope}
    {log log' : List Diagnostic} {halt : Halt} (h : x scope log = (.error halt, log')) :
    (x >>= f) scope log = (.error halt, log') := by
  simp only [Bind.bind, ReaderT.bind, ExceptT.bind, ExceptT.mk, StateT.bind, h]
  rfl

namespace Follows

variable {K L : Scope → Scope → Prop} {x : Render α} {y : Render β} {R S : α → β → Prop}
  {T : γ → δ → Prop}

theorem pure {a : α} {b : β} (h : R a b) : Follows K (pure a) (pure b) R :=
  fun _ _ _ _ _ => Yields.pure ⟨b, rfl, h⟩

theorem stop {fault : Fault} : Follows K (Render.stop fault : Render α) y R :=
  fun _ _ _ _ _ => Yields.error

theorem unsupported {cause : Unsupported} :
    Follows K (Render.unsupported cause : Render α) y R :=
  stop

theorem bind {f : α → Render γ} {g : β → Render δ} (hx : Follows K x y R)
    (hf : ∀ a b, R a b → Follows K (f a) (g b) T) : Follows K (x >>= f) (y >>= g) T := by
  intro scope twin hscope log log' c hc
  rcases hrun : x scope log with ⟨result | a, after⟩
  · rw [bind_eq_of_error hrun] at hc
    cases hc
  · rw [bind_eq_of_ok hrun] at hc
    obtain ⟨b, hb, hab⟩ := hx scope twin hscope log log' a (by rw [hrun])
    rcases hrun' : y twin log' with ⟨result, after'⟩
    rw [hrun'] at hb
    obtain rfl : result = .ok b := hb
    rw [bind_eq_of_ok hrun']
    exact hf a b hab scope twin hscope after after' c hc

/-- A step that only the first run takes. -/
theorem bind_left {H : Scope → Prop} {P : α → Prop} {f : α → Render γ} {z : Render δ}
    (hx : Ensures H x P) (hH : ∀ scope twin, K scope twin → H scope)
    (hf : ∀ a, P a → Follows K (f a) z T) : Follows K (x >>= f) z T := by
  intro scope twin hscope log log' c hc
  rcases hrun : x scope log with ⟨result | a, after⟩
  · rw [bind_eq_of_error hrun] at hc
    cases hc
  · rw [bind_eq_of_ok hrun] at hc
    have ha := hx scope (hH scope twin hscope) log a (by rw [hrun])
    exact hf a ha scope twin hscope after log' c hc

/-- A step that only the first run takes, and whose result does not matter. -/
theorem bind_any {f : α → Render γ} {z : Render δ} (hf : ∀ a, Follows K (f a) z T) :
    Follows K (x >>= f) z T :=
  bind_left (H := fun _ => True) (P := fun _ => True) (fun _ _ _ _ _ => True.intro)
    (fun _ _ _ => True.intro) fun a _ => hf a

/-- Nothing comes after a stop. -/
theorem stop_bind {fault : Fault} {f : α → Render γ} {z : Render δ} :
    Follows K ((Render.stop fault : Render α) >>= f) z T :=
  bind_left (P := fun _ => False) (H := fun _ => True) Ensures.stop (fun _ _ _ => True.intro)
    fun _ hfalse => hfalse.elim

theorem mono (hx : Follows K x y R) (h : ∀ a b, R a b → S a b) : Follows K x y S := by
  intro scope twin hscope log log' a ha
  obtain ⟨b, hb, hab⟩ := hx scope twin hscope log log' a ha
  exact ⟨b, hb, h a b hab⟩

theorem read : Follows K (read : Render Scope) (read : Render Scope) K :=
  fun _ _ hscope _ _ => Yields.pure ⟨_, rfl, hscope⟩

theorem withReader {f g : Scope → Scope} (hx : Follows L x y R)
    (hf : ∀ scope twin, K scope twin → L (f scope) (g twin)) :
    Follows K (withReader f x : Render α) (withReader g y : Render β) R :=
  fun scope twin hscope log log' => hx (f scope) (g twin) (hf scope twin hscope) log log'

/-- Reports are not looked at. -/
theorem report {finding finding' : Finding} {line line' : Option Int} :
    Follows K (Render.report finding line) (Render.report finding' line') fun _ _ => True :=
  fun _ _ _ _ _ => Yields.pure ⟨(), rfl, True.intro⟩

theorem reportIf {condition condition' : Bool} {finding finding' : Finding}
    {line line' : Option Int} :
    Follows K (Render.reportIf condition finding line) (Render.reportIf condition' finding' line')
      fun _ _ => True := by
  cases condition <;> cases condition' <;> exact fun _ _ _ _ _ => Yields.pure ⟨(), rfl, True.intro⟩

theorem ite {p q : Prop} [Decidable p] [Decidable q] {x' : Render α} {y' : Render β} (hpq : p ↔ q)
    (hx : p → Follows K x y R) (hx' : ¬ p → Follows K x' y' R) :
    Follows K (if p then x else x') (if q then y else y') R := by
  by_cases hp : p
  · rw [if_pos hp, if_pos (hpq.1 hp)]
    exact hx hp
  · rw [if_neg hp, if_neg fun hq => hp (hpq.2 hq)]
    exact hx' hp

/-- A step for each entry of a list. -/
theorem mapM {ι : Type} {u : ι → α} {v : ι → β} {f : α → Render γ} {g : β → Render δ}
    {items : List ι} (h : ∀ i ∈ items, Follows K (f (u i)) (g (v i)) T) :
    Follows K ((items.map u).mapM f) ((items.map v).mapM g) (List.Forall₂ T) := by
  induction items with
  | nil => exact pure .nil
  | cons first rest ih =>
    rw [List.forall_mem_cons] at h
    rw [List.map_cons, List.map_cons, List.mapM_cons, List.mapM_cons]
    refine bind h.1 fun c d hcd => bind (ih h.2) fun cs ds hrest => ?_
    exact pure (.cons hcd hrest)

/-- Two runs, each in its scope. -/
theorem of_runIn {scope twin : Scope} {a : α} (hx : Follows K x y R) (hscope : K scope twin)
    (hok : (runIn scope x).result = .ok a) : ∃ b, (runIn twin y).result = .ok b ∧ R a b := by
  simp only [runIn, ReaderT.run, ExceptT.run, StateT.run] at hok ⊢
  rcases hrun : x scope [] with ⟨result, log⟩
  rw [hrun] at hok
  cases result with
  | error halt => cases hok
  | ok a' =>
    obtain rfl := Except.ok.inj hok
    obtain ⟨b, hb, hab⟩ := hx scope twin hscope [] [] a' (by rw [hrun])
    rcases hrun' : y twin [] with ⟨result', log'⟩
    rw [hrun'] at hb
    obtain rfl : result' = .ok b := hb
    exact ⟨b, rfl, hab⟩

end Follows

end Recast.Render
