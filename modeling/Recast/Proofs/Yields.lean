import Mathlib
import Recast.Reading.Basic

/-!
What steps that may fail yield where they succeed.

`Yields x P` says that `P` holds of the result of `x`, if `x` has one. It goes through sequences of
steps by one lemma for each way to combine them, first for steps that only may fail and then for
steps of reading, which also see the source and collect diagnostics.

A step for each entry of a list has a result for each entry, in order (`mapM_eq_ok_iff`,
`Read.Yields.mapM_forall₂`). What is said of all results follows from that.
-/

namespace Recast

variable {ε α β : Type}

/-! ### Lists of results -/

section Partners

variable {R : α → β → Prop} {as : List α} {bs : List β}

/-- Each entry of a list may be given a partner. -/
theorem exists_forall₂ (h : ∀ a ∈ as, ∃ b, R a b) : ∃ bs, List.Forall₂ R as bs := by
  induction as with
  | nil => exact ⟨[], .nil⟩
  | cons a as ih =>
    rw [List.forall_mem_cons] at h
    obtain ⟨b, hb⟩ := h.1
    obtain ⟨bs, hbs⟩ := ih h.2
    exact ⟨b :: bs, .cons hb hbs⟩

/-- A partner is the partner of an entry. -/
theorem exists_entry (h : List.Forall₂ R as bs) : ∀ b ∈ bs, ∃ a ∈ as, R a b := by
  induction h with
  | nil => exact nofun
  | cons hfirst _ ih =>
    refine List.forall_mem_cons.2 ⟨⟨_, List.mem_cons_self, hfirst⟩, fun b hb => ?_⟩
    obtain ⟨a, ha, hab⟩ := ih b hb
    exact ⟨a, List.mem_cons_of_mem _ ha, hab⟩

/-- An entry has a partner. -/
theorem exists_partner (h : List.Forall₂ R as bs) : ∀ a ∈ as, ∃ b ∈ bs, R a b :=
  exists_entry h.flip

/-- What holds of each partner holds of all of them. -/
theorem forall_mem_partners {P : β → Prop} (h : List.Forall₂ R as bs) (hP : ∀ a b, R a b → P b) :
    ∀ b ∈ bs, P b := by
  intro b hb
  obtain ⟨a, -, hab⟩ := exists_entry h b hb
  exact hP a b hab

end Partners

/-- A step for each entry of a list succeeds where each of them does, with their results. -/
theorem mapM_eq_ok_iff {f : α → Except ε β} {items : List α} {results : List β} :
    items.mapM f = .ok results ↔ List.Forall₂ (fun a b => f a = .ok b) items results := by
  constructor
  · intro h
    induction items generalizing results with
    | nil =>
      cases h
      exact .nil
    | cons first rest ih =>
      rw [List.mapM_cons] at h
      cases hfirst : f first with
      | error e =>
        rw [hfirst] at h
        cases h
      | ok b =>
        cases hrest : rest.mapM f with
        | error e =>
          rw [hfirst, hrest] at h
          cases h
        | ok others =>
          rw [hfirst, hrest] at h
          cases h
          exact .cons hfirst (ih hrest)
  · intro h
    induction h with
    | nil => rfl
    | cons hfirst _ ih =>
      rw [List.mapM_cons, hfirst, ih]
      rfl

/-! ### Steps that may fail -/

/-- Whether a property holds of the result of a step that may fail. -/
def Yields (x : Except ε α) (P : α → Prop) : Prop := ∀ a, x = .ok a → P a

namespace Yields

variable {x : Except ε α} {P Q : α → Prop} {R : β → Prop}

theorem pure {a : α} (h : P a) : Yields (pure a : Except ε α) P := by
  rintro _ ⟨⟩
  exact h

theorem error {e : ε} : Yields (.error e : Except ε α) P := by
  rintro _ ⟨⟩

theorem throw {e : ε} : Yields (throw e : Except ε α) P := by
  rintro _ ⟨⟩

theorem bind {f : α → Except ε β} (hx : Yields x P) (hf : ∀ a, P a → Yields (f a) R) :
    Yields (x >>= f) R := by
  intro b hb
  cases x with
  | error e => cases hb
  | ok a => exact hf a (hx a rfl) b hb

theorem mono (hx : Yields x P) (h : ∀ a, P a → Q a) : Yields x Q := fun a ha => h a (hx a ha)

theorem trivial : Yields x fun _ => True := fun _ _ => True.intro

/-- A step for each entry of a list yields a list of results. -/
theorem mapM {f : α → Except ε β} {items : List α} (hf : ∀ a ∈ items, Yields (f a) R) :
    Yields (items.mapM f) fun results => ∀ b ∈ results, R b := by
  intro results hresults b hb
  obtain ⟨a, ha, hab⟩ := exists_entry (mapM_eq_ok_iff.1 hresults) b hb
  exact hf a ha b hab

theorem foldlM_append {f : β → α → Except ε β} (I : List α → β → Prop) {items : List α}
    (hf : ∀ done a b, a ∈ items → I done b → Yields (f b a) (I (done ++ [a])))
    {done : List α} {b : β} (hb : I done b) : Yields (items.foldlM f b) (I (done ++ items)) := by
  induction items generalizing done b with
  | nil => exact pure (by simpa using hb)
  | cons first rest ih =>
    rw [List.foldlM_cons]
    refine bind (hf done first b List.mem_cons_self hb) fun b' hb' => ?_
    have hrest := ih (fun done a b ha => hf done a b (List.mem_cons_of_mem _ ha)) hb'
    simpa using hrest

/-- A step for each entry of a list, each with the state that the one before left. The invariant may
speak of the entries gone through. -/
theorem foldlM {f : β → α → Except ε β} (I : List α → β → Prop) {items : List α}
    (hf : ∀ done a b, a ∈ items → I done b → Yields (f b a) (I (done ++ [a])))
    {b : β} (hb : I [] b) : Yields (items.foldlM f b) (I items) :=
  foldlM_append I hf hb

end Yields

/-! ### Steps of reading -/

namespace Read

/-- Whether a property holds of the result of a step of reading. -/
def Yields (x : Read α) (P : α → Prop) : Prop :=
  ∀ source found, Recast.Yields (x source found) fun result => P result.1

namespace Yields

variable {x : Read α} {P Q : α → Prop} {R : β → Prop}

theorem pure {a : α} (h : P a) : Yields (pure a) P :=
  fun _ _ => Recast.Yields.pure h

theorem unsupported {cause : Unsupported} : Yields (Read.unsupported cause : Read α) P :=
  fun _ _ => Recast.Yields.throw

theorem bind {f : α → Read β} (hx : Yields x P) (hf : ∀ a, P a → Yields (f a) R) :
    Yields (x >>= f) R :=
  fun source found => (hx source found).bind fun (a, found) ha => hf a ha source found

theorem map {f : α → β} (hx : Yields x P) (hf : ∀ a, P a → R (f a)) : Yields (f <$> x) R := by
  intro source found
  exact (hx source found).bind fun (a, found) ha => Recast.Yields.pure (hf a ha)

theorem mono (hx : Yields x P) (h : ∀ a, P a → Q a) : Yields x Q :=
  fun source found => (hx source found).mono fun result => h result.1

theorem trivial : Yields x fun _ => True := fun _ _ _ _ => True.intro

/-- A step for each entry of a list yields a result for each. -/
theorem mapM_forall₂ {f : α → Read β} {S : α → β → Prop} {items : List α}
    (hf : ∀ a ∈ items, Yields (f a) (S a)) : Yields (items.mapM f) (List.Forall₂ S items) := by
  induction items with
  | nil => exact pure .nil
  | cons first rest ih =>
    rw [List.forall_mem_cons] at hf
    rw [List.mapM_cons]
    refine bind hf.1 fun b hb => bind (ih hf.2) fun results hresults => ?_
    exact pure (.cons hb hresults)

theorem mapM {f : α → Read β} {items : List α} (hf : ∀ a ∈ items, Yields (f a) R) :
    Yields (items.mapM f) fun results => ∀ b ∈ results, R b :=
  (mapM_forall₂ hf).mono fun _ hresults => forall_mem_partners hresults fun _ _ hb => hb

/-- A step for each entry of a list yields results that weigh as much as the entries, but for the
losses, if each step does. -/
theorem mapM_sum {f : α → Read β} {items : List α} {weight loss : α → Nat} {gain : β → Nat}
    (hf : ∀ a ∈ items, Yields (f a) fun b => weight a ≤ gain b + loss a) :
    Yields (items.mapM f) fun results =>
      (items.map weight).sum ≤ (results.map gain).sum + (items.map loss).sum := by
  refine (mapM_forall₂ hf).mono fun results hresults => ?_
  induction hresults with
  | nil => exact Nat.le_refl _
  | cons hfirst _ ih =>
    simp only [List.map_cons, List.sum_cons]
    have hrest := ih fun a ha => hf a (List.mem_cons_of_mem _ ha)
    omega

theorem optionMapM {f : α → Read β} {slot : Option α} (hf : ∀ a ∈ slot, Yields (f a) R) :
    Yields (slot.mapM f) fun result => ∀ b ∈ result, R b := by
  cases slot with
  | none => exact pure (by simp)
  | some a =>
    refine map (hf a rfl) fun b hb => ?_
    simpa using hb

theorem foldlM {f : β → α → Read β} {items : List α}
    (hf : ∀ b, ∀ a ∈ items, R b → Yields (f b a) R) {b : β} (hb : R b) :
    Yields (items.foldlM f b) R := by
  induction items generalizing b with
  | nil => exact pure hb
  | cons first rest ih =>
    rw [List.foldlM_cons]
    refine bind (hf b first List.mem_cons_self hb) fun b' hb' => ?_
    exact ih (fun b a ha => hf b a (List.mem_cons_of_mem _ ha)) hb'

end Yields

end Read

end Recast
