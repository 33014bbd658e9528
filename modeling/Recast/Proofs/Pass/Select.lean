import Mathlib
import Recast.Pass.Select
import Recast.Proofs.Pass.Hushed
import Recast.Proofs.Yields

/-!
Import selection and the comments of a unit.

An import leads nowhere else, so all it can hold is its leading comment. Selection drops imports and
adds others, but the comment of each import of the unit ends up on the import that takes its place
or among the orphans: `Collected` is the invariant of the imports gone through so far, and
`select_keeps` what it says of the whole unit.
-/

namespace Recast.Pass

open Recast.Tree

/-- Whether a node is an import that holds no comment but its leading one. -/
structure PlainImport (t : Tree) : Prop where
  form : t.form.isImport
  orphans : t.trivia.orphans = []

theorem PlainImport.mk_node {trivia : Trivia} {decl : ImportName} (h : trivia.orphans = []) :
    PlainImport (.node trivia (.part (.importing decl))) := ⟨rfl, h⟩

/-- An import holds its leading comment and no other. -/
theorem PlainImport.bag {t : Tree} (h : PlainImport t) :
    t.bag = (t.comment.toList : Multiset Comment) := by
  obtain ⟨trivia, form⟩ := t
  cases form with
  | part form =>
    cases form with
    | importing decl =>
      have horphans : trivia.orphans = [] := h.orphans
      simp [bag_node, Form.children, PartForm.children, Trivia.comments, Tree.comment, horphans]
    | _ => cases h.form
  | _ => cases h.form

theorem PlainImport.hushed {t : Tree} (h : PlainImport t) : t.Everywhere Hushed := by
  obtain ⟨trivia, form⟩ := t
  cases form with
  | part form =>
    cases form with
    | importing decl =>
      refine everywhere_node.2 ⟨⟨?_, ?_, by simp [Form.typeSlots]⟩, by
        simp [Form.children, PartForm.children]⟩
      · intro hsilent
        cases hsilent
      · intro hvalue
        cases hvalue
    | _ => cases h.form
  | _ => cases h.form

/-- What has been selected holds the comments of the imports gone through. -/
structure Collected (done : List Tree) (selection : Selection) : Prop where
  imports : ∀ t ∈ selection.imports, PlainImport t
  held : (selection.imports.map Tree.bag).sum + (selection.orphans : Multiset Comment)
    = (done.map Tree.bag).sum

/-- An emitted import holds no comments. -/
theorem yields_declaration (e : EmittedImport) :
    Yields e.declaration fun t => PlainImport t ∧ t.bag = 0 := by
  refine Yields.bind Yields.trivial fun name _ => Yields.pure ⟨PlainImport.mk_node rfl, ?_⟩
  exact bag_eq_zero_iff.2 ⟨rfl, by simp [Form.children, PartForm.children]⟩

theorem Collected.append {done : List Tree} {selection : Selection} {more : List Tree}
    (h : Collected done selection) (hmore : ∀ t ∈ more, PlainImport t ∧ t.bag = 0)
    (passes : List Pass) :
    Collected done { selection with passes, imports := selection.imports ++ more } := by
  constructor
  · intro t ht
    rcases List.mem_append.1 ht with hold | hnew
    · exact h.imports t hold
    · exact (hmore t hnew).1
  · rw [List.map_append, List.sum_append, sum_map_bag_eq_zero fun t ht => (hmore t ht).2, add_zero]
    exact h.held

theorem yields_take {done : List Tree} {selection : Selection} (entry : Registration)
    (h : Collected done selection) : Yields (take selection entry) (Collected done) := by
  unfold take
  split
  · exact Yields.pure h
  · split
    · exact Yields.pure h
    · refine Yields.bind (Yields.mapM fun e _ => yields_declaration e) fun emitted hemitted => ?_
      exact Yields.pure (h.append hemitted _)

/-- A settled import has the comment of the import it stands for. -/
theorem yields_settleImport (around : Surroundings) (package : String) (trivia : Trivia)
    (decl : ImportName) :
    Yields (settleImport around package trivia decl) fun result =>
      PlainImport result.1 ∧ result.1.comment = trivia.comment := by
  refine Yields.bind Yields.trivial fun specifier _ => ?_
  cases specifier with
  | some specifier =>
    refine Yields.bind Yields.trivial fun name _ => ?_
    exact Yields.pure ⟨PlainImport.mk_node rfl, rfl⟩
  | none =>
    dsimp only
    split
    · exact Yields.throw
    · exact Yields.pure ⟨PlainImport.mk_node rfl, rfl⟩

/-- One more import. -/
theorem yields_selectImport (around : Surroundings) (package : String) {done : List Tree}
    {selection : Selection} {node : Tree} (h : Collected done selection) (hnode : PlainImport node) :
    Yields (selectImport around package selection node) (Collected (done ++ [node])) := by
  have hsum : ((done ++ [node]).map Tree.bag).sum
      = (done.map Tree.bag).sum + (node.comment.toList : Multiset Comment) := by
    simp [hnode.bag]
  unfold selectImport
  split
  · split
    · refine Yields.bind (yields_settleImport around package node.trivia _)
        fun (settled, found) ⟨hplain, hcomment⟩ => ?_
      refine Yields.pure ⟨?_, ?_⟩
      · intro t ht
        rcases List.mem_append.1 ht with hold | hnew
        · exact h.imports t hold
        · obtain rfl := List.mem_singleton.1 hnew
          exact hplain
      · have hsettled : settled.bag = (node.comment.toList : Multiset Comment) := by
          rw [hplain.bag, hcomment]
          rfl
        rw [hsum, ← h.held, List.map_append, List.sum_append, List.map_singleton,
          List.sum_singleton, hsettled]
        exact add_right_comm ..
    · refine Yields.bind (P := Collected done) ?_ fun taken htaken => ?_
      · exact Yields.foldlM (fun _ => Collected done) (fun _ entry _ _ hb => yields_take entry hb) h
      · refine Yields.pure ⟨htaken.imports, ?_⟩
        rw [hsum, ← htaken.held, ← Multiset.coe_add, add_assoc]
  · rename_i hother
    obtain ⟨trivia, form⟩ := node
    cases form with
    | part form =>
      cases form with
      | importing decl => exact absurd rfl (hother decl)
      | _ => cases hnode.form
    | _ => cases hnode.form

/-- Of equal imports the first stays, and the others leave their comments. -/
theorem dedupe_keeps (seen : List (String × Bool × Bool)) {nodes : List Tree}
    (h : ∀ t ∈ nodes, PlainImport t) :
    (∀ t ∈ (dedupe seen nodes).1, PlainImport t) ∧
      ((dedupe seen nodes).1.map Tree.bag).sum + ((dedupe seen nodes).2 : Multiset Comment)
        = (nodes.map Tree.bag).sum := by
  induction nodes generalizing seen with
  | nil => simp [dedupe]
  | cons first rest ih =>
    have hfirst := h first List.mem_cons_self
    unfold dedupe
    split
    · obtain ⟨hplain, hsum⟩ := ih seen fun t ht => h t (List.mem_cons_of_mem _ ht)
      refine ⟨hplain, ?_⟩
      rw [List.map_cons, List.sum_cons, hfirst.bag, ← hsum, ← Multiset.coe_add]
      exact add_left_comm ..
    · obtain ⟨hplain, hsum⟩ := ih (importKey first :: seen) fun t ht =>
        h t (List.mem_cons_of_mem _ ht)
      refine ⟨by simpa using ⟨hfirst, hplain⟩, ?_⟩
      rw [List.map_cons, List.map_cons, List.sum_cons, List.sum_cons, add_assoc, hsum]

/-- Selection keeps the comments of a unit, and leaves it ready for the passes. -/
theorem select_keeps (around : Surroundings) {unit : Tree} (h : unit.Everywhere Hushed)
    (himports : ∀ t ∈ unit.form.importSlots, PlainImport t) :
    Yields (select around unit) fun result =>
      result.2.1.bag = unit.bag ∧ result.2.1.Everywhere Hushed := by
  obtain ⟨trivia, form⟩ := unit
  unfold select
  split
  · rename_i header imports types heq
    obtain rfl : form = .part (.unit header imports types) := heq
    have hcollect : Yields (imports.foldlM (selectImport around (packageName header)) {})
        (Collected imports) :=
      Yields.foldlM Collected
        (fun done t selection ht hdone => yields_selectImport around _ hdone (himports t ht))
        ⟨by simp, by simp⟩
    refine hcollect.bind fun selection hselection => ?_
    refine Yields.bind (Yields.mapM fun name _ => yields_declaration _) fun siblings hsiblings => ?_
    have hall := hselection.append hsiblings selection.passes
    obtain ⟨hkept, hsum⟩ := dedupe_keeps [] hall.imports
    obtain ⟨-, hbelow⟩ := everywhere_node.1 h
    refine Yields.pure ⟨?_, everywhere_node.2 ⟨⟨?_, ?_, by simp [Form.typeSlots]⟩, ?_⟩⟩
    · have himports_sum : ((dedupe [] (selection.imports ++ siblings)).1.map Tree.bag).sum
          + ((selection.orphans ++ (dedupe [] (selection.imports ++ siblings)).2 : List Comment) :
            Multiset Comment) = (imports.map Tree.bag).sum := by
        rw [← hall.held, ← hsum, ← Multiset.coe_add]
        exact add_left_comm .. |>.trans (add_comm ..)
      simp only [bag_node, Form.children, PartForm.children, List.map_append, List.sum_append,
        Attach.coe_comments_addOrphans, ← himports_sum, trivia_node]
      abel
    · intro hsilent
      cases hsilent
    · intro hvalue
      cases hvalue
    · intro child hchild
      simp only [Form.children, PartForm.children, List.mem_append] at hchild hbelow
      rcases hchild with (hheader | himport) | htype
      · exact hbelow child (Or.inl (Or.inl hheader))
      · exact (hkept child himport).hushed
      · exact hbelow child (Or.inr htype)
  · exact Yields.pure ⟨rfl, h⟩

end Recast.Pass
