import Mathlib
import Recast.Proofs.Tree.Orderly

/-!
What attaching comments does to a tree.

Each comment goes to one container, as the lead of a line child or as an orphan, and nothing else
changes: the tree without comments stays the same, and the multiset of its comments grows by that
comment (`Attached.step`). So after the whole text has been scanned the unit holds the comments of
the text, each as often as it occurs there, and holds them in two kinds of places only: `Placed`
says that orphans stand in containers, and that only line children have a leading comment.
-/

namespace Recast

open Attach

namespace Tree

/-- The comments of a tree, each as often as the tree holds it. -/
def bag (t : Tree) : Multiset Comment := t.comments

theorem bag_node (trivia : Trivia) (form : Form Tree) :
    (node trivia form).bag = (trivia.comments : Multiset Comment) + (form.children.map bag).sum := by
  have hsum : ∀ nodes : List Tree,
      ((nodes.flatMap comments : List Comment) : Multiset Comment) = (nodes.map bag).sum := by
    intro nodes
    induction nodes with
    | nil => rfl
    | cons first rest ih =>
      rw [List.flatMap_cons, List.map_cons, List.sum_cons, ← ih, ← Multiset.coe_add]
      rfl
  rw [bag, comments_node, ← hsum, Multiset.coe_add]

/-- Whether a node has its comments where attaching puts them: orphans in containers, and no lead on
a child that is no line child. -/
structure Placed (t : Tree) : Prop where
  orphans : t.trivia.orphans ≠ [] → t.form.isContainer
  leads : ∀ child ∈ t.form.sideChildren, child.comment = none

end Tree

/-! ### One comment -/

/-- Replacing one entry of a list moves a sum by as much as it moves the entry. -/
theorem sum_map_modify {α : Type} {φ : α → Multiset Comment} {g : α → α} {before after : Multiset Comment}
    {items : List α} {i : Nat} {a : α} (ha : items[i]? = some a)
    (hg : φ (g a) + before = after + φ a) :
    ((items.modify i g).map φ).sum + before = after + (items.map φ).sum := by
  obtain ⟨hi, rfl⟩ := List.getElem?_eq_some_iff.1 ha
  have hsplit : items = items.take i ++ items[i] :: items.drop (i + 1) := by
    rw [List.getElem_cons_drop, List.take_append_drop]
  rw [List.modify_eq_take_cons_drop hi]
  conv_rhs => rw [hsplit]
  simp only [List.map_append, List.map_cons, List.sum_append, List.sum_cons]
  calc _ = (List.map φ (items.take i)).sum + (φ (g items[i]) + before)
        + (List.map φ (items.drop (i + 1))).sum := by abel
    _ = _ := by rw [hg]; abel

namespace Attach

/-- Attaching to a container either adds an orphan, or gives a line child a new lead and makes an
orphan of its old one. -/
theorem attachHere_cases (comment : Comment) (trivia : Trivia) (form : Form Tree) :
    attachHere comment (.node trivia form) = .node (trivia.addOrphans [comment]) form ∨
    ∃ k child, form.children[form.lineOffset + k]? = some child ∧
      attachHere comment (.node trivia form) = .node (trivia.addOrphans child.comment.toList)
        (form.mapIdx fun i child =>
          if i = form.lineOffset + k then lead comment child else child) := by
  unfold attachHere
  cases hfind : led? comment (.node trivia form) with
  | none => exact Or.inl rfl
  | some k =>
    obtain ⟨hk, -⟩ := List.findIdx?_eq_some_iff_getElem.1 hfind
    simp only [Tree.form_node] at hk
    have hget := List.getElem?_eq_getElem hk
    refine Or.inr ⟨k, _, (form.getElem?_lineOffset_add k).trans hget, ?_⟩
    simp only [Tree.trivia_node, Tree.form_node, hget, Option.bind_some]
    rfl

theorem uncommented_withTrivia {trivia : Trivia} {t : Tree}
    (h : trivia.position = t.trivia.position) :
    (t.withTrivia trivia).uncommented = t.uncommented := by
  cases t with
  | node before form =>
    rw [Tree.withTrivia, Tree.uncommented_node, Tree.uncommented_node, h]
    rfl

theorem uncommented_attachHere (comment : Comment) (t : Tree) :
    (attachHere comment t).uncommented = t.uncommented := by
  cases t with
  | node trivia form =>
    obtain hadd | ⟨k, child, -, hlead⟩ := attachHere_cases comment trivia form
    · rw [hadd, Tree.uncommented_node, Tree.uncommented_node]
      rfl
    · rw [hlead, Tree.uncommented_node, Tree.uncommented_node, Form.map_mapIdx]
      · rfl
      · intro i other
        split
        · exact uncommented_withTrivia rfl
        · rfl

theorem comment_attachHere (comment : Comment) (t : Tree) :
    (attachHere comment t).comment = t.comment := by
  cases t with
  | node trivia form =>
    obtain hadd | ⟨k, child, -, hlead⟩ := attachHere_cases comment trivia form
    · rw [hadd]
      rfl
    · rw [hlead]
      rfl

theorem coe_comments_addOrphans (trivia : Trivia) (comments : List Comment) :
    ((trivia.addOrphans comments).comments : Multiset Comment)
      = (trivia.comments : Multiset Comment) + comments := by
  simp [Trivia.comments, Trivia.addOrphans]

theorem bag_lead (comment : Comment) (t : Tree) :
    (lead comment t).bag + t.comment.toList = {comment} + t.bag := by
  cases t with
  | node trivia form =>
    simp only [lead, Tree.withTrivia, Tree.bag_node, Tree.form_node, Tree.trivia_node,
      Trivia.comments, Trivia.ledBy, Tree.comment, Option.toList_some, ← Multiset.coe_add, Multiset.coe_singleton]
    abel

/-- Attaching a comment adds it to what the tree holds. -/
theorem bag_attachHere (comment : Comment) (t : Tree) :
    (attachHere comment t).bag = {comment} + t.bag := by
  cases t with
  | node trivia form =>
    obtain hadd | ⟨k, child, hchild, hlead⟩ := attachHere_cases comment trivia form
    · rw [hadd, Tree.bag_node, Tree.bag_node, coe_comments_addOrphans, Multiset.coe_singleton]
      abel
    · have hsum := sum_map_modify (φ := Tree.bag) (g := lead comment) hchild
        (bag_lead comment child)
      rw [hlead, Tree.bag_node, Tree.bag_node, coe_comments_addOrphans, Form.children_mapIdx_ite,
        add_assoc, add_comm (child.comment.toList : Multiset Comment), hsum]
      exact add_left_comm ..

theorem placed_lead {comment : Comment} {t : Tree} (h : t.Everywhere Tree.Placed) :
    (lead comment t).Everywhere Tree.Placed := by
  cases t with
  | node trivia form =>
    obtain ⟨hself, hbelow⟩ := Tree.everywhere_node.1 h
    exact Tree.everywhere_node.2 ⟨⟨hself.orphans, hself.leads⟩, hbelow⟩

/-- Attaching a comment to a container keeps all comments in their places. -/
theorem placed_attachHere {comment : Comment} {t : Tree} (hcontainer : t.form.isContainer)
    (h : t.Everywhere Tree.Placed) : (attachHere comment t).Everywhere Tree.Placed := by
  cases t with
  | node trivia form =>
    obtain ⟨hself, hbelow⟩ := Tree.everywhere_node.1 h
    obtain hadd | ⟨k, child, hchild, hlead⟩ := attachHere_cases comment trivia form
    · rw [hadd]
      exact Tree.everywhere_node.2 ⟨⟨fun _ => hcontainer, hself.leads⟩, hbelow⟩
    · rw [hlead]
      refine Tree.everywhere_node.2 ⟨⟨fun _ => ?_, ?_⟩, ?_⟩
      · rw [Tree.form_node, Form.isContainer_mapIdx]
        exact hcontainer
      · have hbeyond : form.sideChildren.length ≤ form.lineOffset + k := by
          rw [Form.length_sideChildren]
          exact Nat.le_add_right ..
        intro other hother
        rw [Tree.form_node, Form.sideChildren_mapIdx_ite, List.modify_eq_self hbeyond] at hother
        exact hself.leads other hother
      · rw [Form.children_mapIdx_ite]
        exact forall_mem_modify hbelow fun other hother =>
          placed_lead (hbelow other (List.mem_of_getElem? hother))

end Attach

/-! ### At an address -/

namespace Tree

variable {f : Tree → Tree} {t node : Tree} {address : Address}

theorem comment_updateAt (hf : ∀ t, (f t).comment = t.comment) (address : Address) (t : Tree) :
    (t.updateAt f address).comment = t.comment := by
  cases address with
  | nil => exact hf t
  | cons i rest => rfl

/-- What an update adds to the node at an address it adds to the tree. -/
theorem bag_updateAt {added : Multiset Comment} (hf : ∀ t, (f t).bag = added + t.bag)
    (hnode : t.nodeAt? address = some node) : (t.updateAt f address).bag = added + t.bag := by
  induction address generalizing t with
  | nil => exact hf t
  | cons i rest ih =>
    cases t with
    | node trivia form =>
      obtain ⟨child, hchild, hrest⟩ := Option.bind_eq_some_iff.1 hnode
      have hchild_bag : (child.updateAt f rest).bag + 0 = added + child.bag := by
        rw [add_zero, ih hrest]
      have hsum := sum_map_modify (φ := bag) (g := updateAt f rest) hchild hchild_bag
      rw [add_zero, form_node] at hsum
      rw [updateAt_cons, withForm, bag_node, bag_node, trivia_node, form_node,
        Form.children_mapIdx_ite, hsum]
      exact add_left_comm ..

/-- What an update keeps in place at an address stays in place in the tree. -/
theorem placed_updateAt (hcomment : ∀ t, (f t).comment = t.comment)
    (hf : node.Everywhere Placed → (f node).Everywhere Placed)
    (hnode : t.nodeAt? address = some node) (h : t.Everywhere Placed) :
    (t.updateAt f address).Everywhere Placed := by
  induction address generalizing t with
  | nil =>
    obtain rfl : t = node := Option.some.inj hnode
    exact hf h
  | cons i rest ih =>
    cases t with
    | node trivia form =>
      obtain ⟨child, hchild, hrest⟩ := Option.bind_eq_some_iff.1 hnode
      obtain ⟨hself, hbelow⟩ := everywhere_node.1 h
      rw [updateAt_cons, withForm, trivia_node, form_node]
      refine everywhere_node.2 ⟨⟨fun horphans => ?_, ?_⟩, ?_⟩
      · rw [form_node, Form.isContainer_mapIdx]
        exact hself.orphans horphans
      · rw [form_node, Form.sideChildren_mapIdx_ite]
        refine forall_mem_modify hself.leads fun other hother => ?_
        rw [comment_updateAt hcomment]
        exact hself.leads other (List.mem_of_getElem? hother)
      · rw [Form.children_mapIdx_ite]
        refine forall_mem_modify hbelow fun other hother => ?_
        obtain rfl : other = child := Option.some.inj (hother.symm.trans hchild)
        exact ih hrest (hbelow other (List.mem_of_getElem? hother))

end Tree

/-! ### Where a comment goes -/

namespace Attach

/-- Whether an address leads to a container. -/
def Leads (t : Tree) (address : Address) : Prop :=
  ∃ node, t.nodeAt? address = some node ∧ node.form.isContainer

theorem mem_containersFrom {t : Tree} {anchor : Option Position} {address : Address}
    {container : Container} (h : container ∈ containersFrom t anchor address) :
    ∃ rest, container.address = address ++ rest ∧ Leads t rest := by
  induction t using Tree.induct generalizing anchor address with
  | step trivia form ih =>
    rw [containersFrom, Tree.fold_node, List.mem_append] at h
    rcases h with hhere | hbelow
    · refine ⟨[], ?_, .node trivia form, rfl, ?_⟩ <;>
        cases hline : form.lineChildren? <;>
        simp_all [containerAt, Form.isContainer]
    · simp only [Form.children_map, List.zipIdx_map, List.mem_flatMap, List.mem_map] at hbelow
      obtain ⟨⟨below, i⟩, ⟨⟨child, j⟩, hchild, heq⟩, hmem⟩ := hbelow
      obtain ⟨rfl, rfl⟩ := Prod.mk.inj heq
      have hget := List.mem_zipIdx_iff_getElem?.1 hchild
      obtain ⟨rest, haddress, node, hnode, hcontainer⟩ :=
        ih child (List.mem_of_getElem? hget) hmem
      refine ⟨j :: rest, ?_, node, ?_, hcontainer⟩
      · rw [haddress]
        simp
      · rw [Tree.nodeAt?, Tree.form_node, hget]
        exact hnode

theorem mem_of_innermost {spans : List (BracePair × Address)} {inner : BracePair × Address}
    (h : innermost spans = some inner) : inner ∈ spans := by
  induction spans generalizing inner with
  | nil => cases h
  | cons first rest ih =>
    simp only [innermost] at h
    cases hrest : innermost rest with
    | none =>
      rw [hrest] at h
      exact List.mem_cons.2 (Or.inl (Option.some.inj h).symm)
    | some other =>
      simp only [hrest, Option.some.injEq] at h
      split at h
      · subst h
        exact List.mem_cons_of_mem _ (ih hrest)
      · exact List.mem_cons.2 (Or.inl h.symm)

/-- A comment goes to a container. -/
theorem leads_owner {unit : Tree} (hunit : unit.form.isContainer) (braces : List BracePair)
    (position : Option Position) : Leads unit (owner (spans braces unit) position) := by
  have hroot : Leads unit [] := ⟨unit, rfl, hunit⟩
  cases position with
  | none => exact hroot
  | some p =>
    simp only [owner]
    cases hinner : innermost ((spans braces unit).filter (·.1.encloses p)) with
    | none => exact hroot
    | some inner =>
      have hspan := List.mem_of_mem_filter (mem_of_innermost hinner)
      obtain ⟨container, hcontainer, hpair⟩ := List.mem_filterMap.1 hspan
      obtain ⟨pair, -, rfl⟩ := Option.map_eq_some_iff.1 hpair
      obtain ⟨rest, haddress, hleads⟩ := mem_containersFrom (List.mem_of_mem_filter hcontainer)
      rw [List.nil_append] at haddress
      simpa [haddress] using hleads

theorem leads_uncommented {t : Tree} {address : Address} :
    Leads t.uncommented address ↔ Leads t address := by
  simp only [Leads, Tree.nodeAt?_uncommented, Option.map_eq_some_iff]
  constructor
  · rintro ⟨_, ⟨node, hnode, rfl⟩, hcontainer⟩
    rw [Tree.form_uncommented, Form.isContainer_map] at hcontainer
    exact ⟨node, hnode, hcontainer⟩
  · rintro ⟨node, hnode, hcontainer⟩
    refine ⟨_, ⟨node, hnode, rfl⟩, ?_⟩
    rw [Tree.form_uncommented, Form.isContainer_map]
    exact hcontainer

/-! ### All comments -/

/-- What a unit is after some comments have been attached to it: the same but for the comments, all
of them held and each in its place. -/
structure Attached (unit : Tree) (comments : List Comment) (t : Tree) : Prop where
  same : t.uncommented = unit.uncommented
  held : t.bag = unit.bag + comments
  placed : t.Everywhere Tree.Placed
  lead : t.comment = unit.comment

/-- Attaching one more comment. -/
theorem Attached.step {unit t : Tree} {comments : List Comment} {comment : Comment}
    {spans : List (BracePair × Address)} (h : Attached unit comments t)
    (howner : Leads unit (owner spans comment.position)) :
    Attached unit (comments ++ [comment]) (attachOne spans t comment) := by
  rw [← leads_uncommented, ← h.same, leads_uncommented] at howner
  obtain ⟨node, hnode, hcontainer⟩ := howner
  constructor
  · rw [attachOne, Tree.uncommented_updateAt (uncommented_attachHere comment), h.same]
  · rw [attachOne, Tree.bag_updateAt (bag_attachHere comment) hnode, h.held, ← Multiset.coe_add,
      Multiset.coe_singleton]
    abel
  · exact Tree.placed_updateAt (comment_attachHere comment) (placed_attachHere hcontainer) hnode
      h.placed
  · rw [attachOne, Tree.comment_updateAt (comment_attachHere comment), h.lead]

theorem Attached.foldl {unit t : Tree} {comments : List Comment}
    {spans : List (BracePair × Address)} (howner : ∀ position, Leads unit (owner spans position))
    (more : List Comment) (h : Attached unit comments t) :
    Attached unit (comments ++ more) (more.foldl (attachOne spans) t) := by
  induction more generalizing comments t with
  | nil => simpa using h
  | cons comment rest ih => simpa using ih (h.step (howner comment.position))

end Attach

/-- After attaching, a unit that had no comments holds those of its text. -/
theorem attached_attachComments {unit : Tree} (source : String) (hunit : unit.form.isContainer)
    (hplaced : unit.Everywhere Tree.Placed) :
    Attached unit (scan source).comments (attachComments unit source) := by
  have hstart : Attached unit [] unit := ⟨rfl, by simp, hplaced, rfl⟩
  exact hstart.foldl (leads_owner hunit _) (scan source).comments

end Recast
