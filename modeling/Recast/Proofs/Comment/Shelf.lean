import Mathlib
import Recast.Proofs.Comment.Attach
import Recast.Proofs.Comment.Stretch
import Recast.Proofs.Render.Comments.Basic

/-!
What attaching leaves in each container.

Attaching a comment touches the container that the comment belongs to and no other. Of a container a
`Shelf` keeps what matters for this: the orphans, and the positions and leading comments of the line
children. So the comments of a text are put on their shelves one after the other (`shelfAt_foldl`),
and as they come in the order of the text, what is on a shelf in the end can be said gap by gap: the
last comment before a child leads it, and those before that one are orphans (`settle`,
`shelf_attachComments`).
-/

namespace Recast

/-- A tree without comments has none on its nodes. -/
theorem Tree.comments_eq_nil_of_nodeAt? {t node : Tree} {address : Address} (h : t.comments = [])
    (hnode : t.nodeAt? address = some node) : node.comments = [] := by
  induction address generalizing t with
  | nil =>
    obtain rfl := Option.some.inj hnode
    exact h
  | cons i rest ih =>
    obtain ⟨trivia, form⟩ := t
    obtain ⟨child, hchild, hrest⟩ := Option.bind_eq_some_iff.1 hnode
    rw [Tree.comments_node, List.append_eq_nil_iff, List.flatMap_eq_nil_iff] at h
    exact ih (h.2 child (List.mem_of_getElem? hchild)) hrest

theorem Tree.mem_walk_of_nodeAt? {t node : Tree} {address : Address}
    (hnode : t.nodeAt? address = some node) : node ∈ t.walk := by
  induction address generalizing t with
  | nil =>
    obtain rfl := Option.some.inj hnode
    exact Tree.mem_walk_self t
  | cons i rest ih =>
    obtain ⟨child, hchild, hrest⟩ := Option.bind_eq_some_iff.1 hnode
    exact Tree.mem_walk_of_child (List.mem_of_getElem? hchild) (ih hrest)

namespace Attach

/-! ### Shelves -/

/-- A line child: where it starts, and the comment that leads it. -/
structure Slot where
  position : Option Position
  lead : Option Comment

/-- A container: its orphans, and its line children. -/
structure Shelf where
  orphans : List Comment
  slots : List Slot

/-- A node as a line child of its container. -/
def Slot.of (child : Tree) : Slot := ⟨child.position, child.comment⟩

/-- A node as a container. -/
def Shelf.of (container : Tree) : Shelf :=
  ⟨container.trivia.orphans, (container.form.lineChildren?.getD []).map Slot.of⟩

/-- Whether a line child starts after a comment. -/
def Slot.isAfter (comment : Comment) (slot : Slot) : Bool :=
  match comment.position, slot.position with
  | some p, some q => p < q
  | _, _ => false

/-- A comment put on a shelf. -/
def Shelf.put (shelf : Shelf) (comment : Comment) : Shelf :=
  match shelf.slots.findIdx? (Slot.isAfter comment) with
  | none => ⟨shelf.orphans ++ [comment], shelf.slots⟩
  | some k =>
    ⟨shelf.orphans ++ (shelf.slots[k]?.bind (·.lead)).toList,
      shelf.slots.modify k ({ · with lead := some comment })⟩

/-- The container at an address. -/
def shelfAt (t : Tree) (address : Address) : Option Shelf := (t.nodeAt? address).map Shelf.of

variable {comment : Comment} {t : Tree}

theorem lineChildren_eq_drop (form : Form Tree) :
    form.lineChildren?.getD [] = form.children.drop form.lineOffset := by
  conv_rhs => rw [form.children_eq_side_append_line, ← form.length_sideChildren]
  exact (List.drop_left ..).symm

/-- Replacing a line child replaces it in the list of line children. -/
theorem lineChildren_mapIdx (g : Tree → Tree) (k : Nat) (form : Form Tree) :
    (form.mapIdx fun i child =>
        if i = form.lineOffset + k then g child else child).lineChildren?.getD []
      = (form.lineChildren?.getD []).modify k g := by
  rw [lineChildren_eq_drop, lineChildren_eq_drop, Form.lineOffset_mapIdx, Form.children_mapIdx_ite,
    List.drop_modify_of_ge _ _ _ _ (Nat.le_add_right ..), Nat.add_sub_cancel_left]

theorem map_modify_of {α β : Type} {f : α → β} {g : α → α} {h : β → β}
    (hfg : ∀ a, f (g a) = h (f a)) (k : Nat) (items : List α) : (items.modify k g).map f = (items.map f).modify k h := by
  apply List.ext_getElem?
  intro i
  rw [List.getElem?_map, List.getElem?_modify, List.getElem?_modify, List.getElem?_map]
  cases items[i]? with
  | none => rfl
  | some a => by_cases hki : k = i <;> simp [hki, hfg]

/-- Attaching to a container puts the comment on its shelf. -/
theorem shelf_attachHere (comment : Comment) (t : Tree) :
    Shelf.of (attachHere comment t) = (Shelf.of t).put comment := by
  obtain ⟨trivia, form⟩ := t
  have hled : (Shelf.of (.node trivia form)).slots.findIdx? (Slot.isAfter comment) =
      led? comment (.node trivia form) := by
    rw [Shelf.of, List.findIdx?_map]
    rfl
  rw [Shelf.put, hled]
  unfold attachHere
  cases led? comment (.node trivia form) with
  | none => rfl
  | some k =>
    have hslots := map_modify_of (f := Slot.of) (g := lead comment)
      (h := ({ · with lead := some comment })) (fun _ => rfl) k (form.lineChildren?.getD [])
    rw [← lineChildren_mapIdx] at hslots
    have hdisplaced : ((form.lineChildren?.getD [])[k]?.bind Tree.comment) =
        (Shelf.of (.node trivia form)).slots[k]?.bind (·.lead) := by
      rw [Shelf.of, List.getElem?_map, Option.bind_map]
      rfl
    exact congrArg₂ Shelf.mk
      (congrArg (fun lead : Option Comment => trivia.orphans ++ lead.toList) hdisplaced) hslots

/-- A change below the line children, and one of a line child that keeps its position and its
leading comment, does not touch the shelf. -/
theorem shelf_updateAt_cons {f : Tree → Tree} (hf : ∀ t, Slot.of (f t) = Slot.of t) (i : Nat)
    (rest : Address) (t : Tree) : Shelf.of (t.updateAt f (i :: rest)) = Shelf.of t := by
  obtain ⟨trivia, form⟩ := t
  have hslot : ∀ child : Tree, Slot.of (child.updateAt f rest) = Slot.of child := by
    intro child
    cases rest with
    | nil => exact hf child
    | cons j rest => rfl
  have hform : (form.mapIdx fun j child => if j = i then child.updateAt f rest else child).map
      Slot.of = form.map Slot.of := by
    refine Form.map_mapIdx (fun j child => ?_) form
    split
    · exact hslot child
    · rfl
  have hline := congrArg (fun form => form.lineChildren?.getD []) hform
  simp only [Form.lineChildren?_map, getD_nil_map] at hline
  exact congrArg (Shelf.mk trivia.orphans) hline

theorem slot_attachHere (comment : Comment) (t : Tree) :
    Slot.of (attachHere comment t) = Slot.of t := by
  obtain ⟨trivia, form⟩ := t
  obtain hadd | ⟨k, child, -, hlead⟩ := attachHere_cases comment trivia form
  · rw [hadd]
    rfl
  · rw [hlead]
    rfl

theorem shelfAt_cons (t : Tree) (i : Nat) (rest : Address) :
    shelfAt t (i :: rest) = t.form.children[i]?.bind (shelfAt · rest) := by
  rw [shelfAt, Tree.nodeAt?, Option.map_bind]
  rfl

theorem shelfAt_lead (comment : Comment) (t : Tree) (address : Address) :
    shelfAt (lead comment t) address = shelfAt t address := by
  obtain ⟨trivia, form⟩ := t
  cases address with
  | nil => rfl
  | cons i rest => rfl

/-- Attaching to a container does not touch the shelves below it. -/
theorem shelfAt_attachHere_cons (comment : Comment) (t : Tree) (i : Nat) (rest : Address) :
    shelfAt (attachHere comment t) (i :: rest) = shelfAt t (i :: rest) := by
  obtain ⟨trivia, form⟩ := t
  obtain hadd | ⟨k, child, -, hlead⟩ := attachHere_cases comment trivia form
  · rw [hadd]
    rfl
  · rw [hlead, shelfAt_cons, shelfAt_cons, Tree.form_node, Tree.form_node, Form.children_mapIdx_ite,
      List.getElem?_modify]
    cases form.children[i]? with
    | none => rfl
    | some other =>
      by_cases hi : form.lineOffset + k = i
      · simp [hi, shelfAt_lead]
      · simp [hi]

/-- Attaching a comment at an address puts it on the shelf there, and on no other. -/
theorem shelfAt_updateAt (comment : Comment) (t : Tree) (place address : Address) :
    shelfAt (t.updateAt (attachHere comment) place) address =
      if place = address then (shelfAt t address).map (·.put comment) else shelfAt t address := by
  induction address generalizing place t with
  | nil =>
    cases place with
    | nil => exact congrArg some (shelf_attachHere comment t)
    | cons i place => exact congrArg some (shelf_updateAt_cons (slot_attachHere comment) i place t)
  | cons i rest ih =>
    cases place with
    | nil => exact shelfAt_attachHere_cons comment t i rest
    | cons j place =>
      rw [shelfAt_cons, shelfAt_cons, Tree.form_children_updateAt_cons, List.getElem?_modify]
      cases t.form.children[i]? with
      | none => simp
      | some child =>
        by_cases hij : j = i
        · simp [hij, ih]
        · simp [hij]

/-- What is on a shelf after comments have been attached: those of its container, put there one
after the other. -/
theorem shelfAt_foldl (spans : List (BracePair × Address)) (comments : List Comment) (t : Tree)
    (address : Address) :
    shelfAt (comments.foldl (attachOne spans) t) address = (shelfAt t address).map fun shelf =>
      (comments.filter fun c => owner spans c.position = address).foldl Shelf.put shelf := by
  induction comments generalizing t with
  | nil => simp
  | cons comment rest ih =>
    rw [List.foldl_cons, ih, attachOne, shelfAt_updateAt]
    by_cases howner : owner spans comment.position = address
    · simp [howner, Function.comp_def]
    · simp [howner]

/-! ### Gap by gap -/

open Render (takeBefore standsBefore inOrder)

/-- What is on a shelf once all comments have been put there, gap by gap: the last comment of a gap
leads the child behind it, and the others are orphans, as are the comments behind all children. -/
def settle (comments : List Comment) : List (Option Position) → Shelf
  | [] => ⟨comments, []⟩
  | start :: rest =>
    let gap := (takeBefore start comments).1
    let later := settle (takeBefore start comments).2 rest
    ⟨gap.dropLast ++ later.orphans, ⟨start, gap.getLast?⟩ :: later.slots⟩

section Settle

variable {comments : List Comment} {start : Option Position} {p : Position}

theorem takeBefore_nil (start : Option Position) : takeBefore start [] = ([], []) := by
  cases start <;> rfl

theorem settle_nil (starts : List (Option Position)) :
    settle [] starts = ⟨[], starts.map (⟨·, none⟩)⟩ := by
  induction starts with
  | nil => rfl
  | cons start rest ih => simp [settle, takeBefore_nil, ih]

theorem Shelf.put_cons_of {slot : Slot} (h : slot.isAfter comment) (orphans : List Comment)
    (slots : List Slot) : Shelf.put ⟨orphans, slot :: slots⟩ comment =
      ⟨orphans ++ slot.lead.toList, { slot with lead := some comment } :: slots⟩ := by
  simp [Shelf.put, List.findIdx?_cons, h]

theorem Shelf.put_cons_of_not {slot : Slot} (h : slot.isAfter comment = false)
    (before : List Comment) (shelf : Shelf) :
    Shelf.put ⟨before ++ shelf.orphans, slot :: shelf.slots⟩ comment =
      ⟨before ++ (shelf.put comment).orphans, slot :: (shelf.put comment).slots⟩ := by
  simp only [Shelf.put, List.findIdx?_cons, h]
  cases shelf.slots.findIdx? (Slot.isAfter comment) <;> simp

theorem standsBefore_of_precedes {a b : Comment} (h : a.Precedes b) (hb : standsBefore p b) :
    standsBefore p a := by
  obtain ⟨q, r, ha, hpos, hlt⟩ := h
  simp only [standsBefore, ha, hpos, decide_eq_true_eq] at hb ⊢
  exact hlt.trans hb

/-- Among comments in their order those before a position come first. -/
theorem not_standsBefore_of_mem (h : comments.Pairwise Comment.Precedes) :
    ∀ c ∈ comments.dropWhile (standsBefore p), ¬ standsBefore p c := by
  induction comments with
  | nil => exact List.forall_mem_nil _
  | cons first rest ih =>
    obtain ⟨hfirst, hrest⟩ := List.pairwise_cons.1 h
    rw [List.dropWhile_cons]
    split
    · exact ih hrest
    · next hnot =>
      refine List.forall_mem_cons.2 ⟨hnot, fun c hc hbefore => hnot ?_⟩
      exact standsBefore_of_precedes (hfirst c hc) hbefore

/-- A later comment of a gap that still is before the child takes the lead. -/
theorem takeBefore_concat_of (h : (comments ++ [comment]).Pairwise Comment.Precedes)
    (hbefore : standsBefore p comment) :
    takeBefore (some p) comments = (comments, []) ∧
      takeBefore (some p) (comments ++ [comment]) = (comments ++ [comment], []) := by
  obtain ⟨-, -, hlast⟩ := List.pairwise_append.1 h
  have hall : ∀ c ∈ comments, standsBefore p c := fun c hc =>
    standsBefore_of_precedes (hlast c hc comment List.mem_cons_self) hbefore
  have hmore : ∀ c ∈ comments ++ [comment], standsBefore p c := by
    simpa [or_imp, forall_and, hbefore] using hall
  simp only [takeBefore, Prod.mk.injEq, List.takeWhile_eq_self_iff, List.dropWhile_eq_nil_iff]
  exact ⟨⟨hall, hall⟩, hmore, hmore⟩

theorem takeBefore_concat_of_not (hbefore : ∀ p, start = some p → ¬ standsBefore p comment) :
    takeBefore start (comments ++ [comment]) =
      ((takeBefore start comments).1, (takeBefore start comments).2 ++ [comment]) := by
  cases start with
  | none => rfl
  | some p =>
    have hnot := hbefore p rfl
    induction comments with
    | nil => simp [takeBefore, hnot]
    | cons first rest ih =>
      by_cases hfirst : standsBefore p first
      · simpa [takeBefore, hfirst] using ih
      · simp [takeBefore, hfirst]

theorem dropLast_append_getLast? (comments : List Comment) :
    comments.dropLast ++ comments.getLast?.toList = comments := by
  cases comments using List.reverseRecOn <;> simp

theorem isAfter_some (lead : Option Comment) :
    Slot.isAfter comment ⟨some p, lead⟩ = standsBefore p comment := by
  unfold Slot.isAfter standsBefore
  cases comment.position <;> rfl

theorem isAfter_eq_false (hbefore : ∀ p, start = some p → ¬ standsBefore p comment)
    (lead : Option Comment) : Slot.isAfter comment ⟨start, lead⟩ = false := by
  cases start with
  | none => simp [Slot.isAfter]
  | some p => rw [isAfter_some, Bool.eq_false_iff]; exact hbefore p rfl

/-- One more comment at the end is one more comment on the shelf. -/
theorem settle_concat (h : (comments ++ [comment]).Pairwise Comment.Precedes)
    (starts : List (Option Position)) :
    settle (comments ++ [comment]) starts = (settle comments starts).put comment := by
  induction starts generalizing comments with
  | nil => rfl
  | cons start rest ih =>
    by_cases hbefore : ∃ p, start = some p ∧ standsBefore p comment
    · obtain ⟨p, rfl, hbefore⟩ := hbefore
      obtain ⟨hold, hnew⟩ := takeBefore_concat_of h hbefore
      rw [settle, settle, hold, hnew, Shelf.put_cons_of (by rwa [isAfter_some])]
      simp [settle_nil, dropLast_append_getLast?]
    · have hnot : ∀ p, start = some p → ¬ standsBefore p comment := fun p hp hbefore' =>
        hbefore ⟨p, hp, hbefore'⟩
      have hlater : ((takeBefore start comments).2 ++ [comment]).Pairwise Comment.Precedes := by
        refine h.sublist (List.Sublist.append_right ?_ _)
        cases start with
        | none => exact List.Sublist.refl _
        | some p => exact List.dropWhile_sublist _
      rw [settle, settle, takeBefore_concat_of_not hnot, ih hlater,
        Shelf.put_cons_of_not (isAfter_eq_false hnot _)]

/-- Comments put one after the other on an empty shelf settle there. -/
theorem foldl_put (h : comments.Pairwise Comment.Precedes) (starts : List (Option Position)) :
    comments.foldl Shelf.put ⟨[], starts.map (⟨·, none⟩)⟩ = settle comments starts := by
  induction comments using List.reverseRecOn with
  | nil => exact (settle_nil starts).symm
  | append_singleton comments comment ih =>
    rw [List.foldl_concat, ih (List.pairwise_append.1 h).1, settle_concat h]

theorem orphans_settle_sublist (comments : List Comment) (starts : List (Option Position)) :
    (settle comments starts).orphans.Sublist comments := by
  induction starts generalizing comments with
  | nil => exact List.Sublist.refl _
  | cons start rest ih =>
    have hsplit := (List.dropLast_sublist (takeBefore start comments).1).append
      (ih (takeBefore start comments).2)
    rwa [Render.takeBefore_append] at hsplit

end Settle

/-! ### After attaching -/

/-- The shelf of a container in a tree without comments. -/
theorem shelf_of_bare {t : Tree} (h : t.comments = []) :
    Shelf.of t = ⟨[], ((t.form.lineChildren?.getD []).map Tree.position).map (⟨·, none⟩)⟩ := by
  obtain ⟨trivia, form⟩ := t
  rw [Tree.comments_node, List.append_eq_nil_iff, List.flatMap_eq_nil_iff] at h
  obtain ⟨hown, hbelow⟩ := h
  have horphans : trivia.orphans = [] := (List.append_eq_nil_iff.1 hown).2
  have hslots : ∀ child ∈ form.lineChildren?.getD [],
      Slot.of child = ⟨child.position, none⟩ := by
    intro child hchild
    have hnone := hbelow child (Form.mem_children_of_mem_lineChildren hchild)
    obtain ⟨inner, below⟩ := child
    rw [Tree.comments_node, List.append_eq_nil_iff] at hnone
    have hlead : inner.comment = none :=
      Option.toList_eq_nil_iff.1 (List.append_eq_nil_iff.1 hnone.1).1
    exact congrArg (Slot.mk inner.position) hlead
  rw [Shelf.of, List.map_map]
  exact congrArg₂ Shelf.mk horphans (List.map_congr_left hslots)

theorem positions_settle (comments : List Comment) (starts : List (Option Position)) :
    (settle comments starts).slots.map (·.position) = starts := by
  induction starts generalizing comments with
  | nil => rfl
  | cons start rest ih => rw [settle, List.map_cons, ih]

/-- The comments of a text that attaching assigns to a container. -/
def owned (source : String) (unit : Tree) (address : Address) : List Comment :=
  (scan source).comments.filter fun c =>
    owner (spans (scan source).braces unit) c.position = address

theorem precedes_owned (source : String) (unit : Tree) (address : Address) :
    (owned source unit address).Pairwise Comment.Precedes :=
  (Scan.precedes_scan source).filter _

/-- After attaching to a unit without comments, what is on the shelf of a container are its
comments, settled gap by gap; its line children stand where they stood. -/
theorem shelf_attachComments {unit node : Tree} {address : Address} (source : String)
    (hbare : unit.comments = [])
    (hnode : (attachComments unit source).nodeAt? address = some node) :
    ∃ before, unit.nodeAt? address = some before ∧
      (node.form.lineChildren?.getD []).map Tree.position =
        (before.form.lineChildren?.getD []).map Tree.position ∧
      Shelf.of node = settle (owned source unit address)
        ((node.form.lineChildren?.getD []).map Tree.position) := by
  have hshelf : shelfAt (attachComments unit source) address =
      (shelfAt unit address).map ((owned source unit address).foldl Shelf.put ·) :=
    shelfAt_foldl (spans (scan source).braces unit) (scan source).comments unit address
  have hafter : shelfAt (attachComments unit source) address = some (Shelf.of node) := by
    rw [shelfAt, hnode, Option.map_some]
  obtain ⟨shelf, hbefore, hput⟩ := Option.map_eq_some_iff.1 (hshelf.symm.trans hafter)
  obtain ⟨before, hold, rfl⟩ := Option.map_eq_some_iff.1 hbefore
  rw [shelf_of_bare (Tree.comments_eq_nil_of_nodeAt? hbare hold),
    foldl_put (precedes_owned source unit address)] at hput
  have hpositions := congrArg (fun shelf => shelf.slots.map (·.position)) hput
  simp only [positions_settle] at hpositions
  have hsame : (node.form.lineChildren?.getD []).map Tree.position =
      (before.form.lineChildren?.getD []).map Tree.position := by
    rw [hpositions, Shelf.of, List.map_map]
    rfl
  exact ⟨before, hold, hsame, by rw [hsame, hput]⟩

end Attach

end Recast
