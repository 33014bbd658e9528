import Mathlib
import Recast.Proofs.Comment.Shelf
import Recast.Proofs.Render.Comments.Basic

/-!
Attaching and writing agree on gaps.

A comment stands in the gap ahead of the first line child that starts after it. Attaching makes the
last comment of a gap lead the child and orphans of the others. Writing puts the orphans back into
the gaps, and a child behind the comment that leads it (`gaps`, `chunksFrom_eq`). So what a
container writes are its comments and its line children, each comment in its gap
(`entriesFrom_settle`), and nothing changes places on the way (`entries_attachComments`).
-/

namespace Recast

namespace Render

open Attach (settle Slot)

/-! ### Gaps -/

/-- What a container writes: a comment, or a child without the comment that leads it. -/
inductive Entry where
  | comment (c : Comment)
  | child (t : Tree)

/-- A child with the orphans that are written ahead of it. -/
structure Gap where
  leading : List Comment
  child : Tree

/-- The children of a container with the pending comments in the gaps where they are written, and
the comments that are written behind all children. -/
def gaps (pending : List Comment) : List Tree → List Gap × List Comment
  | [] => ([], pending)
  | child :: rest =>
    let (leading, later) := takeBefore child.position pending
    let (found, trailing) := gaps later rest
    (⟨leading, child⟩ :: found, trailing)

/-- The chunk of a gap: the orphans, then the comment that leads the child, then the child. -/
def writeGap (write : Tree → Render String) (gap : Gap) : Render String := do
  let leading ← gap.leading.mapM commentText
  let text ← write gap.child
  let text ← withComment gap.child text
  return underComments leading text

/-- The chunks of gaps, and a last chunk for the comments behind all children. -/
def writeGaps (write : Tree → Render String) (found : List Gap × List Comment) :
    Render (List String) := do
  let chunks ← found.1.mapM (writeGap write)
  if found.2.isEmpty then return chunks
  return chunks ++ [String.intercalate "\n" (← found.2.mapM commentText)]

/-- The order in which gaps are written. -/
def Gap.entries (gap : Gap) : List Entry :=
  (gap.leading ++ gap.child.comment.toList).map .comment ++ [.child gap.child]

/-- What a container writes over its line children, in order. -/
def entries (container : Tree) : List Entry :=
  let (found, trailing) := gaps (inOrder container.trivia.orphans)
    (container.form.lineChildren?.getD [])
  found.flatMap Gap.entries ++ trailing.map .comment

/-- A child with the comment that leads it. -/
def leadChild (write : Tree → Render String) (child : Tree) : Child where
  position := child.position
  text := do withComment child (← write child)

theorem chunksFrom_eq (write : Tree → Render String) (pending : List Comment)
    (children : List Tree) :
    chunksFrom pending (children.map (leadChild write)) =
      writeGaps write (gaps pending children) := by
  induction children generalizing pending with
  | nil =>
    rw [List.map_nil, chunksFrom, gaps, writeGaps, List.mapM_nil, pure_bind]
    rfl
  | cons child rest ih =>
    simp only [List.map_cons, chunksFrom, gaps, writeGaps, List.mapM_cons, ih, bind_assoc,
      pure_bind, leadChild, writeGap]
    refine congrArg (_ >>= ·) (funext fun leading => congrArg (_ >>= ·) (funext fun text =>
      congrArg (_ >>= ·) (funext fun led => congrArg (_ >>= ·) (funext fun chunks => ?_))))
    by_cases hempty : (gaps (takeBefore child.position pending).2 rest).2.isEmpty
    · rw [if_pos hempty, pure_bind]
      exact (if_pos hempty).symm
    · rw [if_neg hempty, bind_assoc]
      simp only [pure_bind]
      exact (if_neg hempty).symm

theorem stmtChild_rendering (t : Tree) :
    t.rendering.stmtChild = leadChild (·.rendering.bareStmt) t := by
  simp only [Rendering.stmtChild, Rendering.stmt, leadChild, t.rendering_node]

/-- The lines of a block are its gaps, written with its statements. -/
theorem lines_block (trivia : Trivia) (statements : List Tree) :
    (Tree.node trivia (.stmt (.block statements))).rendering.lines [] =
      writeGaps (·.rendering.bareStmt) (gaps (inOrder trivia.orphans) statements) := by
  have hchildren : (statements.map Tree.rendering).map (·.stmtChild) =
      statements.map (leadChild (·.rendering.bareStmt)) := by
    rw [List.map_map]
    exact List.map_congr_left fun t _ => stmtChild_rendering t
  rw [← chunksFrom_eq, ← hchildren, Tree.rendering_lines]
  rfl

theorem inOrder_of_pairwise {comments : List Comment} (h : comments.Pairwise Comment.Precedes) :
    inOrder comments = comments := by
  refine List.mergeSort_of_pairwise (h.imp ?_)
  rintro a b ⟨p, q, ha, hb, hlt⟩
  simpa [ha, hb] using hlt.le

/-! ### The order of what is written -/

/-- What is written for pending comments and children, in order. -/
def entriesFrom (pending : List Comment) : List Tree → List Entry
  | [] => pending.map .comment
  | child :: rest =>
    ((takeBefore child.position pending).1 ++ child.comment.toList).map .comment ++
      .child child :: entriesFrom (takeBefore child.position pending).2 rest

theorem entries_eq (container : Tree) :
    entries container = entriesFrom (inOrder container.trivia.orphans)
      (container.form.lineChildren?.getD []) := by
  have hfrom : ∀ (children : List Tree) (pending : List Comment),
      (gaps pending children).1.flatMap Gap.entries ++ (gaps pending children).2.map .comment =
        entriesFrom pending children := by
    intro children
    induction children with
    | nil => exact fun pending => rfl
    | cons child rest ih =>
      intro pending
      rw [entriesFrom, ← ih]
      simp [gaps, Gap.entries]
  exact hfrom _ _

/-- Comments and children, each comment in the gap where it stands. -/
def merged (comments : List Comment) : List Tree → List Entry
  | [] => comments.map .comment
  | child :: rest =>
    (takeBefore child.position comments).1.map .comment ++
      .child child :: merged (takeBefore child.position comments).2 rest

/-- Writing finds the orphans of a gap ahead of those of later gaps. -/
theorem takeBefore_settled {comments orphans : List Comment}
    (h : comments.Pairwise Comment.Precedes) (start : Option Position)
    (horphans : orphans.Sublist (takeBefore start comments).2) :
    takeBefore start ((takeBefore start comments).1.dropLast ++ orphans) =
      ((takeBefore start comments).1.dropLast, orphans) := by
  cases start with
  | none => rfl
  | some p =>
    have hgap : ∀ c ∈ (comments.takeWhile (standsBefore p)).dropLast, standsBefore p c :=
      fun c hc => List.mem_takeWhile_imp (List.mem_of_mem_dropLast hc)
    have hlater : ∀ c ∈ orphans, ¬ standsBefore p c := fun c hc =>
      Attach.not_standsBefore_of_mem h c (horphans.subset hc)
    simp only [takeBefore, List.takeWhile_append_of_pos hgap, List.dropWhile_append_of_pos hgap]
    cases orphans with
    | nil => simp
    | cons first rest => simp [hlater first List.mem_cons_self]

/-- Writing what has settled on a shelf gives the comments back, each in its gap. -/
theorem entriesFrom_settle {comments : List Comment} {children : List Tree}
    (h : comments.Pairwise Comment.Precedes)
    (hslots : children.map Slot.of = (settle comments (children.map Tree.position)).slots) :
    entriesFrom (settle comments (children.map Tree.position)).orphans children =
      merged comments children := by
  induction children generalizing comments with
  | nil => rfl
  | cons child rest ih =>
    simp only [List.map_cons, settle, List.cons.injEq, Slot.of, Slot.mk.injEq, true_and] at hslots
    obtain ⟨hlead, hrest⟩ := hslots
    have hlater : (takeBefore child.position comments).2.Pairwise Comment.Precedes := by
      rw [← takeBefore_append child.position comments] at h
      exact (List.pairwise_append.1 h).2.1
    have horphans := Attach.orphans_settle_sublist (takeBefore child.position comments).2
      (rest.map Tree.position)
    rw [List.map_cons, settle, entriesFrom, takeBefore_settled h _ horphans, hlead,
      Attach.dropLast_append_getLast?, ih hlater hrest, merged]

/-! ### Comments and children in order -/

namespace Entry

/-- The comment that an entry is. -/
def comment? : Entry → Option Comment
  | comment c => some c
  | child _ => none

/-- The child that an entry is. -/
def child? : Entry → Option Tree
  | comment _ => none
  | child t => some t

/-- Whether an entry may stand before another: comments in reading order, and a child before a
comment just if it does not start after it. -/
def InOrder : Entry → Entry → Prop
  | comment a, comment b => a.Precedes b
  | comment c, child t => ∀ p q, c.position = some p → t.position = some q → p < q
  | child t, comment c => ∀ p q, c.position = some p → t.position = some q → ¬ p < q
  | child _, child _ => True

end Entry

section Merged

variable {comments : List Comment} {children : List Tree}

/-- Whether the positions that are known come in their order. -/
def Ascending (starts : List (Option Position)) : Prop :=
  (starts.filterMap id).Pairwise (· ≤ ·)

instance (starts : List (Option Position)) : Decidable (Ascending starts) :=
  inferInstanceAs (Decidable ((starts.filterMap id).Pairwise (· ≤ ·)))

theorem ascending_map_position : Ascending (children.map Tree.position) ↔
    children.Pairwise fun a b => ∀ p, a.position = some p → ∀ q, b.position = some q → p ≤ q := by
  rw [Ascending, List.pairwise_filterMap, List.pairwise_map]
  rfl

theorem filterMap_comment? (comments : List Comment) :
    (comments.map Entry.comment).filterMap Entry.comment? = comments := by
  rw [List.filterMap_map]
  exact List.filterMap_some

theorem filterMap_child? (comments : List Comment) :
    (comments.map Entry.comment).filterMap Entry.child? = [] := by
  rw [List.filterMap_map, List.filterMap_eq_nil_iff]
  exact fun c _ => rfl

theorem comments_merged (comments : List Comment) (children : List Tree) :
    (merged comments children).filterMap Entry.comment? = comments := by
  induction children generalizing comments with
  | nil => exact filterMap_comment? comments
  | cons child rest ih =>
    rw [merged, List.filterMap_append, filterMap_comment?, List.filterMap_cons_none rfl, ih,
      takeBefore_append]

theorem children_merged (comments : List Comment) (children : List Tree) :
    (merged comments children).filterMap Entry.child? = children := by
  induction children generalizing comments with
  | nil => exact filterMap_child? comments
  | cons child rest ih =>
    have hchild : Entry.child? (.child child) = some child := rfl
    rw [merged, List.filterMap_append, filterMap_child?, List.nil_append,
      List.filterMap_cons_some hchild, ih]

theorem mem_of_comment_mem_merged {c : Comment} (h : .comment c ∈ merged comments children) :
    c ∈ comments := by
  rw [← comments_merged comments children]
  exact List.mem_filterMap.2 ⟨_, h, rfl⟩

theorem mem_of_child_mem_merged {t : Tree} (h : .child t ∈ merged comments children) :
    t ∈ children := by
  rw [← children_merged comments children]
  exact List.mem_filterMap.2 ⟨_, h, rfl⟩

/-- The comments of a gap stand before what follows them. -/
theorem pairwise_merged (h : comments.Pairwise Comment.Precedes)
    (hchildren : Ascending (children.map Tree.position)) :
    (merged comments children).Pairwise Entry.InOrder := by
  rw [ascending_map_position] at hchildren
  induction children generalizing comments with
  | nil => exact List.pairwise_map.2 h
  | cons child rest ih =>
    obtain ⟨hfirst, hrest⟩ := List.pairwise_cons.1 hchildren
    have hsplit := takeBefore_append child.position comments
    have hgap : ∀ c ∈ (takeBefore child.position comments).1, ∀ p q,
        c.position = some p → child.position = some q → p < q := by
      intro c hc p q hp hq
      rw [hq] at hc
      simpa [standsBefore, hp] using List.mem_takeWhile_imp hc
    have hlater : ∀ c ∈ (takeBefore child.position comments).2, ∀ p q,
        c.position = some p → child.position = some q → ¬ p < q := by
      intro c hc p q hp hq
      rw [hq] at hc
      simpa [standsBefore, hp] using Attach.not_standsBefore_of_mem h c hc
    rw [← hsplit] at h
    obtain ⟨hleading, hfollowing, hbetween⟩ := List.pairwise_append.1 h
    refine List.pairwise_append.2 ⟨List.pairwise_map.2 hleading, ?_, ?_⟩
    · refine (ih hfollowing hrest).cons fun entry hentry => ?_
      cases entry with
      | comment c => exact hlater c (mem_of_comment_mem_merged hentry)
      | child t => exact True.intro
    · rintro _ hleads entry hentry
      obtain ⟨c, hc, rfl⟩ := List.mem_map.1 hleads
      rcases List.mem_cons.1 hentry with rfl | hentry
      · exact hgap c hc
      · cases entry with
        | comment d => exact hbetween c hc d (mem_of_comment_mem_merged hentry)
        | child t =>
          intro p q hp hq
          cases hposition : child.position with
          | none => rw [hposition] at hc; cases hc
          | some r =>
            have hle := hfirst t (mem_of_child_mem_merged hentry) r hposition q hq
            exact (hgap c hc p r hp hposition).trans_le hle

end Merged

end Render

open Attach Render in
/-- **Attaching and printing agree on gaps.** Let a unit without comments have the line children of
every container, as far as their positions are known, in the order of their positions. After the
comments of a text have been attached, every container writes exactly the comments that belong to
it, in the order of the text, and its line children, each comment behind every child that does not
start after it and ahead of every child that does. However a child is written behind the comment
that leads it, the chunks of the container are those of its gaps. -/
theorem entries_attachComments {unit : Tree} (source : String) (hbare : unit.comments = [])
    (hascending : unit.Everywhere fun t =>
      Ascending ((t.form.lineChildren?.getD []).map Tree.position))
    {address : Address} {node : Tree}
    (hnode : (attachComments unit source).nodeAt? address = some node) :
    (entries node).filterMap Entry.comment? = owned source unit address ∧
    (entries node).filterMap Entry.child? = node.form.lineChildren?.getD [] ∧
    (entries node).Pairwise Entry.InOrder ∧
    ∀ write, childChunks node.trivia.orphans
        ((node.form.lineChildren?.getD []).map (leadChild write)) =
      writeGaps write (gaps (inOrder node.trivia.orphans) (node.form.lineChildren?.getD [])) := by
  obtain ⟨before, hbefore, hsame, hshelf⟩ := shelf_attachComments source hbare hnode
  have hsorted := precedes_owned source unit address
  have horphans : node.trivia.orphans = _ := congrArg Shelf.orphans hshelf
  have hslots := congrArg Shelf.slots hshelf
  have hkept : (settle _ _).orphans.Pairwise Comment.Precedes :=
    hsorted.sublist (orphans_settle_sublist _ ((node.form.lineChildren?.getD []).map Tree.position))
  have hchildren : Ascending ((node.form.lineChildren?.getD []).map Tree.position) :=
    hsame ▸ hascending before (Tree.mem_walk_of_nodeAt? hbefore)
  have hentries : entries node =
      merged (owned source unit address) (node.form.lineChildren?.getD []) := by
    rw [entries_eq, horphans, inOrder_of_pairwise hkept]
    exact entriesFrom_settle hsorted hslots
  rw [hentries]
  exact ⟨comments_merged _ _, children_merged _ _, pairwise_merged hsorted hchildren,
    fun write => chunksFrom_eq write _ _⟩

namespace Render

/-- A class with two comments ahead of its field, of which the second leads it, one behind the
field, one in the empty body of its method, and one behind the method. -/
def crowdedText : String := String.intercalate "\n" ["class A \x7b", "  // a", "  // b",
  "  int x; // c", "  void f() \x7b /* d */ \x7d", "  // e", "\x7d"]

@[inherit_doc crowdedText]
def crowdedUnit : Tree :=
  let field : Tree := .node (.at? (some ⟨4, 3⟩)) (.member (.field
    (some (.node {} (.type (.primitive (.text "int")))))
    [.node {} (.part (.declarator (.text "x") 0 none))] [] []))
  let method : Tree := .node (.at? (some ⟨5, 3⟩)) (.member (.method (.text "f")
    (some (.node {} (.type .void))) [] [] (some (.node {} (.stmt (.block [])))) [] [] []))
  .node {} (.part (.unit none []
    [.node (.at? (some ⟨1, 1⟩)) (.member (.classType (.text "A") [] [] [] [] []
      [field, method] false))]))

theorem entries_attachComments_crowdedUnit : ∃ node,
    (attachComments crowdedUnit crowdedText).nodeAt? [0] = some node ∧
      ((entries node).filterMap Entry.comment?).map (·.content) = [" a", " b", " c", " e"] ∧
      (entries node).Pairwise Entry.InOrder := by
  have hsome : ((attachComments crowdedUnit crowdedText).nodeAt? [0]).isSome := by decide +kernel
  obtain ⟨node, hnode⟩ := Option.isSome_iff_exists.1 hsome
  obtain ⟨hcomments, -, horder, -⟩ := entries_attachComments crowdedText
    (by decide +kernel) (by decide +kernel) hnode
  refine ⟨node, hnode, ?_, horder⟩
  rw [hcomments]
  decide +kernel

end Render

end Recast
