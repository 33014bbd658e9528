/-!
Places in a source text, and the comments found there.

A position is a line and a column, both counted from one; columns count characters. A tree that does
not belong to its text may have positions before it, so both are integers. Comments carry
the text between their delimiters, so the delimiters can be written again from the kind alone.
`Trivia` is what every node of a syntax tree carries beside its structure: where it starts, the
comment that leads it, and the comments inside it that lead none of its children.
-/

namespace Recast

/-- The line and column of a character, both counted from one. -/
structure Position where
  line : Int
  column : Int
deriving DecidableEq, Repr, Inhabited

namespace Position

/-- Reading order: by line, then by column. -/
instance : LT Position where
  lt p q := p.line < q.line ∨ p.line = q.line ∧ p.column < q.column

instance (p q : Position) : Decidable (p < q) :=
  inferInstanceAs (Decidable (p.line < q.line ∨ p.line = q.line ∧ p.column < q.column))

/-- The position before every character, where comments without a position are sorted. -/
def origin : Position := ⟨0, 0⟩

end Position

/-- How a comment is delimited: `//`, `/*` or `/**`. -/
inductive CommentKind where
  | line
  | block
  | javadoc
deriving DecidableEq, Repr, Inhabited

/-- A comment, without its delimiters. -/
structure Comment where
  content : String
  kind : CommentKind := .line
  position : Option Position := none
deriving DecidableEq, Repr, Inhabited

/-- What a node carries beside its structure. -/
structure Trivia where
  /-- Where the node's first token stands. -/
  position : Option Position := none
  /-- The comment directly before the node. -/
  comment : Option Comment := none
  /-- The comments inside the node that lead none of its children. -/
  orphans : List Comment := []
deriving DecidableEq, Repr, Inhabited

namespace Trivia

/-- Trivia that knows a position only. -/
def at? (position : Option Position) : Trivia := { position }

/-- The source line, where it is known. -/
def line? (t : Trivia) : Option Int := t.position.map (·.line)

/-- The trivia with another leading comment. -/
def ledBy (t : Trivia) (comment : Comment) : Trivia := { t with comment := some comment }

/-- The trivia with more orphans. -/
def addOrphans (t : Trivia) (comments : List Comment) : Trivia :=
  { t with orphans := t.orphans ++ comments }

/-- Every comment held, the leading one first. -/
def comments (t : Trivia) : List Comment := t.comment.toList ++ t.orphans

end Trivia

end Recast
