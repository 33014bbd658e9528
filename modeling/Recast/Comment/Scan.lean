import Recast.Comment.Lexeme

/-!
The comments and braces of a Java text.

`scan` walks over the pieces of a text with the position at hand. Comments come in the order of the
text; a closing brace is paired with the last brace still open, and the pairs are sorted by where
they open. Braces inside comments and literals do not count.
-/

namespace Recast

/-- A brace and the one that closes it. -/
structure BracePair where
  opened : Position
  closed : Position
deriving DecidableEq, Repr

namespace BracePair

/-- Whether a position lies strictly between the braces. -/
def encloses (pair : BracePair) (p : Position) : Bool := pair.opened < p && p < pair.closed

end BracePair

/-- The comments and brace pairs of a text. -/
structure Scan where
  comments : List Comment
  braces : List BracePair
deriving DecidableEq, Repr

namespace Scan

/-- The comments of a list of pieces that starts at a position. -/
def commentsFrom (p : Position) : List Lexeme → List Comment
  | [] => []
  | lexeme :: rest =>
    (lexeme.comment? p).toList ++ commentsFrom (p.after lexeme.chars) rest

/-- The brace pairs of a list of pieces that starts at a position, by where they close. `opened` are
the braces still open, the last one first. -/
def bracesFrom (p : Position) (opened : List Position) : List Lexeme → List BracePair
  | [] => []
  | .plain '{' :: rest => bracesFrom (p.next '{') (p :: opened) rest
  | .plain '}' :: rest =>
    match opened with
    | [] => bracesFrom (p.next '}') [] rest
    | first :: opened => ⟨first, p⟩ :: bracesFrom (p.next '}') opened rest
  | lexeme :: rest => bracesFrom (p.after lexeme.chars) opened rest

/-- Inserts a pair into a list sorted by opening position, before the pairs that open later. -/
def insertPair (pair : BracePair) : List BracePair → List BracePair
  | [] => [pair]
  | first :: rest =>
    if pair.opened < first.opened then pair :: first :: rest
    else first :: insertPair pair rest

end Scan

/-- The comments and brace pairs of a Java text, each in the order in which they start. -/
def scan (source : String) : Scan :=
  let pieces := Lexeme.lexemes source.toList
  { comments := Scan.commentsFrom ⟨1, 1⟩ pieces
    braces := (Scan.bracesFrom ⟨1, 1⟩ [] pieces).foldr Scan.insertPair [] }

end Recast
