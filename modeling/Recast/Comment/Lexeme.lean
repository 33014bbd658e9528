import Recast.Position
import Recast.Text

/-!
Java text cut into comments, literals and single characters.

`lexemes` cuts a text so that the pieces, put together, are the text again. A line comment ends
before the line break and a block comment after its `*/`; a string or character literal ends at its
quote or at the line break, and a backslash takes the next character along. Whatever is left open
ends with the text.
-/

namespace Recast

/-- A piece of Java text. -/
inductive Lexeme where
  /-- `//` and the rest of the line. -/
  | lineComment (body : List Char)
  /-- `/*`, the body, and `*/` unless the text ends first. -/
  | blockComment (body : List Char) (closed : Bool)
  /-- A string or character literal, quotes included. -/
  | literal (text : List Char)
  | plain (c : Char)
deriving DecidableEq, Repr

namespace Lexeme

/-- The characters of a piece. -/
def chars : Lexeme → List Char
  | .lineComment body => '/' :: '/' :: body
  | .blockComment body closed => '/' :: '*' :: body ++ (if closed then ['*', '/'] else [])
  | .literal text => text
  | .plain c => [c]

/-- What is being read: code, or a piece of which the characters so far are kept, last one first. -/
inductive Mode where
  | code
  | line (read : List Char)
  | block (read : List Char)
  | quoted (quote : Char) (read : List Char)
deriving DecidableEq, Repr

/-- The pieces of a text that starts in the given mode. -/
def lexemesFrom : Mode → List Char → List Lexeme
  | .code, [] => []
  | .line read, [] => [.lineComment read.reverse]
  | .block read, [] => [.blockComment read.reverse false]
  | .quoted _ read, [] => [.literal read.reverse]
  | .code, '/' :: '/' :: rest => lexemesFrom (.line []) rest
  | .code, '/' :: '*' :: rest => lexemesFrom (.block []) rest
  | .code, c :: rest =>
    if c = '"' ∨ c = '\'' then lexemesFrom (.quoted c [c]) rest
    else .plain c :: lexemesFrom .code rest
  | .line read, c :: rest =>
    if c = '\n' then .lineComment read.reverse :: .plain '\n' :: lexemesFrom .code rest
    else lexemesFrom (.line (c :: read)) rest
  | .block read, '*' :: '/' :: rest => .blockComment read.reverse true :: lexemesFrom .code rest
  | .block read, c :: rest => lexemesFrom (.block (c :: read)) rest
  | .quoted quote read, '\\' :: c :: rest => lexemesFrom (.quoted quote (c :: '\\' :: read)) rest
  | .quoted quote read, c :: rest =>
    if c = quote ∨ c = '\n' then .literal (c :: read).reverse :: lexemesFrom .code rest
    else lexemesFrom (.quoted quote (c :: read)) rest

/-- The pieces of a text. -/
def lexemes (text : List Char) : List Lexeme := lexemesFrom .code text

/-- The comment that a piece is. The carriage returns before a line's end are not part of a line
comment, and the second star of `/**` is part of the delimiter. -/
def comment? (position : Position) : Lexeme → Option Comment
  | .lineComment body =>
    some ⟨String.ofList (Text.dropEnd (· = '\r') body), .line, some position⟩
  | .blockComment ('*' :: body) _ => some ⟨String.ofList body, .javadoc, some position⟩
  | .blockComment body _ => some ⟨String.ofList body, .block, some position⟩
  | _ => none

end Lexeme

namespace Position

/-- The position after one character. -/
def next (p : Position) (c : Char) : Position :=
  if c = '\n' then ⟨p.line + 1, 1⟩ else ⟨p.line, p.column + 1⟩

/-- The position after some text. -/
def after (p : Position) (text : List Char) : Position := text.foldl next p

end Position

end Recast
