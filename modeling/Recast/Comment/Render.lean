import Recast.Position
import Recast.Text

/-!
Comments as text.

A comment is written at an indentation. The later lines of a block are stripped and indented anew;
a line that starts with a star stands one column further in, under the star of the opener. The
closing delimiter follows the last line, or takes its place where that line is blank or only a star.
-/

namespace Recast.Comment

/-- A later line of a block comment. -/
def innerLine (indent line : List Char) : List Char :=
  match Text.trim line with
  | [] => []
  | '*' :: rest => Text.trimEnd (indent ++ ' ' :: '*' :: rest)
  | stripped => indent ++ stripped

/-- The last line of a block comment, with its closing delimiter. -/
def closeLine (indent line : List Char) : List Char :=
  if Text.trim line = [] ∨ Text.trim line = ['*'] then indent ++ [' ', '*', '/']
  else line ++ ['*', '/']

/-- The later lines of a block comment, the last one closed. -/
def innerLines (indent : List Char) : List (List Char) → List (List Char)
  | [] => []
  | [line] => [closeLine indent (innerLine indent line)]
  | line :: rest => innerLine indent line :: innerLines indent rest

/-- The delimiter that opens a comment. -/
def opener : CommentKind → List Char
  | .line => ['/', '/']
  | .block => ['/', '*']
  | .javadoc => ['/', '*', '*']

/-- A comment's characters at an indentation. -/
def renderChars (indent : List Char) (comment : Comment) : List Char :=
  let content := comment.content.toList
  match comment.kind with
  | .line => indent ++ opener .line ++ content
  | kind =>
    match Text.splitChars '\n' content with
    | first :: second :: rest =>
      ['\n'].intercalate
        ((indent ++ opener kind ++ Text.trimEnd first) :: innerLines indent (second :: rest))
    | _ => indent ++ opener kind ++ content ++ ['*', '/']

/-- A comment at an indentation. -/
def render (indent : String) (comment : Comment) : String :=
  String.ofList (renderChars indent.toList comment)

end Recast.Comment
