import Recast.Text.Blank

/-!
Cutting and joining text.

Dotted names are cut at their last dot (`beforeLast`, `afterLast`) or at every dot (`split`); lines
are put together with `String.intercalate`.
-/

namespace Recast.Text

/-- The pieces between separators, empty ones included; a text without separator is one piece. -/
def splitChars (separator : Char) : List Char → List (List Char)
  | [] => [[]]
  | c :: rest =>
    if c = separator then [] :: splitChars separator rest
    else
      match splitChars separator rest with
      | [] => [[c]]
      | piece :: pieces => (c :: piece) :: pieces

/-- The pieces of a text between the separators. -/
def split (separator : Char) (text : String) : List String :=
  (splitChars separator text.toList).map String.ofList

/-- What follows the last separator; the whole text if there is none. -/
def afterLast (separator : Char) (text : String) : String :=
  String.ofList (text.toList.reverse.takeWhile (· ≠ separator)).reverse

/-- What precedes the last separator; nothing if there is none. -/
def beforeLast (separator : Char) (text : String) : String :=
  String.ofList ((text.toList.reverse.dropWhile (· ≠ separator)).drop 1).reverse

/-- The text with one character replaced by another. -/
def replaceChar (old new : Char) (text : String) : String :=
  String.ofList (text.toList.map fun c => if c = old then new else c)

/-- The text without the blanks at its start. -/
def dropBlanks (text : String) : String := String.ofList (trimStart text.toList)

/-- A text repeated `n` times. -/
def times : Nat → String → String
  | 0, _ => ""
  | n + 1, text => text ++ times n text

/-- The characters with every line end, be it a carriage return, a line feed or both, as one line
feed. -/
def unifyLineEndChars : List Char → List Char
  | '\r' :: '\n' :: rest => '\n' :: unifyLineEndChars rest
  | '\r' :: rest => '\n' :: unifyLineEndChars rest
  | c :: rest => c :: unifyLineEndChars rest
  | [] => []

/-- The text with line feeds for line ends. -/
def unifyLineEnds (text : String) : String := String.ofList (unifyLineEndChars text.toList)

/-- The order of texts by code point. -/
def le (a b : String) : Bool := !(decide (b < a))

/-- Texts sorted by code point, repetitions kept. -/
def sorted (texts : List String) : List String := texts.mergeSort le

/-- The first occurrence of each text. -/
def distinct : List String → List String
  | [] => []
  | text :: rest => text :: (distinct rest).filter (· ≠ text)

end Recast.Text
