import Recast.Text.Printable

/-!
Quoted text.

A text is quoted by apostrophes, unless it has an apostrophe and no double quote. Inside, the quote
and the backslash are escaped, and every character that does not print is written by its code in
hexadecimal, with two, four or eight digits.
-/

namespace Recast.Text

/-- The lowest `width` hexadecimal digits of a number. -/
def hexDigits : Nat → Nat → List Char
  | 0, _ => []
  | width + 1, n => hexDigits width (n / 16) ++ [Nat.digitChar (n % 16)]

/-- A character by its code. -/
def escapeCode (c : Char) : List Char :=
  let n := c.toNat
  if n < 0x100 then '\\' :: 'x' :: hexDigits 2 n
  else if n < 0x10000 then '\\' :: 'u' :: hexDigits 4 n
  else '\\' :: 'U' :: hexDigits 8 n

/-- One character inside quotes. -/
def quoteChar (quote : Char) (shown : Char → Bool) (c : Char) : List Char :=
  if c = quote ∨ c = '\\' then ['\\', c]
  else if c = '\t' then ['\\', 't']
  else if c = '\n' then ['\\', 'n']
  else if c = '\r' then ['\\', 'r']
  else if shown c then [c]
  else escapeCode c

/-- A text between quotes, its characters shown as they are where `shown` says so. -/
def quoteWith (shown : Char → Bool) (text : String) : String :=
  let chars := text.toList
  let quote := if chars.contains '\'' && !chars.contains '"' then '"' else '\''
  String.ofList (quote :: chars.flatMap (quoteChar quote shown) ++ [quote])

/-- A text between quotes. -/
def quote (text : String) : String := quoteWith prints text

/-- A text between quotes, in ASCII only. -/
def quoteAscii (text : String) : String := quoteWith (fun c => prints c && c.toNat < 0x80) text

end Recast.Text
