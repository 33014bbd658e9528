/-!
Literals as TypeScript writes them.

A long suffix is dropped from an integer and a float suffix from a decimal number. An octal number
gets its `o`. Any other literal is written as it is. A line break after a literal does not keep it
from being one of these.
-/

namespace Recast.Literal

/-- Decimal digits and the underscores between them. -/
def isDecimal (c : Char) : Bool := c.isDigit || c == '_'

/-- Octal digits and the underscores between them. -/
def isOctal (c : Char) : Bool := ('0' ≤ c && c ≤ '7') || c == '_'

/-- Binary digits and the underscores between them. -/
def isBinary (c : Char) : Bool := c == '0' || c == '1' || c == '_'

/-- Hexadecimal digits and the underscores between them. -/
def isHex (c : Char) : Bool :=
  c.isDigit || ('a' ≤ c && c ≤ 'f') || ('A' ≤ c && c ≤ 'F') || c == '_'

/-- Whether a text is not empty and has only characters of a class. -/
def allOf (p : Char → Bool) (text : List Char) : Bool := !text.isEmpty && text.all p

/-- Whether a text is an integer without suffix. -/
def isInteger : List Char → Bool
  | '0' :: 'x' :: digits => allOf isHex digits
  | '0' :: 'X' :: digits => allOf isHex digits
  | '0' :: 'b' :: digits => allOf isBinary digits
  | '0' :: 'B' :: digits => allOf isBinary digits
  | c :: digits => c.isDigit && digits.all isDecimal
  | [] => false

/-- Whether a text is an exponent, or nothing. -/
def isExponent : List Char → Bool
  | [] => true
  | e :: rest =>
    (e == 'e' || e == 'E') &&
      match rest with
      | '+' :: digits => allOf Char.isDigit digits
      | '-' :: digits => allOf Char.isDigit digits
      | digits => allOf Char.isDigit digits

/-- Whether a text is a decimal number without suffix, with or without point and exponent. -/
def isFloat : List Char → Bool
  | '.' :: rest =>
    !(rest.takeWhile isDecimal).isEmpty && isExponent (rest.dropWhile isDecimal)
  | c :: rest =>
    c.isDigit &&
      match rest.dropWhile isDecimal with
      | '.' :: rest => isExponent (rest.dropWhile isDecimal)
      | rest => isExponent rest
  | [] => false

/-- A text without the last character, if that is one of the given ones. -/
def dropSuffix? (suffixes text : List Char) : Option (List Char) :=
  match text.reverse with
  | c :: rest => if suffixes.contains c then some rest.reverse else none
  | [] => none

/-- An integer with a long suffix, without the suffix. -/
def longInteger? (text : List Char) : Option (List Char) :=
  (dropSuffix? ['l', 'L'] text).filter isInteger

/-- Whether a text starts like a hexadecimal number. -/
def startsHex : List Char → Bool
  | '0' :: 'x' :: _ => true
  | '0' :: 'X' :: _ => true
  | _ => false

/-- A decimal number with a float suffix, without the suffix. -/
def suffixedFloat? (text : List Char) : Option (List Char) :=
  if startsHex text then none else (dropSuffix? ['f', 'F', 'd', 'D'] text).filter isFloat

/-- An octal number with its `o`. -/
def octal? : List Char → Option (List Char)
  | '0' :: digits => if allOf isOctal digits then some ('0' :: 'o' :: digits) else none
  | _ => none

/-- The number that a literal is, in its new spelling; none if it is written as it is. -/
def number? (text : List Char) : Option (List Char) :=
  (longInteger? text).or ((suffixedFloat? text).or (octal? text))

/-- A literal as TypeScript writes it. -/
def render (value : String) : String :=
  let chars := value.toList
  let line := (dropSuffix? ['\n'] chars).getD chars
  String.ofList ((number? line).getD chars)

end Recast.Literal
