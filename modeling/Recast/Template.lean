import Recast.Value

/-!
Line templates.

A template is text with directives that start with a percent sign. Each directive takes the next
argument and writes it plain (`s`), quoted (`r`) or quoted in ASCII (`a`), cut to a precision and
padded to a width, on the left unless the minus flag says otherwise. Two percent signs in a row
write one and take no argument. The arguments are words, and all have to be used. Widths and
precisions have a largest value, and a number beyond it is refused as soon as it is read.
-/

namespace Recast.Template

/-- Why a template cannot be filled in. -/
inductive Fault where
  /-- The arguments do not fit the directives: too few, too many, or of the wrong kind. -/
  | mismatch
  /-- A directive is cut short or unknown, or has too large a number. -/
  | malformed
deriving DecidableEq, Repr

/-- What a directive says beside its letter. -/
structure Spec where
  left : Bool := false
  width : Nat := 0
  precision : Option Nat := none

/-- How far a directive has been read. -/
inductive Stage where
  | start
  | flags
  | width
  | point
  | precision
  | size
deriving DecidableEq

/-- A text cut to the precision and padded to the width. -/
def pad (spec : Spec) (text : String) : List Char :=
  let chars := match spec.precision with
    | some n => text.toList.take n
    | none => text.toList
  let blanks := List.replicate (spec.width - chars.length) ' '
  if spec.left then chars ++ blanks else blanks ++ chars

/-- An argument quoted in ASCII. -/
def shownAscii : Word → String
  | .text s => Text.quoteAscii s
  | argument => argument.shown

/-- What a directive with the given letter writes for an argument. -/
def convert (spec : Spec) (letter : Char) (argument : Word) : Except Fault (List Char) :=
  if letter = 's' then .ok (pad spec argument.display)
  else if letter = 'r' then .ok (pad spec argument.shown)
  else if letter = 'a' then .ok (pad spec (shownAscii argument))
  else if letter = 'c' then
    match argument.text?.filter (·.length = 1) with
    | some letter => .ok (pad { spec with precision := none } letter)
    | none => .error .mismatch
  else if "diouxXeEfFgG".toList.contains letter then .error .mismatch
  else .error .malformed

/-- The number `n` with the digit `c` written after it. -/
def pushDigit (n : Nat) (c : Char) : Nat := n * 10 + (c.toNat - '0'.toNat)

/-- The largest width. -/
def maxWidth : Nat := 0x7fffffffffffffff

/-- The largest precision. -/
def maxPrecision : Nat := 0x7fffffff

mutual

/-- Fills in a template. -/
def fillChars : List Char → List Word → Except Fault (List Char)
  | [], [] => .ok []
  | [], _ :: _ => .error .mismatch
  | c :: rest, arguments =>
    if c = '%' then directive .start {} rest arguments
    else (c :: ·) <$> fillChars rest arguments

/-- Reads a directive and fills in the rest of the template. -/
def directive (stage : Stage) (spec : Spec) :
    List Char → List Word → Except Fault (List Char)
  | [], _ => .error .malformed
  | c :: rest, arguments =>
    if stage = .start ∧ c = '%' then ('%' :: ·) <$> fillChars rest arguments
    else if stage = .start ∧ c = '(' then .error .mismatch
    else if (stage = .start ∨ stage = .flags) ∧ c = '-' then
      directive .flags { spec with left := true } rest arguments
    else if (stage = .start ∨ stage = .flags) ∧ (c = '+' ∨ c = ' ' ∨ c = '0' ∨ c = '\x23') then
      directive .flags spec rest arguments
    else if (stage = .start ∨ stage = .flags ∨ stage = .point) ∧ c = '*' then .error .mismatch
    else if (stage = .start ∨ stage = .flags ∨ stage = .width) ∧ c.isDigit then
      let width := pushDigit spec.width c
      if width ≤ maxWidth then directive .width { spec with width } rest arguments
      else .error .malformed
    else if (stage = .start ∨ stage = .flags ∨ stage = .width) ∧ c = '.' then
      directive .point { spec with precision := some 0 } rest arguments
    else if (stage = .point ∨ stage = .precision) ∧ c.isDigit then
      let precision := pushDigit (spec.precision.getD 0) c
      if precision ≤ maxPrecision then
        directive .precision { spec with precision := some precision } rest arguments
      else .error .malformed
    else if stage ≠ .size ∧ (c = 'h' ∨ c = 'l' ∨ c = 'L') then
      directive .size spec rest arguments
    else
      match arguments with
      | [] => .error .mismatch
      | argument :: arguments => do
        let written ← convert spec c argument
        (written ++ ·) <$> fillChars rest arguments

end

/-- A template with its directives replaced by the arguments. -/
def fill (template : String) (arguments : List Word) : Except Fault String :=
  String.ofList <$> fillChars template.toList arguments

end Recast.Template
