import Recast.Fault
import Recast.Text

/-!
Module specifiers in dotted form.

An import declaration holds a dotted name. To let a module specifier such as `./core/Foo` stand
there, every slash becomes a dot, and the dots that the specifier has itself, its leading `./` and a
leading `@` become marks between percent signs:

* `./core/Foo` is written `%DOT_SLASH%.core.Foo`,
* `@scope/pkg` is written `%AT_SIGN%.scope.pkg`,
* `../util/Foo` is written `%DOT_DOT%.util.Foo`,
* `lodash.merge` is written `lodash%DOT%merge`.

A specifier with a percent sign of its own has no dotted form. The symbol that an import binds is
the last segment of the dotted name.
-/

namespace Recast.Specifier

def dotMark : List Char := "%DOT%".toList

def dotDotMark : List Char := "%DOT_DOT%".toList

def atMark : List Char := "%AT_SIGN%".toList

def dotSlashMark : List Char := "%DOT_SLASH%".toList

/-! ### Writing -/

/-- A slash-separated path in dotted form: two dots in a row, a single dot, a slash. -/
def escapePath : List Char → List Char
  | '.' :: '.' :: rest => dotDotMark ++ escapePath rest
  | '.' :: rest => dotMark ++ escapePath rest
  | '/' :: rest => '.' :: escapePath rest
  | c :: rest => c :: escapePath rest
  | [] => []

/-- The dotted form of a specifier that has no percent sign. -/
def encodeChars : List Char → List Char
  | '.' :: '/' :: rest => dotSlashMark ++ '.' :: escapePath rest
  | '@' :: rest => atMark ++ '.' :: escapePath rest
  | specifier => escapePath specifier

/-- The dotted form of a specifier. -/
def encode (specifier : String) : Except ConfigFault String :=
  if specifier.toList.contains '%' then .error (.reservedMark specifier)
  else .ok (String.ofList (encodeChars specifier.toList))

/-! ### Reading -/

/-- The text with every occurrence of a mark replaced, from left to right. `held` characters of the
mark that is being read are skipped. -/
def replaceMark (mark new : List Char) (held : Nat) : List Char → List Char
  | [] => []
  | c :: rest =>
    match held with
    | n + 1 => replaceMark mark new n rest
    | 0 =>
      if mark.isPrefixOf (c :: rest) then new ++ replaceMark mark new (mark.length - 1) rest
      else c :: replaceMark mark new 0 rest

/-- A path whose marks are read back as dots: the double dots first, then the single ones. -/
def unescapePath (path : List Char) : List Char :=
  replaceMark dotMark ['.'] 0 (replaceMark dotDotMark ['.', '.'] 0 path)

/-- The specifier that a dotted name stands for. -/
def decodeChars (dotted : List Char) : List Char :=
  let path := dotted.map fun c => if c = '.' then '/' else c
  if (atMark ++ ['/']).isPrefixOf path then '@' :: unescapePath (path.drop (atMark.length + 1))
  else if (dotSlashMark ++ ['/']).isPrefixOf path then
    '.' :: '/' :: unescapePath (path.drop (dotSlashMark.length + 1))
  else unescapePath path

/-- The specifier that a dotted name stands for. -/
def decode (dotted : String) : String := String.ofList (decodeChars dotted.toList)

/-! ### Import names -/

/-- The dotted name of an import that binds `symbol` from a specifier. -/
def importName (specifier symbol : String) : Except ConfigFault String := do
  return (← encode specifier) ++ "." ++ symbol

/-- The specifier and the symbol of a dotted import name. -/
def splitImportName (dotted : String) : String × String :=
  (decode (Text.beforeLast '.' dotted), Text.afterLast '.' dotted)

end Recast.Specifier
