import Recast.Text.Quoted

/-!
Documents: the values a configuration file or a parser's answer is made of.

A mapping keeps its entries in the order of the document, because the order of the modules of a
configuration is the order in which they are searched.

The names, operators and literals of a tree are documents too, because a tree can lack one and a
type mapping can give any: a `Word`.
-/

namespace Recast

/-- A document. -/
inductive Value where
  | null
  | bool (b : Bool)
  | int (n : Int)
  /-- A number with a fraction or an exponent, as it is spelled. -/
  | decimal (spelling : String)
  | text (s : String)
  | list (items : List Value)
  | mapping (entries : List (String × Value))

/-- A name, an operator or a literal of a tree. It is a text wherever it is read from a source, and
null where it is missing. -/
abbrev Word := Value

namespace Value

instance : Inhabited Value := ⟨.null⟩

instance : Coe String Value := ⟨.text⟩

/-- The text that a value is, if it is one. -/
def text? : Value → Option String
  | .text s => some s
  | _ => none

/-- Whether a value is the given text. -/
def isText (s : String) (value : Value) : Bool := value.text? = some s

/-- The value of the last entry with the given key. -/
def lookup (key : String) (entries : List (String × Value)) : Option Value :=
  (entries.reverse.find? (·.1 = key)).map (·.2)

/-- The value under a key of a mapping. -/
def get? (key : String) : Value → Option Value
  | .mapping entries => lookup key entries
  | _ => none

/-- Whether a value counts as set: not null, false, zero or empty. -/
def isSet : Value → Bool
  | .null => false
  | .bool b => b
  | .int n => n ≠ 0
  | .decimal _ => true
  | .text s => s ≠ ""
  | .list items => !items.isEmpty
  | .mapping entries => !entries.isEmpty

/-- What messages call the type of a value. -/
def typeName : Value → String
  | .null => "NoneType"
  | .bool _ => "bool"
  | .int _ => "int"
  | .decimal _ => "float"
  | .text _ => "str"
  | .list _ => "list"
  | .mapping _ => "dict"

mutual

/-- A value as it is shown inside a list or mapping, where text is quoted. -/
def shown : Value → String
  | .null => "None"
  | .bool b => if b then "True" else "False"
  | .int n => toString n
  | .decimal spelling => spelling
  | .text s => Text.quote s
  | .list items => "[" ++ String.intercalate ", " (shownItems items) ++ "]"
  | .mapping entries => "\x7b" ++ String.intercalate ", " (shownEntries entries) ++ "\x7d"

def shownItems : List Value → List String
  | [] => []
  | item :: rest => shown item :: shownItems rest

def shownEntries : List (String × Value) → List String
  | [] => []
  | (key, value) :: rest => (Text.quote key ++ ": " ++ shown value) :: shownEntries rest

end

/-- A value in running text: as it is shown, but text stands without quotes. -/
def display : Value → String
  | .text s => s
  | value => value.shown

/-- The text of a value, or of a fallback where the value is not set. -/
def displayOr (fallback : String) (value : Option Value) : String :=
  match value with
  | some v => if v.isSet then v.display else fallback
  | none => fallback

end Value

end Recast
