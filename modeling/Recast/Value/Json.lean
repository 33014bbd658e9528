import Recast.Value

/-!
Documents written as JSON.

`read?` accepts one document with blanks around it; `write` prints one without any blanks. Reading
is bounded by the length of the text: every step into a list or mapping reads at least one
character.
-/

namespace Recast.Value.Json

/-! ### Reading -/

/-- The text after its leading blanks. -/
def skip (text : List Char) : List Char :=
  text.dropWhile fun c => c = ' ' || c = '\t' || c = '\n' || c = '\r'

/-- The value of a hexadecimal digit. -/
def hexValue? (c : Char) : Option Nat :=
  if '0' ≤ c ∧ c ≤ '9' then some (c.toNat - '0'.toNat)
  else if 'a' ≤ c ∧ c ≤ 'f' then some (c.toNat - 'a'.toNat + 10)
  else if 'A' ≤ c ∧ c ≤ 'F' then some (c.toNat - 'A'.toNat + 10)
  else none

/-- The number that four hexadecimal digits write. -/
def hex4? (a b c d : Char) : Option Nat := do
  return ((← hexValue? a) * 16 + (← hexValue? b)) * 256 + (← hexValue? c) * 16 + (← hexValue? d)

/-- The character a one-letter escape stands for. -/
def escape? : Char → Option Char
  | '"' => some '"'
  | '\\' => some '\\'
  | '/' => some '/'
  | 'b' => some (Char.ofNat 8)
  | 'f' => some (Char.ofNat 12)
  | 'n' => some '\n'
  | 'r' => some '\r'
  | 't' => some '\t'
  | _ => none

/-- The rest of a string after its opening quote, and what follows it. A code in the range of high
surrogates waits in `high` for the low one that completes it. -/
def string? (high : Option Nat) : List Char → Option (List Char × List Char)
  | '"' :: rest => some ([], rest)
  | '\\' :: 'u' :: a :: b :: c :: d :: rest => do
    let code ← hex4? a b c d
    match high with
    | some h =>
      if 0xDC00 ≤ code ∧ code < 0xE000 then
        let (chars, rest) ← string? none rest
        return (Char.ofNat (0x10000 + (h - 0xD800) * 0x400 + (code - 0xDC00)) :: chars, rest)
      else none
    | none =>
      if 0xD800 ≤ code ∧ code < 0xDC00 then string? (some code) rest
      else do
        let (chars, rest) ← string? none rest
        return (Char.ofNat code :: chars, rest)
  | '\\' :: e :: rest => do
    let c ← escape? e
    let (chars, rest) ← string? none rest
    return (c :: chars, rest)
  | c :: rest => do
    let (chars, rest) ← string? none rest
    return (c :: chars, rest)
  | [] => none

/-- The number that decimal digits write. -/
def digitsValue (digits : List Char) : Nat :=
  digits.foldl (fun n c => n * 10 + (c.toNat - '0'.toNat)) 0

/-- A number at the start of a text, and what follows it. -/
def number? (text : List Char) : Option (Value × List Char) :=
  let isPart := fun c : Char => c.isDigit || c = '.' || c = 'e' || c = 'E' || c = '+' || c = '-'
  let spelling := text.takeWhile isPart
  let rest := text.dropWhile isPart
  let digits := if spelling.head? = some '-' then spelling.drop 1 else spelling
  if digits.isEmpty then none
  else if digits.all Char.isDigit then
    let n : Int := digitsValue digits
    some (.int (if spelling.head? = some '-' then -n else n), rest)
  else some (.decimal (String.ofList spelling), rest)

mutual

/-- The document at the start of a text, and what follows it. -/
def value? : Nat → List Char → Option (Value × List Char)
  | 0, _ => none
  | fuel + 1, source =>
    match skip source with
    | 'n' :: 'u' :: 'l' :: 'l' :: rest => some (.null, rest)
    | 't' :: 'r' :: 'u' :: 'e' :: rest => some (.bool true, rest)
    | 'f' :: 'a' :: 'l' :: 's' :: 'e' :: rest => some (.bool false, rest)
    | '"' :: rest => (string? none rest).map fun (chars, rest) =>
      (.text (String.ofList chars), rest)
    | '[' :: rest =>
      match skip rest with
      | ']' :: rest => some (.list [], rest)
      | rest => (items? fuel rest).map fun (items, rest) => (.list items, rest)
    | '{' :: rest =>
      match skip rest with
      | '}' :: rest => some (.mapping [], rest)
      | rest => (entries? fuel rest).map fun (entries, rest) => (.mapping entries, rest)
    | rest => number? rest

/-- The items of a list up to its closing bracket. -/
def items? : Nat → List Char → Option (List Value × List Char)
  | 0, _ => none
  | fuel + 1, source => do
    let (item, rest) ← value? fuel source
    match skip rest with
    | ']' :: rest => return ([item], rest)
    | ',' :: rest =>
      let (items, rest) ← items? fuel rest
      return (item :: items, rest)
    | _ => none

/-- The entries of a mapping up to its closing brace. -/
def entries? : Nat → List Char → Option (List (String × Value) × List Char)
  | 0, _ => none
  | fuel + 1, source =>
    match skip source with
    | '"' :: rest => do
      let (key, rest) ← string? none rest
      match skip rest with
      | ':' :: rest =>
        let (value, rest) ← value? fuel rest
        match skip rest with
        | '}' :: rest => return ([(String.ofList key, value)], rest)
        | ',' :: rest =>
          let (entries, rest) ← entries? fuel rest
          return ((String.ofList key, value) :: entries, rest)
        | _ => none
      | _ => none
    | _ => none

end

/-- The document that a text holds. -/
def read? (text : String) : Option Value :=
  let chars := text.toList
  match value? (2 * chars.length + 2) chars with
  | some (value, rest) => if (skip rest).isEmpty then some value else none
  | none => none

/-! ### Writing -/

/-- One character inside a string. -/
def writeChar (c : Char) : List Char :=
  if c = '"' then ['\\', '"']
  else if c = '\\' then ['\\', '\\']
  else if c = '\n' then ['\\', 'n']
  else if c = '\r' then ['\\', 'r']
  else if c = '\t' then ['\\', 't']
  else if c.toNat < 0x20 then '\\' :: 'u' :: Text.hexDigits 4 c.toNat
  else [c]

/-- A string with its quotes. -/
def writeString (s : String) : String :=
  "\"" ++ String.ofList (s.toList.flatMap writeChar) ++ "\""

mutual

/-- A document on one line. -/
def write : Value → String
  | .null => "null"
  | .bool b => if b then "true" else "false"
  | .int n => toString n
  | .decimal spelling => spelling
  | .text s => writeString s
  | .list items => "[" ++ String.intercalate "," (writeItems items) ++ "]"
  | .mapping entries => "\x7b" ++ String.intercalate "," (writeEntries entries) ++ "\x7d"

def writeItems : List Value → List String
  | [] => []
  | item :: rest => write item :: writeItems rest

def writeEntries : List (String × Value) → List String
  | [] => []
  | (key, value) :: rest => (writeString key ++ ":" ++ write value) :: writeEntries rest

end

end Recast.Value.Json
