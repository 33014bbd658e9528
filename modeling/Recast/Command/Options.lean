import Recast.Text.Digit

/-!
The words of a command line.

A command line names one configuration document and has the options `--file`, `--stdout`,
`--verbose` and `--help`, in any order. A long option may be cut short as long as its first letter
is there, and takes its value after `=` or as the next word. `-v` and `-h` may stand together in one
word. After a bare `--` every word is plain. A word that looks like a negative number, or like an
unknown option with a space in it, is plain too.

Every word before a bare `--` is classified before any is acted upon, so a word that could be two
options refuses the whole line, whatever stands before it. Otherwise words act in order, and the
first that ends the line decides.
-/

namespace Recast.Command

/-- What a command line asks for. -/
structure Options where
  /-- The path of the configuration document. -/
  config : String
  /-- The only file to be transpiled; without one, all modules are walked. -/
  file : Option String := none
  /-- Whether the output is printed and not written to files. -/
  stdout : Bool := false
  /-- Whether every diagnostic is listed. -/
  verbose : Bool := false
deriving DecidableEq, Repr

/-- A command line: a request, or one that ends at once with a status. -/
inductive Invocation where
  | run (options : Options)
  | stop (status : Nat)
deriving DecidableEq, Repr

/-- The status of a command line that is not understood. -/
def misuse : Invocation := .stop 2

/-- A long option. -/
inductive LongOption where
  | help
  | file
  | stdout
  | verbose
deriving DecidableEq, Repr

namespace LongOption

def all : List LongOption := [.help, .file, .stdout, .verbose]

/-- The name of an option. -/
def name : LongOption → String
  | .help => "help"
  | .file => "file"
  | .stdout => "stdout"
  | .verbose => "verbose"

end LongOption

/-- An option without value. -/
inductive Switch where
  | help
  | stdout
  | verbose
deriving DecidableEq, Repr

/-- The switch of one letter. -/
def Switch.ofLetter? : Char → Option Switch
  | 'h' => some .help
  | 'v' => some .verbose
  | _ => none

/-- What one word of a command line says. -/
inductive Word where
  | plain
  /-- Options without value, in the order in which they act. -/
  | switches (list : List Switch)
  /-- `--file`, with its value in the same word or in the next. -/
  | file (value : Option String)
  /-- A word that nothing takes. -/
  | stray
  /-- A word that ends the line when its turn comes. -/
  | refused
  /-- A word that could be several options. -/
  | ambiguous
deriving DecidableEq, Repr

/-- A long option and its value, if the word has one. -/
def longWord (option : LongOption) (value : Option String) : Word :=
  match option, value with
  | .file, value => .file value
  | _, some _ => .refused
  | .help, none => .switches [.help]
  | .stdout, none => .switches [.stdout]
  | .verbose, none => .switches [.verbose]

/-- A short option and the letters after it, all of which must be short options. An `=` may divide
the first from the others, but then there are others. -/
def shortWord (first : Switch) (rest : List Char) : Word :=
  let switches (letters : List Char) : Word :=
    match letters.mapM Switch.ofLetter? with
    | some more => .switches (first :: more)
    | none => .refused
  match rest with
  | ['='] => .refused
  | '=' :: letters => switches letters
  | letters => switches letters

/-- Whether the characters are those of a number: digits, or a point and digits after it, with or
without digits before it. -/
def isNumber (text : List Char) : Bool :=
  let whole := text.takeWhile Text.isDigit
  match text.dropWhile Text.isDigit with
  | [] => !whole.isEmpty
  | '.' :: places => !places.isEmpty && places.all Text.isDigit
  | _ => false

/-- A word that starts with a dash and is no option. One line feed may follow a number. -/
def otherWord (text : List Char) : Word :=
  if isNumber text ∨ (text.getLast? = some '\n' ∧ isNumber text.dropLast) ∨ ' ' ∈ text then .plain
  else .stray

/-- What a word of a command line says. -/
def readWord (word : String) : Word :=
  match word.toList with
  | '-' :: '-' :: rest =>
    let name := rest.takeWhile (· ≠ '=')
    let value := match rest.dropWhile (· ≠ '=') with
      | [] => none
      | _ :: value => some (String.ofList value)
    match LongOption.all.filter fun option => name.isPrefixOf option.name.toList with
    | [] => otherWord ('-' :: rest)
    | [option] => longWord option value
    | _ => .ambiguous
  | ['-'] => .plain
  | '-' :: letter :: rest =>
    match Switch.ofLetter? letter with
    | some first => shortWord first rest
    | none => otherWord (letter :: rest)
  | _ => .plain

/-- What has been read of a command line. -/
structure Draft where
  config : Option String := none
  file : Option String := none
  stdout : Bool := false
  verbose : Bool := false
  /-- Whether a word was left over. -/
  strays : Bool := false
  /-- Whether the last word named the configuration. -/
  justNamed : Bool := false

/-- A plain word names the configuration, or is left over. -/
def Draft.plain (draft : Draft) (word : String) : Draft :=
  match draft.config with
  | none => { draft with config := some word, justNamed := true }
  | some _ => { draft with strays := true, justNamed := false }

/-- The options with one more that has no value. -/
def Draft.switch (draft : Draft) : Switch → Draft
  | .help => draft
  | .stdout => { draft with stdout := true }
  | .verbose => { draft with verbose := true }

/-- The options with a value for `--file` from the same word. There a bare `--` is no value. -/
def Draft.inlineFile (draft : Draft) (value : String) : Draft :=
  { draft with file := if value = "--" then none else some value }

/-- What a whole command line asks for. An empty file name asks for no file. -/
def Draft.finish (draft : Draft) : Invocation :=
  match draft.config, draft.strays with
  | some config, false =>
    .run { config
           file := draft.file.filter (· ≠ "")
           stdout := draft.stdout
           verbose := draft.verbose }
  | _, _ => misuse

/-- Reads the words of a command line after some others. -/
def readFrom (draft : Draft) : List String → Invocation
  | [] => draft.finish
  | "--" :: rest =>
    if draft.config.isNone ∨ draft.justNamed then (rest.foldl Draft.plain draft).finish
    else misuse
  | word :: rest =>
    let after := { draft with justNamed := false }
    match readWord word with
    | .plain => readFrom (draft.plain word) rest
    | .switches list =>
      if .help ∈ list then .stop 0 else readFrom (list.foldl Draft.switch after) rest
    | .file (some value) => readFrom (after.inlineFile value) rest
    | .file none =>
      match rest with
      | value :: rest =>
        if value ≠ "--" ∧ readWord value = .plain then
          readFrom { after with file := some value } rest
        else misuse
      | [] => misuse
    | .stray => readFrom { after with strays := true } rest
    | .refused => misuse
    | .ambiguous => misuse

/-- What a command line asks for. -/
def Invocation.read (words : List String) : Invocation :=
  if (words.takeWhile (· ≠ "--")).any (readWord · = .ambiguous) then misuse
  else readFrom {} words

end Recast.Command
