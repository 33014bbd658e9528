import Recast.Text

/-!
Paths with slashes.

A path is text; `segments` are the names between its slashes. Two readings of a path are used:

* `clean` writes a path without empty and `.` segments and keeps `..`, as directories are printed;
* `Resolved` also takes `..` back against the segment before it, which is how one place is found
  from another (`relativeTo`).

An unrooted path starts in some working directory whose name is not known here, so a resolved path
counts how many levels it climbs above it.
-/

namespace Recast.SlashPath

/-- The names between the slashes, empty ones included. -/
def segments (path : String) : List String := Text.split '/' path

/-- Whether a path starts at the root. -/
def isRooted (path : String) : Bool := path.toList.head? = some '/'

/-- One path below another; a rooted path stands alone. -/
def join (base path : String) : String :=
  if isRooted path then path
  else if base = "" ∨ base.toList.getLast? = some '/' then base ++ path
  else base ++ "/" ++ path

/-- The path up to its last slash, which is dropped unless only slashes come before it. -/
def directory (path : String) : String :=
  let head := (path.toList.reverse.dropWhile (· ≠ '/')).reverse
  let trimmed := Text.dropEnd (· = '/') head
  String.ofList (if trimmed.isEmpty then head else trimmed)

/-- The name after the last slash. -/
def fileName (path : String) : String := Text.afterLast '/' path

/-- A file name cut at its last dot, unless only dots come before it. -/
def stem (name : String) : String :=
  let beforeDot := (name.toList.reverse.dropWhile (· ≠ '.')).drop 1
  if beforeDot.any (· ≠ '.') then String.ofList beforeDot.reverse else name

/-- The path without the extension of its file name. -/
def withoutExtension (path : String) : String :=
  let name := fileName path
  String.ofList (path.toList.take (path.length - name.length)) ++ stem name

/-- The path with another extension. -/
def withExtension (path extension : String) : String :=
  withoutExtension path ++ "." ++ extension

/-! ### Printed directories -/

/-- The slashes that a printed path starts with: exactly two stay two, any other number is one. -/
def root (path : String) : String :=
  match path.toList with
  | '/' :: '/' :: '/' :: _ => "/"
  | '/' :: '/' :: _ => "//"
  | '/' :: _ => "/"
  | _ => ""

/-- The names of a path that are neither empty nor `.`. -/
def names (path : String) : List String := (segments path).filter fun s => s ≠ "" ∧ s ≠ "."

/-- A path without repeated slashes and `.` segments; the empty path is `.`. -/
def clean (path : String) : String :=
  let text := root path ++ String.intercalate "/" (names path)
  if text = "" then "." else text

/-- A path below another, printed cleanly. -/
def below (base path : String) : String := clean (join (clean base) path)

/-! ### Resolved paths -/

/-- A path without `.` and `..` segments. `climbs` counts the levels above the start. -/
structure Resolved where
  rooted : Bool
  climbs : Nat
  names : List String
deriving DecidableEq, Repr

/-- Follows one segment. -/
def Resolved.step (place : Resolved) (segment : String) : Resolved :=
  if segment = "" ∨ segment = "." then place
  else if segment = ".." then
    match place.names.reverse with
    | _ :: rest => { place with names := rest.reverse }
    | [] => if place.rooted then place else { place with climbs := place.climbs + 1 }
  else { place with names := place.names ++ [segment] }

/-- The place a path leads to. -/
def resolve (path : String) : Resolved :=
  (segments path).foldl Resolved.step ⟨isRooted path, 0, []⟩

/-- Removes the longest common start of two lists. -/
def dropCommon : List String → List String → List String × List String
  | a :: as, b :: bs => if a = b then dropCommon as bs else (a :: as, b :: bs)
  | as, bs => (as, bs)

/-- The steps from one place to another. -/
def Resolved.stepsFrom (target start : Resolved) : List String :=
  if target.climbs = start.climbs then
    let (ahead, back) := dropCommon target.names start.names
    back.map (fun _ => "..") ++ ahead
  else
    List.replicate (target.climbs - start.climbs + start.names.length) ".." ++ target.names

/-- The path that leads to `target` from `start`; `.` if they are one place. -/
def relativeTo (target start : String) : String :=
  match (resolve target).stepsFrom (resolve start) with
  | [] => "."
  | steps => String.intercalate "/" steps

end Recast.SlashPath
