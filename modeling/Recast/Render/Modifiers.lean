import Recast.Tree.Form

/-!
Where modifiers go.

Modifiers are written in three slots, in this order: access, storage, `final`. How a modifier is
spelled, and whether it is written at all, depends on what it modifies: `final` is `const` on a type
and `readonly` on a field; on a parameter it may leave a comment; a public type is exported where it
stands at module level.
-/

namespace Recast

/-- What a list of modifiers modifies. -/
inductive ModifierContext where
  | type
  | field
  | method
  | constructor
  | parameter
  | localVariable
deriving DecidableEq, Repr

namespace Modifier

/-- The slot of a modifier. -/
def slot : Modifier → Nat
  | .pub | .prot | .priv => 0
  | .abstr | .static => 1
  | .final => 2

/-- How `final` is spelled. -/
def spellFinal (commentFinal : Bool) : ModifierContext → Option String
  | .type => some "const"
  | .field => some "readonly"
  | .parameter => if commentFinal then some "/*const*/" else none
  | _ => none

/-- How a modifier is spelled; none if it is not written. -/
def spell (m : Modifier) (context : ModifierContext) (topLevel commentFinal : Bool) :
    Option String :=
  match m, context with
  | .final, context => spellFinal commentFinal context
  | .pub, .type => if topLevel then some "export" else none
  | .abstr, .type => some "abstract"
  | _, .type => none
  | _, .parameter => none
  | _, .localVariable => none
  | .abstr, .constructor => none
  | .static, .constructor => none
  | m, _ => some m.keyword

/-- The words of one slot, each once. -/
def slotWords (modifiers : List Modifier) (context : ModifierContext)
    (topLevel commentFinal : Bool) (slot : Nat) : List String :=
  ((modifiers.filter (·.slot = slot)).filterMap (·.spell context topLevel commentFinal)).foldl
    (fun words word => if word ∈ words then words else words ++ [word]) []

/-- A list of modifiers, each word followed by a blank. -/
def renderAll (modifiers : List Modifier) (context : ModifierContext)
    (topLevel : Bool := false) (commentFinal : Bool := false) : String :=
  String.join ([0, 1, 2].flatMap (slotWords modifiers context topLevel commentFinal)
    |>.map (· ++ " "))

end Modifier

end Recast
