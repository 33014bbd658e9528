import Recast.Lowering.Accessors

/-!
The passes that a unit goes through before it is rendered.

Each pass is a rule applied to the whole tree. Two passes always run, first; the others run where
an import asks for them.
-/

namespace Recast

/-- The passes. -/
inductive Pass where
  | coreTypes
  | builtinCalls
  | accessors
  | logging
  | containers
  | optional
  | fileInputStream
  | stringWriter
deriving DecidableEq, Repr

namespace Pass

def all : List Pass :=
  [.coreTypes, .builtinCalls, .accessors, .logging, .containers, .optional, .fileInputStream,
   .stringWriter]

/-- The word for a pass. -/
def word : Pass → String
  | .coreTypes => "core-types"
  | .builtinCalls => "builtin-calls"
  | .accessors => "delombok"
  | .logging => "lombok-logging"
  | .containers => "containers"
  | .optional => "optional"
  | .fileInputStream => "file-input-stream"
  | .stringWriter => "string-writer"

/-- The pass that a word names. -/
def ofWord? (word : String) : Option Pass := all.find? fun pass => pass.word = word

/-- The rule of a pass, given the configured type mappings. -/
def rule (mappings : List (String × Value)) : Pass → Lowering.Rule
  | .coreTypes => Lowering.coreTypes mappings
  | .builtinCalls => Lowering.builtinCalls
  | .accessors => Lowering.accessors
  | .logging => Lowering.logging
  | .containers => Lowering.containers
  | .optional => Lowering.optional
  | .fileInputStream => Lowering.fileInputStream
  | .stringWriter => Lowering.stringWriter

/-- A rule that leaves import and package declarations alone. -/
def sparingHeader (rule : Lowering.Rule) : Lowering.Rule := fun before after =>
  match before.form with
  | .part (.importing _) | .part (.package ..) => some before
  | _ => rule before after

/-- A tree after a pass; none if the pass removes it. -/
def run? (mappings : List (String × Value)) (pass : Pass) (t : Tree) : Option Tree :=
  t.substitute? (sparingHeader (pass.rule mappings))

/-- A unit after a pass. No pass removes a unit. -/
def run (mappings : List (String × Value)) (pass : Pass) (unit : Tree) : Tree :=
  (pass.run? mappings unit).getD unit

/-- A unit after some passes, one after another. -/
def runAll (mappings : List (String × Value)) (passes : List Pass) (unit : Tree) : Tree :=
  passes.foldl (fun unit pass => pass.run mappings unit) unit

/-- The passes that always run, in this order and before all others. -/
def mandatory : List Pass := [.coreTypes, .builtinCalls]

end Pass

end Recast
