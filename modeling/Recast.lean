import Recast.Command
import Recast.Comment.Attach
import Recast.Comment.Render
import Recast.Config.Read
import Recast.Config.Resolve
import Recast.Diagnostic
import Recast.Main
import Recast.ParseTree.Read
import Recast.Pass.Select
import Recast.Reading
import Recast.Render
import Recast.Specifier
import Recast.Template
import Recast.Text
import Recast.Transpile
import Recast.Tree.Traversal
import Recast.Value.Json
import Recast.Proofs.Tree.Basic
import Recast.Proofs.Tree.Address
import Recast.Proofs.Comment.Attach
import Recast.Proofs.Pass.Hushed
import Recast.Proofs.Pass.Select
import Recast.Proofs.ParseTree
import Recast.Proofs.Reading
import Recast.Proofs.Comment.Conserved
import Recast.Proofs.Grammar.Expression
import Recast.Proofs.Grammar.Spelling
import Recast.Proofs.Render.Literal
import Recast.Proofs.Render.Expressions
import Recast.Proofs.Render.Ensures
import Recast.Proofs.Comment.Due
import Recast.Proofs.Render.Comments.Basic
import Recast.Proofs.Render.Comments.Expressions
import Recast.Proofs.Render.Comments.Statements
import Recast.Proofs.Render.Comments.Declarations
import Recast.Proofs.Render.Comments.Unit
import Recast.Proofs.Config.Placement
import Recast.Proofs.Specifier
import Recast.Proofs.Tree.Substitute
import Recast.Proofs.Pass.Triggers
import Recast.Proofs.Pass.Synthesized
import Recast.Proofs.Pass.Run
import Recast.Proofs.Pass.Settled
import Recast.Proofs.Pass.Ready
import Recast.Proofs.Pass.Commute
import Recast.Proofs.Pass.Materialize
import Recast.Proofs.Pass.Order
import Recast.Proofs.Comment.Closed
import Recast.Proofs.Comment.Stretch
import Recast.Proofs.Comment.Braces
import Recast.Proofs.Comment.Gaps
import Recast.Proofs.Comment.Printed
import Recast.Proofs.Pass.Symbols
import Recast.Proofs.Reading.Tokens
import Recast.Proofs.Render.Brackets.Basic
import Recast.Proofs.Render.Brackets.Declarations
import Recast.Proofs.Render.Code.Basic
import Recast.Proofs.Render.Code.Declarations
import Recast.Proofs.Render.Code.Unit
import Recast.Proofs.Render.Steady.Basic
import Recast.Proofs.Render.Steady.Declarations
import Recast.Proofs.Pass.Table
import Recast.Proofs.Pass.Siblings
import Recast.Proofs.Render.Handlers
import Recast.Proofs.Render.Levels.Expressions
import Recast.Proofs.Pass.Accessors
import Recast.Proofs.Grammar.Numeral
import Recast.Proofs.Render.Numeral
import Recast.Proofs.Reading.Initializer
import Recast.Proofs.Grammar.TypeReading
import Recast.Proofs.Render.Types
import Recast.Proofs.Config.Relative
import Recast.Proofs.Pass.Encoded
import Recast.Proofs.Config.Apart
import Recast.Proofs.Render.Hoisting
import Recast.Proofs.Tree.Traversal
