import Recast.Comment.Attach
import Recast.ParseTree.Read
import Recast.Reading.Declarations

/-!
From a parser's answer to a syntax tree with comments.

`ParseTree.reading` puts the readings of a node together, and `readUnit` reads a whole unit and puts
the comments of its source into it.
-/

namespace Recast

/-- What a part of a parser's tree means, by the place where it stands. -/
def ParseTree.reading : ParseTree → Reading :=
  ParseTree.fold fun tree layer =>
    let own := Reading.ownOf layer
    let expr := Reading.exprOf layer
    let value := Reading.elementValueOf own expr layer
    let parameter := Reading.parameterOf own layer
    let typeDeclaration := Reading.typeDeclarationOf own layer
    { tree
      own
      type := Reading.typeOf layer
      reference := Reading.referenceOf layer
      typeArgument := Reading.typeArgumentOf layer
      primary := Reading.primaryOf layer
      expr
      select := Reading.selectOf layer
      elementValue := value
      elementArguments := Reading.elementArgumentsOf value layer
      namedValue := Reading.namedValueOf own layer
      parameter
      lambdaParameter := Reading.lambdaParameterOf parameter layer
      lambdaBody := Reading.lambdaBodyOf layer
      stmt := Reading.stmtOf own typeDeclaration layer
      exprStatement := Reading.exprStatementOf expr layer
      switchLabel := Reading.switchLabelOf expr layer
      binding := Reading.bindingOf own layer
      loopStart := Reading.loopStartOf own expr layer
      loop := Reading.loopOf layer
      member := Reading.memberOf own typeDeclaration layer
      typeParameter := Reading.typeParameterOf own layer
      constant := Reading.constantOf own layer
      importing := Reading.importOf own layer
      package := Reading.packageOf layer
      typeDeclaration
      unit := Reading.unitOf own layer }

/-- What a Java parser answers to a source text. -/
inductive ParserAnswer where
  | tree (root : ParseTree)
  | syntaxError (description : String) (line : Option Int)
  | lexerError (text : String)

/-- A parser's answer as a document: the tree, or what stopped the parser. -/
def ParserAnswer.ofDocument (document : Value) : ParserAnswer :=
  match document.get? "tree", document.get? "syntax_error" with
  | some root, _ => .tree (ParseTree.ofValue root)
  | none, some report =>
    .syntaxError (ParseTree.text (report.get? "description"))
      (match report.get? "line" with
        | some (.int line) => some line
        | _ => none)
  | none, none => .lexerError (ParseTree.text (document.get? "lexer_error"))

/-- A text, or a fallback where it is empty. -/
def textOr (fallback text : String) : String := if text = "" then fallback else text

/-- Reads a unit with its comments, and reports what was dropped. -/
def readUnit (source : Source) : ParserAnswer → Except Failure (Tree × List Diagnostic)
  | .tree root =>
    match root.reading.unit.run source |>.run [] with
    | .ok (unit, diagnostics) => .ok (attachComments unit source.text, diagnostics)
    | .error fault => .error ⟨fault, none⟩
  | .syntaxError description line =>
    .error (Failure.orIn ⟨.badSyntax (textOr "syntax error" description) line, none⟩ source.file)
  | .lexerError text =>
    .error (Failure.orIn ⟨.badSyntax (textOr "lexer error" text) none, none⟩ source.file)

end Recast
