/-
  Subject: STATEMENTS WITH THEIR EXPRESSIONS (`statement.ml`).

  What control flow reads of a statement is in `Pysa.Ast.Statement`; here is what the names of a
  module are read off. The bodies of classes and functions are kept: what is not collected there is
  part of what the collectors do.
-/
import Pysa.Ast.LocationInsensitiveCompare
import Pysa.Interprocedural.ModuleQualifiers

namespace Pysa.Ast

open ModuleQualifiers (Reference)

/-- The name of an import, which the parser never leaves empty. -/
structure ImportName where
  reference : Reference
  nonempty : reference ≠ []

/-- `List.hd_exn` of the parts of the name. -/
def ImportName.head (name : ImportName) : String := name.reference.head name.nonempty

/-- `Import.import`. -/
structure ImportItem where
  name : ImportName
  alias_ : Option String

/-- `TypeParam.type_param`. -/
inductive TypeParam (L O F : Type) where
  | typeVar (name : String) (bound : Option (ExpressionNode L O F))
  | paramSpec (name : String)
  | typeVarTuple (name : String)

/-- `Define.Signature.t`. -/
structure Signature (L O F : Type) where
  name : Reference
  parameters : List (Parameter L O F)
  decorators : List (ExpressionNode L O F)
  returns : Option (ExpressionNode L O F)

mutual

/-- `Match.Pattern.pattern`. -/
inductive Pattern (L O F : Type) where
  | matchAs (pattern : Option (PatternNode L O F)) (name : String)
  | matchClass (className : Node L (Name L O F)) (patterns : List (PatternNode L O F))
      (keywordAttributes : List String) (keywordPatterns : List (PatternNode L O F))
  | matchMapping (keys : List (ExpressionNode L O F)) (patterns : List (PatternNode L O F))
      (rest : Option String)
  | matchOr (patterns : List (PatternNode L O F))
  | matchSequence (patterns : List (PatternNode L O F))
  | matchSingleton (value : Constant L O F)
  | matchStar (name : Option String)
  | matchValue (value : ExpressionNode L O F)
  | matchWildcard

inductive PatternNode (L O F : Type) where
  | node (location : L) (value : Pattern L O F)

end

mutual

/-- `Statement.statement`. -/
inductive Statement (L O F : Type) where
  | assign (target : ExpressionNode L O F)
      (annotationExpression value : Option (ExpressionNode L O F))
  | assert (test : ExpressionNode L O F) (message : Option (ExpressionNode L O F))
  | augmentedAssign (target value : ExpressionNode L O F)
  | breakLoop
  | classDefinition (name : Reference) (baseArguments : List (Argument L O F))
      (decorators : List (ExpressionNode L O F)) (body : List (StatementNode L O F))
  | continueLoop
  | define (signature : Signature L O F) (body : List (StatementNode L O F))
  | delete (targets : List (ExpressionNode L O F))
  | expression (value : ExpressionNode L O F)
  | forLoop (target iterator : ExpressionNode L O F) (body orelse : List (StatementNode L O F))
  | global (names : List String)
  | ifThen (test : ExpressionNode L O F) (body orelse : List (StatementNode L O F))
  | importNames (source : Option (Node L Reference)) (imports : List (Node L ImportItem))
  | matchCases (subject : ExpressionNode L O F) (cases : List (Case L O F))
  | nonlocal (names : List String)
  | pass
  | raise (expression source : Option (ExpressionNode L O F))
  | returnValue (expression : Option (ExpressionNode L O F))
  | tryBlock (body : List (StatementNode L O F)) (handlers : List (TryHandler L O F))
      (orelse finally_ : List (StatementNode L O F))
  | typeAlias (name : ExpressionNode L O F) (typeParams : List (Node L (TypeParam L O F)))
      (value : ExpressionNode L O F)
  | withBlock (items : List (ExpressionNode L O F × Option (ExpressionNode L O F)))
      (body : List (StatementNode L O F))
  | whileLoop (test : ExpressionNode L O F) (body orelse : List (StatementNode L O F))

/-- `Statement.t`. -/
inductive StatementNode (L O F : Type) where
  | node (location : L) (value : Statement L O F)

/-- `Match.Case.t`. -/
inductive Case (L O F : Type) where
  | case (pattern : PatternNode L O F) (guard : Option (ExpressionNode L O F))
      (body : List (StatementNode L O F))

/-- `Try.Handler.t`. -/
inductive TryHandler (L O F : Type) where
  | handler (kind : Option (ExpressionNode L O F)) (name : Option (Node L String))
      (body : List (StatementNode L O F))

end

/-- `Source.t`: the statements, the qualifier of the module and whether its file is a stub. -/
structure Source (L O F : Type) where
  qualifier : Reference
  isStub : Bool
  statements : List (StatementNode L O F)

end Pysa.Ast
