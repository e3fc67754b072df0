/-
  Subject: THE BLOCKS OF A MODULE AND THE NAMES OF PYTHON'S SYMBOL TABLE.

  * `Block` -- what has a scope of its own: functions, lambdas, comprehensions;
  * `Block.frame` -- the names that a block declares and binds: its parameters, what its statements
    bind, and what they delete;
  * `Block.targets` -- the targets of the assignment expressions in a comprehension, which the symbol
    table declares in it as names of the block around the comprehensions (`targetLocality`);
  * `moduleNames` -- the names of the module: also those that some function declares global;
  * `resolvePython` -- the scope to which Python resolves a name.
-/
import Pysa.Ast.BoundNames
import Pysa.Ast.Identifier
import Pysa.Lib.LexicalScope

namespace Pysa.Ast

open LexicalScope (AccessKind Frame Locality Narrower Place)

variable {L O F : Type}

/-! ## 1. Declarations -/

mutual

/-- What `declared` reads off the statements of a block; with `deep`, also off those of functions
    and classes in it. -/
def declaredNames (deep : Bool) (declared : Statement L O F → List String) :
    StatementNode L O F → List String
  | .node _ statement => declaredStatementNames deep declared statement

def declaredStatementNames (deep : Bool) (declared : Statement L O F → List String) :
    Statement L O F → List String
  | .classDefinition _ _ _ body => keptIf deep (declaredNamesList deep declared body)
  | .define _ body => keptIf deep (declaredNamesList deep declared body)
  | .forLoop _ _ body orelse =>
    declaredNamesList deep declared body ++ declaredNamesList deep declared orelse
  | .ifThen _ body orelse =>
    declaredNamesList deep declared body ++ declaredNamesList deep declared orelse
  | .matchCases _ cases => declaredCaseNames deep declared cases
  | .tryBlock body handlers orelse finally_ =>
    declaredNamesList deep declared body ++ declaredHandlerNames deep declared handlers ++
      declaredNamesList deep declared orelse ++ declaredNamesList deep declared finally_
  | .withBlock _ body => declaredNamesList deep declared body
  | .whileLoop _ body orelse =>
    declaredNamesList deep declared body ++ declaredNamesList deep declared orelse
  | statement => declared statement

def declaredNamesList (deep : Bool) (declared : Statement L O F → List String) :
    List (StatementNode L O F) → List String
  | [] => []
  | head :: tail => declaredNames deep declared head ++ declaredNamesList deep declared tail

def declaredCaseNames (deep : Bool) (declared : Statement L O F → List String) :
    List (Case L O F) → List String
  | [] => []
  | .case _ _ body :: tail =>
    declaredNamesList deep declared body ++ declaredCaseNames deep declared tail

def declaredHandlerNames (deep : Bool) (declared : Statement L O F → List String) :
    List (TryHandler L O F) → List String
  | [] => []
  | .handler _ _ body :: tail =>
    declaredNamesList deep declared body ++ declaredHandlerNames deep declared tail

end

def globalNames : Statement L O F → List String
  | .global names => names
  | _ => []

def nonlocalNames : Statement L O F → List String
  | .nonlocal names => names
  | _ => []

def deletedNames : Statement L O F → List String
  | .delete targets => bareNamesList targets
  | _ => []

/-! ## 2. Blocks -/

inductive Block (L O F : Type) where
  | define (signature : Signature L O F) (body : List (StatementNode L O F))
  | expression (value : ExpressionNode L O F)

/-- The parameters, without their stars. -/
def parameterIdentifiers : List (Parameter L O F) → List String
  | [] => []
  | .parameter _ name _ _ :: tail => (Identifier.splitStar name).2 :: parameterIdentifiers tail

def generatorTargets : List (Generator L O F) → List String
  | [] => []
  | .generator target _ _ _ :: tail => bareNames target ++ generatorTargets tail

namespace Block

/-- What an expression binds in a block of its own. -/
def expressionLocals (part : Part) : ExpressionNode L O F → List String
  | .node _ (.lambda parameters body) => parameterIdentifiers parameters ++ walrusNames part body
  | .node _ (.dictionaryComprehension _ generators) => generatorTargets generators
  | .node _ (.generator _ generators) => generatorTargets generators
  | .node _ (.listComprehension _ generators) => generatorTargets generators
  | .node _ (.setComprehension _ generators) => generatorTargets generators
  | _ => []

def locals (part : Part) : Block L O F → List String
  | define signature body =>
    parameterIdentifiers signature.parameters ++ (boundNamesList part body ++
      skipped part (declaredNamesList false deletedNames body))
  | expression value => expressionLocals part value

def globals : Block L O F → List String
  | define _ body => declaredNamesList false globalNames body
  | expression _ => []

def nonlocals : Block L O F → List String
  | define _ body => declaredNamesList false nonlocalNames body
  | expression _ => []

def frame (part : Part) (block : Block L O F) : Frame String :=
  ⟨block.globals.toFinset, block.nonlocals.toFinset, (block.locals part).toFinset⟩

/-- The targets in a comprehension itself, not in one inside it. -/
def expressionTargets : ExpressionNode L O F → List String
  | .node _ (.dictionaryComprehension element generators) =>
    generatorNames .own generators ++ keyValueNames .own element
  | .node _ (.generator element generators) =>
    generatorNames .own generators ++ walrusNames .own element
  | .node _ (.listComprehension element generators) =>
    generatorNames .own generators ++ walrusNames .own element
  | .node _ (.setComprehension element generators) =>
    generatorNames .own generators ++ walrusNames .own element
  | _ => []

def targets : Block L O F → List String
  | define _ _ => []
  | expression value => expressionTargets value

def isComprehension : Block L O F → Bool
  | define _ _ => false
  | expression (.node _ (.lambda _ _)) => false
  | expression _ => true

end Block

def moduleNames (part : Part) (source : Source L O F) : List String :=
  boundNamesList part source.statements ++
    skipped part (declaredNamesList false deletedNames source.statements ++
      declaredNamesList true globalNames source.statements)

/-- How the symbol table declares a target in its comprehension. -/
def targetLocality (x : String) : List (Block L O F) → Locality
  | [] => .global
  | block :: rest =>
    if block.isComprehension then targetLocality x rest
    else if x ∈ block.globals then .global
    else .nonlocal

def IsTarget (x : String) : List (Block L O F) → Prop
  | [] => False
  | block :: _ => x ∈ block.targets

instance (x : String) : (blocks : List (Block L O F)) → Decidable (IsTarget x blocks)
  | [] => inferInstanceAs (Decidable False)
  | block :: _ => inferInstanceAs (Decidable (x ∈ block.targets))

/-- Where a name is found from inside nested blocks, which are listed from the inside. A target is
    found where an undeclared name would be: the block that it belongs to binds it. -/
def resolvePython (source : Source L O F) (blocks : List (Block L O F)) (x : String) :
    Option (AccessKind × Place) :=
  (LexicalScope.resolve (moduleNames .all source).toFinset x (blocks.map (Block.frame .all))).map
    fun found =>
      if IsTarget x blocks then (.outerScope (targetLocality x blocks), found.2) else found

theorem targetLocality_ne (x : String) (blocks : List (Block L O F)) :
    targetLocality x blocks ≠ .undeclared := by
  induction blocks with
  | nil => exact Locality.noConfusion
  | cons block rest ih =>
    rw [targetLocality]
    split_ifs
    · exact ih
    · exact Locality.noConfusion
    · exact Locality.noConfusion

/-! ## 3. The seen names -/

theorem expressionLocals_subset (expression : ExpressionNode L O F) :
    Block.expressionLocals .seen expression ⊆ Block.expressionLocals .all expression := by
  cases expression with
  | node location value =>
    cases value with
    | lambda parameters body =>
      exact append_subset_append (List.Subset.refl _) (walrusNames_subset body)
    | _ => exact List.Subset.refl _

theorem locals_subset (block : Block L O F) : block.locals .seen ⊆ block.locals .all := by
  cases block with
  | define signature body =>
    exact append_subset_append (List.Subset.refl _)
      (append_subset_append (boundNamesList_subset body) (List.nil_subset _))
  | expression value => exact expressionLocals_subset value

theorem moduleNames_subset (source : Source L O F) :
    moduleNames .seen source ⊆ moduleNames .all source :=
  append_subset_append (boundNamesList_subset source.statements) (List.nil_subset _)

theorem toFinset_subset {a b : List String} (h : a ⊆ b) : a.toFinset ⊆ b.toFinset := by
  intro x hx
  rw [List.mem_toFinset] at hx ⊢
  exact h hx

/-- A block with the seen names declares the same and binds no more. -/
theorem frame_narrower (block : Block L O F) : Narrower (block.frame .seen) (block.frame .all) where
  globals := rfl
  nonlocals := rfl
  locals := toFinset_subset (locals_subset block)

theorem frames_narrower (blocks : List (Block L O F)) :
    List.Forall₂ Narrower (blocks.map (Block.frame .seen)) (blocks.map (Block.frame .all)) := by
  induction blocks with
  | nil => exact .nil
  | cons head tail ih => exact .cons (frame_narrower head) ih

end Pysa.Ast
