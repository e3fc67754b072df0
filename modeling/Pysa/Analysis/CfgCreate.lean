/-
  Subject: THE CONSTRUCTION OF A CONTROL-FLOW GRAPH (`Cfg.create`).

  * `Builder` -- the nodes so far; the statements of a block are in reverse until the end;
  * `createStatement`, `createStatements` -- the graph of a statement behind a node, with the nodes
    that jumps go to;
  * `Cfg.create` -- the graph of a function body.
-/
import Pysa.Analysis.CfgNode
import Pysa.Ast.Statement

namespace Pysa

variable {X : Type}

structure Builder (X : Type) where
  graph : Cfg (Statement X)
  nodeCount : ℕ

namespace Builder

def node (builder : Builder X) (id : ℕ) : Option (CfgNode (Statement X)) := builder.graph.find? id

/-- `Node.empty`. -/
def emptyNode (kind : NodeKind (Statement X)) (builder : Builder X) : ℕ × Builder X :=
  (builder.nodeCount,
    { graph := builder.graph.add builder.nodeCount ⟨builder.nodeCount, kind, .empty, .empty⟩
      nodeCount := builder.nodeCount + 1 })

def modify (id : ℕ) (f : CfgNode (Statement X) → CfgNode (Statement X)) (builder : Builder X) :
    Builder X :=
  { builder with graph := builder.graph.update id (·.map f) }

def connect (predecessor successor : ℕ) (builder : Builder X) : Builder X :=
  builder
    |>.modify predecessor (fun node => { node with successors := node.successors.add successor })
    |>.modify successor (fun node => { node with predecessors := node.predecessors.add predecessor })

def connectOption (predecessor : Option ℕ) (successor : ℕ) (builder : Builder X) : Builder X :=
  match predecessor with
  | none => builder
  | some predecessor => builder.connect predecessor successor

def hasPredecessors (id : ℕ) (builder : Builder X) : Bool :=
  match builder.node id with
  | none => false
  | some node => !node.predecessors.elements.isEmpty

def kind? (id : ℕ) (builder : Builder X) : Option (NodeKind (Statement X)) :=
  (builder.node id).map CfgNode.kind

/-- Put a statement at the end of the block `predecessor`, or in a new block behind it. -/
def append (statement : Statement X) (predecessor : ℕ) (builder : Builder X) : ℕ × Builder X :=
  match builder.kind? predecessor with
  | some (.block precedingStatements) =>
    -- in front, to avoid a quadratic complexity
    (predecessor, builder.modify predecessor fun node =>
      { node with kind := .block (statement :: precedingStatements) })
  | _ =>
    let (node, builder) := builder.emptyNode (.block [statement])
    (node, builder.connect predecessor node)

/-- A preamble behind a node. -/
def appendAll : List X → ℕ → Builder X → ℕ × Builder X
  | [], predecessor, builder => (predecessor, builder)
  | statement :: statements, predecessor, builder =>
    let (node, builder) := builder.append (.simple statement) predecessor
    appendAll statements node builder

end Builder

/-- The nodes that jumps go to. -/
structure Jumps where
  breakTo : ℕ
  continueTo : ℕ
  error : ℕ
  normal : ℕ

/-- How the construction goes on after a statement: with the statements that follow, behind a node,
    or not at all. In the latter case it returns the last node, if the flow has not ended. -/
inductive Next where
  | goOn (node : ℕ)
  | stop (node : Option ℕ)

/-- `>>=`: nothing follows where the flow has ended. -/
def Next.ofOption : Option ℕ → Next
  | none => .stop none
  | some node => .goOn node

/-- The statements that follow. -/
def andThen (result : Next × Builder X) (statements : ℕ → Builder X → Option ℕ × Builder X) :
    Option ℕ × Builder X :=
  match result.1 with
  | .goOn node => statements node result.2
  | .stop node => (node, result.2)

open Builder

/-- The case of a statement that has no statements inside. -/
def createSimple (statement : Statement X) (jumps : Jumps) (predecessor : ℕ) (builder : Builder X) :
    Next × Builder X :=
  let (node, builder) := builder.append statement predecessor
  match statement with
  | .assert test none =>
    if test.isFalse then (.stop none, builder.connect node jumps.error)
    else (.goOn node, builder)
  | .assert test (some (.whileLoop _)) =>
    if test.isFalse then (.stop none, builder)
    else (.goOn node, builder)
  | .breakLoop => (.stop none, builder.connect node jumps.breakTo)
  | .continueLoop => (.stop none, builder.connect node jumps.continueTo)
  | .raise _ => (.stop none, builder.connect node jumps.error)
  | .returnValue _ => (.stop none, builder.connect node jumps.normal)
  | _ => (.goOn node, builder)

section Tests

variable (normalizeAsserts : Bool)

/-- The test that is assumed where a branch is taken. -/
def positiveTest (test : Expression X) : Expression X :=
  if normalizeAsserts then test.normalize else test

/-- The test that is assumed where it is not taken. -/
def negativeTest (test : Expression X) : Expression X :=
  if normalizeAsserts then (test.negate true).normalize else test.negate false

end Tests

/-- `match_cases_refutable`. -/
def matchCasesRefutable (cases : List (MatchCase X)) : Bool :=
  (cases.getLast?.map (·.refutable)).getD true

mutual

def createStatement (normalizeAsserts : Bool) :
    Statement X → Jumps → ℕ → Builder X → Next × Builder X
  | .forLoop preamble body orelse, jumps, predecessor, builder =>
    let (split, builder) := builder.emptyNode .forLoop
    let (join, builder) := builder.emptyNode .join
    let loopJumps := { jumps with breakTo := join, continueTo := split }
    let builder := builder.connect predecessor split
    let (first, builder) := builder.append (.simple preamble) split
    let (last, builder) := createStatements normalizeAsserts body loopJumps first builder
    let builder := builder.connectOption last split
    let (last, builder) := createStatements normalizeAsserts orelse jumps split builder
    let builder := builder.connectOption last join
    let builder := builder.connect split join
    (.goOn join, builder)
  | .ifThen test body orelse, jumps, predecessor, builder =>
    let (split, builder) := builder.emptyNode .ifThen
    let (join, builder) := builder.emptyNode .join
    let builder := builder.connect predecessor split
    let (last, builder) := andThen
      (createSimple (.assume (.ifThen true) (positiveTest normalizeAsserts test)) jumps split
        builder)
      (createStatements normalizeAsserts body jumps)
    let builder := builder.connectOption last join
    let (last, builder) := andThen
      (createSimple (.assume (.ifThen false) (negativeTest normalizeAsserts test)) jumps split
        builder)
      (createStatements normalizeAsserts orelse jumps)
    let builder := builder.connectOption last join
    (.goOn join, builder)
  | .matchCases cases, jumps, predecessor, builder =>
    let (join, builder) := builder.emptyNode .join
    let (finalElse, builder) := createCases normalizeAsserts cases join jumps predecessor builder
    let builder := if matchCasesRefutable cases then builder.connect finalElse join else builder
    (.goOn join, builder)
  | .tryBlock body orelse finally_ handlers, jumps, predecessor, builder =>
    let (split, builder) := builder.emptyNode (.tryBlock (.tryBlock body orelse finally_ handlers))
    let builder := builder.connect predecessor split
    let (dispatch, builder) := builder.emptyNode .dispatch
    let builder := builder.connect split dispatch
    let builder := builder.connect dispatch jumps.error
    let (finallyEntry, builder) := builder.emptyNode (.block [])
    let (finallyExit, builder) :=
      createStatements normalizeAsserts finally_ jumps finallyEntry builder
    -- normal execution
    let bodyJumps := { jumps with error := dispatch }
    let (last, builder) := createStatements normalizeAsserts body bodyJumps split builder
    let (last, builder) := andThen (.ofOption last, builder)
      (createStatements normalizeAsserts orelse jumps)
    let builder := builder.connectOption last finallyEntry
    -- exception handling
    let builder := createHandlers normalizeAsserts handlers jumps dispatch finallyEntry builder
    if builder.hasPredecessors finallyEntry then (.ofOption finallyExit, builder)
    else
      -- the body and all handlers always jump
      let builder := builder.connect dispatch finallyEntry
      let builder := builder.connectOption finallyExit jumps.error
      (.stop none, builder)
  | .withBlock preamble body, jumps, predecessor, builder =>
    let (split, builder) := builder.emptyNode .withBlock
    let builder := builder.connect predecessor split
    let (first, builder) := builder.appendAll preamble split
    let (last, builder) := createStatements normalizeAsserts body jumps first builder
    (.ofOption last, builder)
  | .whileLoop test body orelse, jumps, predecessor, builder =>
    let (split, builder) := builder.emptyNode .whileLoop
    let (join, builder) := builder.emptyNode .join
    let loopJumps := { jumps with breakTo := join, continueTo := split }
    let builder := builder.connect predecessor split
    let (last, builder) := andThen
      (createSimple (.assume (.whileLoop true) (positiveTest normalizeAsserts test)) loopJumps split
        builder)
      (createStatements normalizeAsserts body loopJumps)
    let builder := builder.connectOption last split
    let (last, builder) := andThen
      (createSimple (.assume (.whileLoop false) (negativeTest normalizeAsserts test)) jumps split
        builder)
      (createStatements normalizeAsserts orelse jumps)
    let builder := builder.connectOption last join
    if builder.hasPredecessors join then (.goOn join, builder) else (.stop (some split), builder)
  | statement, jumps, predecessor, builder => createSimple statement jumps predecessor builder

def createStatements (normalizeAsserts : Bool) :
    List (Statement X) → Jumps → ℕ → Builder X → Option ℕ × Builder X
  | [], _, predecessor, builder => (some predecessor, builder)
  | statement :: statements, jumps, predecessor, builder =>
    andThen (createStatement normalizeAsserts statement jumps predecessor builder)
      (createStatements normalizeAsserts statements jumps)

/-- The cases of a match; it returns the final else. -/
def createCases (normalizeAsserts : Bool) :
    List (MatchCase X) → ℕ → Jumps → ℕ → Builder X → ℕ × Builder X
  | [], _, _, predecessor, builder => (predecessor, builder)
  | .mk test _ body :: cases, join, jumps, predecessor, builder =>
    let (caseNode, builder) := builder.emptyNode
      (.block [.assume (.matchCase true) (positiveTest normalizeAsserts test)])
    let builder := builder.connect predecessor caseNode
    let (last, builder) := createStatements normalizeAsserts body jumps caseNode builder
    let builder := builder.connectOption last join
    let (elseNode, builder) := builder.emptyNode
      (.block [.assume (.matchCase false) (negativeTest normalizeAsserts test)])
    let builder := builder.connect predecessor elseNode
    createCases normalizeAsserts cases join jumps elseNode builder

def createHandlers (normalizeAsserts : Bool) :
    List (Handler X) → Jumps → ℕ → ℕ → Builder X → Builder X
  | [], _, _, _, builder => builder
  | .mk preamble body :: handlers, jumps, dispatch, finallyEntry, builder =>
    let (first, builder) := builder.appendAll preamble dispatch
    let (last, builder) := createStatements normalizeAsserts body jumps first builder
    let builder := builder.connectOption last finallyEntry
    createHandlers normalizeAsserts handlers jumps dispatch finallyEntry builder

end

namespace CfgNode

/-- The statements of a block were inserted in the front: reverse them. -/
def reverseStatements (node : CfgNode (Statement X)) : CfgNode (Statement X) :=
  match node.kind with
  | .block statements => { node with kind := .block statements.reverse }
  | _ => node

end CfgNode

namespace Cfg

/-- The nodes that every graph has. -/
def scaffold : Builder X :=
  let (_, builder) := (⟨.empty, 0⟩ : Builder X).emptyNode .entry
  let (normal, builder) := builder.emptyNode .normal
  let (error, builder) := builder.emptyNode .error
  let (exit, builder) := builder.emptyNode .final
  let builder := builder.connect normal exit
  builder.connect error exit

def initialJumps : Jumps := ⟨normalIndex, normalIndex, errorIndex, normalIndex⟩

/-- The nodes for a function body, before blocks are reversed. -/
def build (normalizeAsserts : Bool) (body : List (Statement X)) : Builder X :=
  let (node, builder) := createStatements normalizeAsserts body initialJumps entryIndex scaffold
  builder.connectOption node normalIndex

/-- **`Cfg.create`.** -/
def create (normalizeAsserts : Bool) (body : List (Statement X)) : Cfg (Statement X) :=
  (build normalizeAsserts body).graph.filterMap fun node => some node.reverseStatements

end Cfg

end Pysa
