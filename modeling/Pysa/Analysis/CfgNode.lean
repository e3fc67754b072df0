/-
  Subject: CONTROL-FLOW GRAPHS (`cfg.ml`): nodes with references to both successors and
    predecessors.

  * `NodeKind`, `Node` -- a node and the statements in it. The statement that a split node stands
    for is kept for a try only: no other is read when the graph is used;
  * `Cfg` -- nodes by id;
  * `Cfg.Path` -- paths, with the statements along them;
  * `Cfg.WellFormed` -- ids are keys, and the two directions of an edge agree.
-/
import Mathlib
import Pysa.Lib.SortedMap

namespace Pysa

inductive NodeKind (S : Type) where
  | block (statements : List S)
  | dispatch
  | entry
  | error
  | normal
  | final
  | forLoop
  | ifThen
  | join
  | tryBlock (statement : S)
  | withBlock
  | whileLoop
  deriving DecidableEq

structure CfgNode (S : Type) where
  id : ℕ
  kind : NodeKind S
  predecessors : SortedSet ℕ
  successors : SortedSet ℕ

namespace CfgNode

variable {S : Type}

def statements (node : CfgNode S) : List S :=
  match node.kind with
  | .block statements => statements
  | .tryBlock statement => [statement]
  | _ => []

/-- The statements, if the node is a block. -/
def blockStatements (node : CfgNode S) : List S :=
  match node.kind with
  | .block statements => statements
  | _ => []

end CfgNode

/-- A graph: its nodes by id. -/
abbrev Cfg (S : Type) := SortedMap ℕ (CfgNode S)

namespace Cfg

variable {S : Type}

def entryIndex : ℕ := 0
def normalIndex : ℕ := 1
def errorIndex : ℕ := 2
def exitIndex : ℕ := 3

/-- The node with this id; the source fails when there is none. -/
def node (cfg : Cfg S) (id : ℕ) : Option (CfgNode S) := cfg.find? id

/-- A path from one node to another, with the statements of the blocks along it. -/
inductive Path (cfg : Cfg S) : ℕ → List S → ℕ → Prop where
  | last {id node} : cfg.node id = some node → Path cfg id node.blockStatements id
  | next {id node target statements finish} : cfg.node id = some node →
      target ∈ node.successors → Path cfg target statements finish →
      Path cfg id (node.blockStatements ++ statements) finish

/-- What is met on a path is in a block. -/
theorem Path.mem {cfg : Cfg S} {start finish : ℕ} {statements : List S}
    (h : cfg.Path start statements finish) {statement : S} (hmem : statement ∈ statements) :
    ∃ id node, cfg.node id = some node ∧ statement ∈ node.blockStatements := by
  induction h with
  | last hnode => exact ⟨_, _, hnode, hmem⟩
  | next hnode _ _ ih =>
    rcases List.mem_append.mp hmem with hmem | hmem
    · exact ⟨_, _, hnode, hmem⟩
    · exact ih hmem

structure WellFormed (cfg : Cfg S) : Prop where
  id : ∀ {id node}, cfg.node id = some node → node.id = id
  target : ∀ {id node target}, cfg.node id = some node → target ∈ node.successors →
    ∃ next, cfg.node target = some next ∧ id ∈ next.predecessors
  source : ∀ {id node source}, cfg.node id = some node → source ∈ node.predecessors →
    ∃ previous, cfg.node source = some previous ∧ id ∈ previous.successors

theorem WellFormed.of_keys {cfg : Cfg S}
    (h : ∀ id ∈ cfg.keys, ∀ node ∈ cfg.node id, node.id = id ∧
      (∀ target ∈ node.successors.elements, ∃ next ∈ cfg.node target,
        id ∈ next.predecessors.elements) ∧
      ∀ source ∈ node.predecessors.elements, ∃ previous ∈ cfg.node source,
        id ∈ previous.successors.elements) : cfg.WellFormed where
  id hnode := (h _ (SortedMap.mem_of_find? hnode) _ hnode).1
  target hnode hmem := (h _ (SortedMap.mem_of_find? hnode) _ hnode).2.1 _ hmem
  source hnode hmem := (h _ (SortedMap.mem_of_find? hnode) _ hnode).2.2 _ hmem

end Cfg

end Pysa
