/-
  Subject: THE CLASS HIERARCHY (`classHierarchyGraph.ml`): roots, and the children of each class.

  * `ClassId` -- a class within a module, ordered by module first;
  * `add`, `create`, `children` -- the graph on the heap;
  * `Child`, `Subclass`, `Acyclic` -- what the edges mean;
  * `roots_add`, `Built` -- a graph that is built by `add` has no root that is a child.
-/
import Mathlib
import Pysa.Lib.SortedMap

namespace Pysa

/-- A class id: `ClassId.t`, which packs the module id above the id within the module. -/
structure ClassId where
  moduleId : ℕ
  localClassId : ℕ

namespace ClassId

def key (id : ClassId) : ℕ ×ₗ ℕ := toLex (id.moduleId, id.localClassId)

theorem key_injective : Function.Injective key := by
  intro a b h
  have h := Prod.mk.inj (toLex.injective h)
  cases a
  cases b
  cases h.1
  cases h.2
  rfl

/-- `ClassId.compare`. -/
instance : LinearOrder ClassId := LinearOrder.lift' key key_injective

/-- `ClassId.pp`. -/
def pp (id : ClassId) : String :=
  "ClassId(module_id=" ++ toString id.moduleId ++ ", local_class_id=" ++
    toString id.localClassId ++ ")"

end ClassId

abbrev ClassIdSet := SortedSet ClassId
abbrev ClassIdMap := SortedMap ClassId

/-- Root classes, and the immediate children of each class. -/
structure ClassHierarchyGraph where
  roots : ClassIdSet
  edges : ClassIdMap ClassIdSet

namespace ClassHierarchyGraph

/-! ## 1. Operations -/

def empty : ClassHierarchyGraph := ⟨.empty, .empty⟩

def setOfChildren : Option ClassIdSet → ClassIdSet
  | none => .empty
  | some children => children

/-- Return the immediate children. -/
def children (graph : ClassHierarchyGraph) (parent : ClassId) : ClassIdSet :=
  setOfChildren (graph.edges.find? parent)

/-- Add an edge in the graph. -/
def add (graph : ClassHierarchyGraph) (parent child : ClassId) : ClassHierarchyGraph where
  roots :=
    let newRoots :=
      if (graph.edges.find? parent).isSome then graph.roots else graph.roots.add parent
    newRoots.remove child
  edges :=
    let edges := graph.edges.update parent fun key => some ((setOfChildren key).add child)
    edges.update child fun key => some (setOfChildren key)

def create (roots : List ClassId) (edges : List (ClassId × List ClassId)) :
    ClassHierarchyGraph where
  roots := .ofList roots
  edges := edges.foldl (fun map edge => map.add edge.1 (.ofList edge.2)) .empty

/-! ## 2. The relation of a graph -/

variable (graph : ClassHierarchyGraph)

/-- `child` is a direct subclass of `parent`. -/
def Child (parent child : ClassId) : Prop := child ∈ graph.children parent

instance (parent child : ClassId) : Decidable (graph.Child parent child) :=
  inferInstanceAs (Decidable (child ∈ graph.children parent))

/-- `descendant` is `ancestor` or a transitive subclass of it. -/
def Subclass (descendant ancestor : ClassId) : Prop :=
  Relation.ReflTransGen graph.Child ancestor descendant

/-- No class is a strict subclass of itself. -/
def Acyclic : Prop := ∀ node, ¬ Relation.TransGen graph.Child node node

/-- Single inheritance: each class has at most one parent, and the roots have none. -/
structure Forest : Prop where
  acyclic : graph.Acyclic
  parent : ∀ {parent parent' child}, graph.Child parent child → graph.Child parent' child →
    parent = parent'
  roots : ∀ root ∈ graph.roots, ∀ parent, ¬ graph.Child parent root

/-- The classes of the graph: the roots, the keys and the children. -/
def nodes : ClassIdSet :=
  graph.edges.fold (fun parent children nodes => (nodes.union children).add parent) graph.roots

variable {graph}

/-- In a forest two classes with a common subclass lie on one line. -/
theorem Forest.comparable (h : graph.Forest) {x c d : ClassId} (hc : graph.Subclass x c)
    (hd : graph.Subclass x d) : graph.Subclass c d ∨ graph.Subclass d c := by
  have hunique : Relator.RightUnique (Function.swap graph.Child) := fun _ _ _ hb hb' =>
    h.parent hb hb'
  rcases Relation.ReflTransGen.total_of_right_unique hunique
    (Relation.reflTransGen_swap.mpr hc) (Relation.reflTransGen_swap.mpr hd) with h | h
  · exact Or.inl (Relation.reflTransGen_swap.mp h)
  · exact Or.inr (Relation.reflTransGen_swap.mp h)

theorem root_mem_nodes {root : ClassId} (h : root ∈ graph.roots) : root ∈ graph.nodes :=
  SortedMap.fold_induction (root ∈ ·) h fun _ _ _ _ hroot =>
    SortedSet.mem_add.mpr (Or.inr (SortedSet.mem_union.mpr (Or.inl hroot)))

theorem child_mem_nodes {parent child : ClassId} (h : graph.Child parent child) :
    child ∈ graph.nodes := by
  unfold Child children at h
  cases hfind : graph.edges.find? parent with
  | none =>
    rw [hfind] at h
    exact absurd h (SortedSet.notMem_empty child)
  | some children =>
    rw [hfind] at h
    refine SortedMap.fold_establishes (child ∈ ·) hfind ?_ ?_
    · exact fun _ => SortedSet.mem_add.mpr (Or.inr (SortedSet.mem_union.mpr (Or.inr h)))
    · exact fun _ _ _ _ hchild =>
        SortedSet.mem_add.mpr (Or.inr (SortedSet.mem_union.mpr (Or.inl hchild)))

/-- A graph whose edges go up in an order has no cycle. -/
theorem acyclic_of_lt (h : ∀ parent child, graph.Child parent child → parent < child) :
    graph.Acyclic := by
  intro node hcycle
  have hlt (a b : ClassId) (hab : Relation.TransGen graph.Child a b) : a < b := by
    induction hab with
    | single hchild => exact h _ _ hchild
    | tail _ hchild ih => exact ih.trans (h _ _ hchild)
  exact lt_irrefl node (hlt node node hcycle)

theorem children_add (parent child node : ClassId) :
    (graph.add parent child).children node =
      if node = parent then (graph.children parent).add child else graph.children node := by
  unfold children add
  dsimp only
  rw [SortedMap.find?_update, SortedMap.find?_update, SortedMap.find?_update]
  by_cases hchild : node = child
  · subst hchild
    rw [if_pos rfl]
    by_cases hparent : node = parent
    · subst hparent
      rw [if_pos rfl, if_pos rfl]
      rfl
    · rw [if_neg hparent, if_neg hparent]
      rfl
  · rw [if_neg hchild]
    by_cases hparent : node = parent
    · subst hparent
      rw [if_pos rfl, if_pos rfl]
      rfl
    · rw [if_neg hparent, if_neg hparent]

/-- The edges of `add` are the old ones and the new one. -/
theorem child_add {parent child a b : ClassId} :
    (graph.add parent child).Child a b ↔ graph.Child a b ∨ a = parent ∧ b = child := by
  unfold Child
  rw [children_add]
  by_cases h : a = parent
  · subst h
    rw [if_pos rfl, SortedSet.mem_add]
    constructor
    · rintro (h | h)
      · exact Or.inr ⟨rfl, h⟩
      · exact Or.inl h
    · rintro (h | ⟨-, h⟩)
      · exact Or.inr h
      · exact Or.inl h
  · rw [if_neg h]
    exact ⟨Or.inl, fun hab => hab.resolve_right fun hab => h hab.1⟩

theorem child_empty (a b : ClassId) : ¬ empty.Child a b := SortedSet.notMem_empty b

/-- A graph that is built by adding edges. -/
inductive Built : ClassHierarchyGraph → Prop
  | empty : Built empty
  | add {graph : ClassHierarchyGraph} (parent child : ClassId) :
      Built graph → Built (graph.add parent child)

theorem mem_keys_add {parent child node : ClassId} :
    node ∈ (graph.add parent child).edges.keys ↔
      node = child ∨ node = parent ∨ node ∈ graph.edges.keys := by
  unfold add
  dsimp only
  rw [SortedMap.mem_keys_update, SortedMap.mem_keys_update]

/-- Every child is a key, and no root is a child. -/
theorem Built.roots (h : Built graph) :
    (∀ a b, graph.Child a b → b ∈ graph.edges.keys) ∧
      ∀ root ∈ graph.roots, ∀ a, ¬ graph.Child a root := by
  induction h with
  | empty =>
    exact ⟨fun a b hab => absurd hab (SortedSet.notMem_empty b),
      fun root hroot => absurd hroot (SortedSet.notMem_empty root)⟩
  | @add graph parent child _ ih =>
    obtain ⟨hkeys, hroots⟩ := ih
    constructor
    · intro a b hab
      rw [mem_keys_add]
      rcases child_add.mp hab with hab | ⟨-, rfl⟩
      · exact Or.inr (Or.inr (hkeys a b hab))
      · exact Or.inl rfl
    · intro root hroot a hab
      obtain ⟨hroot, hne⟩ := SortedSet.mem_remove.mp hroot
      have hold : graph.Child a root :=
        (child_add.mp hab).resolve_right fun h => hne h.2
      split at hroot
      · exact hroots root hroot a hold
      · rename_i hnew
        rcases SortedSet.mem_add.mp hroot with rfl | hroot
        · -- a child is a key, and the new root is none
          exact hnew (SortedMap.isSome_find?.mpr (hkeys a root hold))
        · exact hroots root hroot a hold

end ClassHierarchyGraph

end Pysa
