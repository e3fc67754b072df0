/-
  Subject: THE DESCENDANTS OF A CLASS (`SharedMemory` of `classHierarchyGraph.ml`).

  * `findChildrenTransitive` -- the walk from a class. It remembers no visited classes: a class
    with several parents is walked once for each path to it, so the walk ends only where no class
    is below itself;
  * `descendants` -- the classes strictly below a class, fewer for a child than for its parent;
  * `findChildrenTransitive_visit` -- what the walk does with one class of the list: it adds the
    descendants of the class, in a number of steps that depends on the class alone;
  * `findChildrenTransitive_exact` -- **in an acyclic graph the walk ends, with the strict
    descendants**.
-/
import Pysa.Interprocedural.ClassHierarchyGraph

namespace Pysa.ClassHierarchyGraph

/-! ## 1. The walk -/

/-- `find_children_transitive`, with fuel. -/
def findChildrenTransitive (classHierarchyGraph : ClassHierarchyGraph) :
    ℕ → List ClassId → ClassIdSet → Option ClassIdSet
  | 0, _, _ => none
  | _ + 1, [], result => some result
  | fuel + 1, classId :: rest, result =>
    let childIdSet := classHierarchyGraph.children classId
    let newChildren := childIdSet.elements
    let result := newChildren.foldl (fun result child => result.add child) result
    findChildrenTransitive classHierarchyGraph fuel (newChildren.reverseAux rest) result

variable {graph : ClassHierarchyGraph}

theorem mem_foldl_add {children : List ClassId} {result : ClassIdSet} {x : ClassId} :
    x ∈ children.foldl (fun result child => result.add child) result ↔
      x ∈ children ∨ x ∈ result := by
  induction children generalizing result with
  | nil => simp
  | cons child children ih =>
    rw [List.foldl_cons, ih, SortedSet.mem_add, List.mem_cons]
    tauto

/-! ## 2. Descendants -/

/-- The classes strictly below `node`. -/
def descendants (graph : ClassHierarchyGraph) (node : ClassId) : Set ClassId :=
  {x | Relation.TransGen graph.Child node x}

theorem finite_descendants (node : ClassId) : (graph.descendants node).Finite := by
  refine graph.nodes.elements.finite_toSet.subset fun x hx => ?_
  cases hx with
  | single hchild => exact child_mem_nodes hchild
  | tail _ hchild => exact child_mem_nodes hchild

theorem ncard_descendants_lt (hacyclic : graph.Acyclic) {parent child : ClassId}
    (hchild : graph.Child parent child) :
    (graph.descendants child).ncard < (graph.descendants parent).ncard := by
  have hsub : graph.descendants child ⊆ graph.descendants parent := fun x hx =>
    Relation.TransGen.head hchild hx
  refine Set.ncard_lt_ncard ⟨hsub, fun hsup => ?_⟩ (finite_descendants parent)
  have hmem : child ∈ graph.descendants parent := Relation.TransGen.single hchild
  exact hacyclic child (hsup hmem)

theorem mem_descendants_iff {parent x : ClassId} :
    x ∈ graph.descendants parent ↔
      graph.Child parent x ∨ ∃ child, graph.Child parent child ∧ x ∈ graph.descendants child :=
  Relation.TransGen.head'_iff.trans <| by
    constructor
    · rintro ⟨child, hchild, hreach⟩
      rcases Relation.reflTransGen_iff_eq_or_transGen.mp hreach with rfl | hreach
      · exact Or.inl hchild
      · exact Or.inr ⟨child, hchild, hreach⟩
    · rintro (hchild | ⟨child, hchild, hreach⟩)
      · exact ⟨x, hchild, .refl⟩
      · exact ⟨child, hchild, Relation.TransGen.to_reflTransGen hreach⟩

/-! ## 3. The walk visits the descendants -/

/-- `steps` are enough to work off `nodes` and to add the classes that are `found`. -/
def Visits (graph : ClassHierarchyGraph) (nodes : List ClassId)
    (found : ClassId → Prop) (steps : ℕ) : Prop :=
  ∀ rest result, ∃ result' : ClassIdSet, (∀ x, x ∈ result' ↔ found x ∨ x ∈ result) ∧
    ∀ fuel, findChildrenTransitive graph (fuel + steps) (nodes ++ rest) result =
      findChildrenTransitive graph fuel rest result'

theorem visits_list {nodes : List ClassId}
    (h : ∀ node ∈ nodes, ∃ steps, Visits graph [node] (· ∈ graph.descendants node) steps) :
    ∃ steps, Visits graph nodes (fun x => ∃ node ∈ nodes, x ∈ graph.descendants node) steps := by
  induction nodes with
  | nil =>
    refine ⟨0, fun rest result => ⟨result, fun x => ?_, fun fuel => rfl⟩⟩
    simp
  | cons node nodes ih =>
    obtain ⟨steps, hnode⟩ := h node List.mem_cons_self
    obtain ⟨steps', hnodes⟩ := ih fun node hmem => h node (List.mem_cons_of_mem _ hmem)
    refine ⟨steps' + steps, fun rest result => ?_⟩
    obtain ⟨middle, hmiddle, hrun⟩ := hnode (nodes ++ rest) result
    obtain ⟨result', hresult', hrun'⟩ := hnodes rest middle
    refine ⟨result', fun x => ?_, fun fuel => ?_⟩
    · rw [hresult', hmiddle]
      simp only [List.mem_cons, exists_eq_or_imp]
      exact or_left_comm.trans or_assoc.symm
    · calc findChildrenTransitive graph (fuel + (steps' + steps)) (node :: nodes ++ rest) result
          = findChildrenTransitive graph (fuel + steps' + steps) ([node] ++ (nodes ++ rest))
              result := by rw [Nat.add_assoc]; rfl
        _ = findChildrenTransitive graph (fuel + steps') (nodes ++ rest) middle := hrun _
        _ = findChildrenTransitive graph fuel rest result' := hrun' fuel

/-- One class of the list: its children join it, and below each the count of descendants falls. -/
theorem findChildrenTransitive_visit (hacyclic : graph.Acyclic) (node : ClassId) :
    ∃ steps, Visits graph [node] (· ∈ graph.descendants node) steps := by
  induction hsize : (graph.descendants node).ncard using Nat.strong_induction_on
    generalizing node with
  | _ size ih =>
    have hchildren : ∀ child ∈ (graph.children node).elements.reverse,
        ∃ steps, Visits graph [child] (· ∈ graph.descendants child) steps := by
      intro child hchild
      have hlt := ncard_descendants_lt hacyclic (List.mem_reverse.mp hchild)
      exact ih _ (hsize ▸ hlt) child rfl
    obtain ⟨steps, hvisits⟩ := visits_list hchildren
    refine ⟨steps + 1, fun rest result => ?_⟩
    obtain ⟨result', hresult', hrun⟩ := hvisits rest
      ((graph.children node).elements.foldl (fun result child => result.add child) result)
    refine ⟨result', fun x => ?_, fun fuel => ?_⟩
    · rw [hresult', mem_foldl_add]
      simp only [List.mem_reverse]
      rw [mem_descendants_iff]
      exact or_left_comm.trans or_assoc.symm
    · rw [← hrun fuel, ← List.reverseAux_eq]
      rfl

/-- **In an acyclic graph the walk ends**, after some number of steps, with the strict descendants
    of the class, each once. -/
theorem findChildrenTransitive_exact (graph : ClassHierarchyGraph) (hacyclic : graph.Acyclic)
    (classId : ClassId) :
    ∃ result : ClassIdSet, ∃ steps,
      (∀ fuel, steps ≤ fuel → findChildrenTransitive graph fuel [classId] .empty = some result) ∧
        result.elements.Nodup ∧
          ∀ x, x ∈ result.elements ↔ Relation.TransGen graph.Child classId x := by
  obtain ⟨steps, hvisits⟩ := findChildrenTransitive_visit hacyclic classId
  obtain ⟨result, hresult, hrun⟩ := hvisits [] .empty
  refine ⟨result, steps + 1, fun fuel hfuel => ?_, result.nodup, fun x => ?_⟩
  · obtain ⟨extra, rfl⟩ := Nat.exists_eq_add_of_le hfuel
    rw [show steps + 1 + extra = extra + 1 + steps by omega]
    exact hrun (extra + 1)
  · exact (hresult x).trans (or_iff_left (SortedSet.notMem_empty x))

namespace Sample

/-- Two classes with a common base and a common child. -/
def diamond : ClassHierarchyGraph :=
  (((empty.add ⟨0, 0⟩ ⟨0, 1⟩).add ⟨0, 0⟩ ⟨0, 2⟩).add ⟨0, 1⟩ ⟨0, 3⟩).add ⟨0, 2⟩ ⟨0, 3⟩

theorem acyclic_diamond : diamond.Acyclic := by
  refine acyclic_of_lt fun parent child h => ?_
  rcases child_add.mp h with h | ⟨rfl, rfl⟩
  · rcases child_add.mp h with h | ⟨rfl, rfl⟩
    · rcases child_add.mp h with h | ⟨rfl, rfl⟩
      · rcases child_add.mp h with h | ⟨rfl, rfl⟩
        · exact absurd h (child_empty parent child)
        · decide
      · decide
    · decide
  · decide

theorem findChildrenTransitive_diamond :
    ∃ result : ClassIdSet, ∃ steps,
      (∀ fuel, steps ≤ fuel →
        findChildrenTransitive diamond fuel [⟨0, 0⟩] .empty = some result) ∧
        result.elements.Nodup ∧
          ∀ x, x ∈ result.elements ↔ Relation.TransGen diamond.Child ⟨0, 0⟩ x :=
  findChildrenTransitive_exact diamond acyclic_diamond ⟨0, 0⟩

end Sample

end Pysa.ClassHierarchyGraph
