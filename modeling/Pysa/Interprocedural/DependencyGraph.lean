/-
  Subject: DEPENDENCY GRAPHS (`dependencyGraph.ml`): what is analysed, and in which order.

  * `buildWholeProgramDependencyGraph` -- the callables to analyse, callees first; the questions
    that it asks of a target (`is_override`, `is_decorated`, its regular part) are arguments;
  * `prune_spec` -- the pruned graph is the reachable part of the graph;
  * `mem_dependencies_reverse` -- the reversal has the same edges;
  * `pruned_order` -- **the callables to analyse are in reverse topological order, up to cycles.**
-/
import Pysa.Lib.DepthFirst
import Pysa.Lib.SortedMap

namespace Pysa

universe u

variable {T : Type u} [LinearOrder T]

/-- From targets to lists of targets: `Target.t list Target.Map.Tree.t`. -/
abbrev TargetGraph (T : Type u) [LinearOrder T] := SortedMap T (List T)

namespace DependencyGraph

/-! ## 1. The graph from callees to callers -/

def dependencies (dependencyGraph : TargetGraph T) (target : T) : List T :=
  (dependencyGraph.find? target).getD []

def add (callee caller : T) (map : TargetGraph T) : TargetGraph T :=
  map.update callee fun
    | some callers => some (caller :: callers)
    | none => some [caller]

/-- `List.rev_append` of the lists of a key of both. -/
def merge (left right : TargetGraph T) : TargetGraph T :=
  left.union (fun left right => left.reverse ++ right) right

inductive PruneMethod (T : Type u)
  | none
  | internals
  | entrypoints (entrypoints : List T)

/-! ## 2. The graph from callers to callees -/

namespace Reversed

/-- Merges two graphs that have no common callees. -/
def disjointUnion (left right : TargetGraph T) : TargetGraph T := merge left right

def successors (edges : TargetGraph T) (node : T) : List T := (edges.find? node).getD []

/-- Every target that the graph or the list mentions. -/
def mentioned (edges : TargetGraph T) (nodes : List T) : List T :=
  nodes ++ edges.bindings.flatMap fun binding => binding.2

/-- One start node of the search: its tree goes in front of the others. -/
def partition (edges : TargetGraph T) (fuel : ℕ) (state : Finset T × List (List T)) (node : T) :
    Option (Finset T × List (List T)) := do
  let s ← DepthFirst.visit (successors edges) fuel ⟨state.1, []⟩ node
  match s.finished with
  | [] => return (s.visited, state.2)
  | tree => return (s.visited, tree :: state.2)

/-- The forest of the nodes in reverse finish time order. A visit goes down at most once into each
    target that is mentioned, so their number bounds the recursion. -/
def depthFirstSearch (edges : TargetGraph T) (nodes : List T) : Option (List (List T)) :=
  (nodes.foldlM (partition edges ((mentioned edges nodes).length + 1)) (∅, [])).map (·.2)

/-- `of_alist_exn`; `none` when a key occurs twice. -/
def ofAlist (alist : List (T × List T)) : Option (TargetGraph T) :=
  if (alist.map (·.1)).Nodup then
    some (alist.foldl (fun map entry => map.add entry.1 entry.2) .empty)
  else none

structure PruneResult (T : Type u) [LinearOrder T] where
  reverseDependencyGraph : TargetGraph T
  callablesKept : List T

def prune (reverseDependencyGraph : TargetGraph T) (callablesToAnalyze : List T) :
    Option (PruneResult T) := do
  let forest ← depthFirstSearch reverseDependencyGraph callablesToAnalyze
  let callablesToKeep := forest.flatten
  -- only the keys of the original graph are kept
  let toEdge (callable : T) : Option (T × List T) :=
    (reverseDependencyGraph.find? callable).map fun values => (callable, values)
  let reverseDependencyGraph ← ofAlist (callablesToKeep.filterMap toEdge)
  return ⟨reverseDependencyGraph, callablesToKeep⟩

def reverse (reverseDependencyGraph : TargetGraph T) : TargetGraph T :=
  reverseDependencyGraph.fold
    (fun key data dependencyGraph =>
      data.foldl (fun dependencyGraph callee => add callee key dependencyGraph) dependencyGraph)
    .empty

end Reversed

/-! ## 3. The whole program -/

structure WholeProgramDependencyGraph (T : Type u) [LinearOrder T] where
  dependencyGraph : TargetGraph T
  overrideTargets : List T
  callablesKept : List T
  /-- In preferred analysis order. -/
  callablesToAnalyze : List T

/-- The initial callables, and those among them that are in the source path. -/
structure InitialCallables (T : Type u) where
  definitions : List T
  internalDefinitions : List T

/-- What is asked of a target. -/
structure TargetKind (T : Type u) where
  isOverride : T → Bool
  isDecorated : T → Bool
  /-- `Target.get_regular |> Target.from_regular`. -/
  regular : T → T

def createDependencyGraphFromPruneResult (kind : TargetKind T) (initial : InitialCallables T)
    (overrideTargets : List T) (result : Reversed.PruneResult T) :
    WholeProgramDependencyGraph T where
  dependencyGraph := Reversed.reverse result.reverseDependencyGraph
  overrideTargets := overrideTargets
  callablesKept := result.callablesKept
  -- callables are analysed in the reverse weak topological order
  callablesToAnalyze :=
    (result.callablesKept.filter fun callable =>
      kind.isOverride callable || initial.definitions.contains (kind.regular callable)).reverse

/-- The starting callables of the pruning. -/
def startCallables (kind : TargetKind T) (method : PruneMethod T) (initial : InitialCallables T)
    (overrideTargets : List T) (ignoreDecoratedTargets : Bool) : List T :=
  let callablesToAnalyze :=
    match method with
    | .none => overrideTargets.reverse ++ initial.definitions
    | .internals => initial.internalDefinitions
    | .entrypoints entrypoints => entrypoints
  if ignoreDecoratedTargets then callablesToAnalyze.filter fun target => !kind.isDecorated target
  else callablesToAnalyze

/-- `overrides` is the graph of `from_overrides`, `callGraph` that of `from_call_graph`. -/
def buildWholeProgramDependencyGraph (kind : TargetKind T) (method : PruneMethod T)
    (initial : InitialCallables T) (callGraph overrides : TargetGraph T)
    (ignoreDecoratedTargets : Bool) : Option (WholeProgramDependencyGraph T) :=
  (Reversed.prune (Reversed.disjointUnion overrides callGraph)
    (startCallables kind method initial overrides.keys ignoreDecoratedTargets)).map
      (createDependencyGraphFromPruneResult kind initial overrides.keys)

namespace Reversed

open DepthFirst

variable {edges : TargetGraph T} {nodes : List T}

/-! ## 4. The search -/

theorem partition_eq (edges : TargetGraph T) (fuel : ℕ) (visited : Finset T)
    (forest : List (List T)) (node : T) :
    partition edges fuel (visited, forest) node =
      (visit (successors edges) fuel ⟨visited, []⟩ node).map fun s =>
        (s.visited, match s.finished with | [] => forest | tree => tree :: forest) := by
  unfold partition
  cases visit (successors edges) fuel ⟨visited, []⟩ node with
  | none => rfl
  | some s =>
    obtain ⟨visited', finished⟩ := s
    cases finished <;> rfl

/-- The trees, one in front of the other, are the finished nodes of one search. -/
theorem foldlM_partition (edges : TargetGraph T) (fuel : ℕ) (nodes : List T) (visited : Finset T)
    (forest : List (List T)) :
    (nodes.foldlM (partition edges fuel) (visited, forest)).map (fun state => state.2.flatten) =
      (nodes.foldlM (visit (successors edges) fuel) ⟨visited, forest.flatten⟩).map
        (fun s => s.finished) := by
  induction nodes generalizing visited forest with
  | nil => rfl
  | cons node rest ih =>
    rw [List.foldlM_cons, List.foldlM_cons, visit_append, partition_eq]
    cases visit (successors edges) fuel ⟨visited, []⟩ node with
    | none => rfl
    | some s =>
      obtain ⟨visited', finished⟩ := s
      cases finished with
      | nil => exact ih visited' forest
      | cons root tree => exact ih visited' ((root :: tree) :: forest)

theorem successor_mem_mentioned (u v : T) (hv : v ∈ successors edges u) :
    v ∈ mentioned edges nodes := by
  unfold successors at hv
  cases hfind : edges.find? u with
  | none =>
    rw [hfind] at hv
    exact absurd hv List.not_mem_nil
  | some callees =>
    rw [hfind] at hv
    refine List.mem_append.mpr (Or.inr (List.mem_flatMap.mpr ⟨(u, callees), ?_, hv⟩))
    exact SortedMap.mem_bindings.mpr hfind

theorem depthFirstSearch_spec (edges : TargetGraph T) (nodes : List T) :
    ∃ forest, depthFirstSearch edges nodes = some forest ∧ forest.flatten.Nodup ∧
      (∀ x, x ∈ forest.flatten ↔ ∃ start ∈ nodes, Reach (successors edges) start x) ∧
      ∀ u ∈ forest.flatten, ∀ v ∈ successors edges u, ¬ Reach (successors edges) v u →
        [u, v].Sublist forest.flatten := by
  have hfuel : (mentioned edges nodes).toFinset.card < (mentioned edges nodes).length + 1 :=
    Nat.lt_succ_of_le (List.toFinset_card_le _)
  obtain ⟨s, hs, hnodup, hmem, horder⟩ := search_spec
    (fun u v hv => List.mem_toFinset.mpr (successor_mem_mentioned u v hv))
    (fun x hx => List.mem_toFinset.mpr (List.mem_append.mpr (Or.inl hx))) hfuel
  have hfold : (nodes.foldlM (partition edges ((mentioned edges nodes).length + 1)) (∅, [])).map
      (fun state => state.2.flatten) = some s.finished := by
    refine (foldlM_partition edges _ nodes ∅ []).trans ?_
    exact congrArg (Option.map fun s => s.finished) hs
  obtain ⟨state, hstate, hflatten⟩ := Option.map_eq_some_iff.mp hfold
  refine ⟨state.2, ?_, ?_⟩
  · unfold depthFirstSearch
    rw [hstate]
    rfl
  · rw [hflatten]
    exact ⟨hnodup, hmem, horder⟩

/-! ## 5. The pruned graph -/

theorem find?_foldl_add (alist : List (T × List T)) (hnodup : (alist.map (·.1)).Nodup)
    (map : TargetGraph T) (hmap : ∀ entry ∈ alist, map.find? entry.1 = none) (key : T)
    (values : List T) :
    (alist.foldl (fun map entry => map.add entry.1 entry.2) map).find? key = some values ↔
      map.find? key = some values ∨ (key, values) ∈ alist := by
  induction alist generalizing map with
  | nil => simp
  | cons entry rest ih =>
    rw [List.map_cons, List.nodup_cons] at hnodup
    have hfresh (other : T × List T) (hother : other ∈ rest) : other.1 ≠ entry.1 :=
      fun heq => hnodup.1 (List.mem_map.mpr ⟨other, hother, heq⟩)
    rw [List.foldl_cons, ih hnodup.2 _ (fun other hother => by
      rw [SortedMap.find?_add, if_neg (hfresh other hother)]
      exact hmap other (List.mem_cons_of_mem _ hother)), SortedMap.find?_add, List.mem_cons]
    by_cases hkey : key = entry.1
    · subst hkey
      rw [if_pos rfl, hmap entry List.mem_cons_self, Option.some.injEq, Prod.ext_iff]
      simp [eq_comm]
    · rw [if_neg hkey, Prod.ext_iff]
      simp [hkey]

/-- **Pruning keeps the reachable part of the graph.** -/
theorem prune_spec (graph : TargetGraph T) (callablesToAnalyze : List T) :
    ∃ result, prune graph callablesToAnalyze = some result ∧ result.callablesKept.Nodup ∧
      (∀ x, x ∈ result.callablesKept ↔
        ∃ start ∈ callablesToAnalyze, Reach (successors graph) start x) ∧
      (∀ x, result.reverseDependencyGraph.find? x =
        if x ∈ result.callablesKept then graph.find? x else none) ∧
      ∀ u ∈ result.callablesKept, ∀ v ∈ successors graph u, ¬ Reach (successors graph) v u →
        [u, v].Sublist result.callablesKept := by
  obtain ⟨forest, hforest, hnodup, hmem, horder⟩ := depthFirstSearch_spec graph callablesToAnalyze
  let toEdge (callable : T) : Option (T × List T) :=
    (graph.find? callable).map fun values => (callable, values)
  have htoEdge {callable : T} {entry : T × List T} (h : toEdge callable = some entry) :
      graph.find? callable = some entry.2 ∧ entry.1 = callable := by
    obtain ⟨values, hvalues, rfl⟩ := Option.map_eq_some_iff.mp h
    exact ⟨hvalues, rfl⟩
  have hkeys : ((forest.flatten.filterMap toEdge).map (·.1)).Nodup := by
    have hsub : ((forest.flatten.filterMap toEdge).map (·.1)).Sublist forest.flatten := by
      generalize forest.flatten = kept
      induction kept with
      | nil => exact List.Sublist.slnil
      | cons callable rest ih =>
        cases hedge : toEdge callable with
        | none =>
          rw [List.filterMap_cons_none hedge]
          exact ih.cons callable
        | some entry =>
          rw [List.filterMap_cons_some hedge, List.map_cons, (htoEdge hedge).2]
          exact ih.cons_cons callable
    exact hnodup.sublist hsub
  let pruned : TargetGraph T :=
    (forest.flatten.filterMap toEdge).foldl (fun map entry => map.add entry.1 entry.2) .empty
  refine ⟨⟨pruned, forest.flatten⟩, ?_, hnodup, hmem, fun x => ?_, horder⟩
  · unfold prune ofAlist
    rw [hforest]
    simp only [Option.bind_eq_bind, Option.bind_some]
    rw [if_pos hkeys]
    rfl
  · refine Option.ext fun values => ?_
    refine (find?_foldl_add _ hkeys .empty (fun _ _ => SortedMap.find?_empty _) x values).trans ?_
    rw [SortedMap.find?_empty, List.mem_filterMap]
    constructor
    · rintro (h | ⟨callable, hcallable, hedge⟩)
      · cases h
      · obtain ⟨hvalues, rfl⟩ := htoEdge hedge
        rw [if_pos hcallable]
        exact hvalues
    · intro h
      split at h
      · rename_i hx
        refine Or.inr ⟨x, hx, ?_⟩
        show (graph.find? x).map _ = _
        rw [h]
        rfl
      · cases h

/-! ## 6. The reversed graph -/

theorem mem_dependencies_add {callee caller target x : T} {map : TargetGraph T} :
    x ∈ dependencies (add callee caller map) target ↔
      x ∈ dependencies map target ∨ target = callee ∧ x = caller := by
  unfold dependencies add
  rw [SortedMap.find?_update]
  by_cases htarget : target = callee
  · subst htarget
    rw [if_pos rfl]
    cases map.find? target <;> simp [or_comm]
  · rw [if_neg htarget]
    simp [htarget]

/-- The reversal has the same edges. -/
theorem mem_dependencies_reverse {graph : TargetGraph T} {caller callee : T} :
    caller ∈ dependencies (reverse graph) callee ↔ callee ∈ successors graph caller := by
  have hcallees (key : T) (data : List T) (map : TargetGraph T) :
      caller ∈ dependencies (data.foldl (fun map callee => add callee key map) map) callee ↔
        caller ∈ dependencies map callee ∨ callee ∈ data ∧ caller = key := by
    induction data generalizing map with
    | nil => simp
    | cons first rest ih =>
      rw [List.foldl_cons, ih, mem_dependencies_add, List.mem_cons]
      tauto
  have hbindings (bindings : List (T × List T)) (map : TargetGraph T) :
      caller ∈ dependencies (bindings.foldl (fun map binding =>
          binding.2.foldl (fun map callee => add callee binding.1 map) map) map) callee ↔
        caller ∈ dependencies map callee ∨
          ∃ data, (caller, data) ∈ bindings ∧ callee ∈ data := by
    induction bindings generalizing map with
    | nil => simp
    | cons first rest ih =>
      rw [List.foldl_cons, ih, hcallees, or_assoc]
      refine or_congr Iff.rfl ?_
      constructor
      · rintro (⟨hdata, rfl⟩ | ⟨data, hmem, hdata⟩)
        · exact ⟨first.2, List.mem_cons_self, hdata⟩
        · exact ⟨data, List.mem_cons_of_mem _ hmem, hdata⟩
      · rintro ⟨data, hmem, hdata⟩
        rcases List.mem_cons.mp hmem with rfl | hmem
        · exact Or.inl ⟨hdata, rfl⟩
        · exact Or.inr ⟨data, hmem, hdata⟩
  have hempty : caller ∉ dependencies (.empty : TargetGraph T) callee := by
    unfold dependencies
    rw [SortedMap.find?_empty]
    exact List.not_mem_nil
  unfold reverse
  rw [SortedMap.fold_eq_foldl, hbindings, or_iff_right hempty]
  unfold successors
  simp only [SortedMap.mem_bindings]
  cases graph.find? caller <;> simp

end Reversed

open DepthFirst Reversed

/-- An order in which `u` is kept before `v` is one in which `v` is analysed before `u`. -/
theorem sublist_callablesToAnalyze {kind : TargetKind T} {initial : InitialCallables T}
    {overrideTargets : List T} {result : PruneResult T} {u v : T}
    (hkept : [u, v].Sublist result.callablesKept) :
    let whole := createDependencyGraphFromPruneResult kind initial overrideTargets result
    u ∈ whole.callablesToAnalyze → v ∈ whole.callablesToAnalyze →
      [v, u].Sublist whole.callablesToAnalyze := by
  intro whole hu hv
  unfold whole createDependencyGraphFromPruneResult at hu hv ⊢
  dsimp only at hu hv ⊢
  rw [List.mem_reverse, List.mem_filter] at hu hv
  have hfilter := hkept.filter fun callable =>
    kind.isOverride callable || initial.definitions.contains (kind.regular callable)
  rw [List.filter_eq_self.mpr fun x hx => (List.mem_pair.mp hx).elim (fun h => h ▸ hu.2)
    fun h => h ▸ hv.2] at hfilter
  exact List.reverse_sublist.mpr hfilter

/-- **Pruning and ordering**: the callables that are kept are the reachable ones, each once, with
    their callees; the graph that is returned has their edges, reversed; and of two callables to
    analyse, the callee comes before the caller unless it leads back to it. -/
theorem pruned_order (graph : TargetGraph T) (starts : List T) (kind : TargetKind T)
    (initial : InitialCallables T) (overrideTargets : List T) :
    ∃ result, prune graph starts = some result ∧
      result.callablesKept.Nodup ∧
      (∀ x, x ∈ result.callablesKept ↔ ∃ start ∈ starts, Reach (successors graph) start x) ∧
      (∀ x, result.reverseDependencyGraph.find? x =
        if x ∈ result.callablesKept then graph.find? x else none) ∧
      (∀ u v, v ∈ successors result.reverseDependencyGraph u → v ∈ result.callablesKept) ∧
      let whole := createDependencyGraphFromPruneResult kind initial overrideTargets result
      (∀ u v, u ∈ dependencies whole.dependencyGraph v ↔
        u ∈ result.callablesKept ∧ v ∈ successors graph u) ∧
      (∀ x, x ∈ whole.callablesToAnalyze ↔ x ∈ result.callablesKept ∧
        (kind.isOverride x = true ∨ kind.regular x ∈ initial.definitions)) ∧
      ∀ u ∈ whole.callablesToAnalyze, ∀ v ∈ whole.callablesToAnalyze, v ∈ successors graph u →
        ¬ Reach (successors graph) v u → [v, u].Sublist whole.callablesToAnalyze := by
  obtain ⟨result, hprune, hnodup, hmem, hgraph, horder⟩ := prune_spec graph starts
  have hsuccessors (u v : T) : v ∈ successors result.reverseDependencyGraph u ↔
      u ∈ result.callablesKept ∧ v ∈ successors graph u := by
    unfold successors
    rw [hgraph]
    by_cases hu : u ∈ result.callablesKept
    · rw [if_pos hu, and_iff_right hu]
    · rw [if_neg hu]
      exact iff_of_false List.not_mem_nil fun h => hu h.1
  refine ⟨result, hprune, hnodup, hmem, hgraph, fun u v hv => ?_, fun u v => ?_, fun x => ?_,
    fun u hu v hv huv hback => ?_⟩
  · obtain ⟨hu, hv⟩ := (hsuccessors u v).mp hv
    obtain ⟨start, hstart, hreach⟩ := (hmem u).mp hu
    exact (hmem v).mpr ⟨start, hstart, hreach.tail hv⟩
  · exact mem_dependencies_reverse.trans (hsuccessors u v)
  · unfold createDependencyGraphFromPruneResult
    dsimp only
    rw [List.mem_reverse, List.mem_filter, Bool.or_eq_true, List.contains_iff_mem]
  · refine sublist_callablesToAnalyze (horder u ?_ v huv hback) hu hv
    exact (List.mem_filter.mp (List.mem_reverse.mp hu)).1

/-- The whole program keeps what the two graphs reach from its start callables. -/
theorem buildWholeProgramDependencyGraph_kept (kind : TargetKind T) (method : PruneMethod T)
    (initial : InitialCallables T) (callGraph overrides : TargetGraph T)
    (ignoreDecoratedTargets : Bool) :
    ∃ whole, buildWholeProgramDependencyGraph kind method initial callGraph overrides
        ignoreDecoratedTargets = some whole ∧ whole.callablesKept.Nodup ∧
      ∀ x, x ∈ whole.callablesKept ↔
        ∃ start ∈ startCallables kind method initial overrides.keys ignoreDecoratedTargets,
          Reach (successors (disjointUnion overrides callGraph)) start x := by
  obtain ⟨result, hprune, hnodup, hmem, -⟩ := prune_spec (disjointUnion overrides callGraph)
    (startCallables kind method initial overrides.keys ignoreDecoratedTargets)
  refine ⟨createDependencyGraphFromPruneResult kind initial overrides.keys result, ?_, hnodup, hmem⟩
  rw [buildWholeProgramDependencyGraph, hprune]
  rfl

end DependencyGraph

end Pysa
