/-
  Subject: THE NODES THAT A TRAVERSAL VISITS (`abstractTreeDomain.ml`, `fold_tree_paths`).

  * `foldTreePaths_eq` -- **a fold over the paths of a tree is a fold over `nodes`**;
  * `mem_nodes`, `nodup_nodes` -- **each node with an element is visited once**, with the ancestors
    that its strict ancestors add up to.
-/
import Pysa.Domains.TreeAssign

namespace Pysa

open Pysa.Tree

universe u v

variable {E : Type u}

/-! ## 1. Nodes and their ancestors -/

/-- The node at a path; `[*]` names the child of this name only. -/
def subtreeAt (t : Tree E) : List Label → Option (Tree E)
  | [] => some t
  | k :: rest => (t.children.find? k).bind fun s => subtreeAt s rest

/-- The elements of the nodes above a path, from the root on. -/
def strictAncestors (t : Tree E) : List Label → List E
  | [] => []
  | k :: rest => t.element ::
    match t.children.find? k with
    | none => []
    | some s => strictAncestors s rest

theorem subtreeAt_cons (t : Tree E) (k : Label) (rest : List Label) :
    subtreeAt t (k :: rest) = (t.children.find? k).bind fun s => subtreeAt s rest := rfl

theorem strictAncestors_cons {t s : Tree E} {k : Label} (hk : t.children.find? k = some s)
    (rest : List Label) :
    strictAncestors t (k :: rest) = t.element :: strictAncestors s rest := by
  rw [strictAncestors, hk]

/-- What `PathWithAncestors` hands out at a node. -/
structure PathWithAncestors (E : Type u) where
  path : List Label
  ancestors : E
  element : E
  deriving DecidableEq

variable (D : Element E)

/-- The ancestors one level down. -/
def nextAncestors (withAncestors : Bool) (ancestors element : E) : E :=
  if withAncestors then D.transformOnSink (D.join ancestors element) else ancestors

/-- The join of the elements of the strict ancestors, transformed on sink. -/
def ancestorsAt (withAncestors : Bool) (t : Tree E) (path : List Label) : E :=
  (strictAncestors t path).foldl (nextAncestors D withAncestors) D.bottom

/-- The nodes with an element, in the order of the traversal. -/
def nodesFrom (withAncestors : Bool) : (ancestors : E) → (path : List Label) → Tree E →
    List (PathWithAncestors E)
  | ancestors, path, .node element ⟨keys, _, get⟩ =>
    (if D.isBottom element then [] else [⟨path, ancestors, element⟩]) ++
      keys.attach.flatMap fun k => nodesFrom withAncestors
        (nextAncestors D withAncestors ancestors element) (path ++ [k.1]) (get k)

def nodes (withAncestors : Bool) (t : Tree E) : List (PathWithAncestors E) :=
  nodesFrom D withAncestors D.bottom [] t

theorem nodesFrom_eq (withAncestors : Bool) (ancestors : E) (path : List Label) (t : Tree E) :
    nodesFrom D withAncestors ancestors path t =
      (if D.isBottom t.element then [] else [⟨path, ancestors, t.element⟩]) ++
        t.children.bindings.flatMap fun binding => nodesFrom D withAncestors
          (nextAncestors D withAncestors ancestors t.element) (path ++ [binding.1]) binding.2 := by
  obtain ⟨e, ⟨keys, sorted, get⟩⟩ := t
  rw [nodesFrom, SortedMap.bindings, List.flatMap_map]
  rfl

/-- A traversal from a path visits what it visits from the root, below the path. -/
theorem nodesFrom_path (withAncestors : Bool) (a : E)
    (path : List Label) (t : Tree E) :
    nodesFrom D withAncestors a path t =
      (nodesFrom D withAncestors a [] t).map fun n => { n with path := path ++ n.path } := by
  induction t using Tree.induct generalizing a path with
  | node e c ih =>
    rw [nodesFrom_eq, nodesFrom_eq, List.map_append, List.map_flatMap, element_node, children_node]
    congr 1
    · split
      · rfl
      · rw [List.map_singleton, List.append_nil]
    · refine List.flatMap_congr fun binding hbinding => ?_
      have hk := SortedMap.mem_bindings.mp hbinding
      rw [ih binding.1 binding.2 hk, ih binding.1 binding.2 hk _ ([] ++ [binding.1]), List.map_map]
      refine List.map_congr_left fun n _ => ?_
      simp

/-! ## 2. The traversal -/

theorem walkChildren_eq {A : Type v} (withAncestors : Bool) (f : List Label → E → E → A → A)
    (t : Tree E) (ancestors : E) (path : List Label) (acc : A) :
    foldTreePaths.walkChildren D withAncestors f ancestors path t acc =
      (nodesFrom D withAncestors ancestors path t).foldl
        (fun acc n => f n.path n.ancestors n.element acc) acc := by
  induction t using Tree.induct generalizing ancestors path acc with
  | node e c ih =>
    have hhead : (if D.isBottom e then acc else f path ancestors e acc) =
        (if D.isBottom e then [] else [(⟨path, ancestors, e⟩ : PathWithAncestors E)]).foldl
          (fun acc n => f n.path n.ancestors n.element acc) acc := by
      split <;> rfl
    rw [foldTreePaths.walkChildren, nodesFrom_eq, List.foldl_append, element_node, children_node,
      ← hhead, List.foldl_flatMap]
    dsimp only
    split
    · rename_i hempty
      rw [SortedMap.isEmpty_iff_eq] at hempty
      subst hempty
      rfl
    · refine (SortedMap.attach_fold (fun k s acc => foldTreePaths.walkChildren D withAncestors f
        (nextAncestors D withAncestors ancestors e) (path ++ [k]) s acc) _ c).trans ?_
      rw [SortedMap.fold_eq_foldl]
      refine List.foldl_ext _ _ _ fun acc' binding hbinding => ?_
      exact ih binding.1 binding.2 (SortedMap.mem_bindings.mp hbinding) _ _ acc'

/-- **A fold over the paths of a tree is a fold over the list of its nodes.** -/
theorem foldTreePaths_eq {A : Type v} (withAncestors : Bool) (init : A)
    (f : List Label → E → E → A → A) (t : Tree E) :
    foldTreePaths D withAncestors init f t =
      (nodes D withAncestors t).foldl (fun acc n => f n.path n.ancestors n.element acc) init :=
  walkChildren_eq D withAncestors f t D.bottom [] init

/-! ## 3. Each node once -/

theorem mem_nodesFrom (withAncestors : Bool) (ancestors : E) (path : List Label) (t : Tree E)
    (n : PathWithAncestors E) :
    n ∈ nodesFrom D withAncestors ancestors path t ↔
      ∃ rest s, subtreeAt t rest = some s ∧ D.isBottom s.element = false ∧
        n = ⟨path ++ rest,
          (strictAncestors t rest).foldl (nextAncestors D withAncestors) ancestors, s.element⟩ := by
  induction t using Tree.induct generalizing ancestors path with
  | node e c ih =>
    rw [nodesFrom_eq, List.mem_append, List.mem_flatMap, element_node, children_node]
    constructor
    · intro h
      rcases h with h | ⟨⟨k, s⟩, hbinding, h⟩
      · split at h
        · cases h
        · rename_i hbottom
          rw [List.mem_singleton] at h
          rw [Bool.not_eq_true] at hbottom
          exact ⟨[], .node e c, rfl, hbottom, by rw [h, List.append_nil]; rfl⟩
      · have hk := SortedMap.mem_bindings.mp hbinding
        obtain ⟨rest, s', hs', hbottom, hn⟩ := (ih k s hk _ _).mp h
        refine ⟨k :: rest, s', ?_, hbottom, ?_⟩
        · rw [subtreeAt_cons, children_node, hk]
          exact hs'
        · rw [hn, strictAncestors_cons (t := .node e c) hk, List.append_assoc]
          rfl
    · intro h
      obtain ⟨rest, s', hs', hbottom, hn⟩ := h
      cases rest with
      | nil =>
        left
        cases Option.some.inj hs'
        rw [element_node] at hbottom
        rw [hbottom, hn, List.append_nil]
        exact List.mem_singleton_self _
      | cons k rest =>
        right
        rw [subtreeAt_cons, children_node] at hs'
        obtain ⟨s, hk, hs'⟩ := Option.bind_eq_some_iff.mp hs'
        refine ⟨(k, s), SortedMap.mem_bindings.mpr hk, (ih k s hk _ _).mpr ?_⟩
        refine ⟨rest, s', hs', hbottom, ?_⟩
        rw [hn, strictAncestors_cons (t := .node e c) hk, List.append_assoc]
        rfl

/-- The nodes of a tree: those with an element, with the ancestors that stand above them. -/
theorem mem_nodes (withAncestors : Bool) (t : Tree E) (n : PathWithAncestors E) :
    n ∈ nodes D withAncestors t ↔
      ∃ s, subtreeAt t n.path = some s ∧ D.isBottom s.element = false ∧
        n.element = s.element ∧ n.ancestors = ancestorsAt D withAncestors t n.path := by
  refine (mem_nodesFrom D withAncestors D.bottom [] t n).trans ?_
  constructor
  · intro h
    obtain ⟨rest, s, hs, hbottom, rfl⟩ := h
    exact ⟨s, hs, hbottom, rfl, rfl⟩
  · intro h
    obtain ⟨s, hs, hbottom, helement, hancestors⟩ := h
    refine ⟨n.path, s, hs, hbottom, ?_⟩
    obtain ⟨path, ancestors, element⟩ := n
    dsimp only at helement hancestors
    rw [helement, hancestors]
    rfl

/-- No node is visited twice. -/
theorem nodup_nodesFrom (withAncestors : Bool) (ancestors : E) (path : List Label) (t : Tree E) :
    ((nodesFrom D withAncestors ancestors path t).map (·.path)).Nodup := by
  induction t using Tree.induct generalizing ancestors path with
  | node e c ih =>
    have hprefix : ∀ k s, c.find? k = some s → ∀ n ∈ nodesFrom D withAncestors
        (nextAncestors D withAncestors ancestors e) (path ++ [k]) s,
        ∃ rest, n.path = path ++ k :: rest := by
      intro k s hk n hn
      obtain ⟨rest, -, -, -, rfl⟩ := (mem_nodesFrom D _ _ _ _ n).mp hn
      exact ⟨rest, by rw [List.append_assoc]; rfl⟩
    rw [nodesFrom_eq, List.map_append, element_node, children_node, List.nodup_append]
    refine ⟨?_, ?_, ?_⟩
    · split
      · exact List.nodup_nil
      · exact List.nodup_singleton _
    · rw [List.map_flatMap, List.nodup_flatMap]
      constructor
      · intro binding hbinding
        exact ih binding.1 binding.2 (SortedMap.mem_bindings.mp hbinding) _ _
      · refine (SortedMap.sorted_bindings c).imp_of_mem ?_
        intro first second hfirst hsecond hlt path' h1 h2
        obtain ⟨n1, hn1, rfl⟩ := List.mem_map.mp h1
        obtain ⟨n2, hn2, h2⟩ := List.mem_map.mp h2
        obtain ⟨rest1, hrest1⟩ := hprefix _ _ (SortedMap.mem_bindings.mp hfirst) n1 hn1
        obtain ⟨rest2, hrest2⟩ := hprefix _ _ (SortedMap.mem_bindings.mp hsecond) n2 hn2
        rw [hrest1, hrest2, List.append_cancel_left_eq, List.cons.injEq] at h2
        exact absurd h2.1.symm (ne_of_lt hlt)
    · intro path1 h1 path2 h2
      split at h1
      · cases h1
      · rw [List.map_singleton, List.mem_singleton] at h1
        obtain ⟨n2, hn2, rfl⟩ := List.mem_map.mp h2
        obtain ⟨binding, hbinding, hn2⟩ := List.mem_flatMap.mp hn2
        obtain ⟨rest, hrest⟩ := hprefix _ _ (SortedMap.mem_bindings.mp hbinding) n2 hn2
        rw [h1, hrest]
        intro h
        exact absurd (List.self_eq_append_right.mp h) (List.cons_ne_nil _ _)

theorem nodup_nodes (withAncestors : Bool) (t : Tree E) :
    ((nodes D withAncestors t).map (·.path)).Nodup :=
  nodup_nodesFrom D withAncestors D.bottom [] t

end Pysa
