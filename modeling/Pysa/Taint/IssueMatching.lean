/-
  Subject: MATCHING SOURCES WITH SINKS (`issue.ml`, `generate_source_sink_matches`).

  Every node of the sink tree is matched with the taint of the source tree at, above and below its
  path.

  * `Flow` -- the source taint and the sink taint of a match;
  * `generateSourceSinkMatches_iff` -- **the matches are the pairs of nodes on comparable access
    paths**.
-/
import Pysa.Domains.TreeRefinedPaths

namespace Pysa.Taint

open Pysa.Tree

universe u

variable {σ τ : Type u}

/-! ## 1. Flows -/

/-- The source taint and the sink taint of a flow. -/
@[ext]
structure Flow (S T : Type u) where
  sourceTaint : S
  sinkTaint : T
  deriving DecidableEq

section Matching

variable [DecidableEq σ] [DecidableEq τ]

/-- The flows of `generate_source_sink_matches`; `broaden` is what the breadcrumbs of the collapse
    do to the taint. -/
def generateSourceSinkMatches (sourceDomain : Element (Finset σ)) (sinkDomain : Element (Finset τ))
    (broaden : Finset σ → Finset σ) (sourceTree : Tree (Finset σ)) (sinkTree : Tree (Finset τ)) :
    List (Flow (Finset σ) (Finset τ)) :=
  let makeSourceSinkMatches (path : List Label.Refined) (sinkTaint : Finset τ)
      (flows : List (Flow (Finset σ) (Finset τ))) : List (Flow (Finset σ) (Finset τ)) :=
    let sourceTaint := collapse sourceDomain broaden none
      (readRefined sourceDomain (fun _ e => e) path sourceTree)
    if sourceDomain.isBottom sourceTaint then flows
    else { sourceTaint, sinkTaint } :: flows
  if isBottom sourceDomain sourceTree || isBottom sinkDomain sinkTree then []
  else foldRefinedTreePaths sinkDomain [] makeSourceSinkMatches sinkTree

/-! ## 2. The matches -/

theorem not_nodeHolds_of_isBottom {α : Type u} [DecidableEq α] {w : Finset α → Finset α}
    {t : Tree (Finset α)} (ht : isBottom (plainSet w) t = true) (path : List Label) (x : α) :
    ¬ NodeHolds t path x := by
  intro h
  obtain ⟨s, hs, hx⟩ := h
  obtain ⟨hc, he⟩ := (isEmptyTree_iff t).mp ht
  cases path with
  | nil =>
    cases hs
    rw [he] at hx
    exact Finset.notMem_empty x hx
  | cons k rest =>
    rw [subtreeAt_cons, hc, SortedMap.find?_empty] at hs
    cases hs

/-- What a path and its extensions read is held by nodes on comparable paths. -/
theorem exists_taintAt_append_iff {q : List Label} (hq : ∀ k ∈ q, k.Concrete)
    (t : Tree (Finset σ)) (s : σ) :
    (∃ r : List Label, (∀ k ∈ r, k.Concrete) ∧ s ∈ taintAt (q ++ r) t) ↔
      ∃ path p, NodeHolds t path s ∧ Covers t path p ∧ (p <+: q ∨ q <+: p) := by
  constructor
  · intro h
    obtain ⟨r, hr, hs⟩ := h
    obtain ⟨p, path, hp, hcovers, hholds⟩ := (mem_taintAt_iff
      (List.forall_mem_append.mpr ⟨hq, hr⟩) t s).mp hs
    exact ⟨path, p, hholds, hcovers, List.prefix_or_prefix_of_prefix hp (List.prefix_append q r)⟩
  · intro h
    obtain ⟨path, p, hholds, hcovers, hp | ⟨r, rfl⟩⟩ := h
    · refine ⟨[], by simp, (mem_taintAt_iff (by simpa using hq) t s).mpr ?_⟩
      exact ⟨p, path, by rwa [List.append_nil], hcovers, hholds⟩
    · have hconcrete := hcovers.concrete
      refine ⟨r, (List.forall_mem_append.mp hconcrete).2, ?_⟩
      exact (mem_taintAt_iff hconcrete t s).mpr ⟨_, path, List.prefix_rfl, hcovers, hholds⟩

/-- The source taint matched with a node of the sink tree. -/
theorem mem_collapse_readRefined_iff {w : Finset σ → Finset σ} (path : List Label.Refined)
    (t : Tree (Finset σ)) (s : σ) :
    s ∈ collapse (plainSet w) id none (readRefined (plainSet w) (fun _ e => e) path t) ↔
      ∃ q, Instance path q ∧
        ∃ sourcePath p, NodeHolds t sourcePath s ∧ Covers t sourcePath p ∧ (p <+: q ∨ q <+: p) := by
  rw [mem_collapse_iff, mem_readRefined additive_held]
  refine exists_congr fun q => and_congr_right fun hq => ?_
  rw [mem_along_held_iff, exists_taintAt_append_iff hq.concrete]

/-- **Matching misses no flow and invents none**: a source and a sink are paired exactly when nodes
    hold them that cover concrete access paths of which one is a prefix of the other. -/
theorem generateSourceSinkMatches_iff (sourceWiden : Finset σ → Finset σ)
    (sinkWiden : Finset τ → Finset τ) (sourceTree : Tree (Finset σ)) (sinkTree : Tree (Finset τ))
    (s : σ) (t : τ) :
    (∃ flow ∈ generateSourceSinkMatches (plainSet sourceWiden) (plainSet sinkWiden) id sourceTree
        sinkTree, s ∈ flow.sourceTaint ∧ t ∈ flow.sinkTaint) ↔
      ∃ sourcePath sinkPath p q, NodeHolds sourceTree sourcePath s ∧ NodeHolds sinkTree sinkPath t ∧
        Covers sourceTree sourcePath p ∧ Covers sinkTree sinkPath q ∧ (p <+: q ∨ q <+: p) := by
  rw [generateSourceSinkMatches]
  dsimp only
  split
  · rename_i hbottom
    rw [Bool.or_eq_true] at hbottom
    refine iff_of_false (by simp) fun h => ?_
    obtain ⟨sourcePath, sinkPath, p, q, hs, ht, -⟩ := h
    rcases hbottom with hbottom | hbottom
    · exact not_nodeHolds_of_isBottom hbottom _ _ hs
    · exact not_nodeHolds_of_isBottom hbottom _ _ ht
  · rw [foldRefinedTreePaths_eq]
    refine (foldl_seen_iff
      (fun flows : List (Flow (Finset σ) (Finset τ)) =>
        ∃ flow ∈ flows, s ∈ flow.sourceTaint ∧ t ∈ flow.sinkTaint)
      (P := fun n => s ∈ collapse (plainSet sourceWiden) id none
        (readRefined (plainSet sourceWiden) (fun _ e => e) n.1 sourceTree) ∧ t ∈ n.2)
      (fun flows n => ?_) _ _).trans ?_
    · split
      · rename_i hbottom
        rw [setElement_isBottom, decide_eq_true_eq] at hbottom
        rw [hbottom]
        simp
      · rw [List.exists_mem_cons_iff, or_comm]
    · have hnone : ¬ ∃ flow ∈ ([] : List (Flow (Finset σ) (Finset τ))),
          s ∈ flow.sourceTaint ∧ t ∈ flow.sinkTaint := by
        simp
      rw [or_iff_right hnone]
      simp only [mem_collapse_readRefined_iff]
      constructor
      · intro h
        obtain ⟨n, hn, ⟨q, hq, sourcePath, p, hs, hp, hpq⟩, ht⟩ := h
        obtain ⟨sinkPath, node, hcovers, hnode, -, ht⟩ := (exists_refinedNode_iff
          (plainSet sinkWiden) (t ∈ ·) sinkTree q).mp ⟨n, hn, hq, ht⟩
        exact ⟨sourcePath, sinkPath, p, q, hs, ⟨node, hnode, ht⟩, hp, hcovers, hpq⟩
      · intro h
        obtain ⟨sourcePath, sinkPath, p, q, hs, ⟨node, hnode, ht⟩, hp, hcovers, hpq⟩ := h
        have hbottom : (plainSet sinkWiden).isBottom node.element = false :=
          decide_eq_false (Finset.ne_empty_of_mem ht)
        obtain ⟨n, hn, hq, ht⟩ := (exists_refinedNode_iff (plainSet sinkWiden) (t ∈ ·) sinkTree
          q).mpr ⟨sinkPath, node, hcovers, hnode, hbottom, ht⟩
        exact ⟨n, hn, ⟨q, hq, sourcePath, p, hs, hp, hpq⟩, ht⟩

end Matching

end Pysa.Taint
