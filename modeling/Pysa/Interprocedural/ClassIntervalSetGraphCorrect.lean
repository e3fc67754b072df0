/-
  Subject: INTERVAL SETS ENCODE SUBCLASSING.

  * `RootsApart` -- no root lies below a root that the walk starts from before. It holds of every
    graph that is built by `add` (`rootsApart_of_built`);
  * `fromClassHierarchy_spec` -- the walk over all roots, and the sets that it yields;
  * `fromClassHierarchy_exact` -- **inclusion of the sets is subclassing, and their meet is empty
    when there is no common subclass**.
-/
import Pysa.Interprocedural.ClassIntervalSetCorrect
import Pysa.Interprocedural.DepthFirstSearch

namespace Pysa.ClassIntervalSetGraph

open ClassHierarchyGraph Walk

variable {graph : ClassHierarchyGraph} {walk : Walk}

/-! ## 1. Times of classes that were left -/

theorem Inv.black_of_subclass (h : Inv graph walk) {c d : ClassId} (hc : walk.Black c)
    (hsub : graph.Subclass d c) : walk.Black d := by
  induction hsub with
  | refl => exact hc
  | tail _ hchild ih => exact h.closed _ _ ih hchild

theorem Inv.reachSpan_mono (h : Inv graph walk) {c d : ClassId} (hc : walk.Black c)
    (hsub : graph.Subclass d c) : walk.reachSpan d ⊆ walk.reachSpan c := by
  induction hsub with
  | refl => exact subset_rfl
  | tail hreach hchild ih => exact (h.nested _ _ (h.black_of_subclass hc hreach) hchild).trans ih

/-- A class was entered at one of its own times. -/
theorem Inv.exists_endpoint (h : Inv graph walk) {c : ClassId} (hc : walk.Black c) :
    ∃ t ∈ walk.span c, walk.Endpoint t c := by
  obtain ⟨lower, upper, hle, hfind, -⟩ := h.interval c hc
  exact ⟨lower, ⟨_, hfind, le_rfl, hle⟩, lower, upper, hle, hfind, Or.inl rfl⟩

/-- A time of a class is an endpoint of a class below it. -/
theorem Inv.endpoint_of_mem (h : Inv graph walk) {c : ClassId} {t : Int}
    (ht : t ∈ walk.reachSpan c) : ∃ x, walk.Endpoint t x ∧ graph.Subclass x c := by
  rcases ht with ht | ⟨target, hcross, ht⟩
  · exact h.endpoints c t ht
  · obtain ⟨x, hx, hsub⟩ := h.endpoints target t ht
    exact ⟨x, hx, (h.cross c target hcross).2.trans hsub⟩

theorem Inv.subset_iff (h : Inv graph walk) {c d : ClassId} (hc : walk.Black c)
    (hd : walk.Black d) : walk.reachSpan d ⊆ walk.reachSpan c ↔ graph.Subclass d c := by
  constructor
  · intro hsub
    obtain ⟨t, ht, hend⟩ := h.exists_endpoint hd
    obtain ⟨x, hx, hxc⟩ := h.endpoint_of_mem (hsub (Or.inl ht))
    rwa [h.distinct t d x hend hx]
  · exact h.reachSpan_mono hc

theorem Inv.inter_nonempty_iff (h : Inv graph walk) {c d : ClassId} (hc : walk.Black c)
    (hd : walk.Black d) : (walk.reachSpan c ∩ walk.reachSpan d).Nonempty ↔
      ∃ x, graph.Subclass x c ∧ graph.Subclass x d := by
  constructor
  · rintro ⟨t, htc, htd⟩
    obtain ⟨x, hx, hxc⟩ := h.endpoint_of_mem htc
    obtain ⟨y, hy, hyd⟩ := h.endpoint_of_mem htd
    rw [h.distinct t y x hy hx] at hyd
    exact ⟨x, hxc, hyd⟩
  · rintro ⟨x, hxc, hxd⟩
    obtain ⟨t, ht, -⟩ := h.exists_endpoint (h.black_of_subclass hc hxc)
    exact ⟨t, h.reachSpan_mono hc hxc (Or.inl ht), h.reachSpan_mono hd hxd (Or.inl ht)⟩

/-! ## 2. The walk over all roots -/

/-- No root is a subclass of a root that comes before it. -/
def RootsApart (graph : ClassHierarchyGraph) : Prop :=
  ∀ root ∈ graph.roots, ∀ root' ∈ graph.roots, root < root' → ¬ graph.Subclass root' root

theorem rootsApart_of_roots (h : ∀ root ∈ graph.roots, ∀ parent, ¬ graph.Child parent root) :
    RootsApart graph := by
  intro root _ root' hroot' hlt hsub
  rcases Relation.ReflTransGen.cases_tail hsub with heq | ⟨parent, -, hchild⟩
  · exact hlt.ne heq.symm
  · exact h root' hroot' parent hchild

theorem rootsApart_of_built (h : Built graph) : RootsApart graph := rootsApart_of_roots h.roots.2

/-- The class is a root or lies below one. -/
def Rooted (graph : ClassHierarchyGraph) (node : ClassId) : Prop :=
  ∃ root ∈ graph.roots, graph.Subclass node root

/-- The roots in `walked` were left, and nothing else was entered than what lies below them. -/
structure RootsWalked (graph : ClassHierarchyGraph) (walked : List ClassId) (walk : Walk) : Prop where
  inv : Inv graph walk
  notGrey : ∀ x, walk.states.find? x ≠ some .grey
  below : ∀ x, walk.Visited x → ∃ root ∈ walked, graph.Subclass x root
  black : ∀ root ∈ walked, walk.Black root

theorem rootsWalked_initial : RootsWalked graph [] Walk.initial where
  inv := inv_initial
  notGrey x h := by
    rw [show Walk.initial.states.find? x = none from SortedMap.find?_empty x] at h
    cases h
  below x h := absurd (SortedMap.find?_empty x) h
  black _ h := absurd h List.not_mem_nil

theorem RootsWalked.step {walked : List ClassId} {root : ClassId} (hacyclic : graph.Acyclic)
    (h : RootsWalked graph walked walk) (hroot : root ∈ graph.roots)
    (hapart : ∀ root' ∈ walked, ¬ graph.Subclass root root') :
    ∃ walk', depthFirstSearch graph graph.nodes.elements.length root walk = .ok walk' ∧
      RootsWalked graph (root :: walked) walk' := by
  have hnew : ¬ walk.Visited root := by
    intro hvisited
    obtain ⟨root', hroot', hsub⟩ := h.below root hvisited
    exact hapart root' hroot' hsub
  obtain ⟨walk', -, hrun, hinv, hgrows, hblack, -⟩ := depthFirstSearch_spec hacyclic _ root walk
    ⟨h.inv, root_mem_nodes hroot, hnew, fun x hx => absurd hx (h.notGrey x), List.countP_le_length⟩
  refine ⟨walk', hrun, hinv, ?_, ?_, ?_⟩
  · intro x hx
    by_cases hvisited : walk.Visited x
    · exact h.notGrey x ((hgrows.states x hvisited).symm.trans hx)
    · have hx' : walk'.Visited x := by
        unfold Walk.Visited
        rw [hx]
        exact Option.some_ne_none _
      have hstate := hx.symm.trans (hgrows.new x hvisited hx').1
      cases hstate
  · intro x hx
    by_cases hvisited : walk.Visited x
    · obtain ⟨root', hroot', hsub⟩ := h.below x hvisited
      exact ⟨root', List.mem_cons_of_mem _ hroot', hsub⟩
    · exact ⟨root, List.mem_cons_self, (hgrows.new x hvisited hx).2.1⟩
  · intro root' hroot'
    rcases List.mem_cons.mp hroot' with rfl | hroot'
    · exact hblack
    · exact hgrows.black (h.black root' hroot')

theorem RootsWalked.steps {walked list : List ClassId} (hacyclic : graph.Acyclic)
    (hapart : RootsApart graph) (h : RootsWalked graph walked walk)
    (hlist : ∀ root ∈ list, root ∈ graph.roots) (hsorted : list.Pairwise (· < ·))
    (hwalked : ∀ root' ∈ walked, root' ∈ graph.roots ∧ ∀ root ∈ list, root' < root) :
    ∃ walk', list.foldlM
        (fun walk root => depthFirstSearch graph graph.nodes.elements.length root walk) walk =
          .ok walk' ∧
      RootsWalked graph (list.reverse ++ walked) walk' := by
  induction list generalizing walked walk with
  | nil => exact ⟨walk, rfl, h⟩
  | cons root rest ih =>
    rw [List.pairwise_cons] at hsorted
    have hroot := hlist root List.mem_cons_self
    obtain ⟨walk₁, hrun₁, h₁⟩ := h.step hacyclic hroot fun root' hroot' =>
      hapart root' (hwalked root' hroot').1 root hroot
        ((hwalked root' hroot').2 root List.mem_cons_self)
    obtain ⟨walk₂, hrun₂, h₂⟩ := ih h₁
      (fun root' hroot' => hlist root' (List.mem_cons_of_mem _ hroot')) hsorted.2 (by
        intro root' hroot'
        rcases List.mem_cons.mp hroot' with rfl | hroot'
        · exact ⟨hroot, hsorted.1⟩
        · exact ⟨(hwalked root' hroot').1,
            fun root hroot => (hwalked root' hroot').2 root (List.mem_cons_of_mem _ hroot)⟩)
    refine ⟨walk₂, ?_, ?_⟩
    · rw [List.foldlM_cons, hrun₁]
      exact hrun₂
    · rw [List.reverse_cons, List.append_assoc]
      exact h₂

/-! ## 3. The sets -/

/-- The list that a class's set is made of. -/
theorem foldlM_consInterval (h : Inv graph walk) (nodes : List ClassId)
    (hnodes : ∀ node ∈ nodes, walk.Black node) (accumulator : List ClassInterval) :
    ∃ list, nodes.foldlM (consInterval walk.intervals) accumulator = .ok list ∧
      ∀ t, t ∈ ClassIntervalSet.denote list ↔
        t ∈ ClassIntervalSet.denote accumulator ∨ ∃ node ∈ nodes, t ∈ walk.span node := by
  induction nodes generalizing accumulator with
  | nil => exact ⟨accumulator, rfl, by simp⟩
  | cons node rest ih =>
    obtain ⟨lower, upper, hle, hfind, -⟩ := h.interval node (hnodes node List.mem_cons_self)
    obtain ⟨list, hlist, hdenote⟩ := ih
      (fun node hnode => hnodes node (List.mem_cons_of_mem _ hnode))
      (.interval lower upper hle :: accumulator)
    refine ⟨list, ?_, ?_⟩
    · unfold consInterval at hlist ⊢
      rw [List.foldlM_cons, hfind]
      exact hlist
    · intro t
      have hspan : t ∈ walk.span node ↔
          t ∈ ClassInterval.denote (.interval lower upper hle) := by simp [Walk.span, hfind]
      rw [hdenote, ClassIntervalSet.denote_cons, Set.mem_union, ← hspan]
      simp only [List.mem_cons, exists_eq_or_imp]
      tauto

/-- **A class's set denotes the times of the class.** -/
theorem intervalWithCrossEdges_spec (h : Inv graph walk) {node : ClassId} {interval : ClassInterval}
    (hfind : walk.intervals.find? node = some interval) :
    ∃ set, intervalWithCrossEdges walk node interval = .ok set ∧ ClassIntervalSet.Normal set ∧
      ClassIntervalSet.denote set = walk.reachSpan node := by
  have hspan (t : Int) : t ∈ walk.span node ↔ t ∈ ClassIntervalSet.denote [interval] := by
    simp [Walk.span, hfind]
  unfold intervalWithCrossEdges
  cases hcross : walk.crossEdges.find? node with
  | none =>
    obtain ⟨set, hset, hnormal, hdenote⟩ := ClassIntervalSet.ofList_spec [interval]
    refine ⟨set, by rw [hset]; rfl, hnormal, ?_⟩
    ext t
    rw [hdenote, ← hspan]
    refine (or_iff_left ?_).symm
    rintro ⟨target, ⟨nodes, hnodes, -⟩, -⟩
    rw [hcross] at hnodes
    cases hnodes
  | some nodes =>
    obtain ⟨list, hlist, hmem⟩ := foldlM_consInterval h nodes.elements
      (fun target htarget => (h.cross node target ⟨nodes, hcross, htarget⟩).1) [interval]
    obtain ⟨set, hset, hnormal, hdenote⟩ := ClassIntervalSet.ofList_spec list
    refine ⟨set, ?_, hnormal, ?_⟩
    · calc joinIntervalsFrom walk.intervals nodes interval
          = nodes.elements.foldlM (consInterval walk.intervals) [interval] >>= fun list =>
              Failure.lift (ClassIntervalSet.ofList list) := rfl
        _ = Failure.lift (ClassIntervalSet.ofList list) := by rw [hlist]; rfl
        _ = .ok set := by rw [hset]; rfl
    · ext t
      rw [hdenote, hmem, ← hspan]
      refine or_congr Iff.rfl ⟨?_, ?_⟩
      · rintro ⟨target, htarget, ht⟩
        exact ⟨target, ⟨nodes, hcross, htarget⟩, ht⟩
      · rintro ⟨target, ⟨nodes', hnodes', htarget⟩, ht⟩
        rw [hcross] at hnodes'
        cases hnodes'
        exact ⟨target, htarget, ht⟩

/-- The walk over all roots succeeds, leaves every rooted class, and yields its set. -/
theorem fromClassHierarchy_spec (hacyclic : graph.Acyclic) (hapart : RootsApart graph) :
    ∃ walk sets, fromClassHierarchy graph = .ok sets ∧ Inv graph walk ∧
      (∀ node, Rooted graph node → walk.Black node) ∧
      ∀ node, walk.Black node → ∃ set, sets.find? node = some set ∧
        ClassIntervalSet.Normal set ∧ ClassIntervalSet.denote set = walk.reachSpan node := by
  obtain ⟨walk, hrun, hwalked⟩ := rootsWalked_initial.steps hacyclic hapart
    (fun root hroot => hroot) graph.roots.sorted (fun root' hroot' => absurd hroot' List.not_mem_nil)
  have hinv := hwalked.inv
  let set (node : ClassId) (interval : ClassInterval) : ClassIntervalSet :=
    (intervalWithCrossEdges walk node interval).toOption.getD []
  have hstep (node : ClassId) (interval : ClassInterval) (sets : ClassIdMap ClassIntervalSet)
      (hfind : walk.intervals.find? node = some interval) :
      addIntervalWithCrossEdges walk node interval sets = .ok (sets.add node (set node interval)) := by
    obtain ⟨s, hs, -, -⟩ := intervalWithCrossEdges_spec hinv hfind
    unfold addIntervalWithCrossEdges
    simp only [set, hs]
    rfl
  refine ⟨walk, walk.intervals.fold (fun node interval sets => sets.add node (set node interval))
    .empty, ?_, hinv, ?_, ?_⟩
  · unfold fromClassHierarchy
    dsimp only
    rw [hrun]
    exact SortedMap.foldM_eq_ok hstep
  · rintro node ⟨root, hroot, hsub⟩
    refine hinv.black_of_subclass (hwalked.black root ?_) hsub
    rw [List.append_nil, List.mem_reverse]
    exact hroot
  · intro node hblack
    obtain ⟨lower, upper, hle, hfind, -⟩ := hinv.interval node hblack
    obtain ⟨s, hs, hnormal, hdenote⟩ := intervalWithCrossEdges_spec hinv hfind
    refine ⟨s, ?_, hnormal, hdenote⟩
    rw [SortedMap.find?_fold_add, hfind, Option.map_some]
    simp only [set, hs]
    rfl

/-- The sets of the rooted classes are normal, and their integers encode subclassing. -/
structure Encodes (graph : ClassHierarchyGraph) (sets : ClassIdMap ClassIntervalSet) : Prop where
  find : ∀ c, Rooted graph c → sets.find? c = some (ofClass sets c)
  normal : ∀ c, Rooted graph c → ClassIntervalSet.Normal (ofClass sets c)
  subset : ∀ c d, Rooted graph c → Rooted graph d →
    (ClassIntervalSet.denote (ofClass sets d) ⊆ ClassIntervalSet.denote (ofClass sets c) ↔
      graph.Subclass d c)
  inter : ∀ c d, Rooted graph c → Rooted graph d →
    ((ClassIntervalSet.denote (ofClass sets c) ∩
        ClassIntervalSet.denote (ofClass sets d)).Nonempty ↔
      ∃ x, graph.Subclass x c ∧ graph.Subclass x d)

theorem fromClassHierarchy_encodes (hacyclic : graph.Acyclic) (hapart : RootsApart graph) :
    ∃ sets, fromClassHierarchy graph = .ok sets ∧ Encodes graph sets := by
  obtain ⟨walk, sets, hrun, hinv, hrooted, hsets⟩ := fromClassHierarchy_spec hacyclic hapart
  have hset (c : ClassId) (hc : Rooted graph c) : sets.find? c = some (ofClass sets c) ∧
      ClassIntervalSet.Normal (ofClass sets c) ∧
      ClassIntervalSet.denote (ofClass sets c) = walk.reachSpan c := by
    obtain ⟨set, hfind, hnormal, hdenote⟩ := hsets c (hrooted c hc)
    rw [show ofClass sets c = set by unfold ofClass; rw [hfind]; rfl]
    exact ⟨hfind, hnormal, hdenote⟩
  refine ⟨sets, hrun, fun c hc => (hset c hc).1, fun c hc => (hset c hc).2.1, ?_, ?_⟩
  · intro c d hc hd
    rw [(hset c hc).2.2, (hset d hd).2.2]
    exact hinv.subset_iff (hrooted c hc) (hrooted d hd)
  · intro c d hc hd
    rw [(hset c hc).2.2, (hset d hd).2.2]
    exact hinv.inter_nonempty_iff (hrooted c hc) (hrooted d hd)

/-- **Subclassing is inclusion of interval sets, and two classes with a common subclass are those
    whose sets meet.** -/
theorem fromClassHierarchy_exact (hacyclic : graph.Acyclic) (hapart : RootsApart graph) :
    ∃ sets, fromClassHierarchy graph = .ok sets ∧
      ∀ c d, Rooted graph c → Rooted graph d →
        ∃ setC setD, sets.find? c = some setC ∧ sets.find? d = some setD ∧
          (∃ answer, ClassIntervalSet.lessOrEqual setD setC = .ok answer ∧
            (answer = true ↔ graph.Subclass d c)) ∧
          ∃ common, ClassIntervalSet.meet setC setD = .ok common ∧
            (ClassIntervalSet.isEmpty common = false ↔
              ∃ x, graph.Subclass x c ∧ graph.Subclass x d) := by
  obtain ⟨sets, hrun, hsets⟩ := fromClassHierarchy_encodes hacyclic hapart
  refine ⟨sets, hrun, fun c d hc hd => ⟨_, _, hsets.find c hc, hsets.find d hd, ?_, ?_⟩⟩
  · obtain ⟨answer, hanswer, hiff⟩ :=
      ClassIntervalSet.lessOrEqual_spec (hsets.normal d hd) (hsets.normal c hc)
    exact ⟨answer, hanswer, hiff.trans (hsets.subset c d hc hd)⟩
  · obtain ⟨common, hcommon, hnormal, hdenote⟩ :=
      ClassIntervalSet.meet_spec (hsets.normal c hc) (hsets.normal d hd)
    refine ⟨common, hcommon, ?_⟩
    rw [hnormal.isEmpty_eq_false_iff, hdenote, hsets.inter c d hc hd]

/-- Four classes, the last one below the second and the third. -/
def diamond : ClassHierarchyGraph :=
  (((ClassHierarchyGraph.empty.add ⟨0, 0⟩ ⟨0, 1⟩).add ⟨0, 0⟩ ⟨0, 2⟩).add ⟨0, 1⟩ ⟨0, 3⟩).add ⟨0, 2⟩ ⟨0, 3⟩

theorem diamond_built : Built diamond := .add _ _ (.add _ _ (.add _ _ (.add _ _ .empty)))

theorem diamond_acyclic : diamond.Acyclic := by
  refine acyclic_of_lt fun a b h => ?_
  simp only [diamond, child_add] at h
  rcases h with (((h | ⟨rfl, rfl⟩) | ⟨rfl, rfl⟩) | ⟨rfl, rfl⟩) | ⟨rfl, rfl⟩
  · exact absurd h (child_empty a b)
  all_goals decide

theorem fromClassHierarchy_exact_diamond :
    ∃ sets setC setD, fromClassHierarchy diamond = .ok sets ∧ sets.find? ⟨0, 2⟩ = some setC ∧
      sets.find? ⟨0, 3⟩ = some setD ∧ ClassIntervalSet.lessOrEqual setD setC = .ok true := by
  obtain ⟨sets, hrun, hsets⟩ := fromClassHierarchy_exact diamond_acyclic (rootsApart_of_built diamond_built)
  have hroot : (⟨0, 0⟩ : ClassId) ∈ diamond.roots := by decide
  have h2 : diamond.Subclass ⟨0, 2⟩ ⟨0, 0⟩ := .single (by decide)
  have h3 : diamond.Subclass ⟨0, 3⟩ ⟨0, 2⟩ := .single (by decide)
  obtain ⟨setC, setD, hC, hD, ⟨answer, hanswer, hiff⟩, -⟩ :=
    hsets ⟨0, 2⟩ ⟨0, 3⟩ ⟨_, hroot, h2⟩ ⟨_, hroot, h2.trans h3⟩
  rw [hiff.mpr h3] at hanswer
  exact ⟨sets, setC, setD, hrun, hC, hD, hanswer⟩

/-- A root below another root is entered twice, and its new interval is unknown to the first. -/
theorem fromClassHierarchy_rootBelowRoot :
    ∃ graph : ClassHierarchyGraph, graph.Acyclic ∧ (∀ node ∈ graph.nodes, Rooted graph node) ∧
      graph.Subclass ⟨0, 1⟩ ⟨0, 0⟩ ∧
      ∃ sets setA setB, fromClassHierarchy graph = .ok sets ∧ sets.find? ⟨0, 0⟩ = some setA ∧
        sets.find? ⟨0, 1⟩ = some setB ∧ ClassIntervalSet.lessOrEqual setB setA = .ok false := by
  let graph := ClassHierarchyGraph.create [⟨0, 0⟩, ⟨0, 1⟩] [(⟨0, 0⟩, [⟨0, 1⟩])]
  have hchild (a b : ClassId) : graph.Child a b → a = ⟨0, 0⟩ ∧ b = ⟨0, 1⟩ := by
    intro h
    by_cases ha : a = ⟨0, 0⟩
    · subst ha
      exact ⟨rfl, by simpa using (show b ∈ SortedSet.ofList [(⟨0, 1⟩ : ClassId)] from h)⟩
    · unfold Child children at h
      rw [show graph.edges.find? a = none from
        (SortedMap.find?_add _ _ _ _).trans ((if_neg ha).trans (SortedMap.find?_empty a))] at h
      exact absurd h (SortedSet.notMem_empty b)
  refine ⟨graph, acyclic_of_lt ?_, ?_, .single (by decide), ?_⟩
  · intro a b h
    obtain ⟨rfl, rfl⟩ := hchild a b h
    decide
  · intro node hnode
    have hmem : node ∈ [(⟨0, 0⟩ : ClassId), ⟨0, 1⟩] := hnode
    simp only [List.mem_cons, List.not_mem_nil, or_false] at hmem
    exact ⟨node, by rcases hmem with rfl | rfl <;> decide, .refl⟩
  · cases hrun : fromClassHierarchy graph with
    | error e =>
      have h : (fromClassHierarchy graph).isOk = true := by decide +kernel
      rw [hrun] at h
      cases h
    | ok sets =>
      have h : (fromClassHierarchy graph).map (fun sets =>
          (sets.find? ⟨0, 0⟩, sets.find? ⟨0, 1⟩)) =
          .ok (some [.interval 1 4 (by decide)], some [.interval 5 6 (by decide)]) := by
        decide +kernel
      rw [hrun] at h
      obtain ⟨hA, hB⟩ := Prod.mk.inj (Except.ok.inj h)
      exact ⟨sets, _, _, rfl, hA, hB, by decide +kernel⟩

end Pysa.ClassIntervalSetGraph
