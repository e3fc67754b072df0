/-
  Subject: THE EXTRA TRACES OF A TRANSFORM (`callModel.ml`, `ExtraTraceForTransforms`).

  A flow through a transform is kept only if a sink that records the transform is found on a
  related path of the callee, and such a sink is kept only if the callee has tito on a related path.

  * `fromSinkTrees`, `prune` -- the two sides; both compare paths label by label;
  * `Overlaps` -- the paths share a concrete path; `overlaps_iff` -- they do if one is a prefix of the
    other, or if they part where one has `[*]` and the other an index;
  * `keepsOverlapping_iff` -- **the two sides keep what overlaps exactly if no path parts from its
    counterpart in this way, or another one stands in**.
-/
import Pysa.Domains.TreeKeeps
import Pysa.Domains.TreeRefinedPaths
import Pysa.Taint.Kinds

namespace Pysa.ExtraTraces

open Pysa.Tree Pysa.Taint

/-! ## 1. Paths that overlap -/

def Comparable (p q : List Label) : Prop := p <+: q ∨ q <+: p

instance (p q : List Label) : Decidable (Comparable p q) := inferInstanceAs (Decidable (_ ∨ _))

/-- A concrete path that the first stands for is a prefix of one that the second stands for, or the
    converse; `[*]` stands for every index. -/
def Overlaps (p q : List Label) : Prop :=
  ∃ x y, Instance (Label.Refined.toRefinedPath p) x ∧ Instance (Label.Refined.toRefinedPath q) y ∧
    Comparable x y

/-- The paths agree up to a label where one has `[*]` and the other an index. -/
inductive SplitsAtIndex : List Label → List Label → Prop
  | left {i p q} (h : Overlaps p q) : SplitsAtIndex (.anyIndex :: p) (.index i :: q)
  | right {i p q} (h : Overlaps p q) : SplitsAtIndex (.index i :: p) (.anyIndex :: q)
  | deeper {k p q} (h : SplitsAtIndex p q) : SplitsAtIndex (k :: p) (k :: q)

theorem comparable_nil_left (q : List Label) : Comparable [] q := Or.inl List.nil_prefix

theorem comparable_nil_right (p : List Label) : Comparable p [] := Or.inr List.nil_prefix

theorem comparable_cons {k l : Label} {p q : List Label} :
    Comparable (k :: p) (l :: q) ↔ k = l ∧ Comparable p q := by
  simp only [Comparable, List.cons_prefix_cons]
  constructor
  · rintro (⟨h, hpq⟩ | ⟨h, hpq⟩)
    · exact ⟨h, Or.inl hpq⟩
    · exact ⟨h.symm, Or.inr hpq⟩
  · rintro ⟨h, hpq⟩
    exact hpq.imp (⟨h, ·⟩) (⟨h.symm, ·⟩)

theorem overlaps_nil_left (q : List Label) : Overlaps [] q := by
  obtain ⟨y, hy⟩ := exists_instance (Label.Refined.toRefinedPath q)
  exact ⟨[], y, .nil, hy, comparable_nil_left y⟩

theorem overlaps_nil_right (p : List Label) : Overlaps p [] := by
  obtain ⟨x, hx⟩ := exists_instance (Label.Refined.toRefinedPath p)
  exact ⟨x, [], hx, .nil, comparable_nil_right x⟩

/-- Both labels stand for one concrete label. -/
def Meet (k l : Label) : Prop :=
  ∃ m, (Label.Refined.toRefined k).Matches m ∧ (Label.Refined.toRefined l).Matches m

theorem overlaps_cons {k l : Label} {p q : List Label} :
    Overlaps (k :: p) (l :: q) ↔ Meet k l ∧ Overlaps p q := by
  constructor
  · rintro ⟨x, y, hx, hy, hxy⟩
    obtain ⟨m, x', hm, hx', rfl⟩ := List.forall₂_cons_left_iff.mp hx
    obtain ⟨m', y', hm', hy', rfl⟩ := List.forall₂_cons_left_iff.mp hy
    obtain ⟨rfl, hxy'⟩ := comparable_cons.mp hxy
    exact ⟨⟨m, hm, hm'⟩, x', y', hx', hy', hxy'⟩
  · rintro ⟨⟨m, hm, hm'⟩, x, y, hx, hy, hxy⟩
    exact ⟨m :: x, m :: y, .cons hm hx, .cons hm' hy, comparable_cons.mpr ⟨rfl, hxy⟩⟩

theorem meet_self (k : Label) : Meet k k := by
  cases k with
  | anyIndex => exact ⟨.index "", .anyIndex (Finset.notMem_empty _), .anyIndex (Finset.notMem_empty _)⟩
  | index i => exact ⟨.index i, .index i, .index i⟩
  | field f => exact ⟨.field f, .field f, .field f⟩

/-- Different labels meet only where one is `[*]` and the other an index. -/
theorem meet_iff {k l : Label} : Meet k l ↔
    k = l ∨ (∃ i, k = .anyIndex ∧ l = .index i) ∨ ∃ i, k = .index i ∧ l = .anyIndex := by
  constructor
  · rintro ⟨m, hk, hl⟩
    cases k <;> cases l <;> cases hk <;> cases hl <;> simp
  · rintro (rfl | ⟨i, rfl, rfl⟩ | ⟨i, rfl, rfl⟩)
    · exact meet_self k
    · exact ⟨.index i, .anyIndex (Finset.notMem_empty _), .index i⟩
    · exact ⟨.index i, .index i, .anyIndex (Finset.notMem_empty _)⟩

/-- **What the comparison of labels misses.** -/
theorem overlaps_iff (p q : List Label) : Overlaps p q ↔ Comparable p q ∨ SplitsAtIndex p q := by
  induction p generalizing q with
  | nil => exact iff_of_true (overlaps_nil_left q) (Or.inl (comparable_nil_left q))
  | cons k p ih =>
    cases q with
    | nil => exact iff_of_true (overlaps_nil_right _) (Or.inl (comparable_nil_right _))
    | cons l q =>
      rw [overlaps_cons, comparable_cons, meet_iff]
      constructor
      · rintro ⟨rfl | ⟨i, rfl, rfl⟩ | ⟨i, rfl, rfl⟩, hpq⟩
        · exact ((ih q).mp hpq).imp (⟨rfl, ·⟩) .deeper
        · exact Or.inr (.left hpq)
        · exact Or.inr (.right hpq)
      · rintro (⟨rfl, hpq⟩ | hsplit)
        · exact ⟨Or.inl rfl, (ih q).mpr (Or.inl hpq)⟩
        · cases hsplit with
          | left h => exact ⟨Or.inr (Or.inl ⟨_, rfl, rfl⟩), h⟩
          | right h => exact ⟨Or.inr (Or.inr ⟨_, rfl, rfl⟩), h⟩
          | deeper h => exact ⟨Or.inl rfl, (ih q).mpr (Or.inr h)⟩

/-! ## 2. Extra traces -/

/-- `CallInfo.t`; what only the report of a trace reads is of the type `I`. -/
inductive CallInfo (I : Type) where
  | declaration (info : I)
  | tito (info : I)
  | origin (info : I)
  | callSite (port : Root) (info : I)
  | overrideCall (port : Root) (info : I)
  deriving DecidableEq

variable {I : Type} [DecidableEq I]

def CallInfo.showAsExtraTrace : CallInfo I → Bool
  | .origin _ | .callSite _ _ | .overrideCall _ _ => true
  | .declaration _ | .tito _ => false

/-- The kinds of a node with the call info of their frames. -/
abbrev SinkTaint (I : Type) := Finset (CallInfo I × Taint.Sink)

structure FirstHop (I : Type) where
  callInfo : CallInfo I
  leafKind : Taint.Sink
  /-- The transforms that the message shows. -/
  message : TaintTransforms
  deriving DecidableEq

def matchCallInfo (titoRoots : Finset Root) (callInfo : CallInfo I) : Bool :=
  if callInfo.showAsExtraTrace then
    match callInfo with
    | .callSite port _ => decide (port ∈ titoRoots)
    | _ => true
  else false

/-- An entry that becomes the first hop of an extra trace. -/
def isFirstHop (namedTransforms : TaintTransforms) (titoRoots : Finset Root)
    (entry : CallInfo I × Taint.Sink) : Bool :=
  matchCallInfo titoRoots entry.1 &&
    decide (entry.2.discardTransforms = .extraTraceSink ∧
      entry.2.getNamedTransforms = namedTransforms)

def firstHops (namedTransforms : TaintTransforms) (titoRoots : Finset Root)
    (sinkTaint : SinkTaint I) : Finset (FirstHop I) :=
  (sinkTaint.filter fun entry => isFirstHop namedTransforms titoRoots entry).image fun entry =>
    ⟨entry.1, entry.2, entry.2.getNamedTransforms⟩

section Trees

variable (w : SinkTaint I → SinkTaint I)

def accumulateFromSinkPath (argumentAccessPath : List Label) (namedTransforms : TaintTransforms)
    (titoRoots : Finset Root) (path : List Label) (tip : SinkTaint I)
    (sofar : Finset (FirstHop I)) : Finset (FirstHop I) :=
  if !decide (path <+: argumentAccessPath ∨ argumentAccessPath <+: path) then sofar
  else firstHops namedTransforms titoRoots tip ∪ sofar

def fromSinkTrees (argumentAccessPath : List Label) (namedTransforms : TaintTransforms)
    (titoRoots : Finset Root) (sinkTrees : List (Tree (SinkTaint I))) : Finset (FirstHop I) :=
  sinkTrees.foldl (fun sofar sinkTree =>
    foldTreePaths (plainSet w) false sofar (fun path _ tip sofar =>
      accumulateFromSinkPath argumentAccessPath namedTransforms titoRoots path tip sofar)
      sinkTree ∪ sofar) ∅

/-- Whether the tito tree has a node on a related path. -/
def existTito (titoTree : Tree (SinkTaint I)) (sinkPath : List Label) : Bool :=
  foldTreePaths (plainSet w) false false (fun titoPath _ _ sofar =>
    sofar || decide (titoPath <+: sinkPath) || decide (sinkPath <+: titoPath)) titoTree

def removeSink (titoTree : Tree (SinkTaint I)) (sinkPath : List Label) (sinkTip : SinkTaint I) :
    List Label × SinkTaint I :=
  if existTito w titoTree sinkPath then (sinkPath, sinkTip) else (sinkPath, ∅)

def prune (sinkTree titoTree : Tree (SinkTaint I)) : Tree (SinkTaint I) :=
  filterMapTreePaths (plainSet w) false (fun path _ tip => removeSink w titoTree path tip) sinkTree

/-! ## 3. What the code finds -/

def Eligible (namedTransforms : TaintTransforms) (titoRoots : Finset Root)
    (sinkTaint : SinkTaint I) : Prop :=
  ∃ entry ∈ sinkTaint, isFirstHop namedTransforms titoRoots entry = true

theorem firstHops_nonempty_iff {namedTransforms : TaintTransforms} {titoRoots : Finset Root}
    {sinkTaint : SinkTaint I} :
    (firstHops namedTransforms titoRoots sinkTaint).Nonempty ↔
      Eligible namedTransforms titoRoots sinkTaint := by
  simp [firstHops, Finset.filter_nonempty_iff, Eligible]

theorem fromSinkTrees_nonempty_iff (argumentAccessPath : List Label)
    (namedTransforms : TaintTransforms) (titoRoots : Finset Root)
    (sinkTrees : List (Tree (SinkTaint I))) :
    (fromSinkTrees w argumentAccessPath namedTransforms titoRoots sinkTrees).Nonempty ↔
      ∃ sinkTree ∈ sinkTrees, ∃ n ∈ nodes (plainSet w) false sinkTree,
        Eligible namedTransforms titoRoots n.element ∧ Comparable argumentAccessPath n.path := by
  have hnode : ∀ (sofar : Finset (FirstHop I)) (n : PathWithAncestors (SinkTaint I)),
      (accumulateFromSinkPath argumentAccessPath namedTransforms titoRoots n.path n.element
        sofar).Nonempty ↔ sofar.Nonempty ∨
        Eligible namedTransforms titoRoots n.element ∧ Comparable argumentAccessPath n.path := by
    intro sofar n
    unfold accumulateFromSinkPath Comparable
    by_cases hpath : n.path <+: argumentAccessPath ∨ argumentAccessPath <+: n.path
    · simp [hpath, hpath.symm, Finset.union_nonempty, firstHops_nonempty_iff, or_comm]
    · simp [hpath, mt Or.symm hpath]
  have htree : ∀ (sofar : Finset (FirstHop I)) (sinkTree : Tree (SinkTaint I)),
      (foldTreePaths (plainSet w) false sofar (fun path _ tip sofar =>
        accumulateFromSinkPath argumentAccessPath namedTransforms titoRoots path tip sofar)
        sinkTree ∪ sofar).Nonempty ↔ sofar.Nonempty ∨
        ∃ n ∈ nodes (plainSet w) false sinkTree,
          Eligible namedTransforms titoRoots n.element ∧ Comparable argumentAccessPath n.path := by
    intro sofar sinkTree
    rw [foldTreePaths_eq, Finset.union_nonempty, foldl_seen_iff Finset.Nonempty hnode,
      or_right_comm, or_self]
  rw [fromSinkTrees, foldl_seen_iff Finset.Nonempty htree]
  simp

theorem existTito_iff (titoTree : Tree (SinkTaint I)) (sinkPath : List Label) :
    existTito w titoTree sinkPath = true ↔
      ∃ m ∈ nodes (plainSet w) false titoTree, Comparable m.path sinkPath := by
  rw [existTito, foldTreePaths_eq,
    foldl_seen_iff (· = true) (P := fun m => Comparable m.path sinkPath) fun sofar m => by
      simp [Comparable, or_assoc]]
  simp

/-! ## 4. What is left of a sink tree -/

theorem subtreeAt_mapPathElements {E : Type} (f : List Label → E → E) (path : List Label)
    (t : Tree E) :
    subtreeAt (mapPathElements f t) path =
      (subtreeAt t path).map (mapPathElements fun below => f (path ++ below)) := by
  induction path generalizing f t with
  | nil => rfl
  | cons k path ih =>
    rw [subtreeAt_cons, subtreeAt_cons, find?_mapPathElements]
    cases t.children.find? k with
    | none => rfl
    | some s => exact ih (fun below => f (k :: below)) s

theorem covers_mapPathElements {E : Type} (f : List Label → E → E) {t : Tree E}
    {path p : List Label} (h : Covers t path p) : Covers (mapPathElements f t) path p := by
  induction h generalizing f with
  | nil t => exact .nil _
  | @cons t s k l path p hk hl h ih =>
    refine .cons (s := mapPathElements (fun below => f (k :: below)) s) ?_ ?_ (ih _)
    · rw [find?_mapPathElements, hk]
      rfl
    · cases hl with
      | anyIndex hi => exact .anyIndex (by rw [find?_mapPathElements, hi]; rfl)
      | index i => exact .index i
      | field f => exact .field f

theorem prune_eq (sinkTree titoTree : Tree (SinkTaint I)) :
    prune w sinkTree titoTree = optionNodeTree (plainSet w) (pruneTree (plainSet w) ∅
      (mapPathElements (fun path tip => (removeSink w titoTree path tip).2) sinkTree)) := by
  rw [← filterMapTreePaths_path_eq (w := w) fun path => by unfold removeSink; split <;> rfl]
  have hpath : ∀ path tip,
      removeSink w titoTree path tip = (path, (removeSink w titoTree path tip).2) := by
    intro path tip
    unfold removeSink
    split <;> rfl
  unfold prune
  congr 1
  funext path _ tip
  exact hpath path tip

/-- A node that is handed back is read in the new tree wherever it was read. -/
theorem subset_taintAt_prune {sinkTree titoTree : Tree (SinkTaint I)}
    {n : PathWithAncestors (SinkTaint I)} (hn : n ∈ nodes (plainSet w) false sinkTree)
    (hkept : removeSink w titoTree n.path n.element = (n.path, n.element)) {p : List Label}
    (hp : Covers sinkTree n.path p) : n.element ⊆ taintAt p (prune w sinkTree titoTree) := by
  intro entry hentry
  obtain ⟨s, hs, -, helement, -⟩ := (mem_nodes (plainSet w) false sinkTree n).mp hn
  have hnew : entry ∈ taintAt p
      (mapPathElements (fun path tip => (removeSink w titoTree path tip).2) sinkTree) := by
    have hnode := subtreeAt_mapPathElements
      (fun path tip => (removeSink w titoTree path tip).2) n.path sinkTree
    rw [hs, Option.map_some] at hnode
    refine (mem_taintAt_iff hp.concrete _ _).mpr
      ⟨p, n.path, List.prefix_rfl, covers_mapPathElements _ hp, _, hnode, ?_⟩
    rw [element_mapPathElements, List.append_nil, ← helement, hkept]
    exact hentry
  rw [prune_eq]
  simpa using taintAt_subset_pruneTree (w := w) ∅ _ hp.concrete hnew

/-! ## 5. What is kept -/

/-- A sink that overlaps the tito path is found. -/
def KeepsFlow (argumentAccessPath : List Label) (namedTransforms : TaintTransforms)
    (titoRoots : Finset Root) (sinkTrees : List (Tree (SinkTaint I))) : Prop :=
  (∃ sinkTree ∈ sinkTrees, ∃ n ∈ nodes (plainSet w) false sinkTree,
    Eligible namedTransforms titoRoots n.element ∧ Overlaps argumentAccessPath n.path) →
  (fromSinkTrees w argumentAccessPath namedTransforms titoRoots sinkTrees).Nonempty

def HoldsExtraTraceSink (sinkTaint : SinkTaint I) : Prop :=
  ∃ entry ∈ sinkTaint, entry.2.discardTransforms = .extraTraceSink

/-- A sink that overlaps some tito is handed back, and is in the new tree. -/
def KeepsSinks (sinkTree titoTree : Tree (SinkTaint I)) : Prop :=
  ∀ n ∈ nodes (plainSet w) false sinkTree, HoldsExtraTraceSink n.element →
    (∃ m ∈ nodes (plainSet w) false titoTree, Overlaps m.path n.path) →
    removeSink w titoTree n.path n.element = (n.path, n.element) ∧
      ∀ p, Covers sinkTree n.path p → n.element ⊆ taintAt p (prune w sinkTree titoTree)

theorem removeSink_eq_iff {titoTree : Tree (SinkTaint I)} {n : PathWithAncestors (SinkTaint I)}
    (hn : HoldsExtraTraceSink n.element) :
    removeSink w titoTree n.path n.element = (n.path, n.element) ↔
      ∃ m ∈ nodes (plainSet w) false titoTree, Comparable m.path n.path := by
  rw [← existTito_iff, removeSink]
  split
  · rename_i hexist
    exact iff_of_true rfl hexist
  · rename_i hexist
    refine iff_of_false (fun h => ?_) hexist
    obtain ⟨entry, hentry, -⟩ := hn
    rw [Prod.mk.injEq] at h
    exact absurd (h.2 ▸ hentry) (Finset.notMem_empty entry)

theorem keepsFlow_iff (argumentAccessPath : List Label) (namedTransforms : TaintTransforms)
    (titoRoots : Finset Root) (sinkTrees : List (Tree (SinkTaint I))) :
    KeepsFlow w argumentAccessPath namedTransforms titoRoots sinkTrees ↔
      ((∃ sinkTree ∈ sinkTrees, ∃ n ∈ nodes (plainSet w) false sinkTree,
          Eligible namedTransforms titoRoots n.element ∧
            SplitsAtIndex argumentAccessPath n.path) →
        ∃ sinkTree ∈ sinkTrees, ∃ n ∈ nodes (plainSet w) false sinkTree,
          Eligible namedTransforms titoRoots n.element ∧
            Comparable argumentAccessPath n.path) := by
  rw [KeepsFlow, fromSinkTrees_nonempty_iff]
  constructor
  · rintro h ⟨sinkTree, hsinkTree, n, hn, heligible, hsplit⟩
    exact h ⟨sinkTree, hsinkTree, n, hn, heligible, (overlaps_iff _ _).mpr (Or.inr hsplit)⟩
  · rintro h ⟨sinkTree, hsinkTree, n, hn, heligible, hoverlaps⟩
    rcases (overlaps_iff _ _).mp hoverlaps with hcomparable | hsplit
    · exact ⟨sinkTree, hsinkTree, n, hn, heligible, hcomparable⟩
    · exact h ⟨sinkTree, hsinkTree, n, hn, heligible, hsplit⟩

theorem keepsSinks_iff (sinkTree titoTree : Tree (SinkTaint I)) :
    KeepsSinks w sinkTree titoTree ↔
      ∀ n ∈ nodes (plainSet w) false sinkTree, HoldsExtraTraceSink n.element →
        (∃ m ∈ nodes (plainSet w) false titoTree, SplitsAtIndex m.path n.path) →
        ∃ m ∈ nodes (plainSet w) false titoTree, Comparable m.path n.path := by
  constructor
  · rintro h n hn hholds ⟨m, hm, hsplit⟩
    exact (removeSink_eq_iff w hholds).mp
      (h n hn hholds ⟨m, hm, (overlaps_iff _ _).mpr (Or.inr hsplit)⟩).1
  · rintro h n hn hholds ⟨m, hm, hoverlaps⟩
    have hcomparable : ∃ m ∈ nodes (plainSet w) false titoTree, Comparable m.path n.path := by
      rcases (overlaps_iff _ _).mp hoverlaps with hcomparable | hsplit
      · exact ⟨m, hm, hcomparable⟩
      · exact h n hn hholds ⟨m, hm, hsplit⟩
    have hkept := (removeSink_eq_iff w hholds).mpr hcomparable
    exact ⟨hkept, fun p hp => subset_taintAt_prune w hn hkept hp⟩

/-- **What overlaps is kept exactly if what parts at an index is not all there is**: of the sinks of
    the callee for a tito path, and of the tito for a sink. -/
theorem keepsOverlapping_iff (argumentAccessPath : List Label) (namedTransforms : TaintTransforms)
    (titoRoots : Finset Root) (sinkTrees : List (Tree (SinkTaint I)))
    (sinkTree titoTree : Tree (SinkTaint I)) :
    (KeepsFlow w argumentAccessPath namedTransforms titoRoots sinkTrees ∧
        KeepsSinks w sinkTree titoTree) ↔
      ((∃ sinkTree ∈ sinkTrees, ∃ n ∈ nodes (plainSet w) false sinkTree,
          Eligible namedTransforms titoRoots n.element ∧
            SplitsAtIndex argumentAccessPath n.path) →
        ∃ sinkTree ∈ sinkTrees, ∃ n ∈ nodes (plainSet w) false sinkTree,
          Eligible namedTransforms titoRoots n.element ∧
            Comparable argumentAccessPath n.path) ∧
      ∀ n ∈ nodes (plainSet w) false sinkTree, HoldsExtraTraceSink n.element →
        (∃ m ∈ nodes (plainSet w) false titoTree, SplitsAtIndex m.path n.path) →
        ∃ m ∈ nodes (plainSet w) false titoTree, Comparable m.path n.path :=
  and_congr (keepsFlow_iff w argumentAccessPath namedTransforms titoRoots sinkTrees)
    (keepsSinks_iff w sinkTree titoTree)

end Trees

/-- A tree with one entry at one label. -/
def singleEntry (k : Label) (entry : CallInfo Unit × Taint.Sink) : Tree (SinkTaint Unit) :=
  .node ∅ (.singleton k (createLeaf {entry}))

/-- Tito on `[*]` and a sink on `[0]`: both sides lose what overlaps. -/
theorem not_keepsOverlapping :
    ¬ KeepsFlow id [.anyIndex] [] ∅
        [singleEntry (.index "0") (.origin (), .extraTraceSink)] ∧
      ¬ KeepsSinks id (singleEntry (.index "0") (.origin (), .extraTraceSink))
        (singleEntry .anyIndex (.tito (), .localReturn)) := by
  have hoverlaps : Overlaps [.anyIndex] [.index "0"] :=
    (overlaps_iff _ _).mpr (Or.inr (.left (overlaps_nil_left [])))
  constructor
  · intro h
    have hfound := h ⟨_, List.mem_singleton_self _, ⟨[.index "0"], ∅, {(.origin (), .extraTraceSink)}⟩,
      by decide +kernel, ⟨_, Finset.mem_singleton_self _, by decide +kernel⟩, hoverlaps⟩
    exact absurd hfound (by decide +kernel)
  · intro h
    have hkept := (h ⟨[.index "0"], ∅, {(.origin (), .extraTraceSink)}⟩ (by decide +kernel)
      ⟨_, Finset.mem_singleton_self _, rfl⟩
      ⟨⟨[.anyIndex], ∅, {(.tito (), .localReturn)}⟩, by decide +kernel, hoverlaps⟩).1
    exact absurd hkept (by decide +kernel)

end Pysa.ExtraTraces
