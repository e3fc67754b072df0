/-
  Subject: WHAT ONE VISIT OF THE DEPTH-FIRST WALK DOES.

  * `Inv` -- the invariant over the classes that were left: their children were left before, the
    times of a child are times of the parent, a time in the interval of a class is an endpoint of
    a class below it, and no two classes share an endpoint;
  * `Grows` -- what a visit may change: it leaves every visited class alone, save for the cross
    edges of the class whose children are visited;
  * `depthFirstSearch_spec` -- **in an acyclic graph a visit succeeds, keeps the invariant, and
    leaves the class**.
-/
import Pysa.Interprocedural.ClassIntervalSetGraph

namespace Pysa.ClassIntervalSetGraph

open ClassHierarchyGraph

/-! ## 1. The times of a class -/

namespace Walk

def Visited (walk : Walk) (node : ClassId) : Prop := walk.states.find? node ≠ none

def Black (walk : Walk) (node : ClassId) : Prop := walk.states.find? node = some .black

def span (walk : Walk) (node : ClassId) : Set Int :=
  {t | ∃ interval, walk.intervals.find? node = some interval ∧ t ∈ interval.denote}

/-- `target` is a cross edge of `node`. -/
def Cross (crossEdges : ClassIdMap ClassIdSet) (node target : ClassId) : Prop :=
  ∃ nodes, crossEdges.find? node = some nodes ∧ target ∈ nodes

def crossSpan (walk : Walk) (node : ClassId) : Set Int :=
  {t | ∃ target, Cross walk.crossEdges node target ∧ t ∈ walk.span target}

def reachSpan (walk : Walk) (node : ClassId) : Set Int := walk.span node ∪ walk.crossSpan node

/-- `t` is the time at which `node` was entered or left. -/
def Endpoint (walk : Walk) (t : Int) (node : ClassId) : Prop :=
  ∃ lower upper hle, walk.intervals.find? node = some (.interval lower upper hle) ∧
    (t = lower ∨ t = upper)

theorem Black.visited {walk : Walk} {node : ClassId} (h : walk.Black node) :
    walk.Visited node := by
  unfold Visited
  rw [show walk.states.find? node = _ from h]
  exact Option.some_ne_none _

end Walk

open Walk

theorem cross_addDirect {source target node x : ClassId} {crossEdges : ClassIdMap ClassIdSet} :
    Cross (addDirectCrossEdge source target crossEdges) node x ↔
      Cross crossEdges node x ∨ node = source ∧ x = target := by
  unfold Cross addDirectCrossEdge
  rw [SortedMap.find?_update]
  by_cases hnode : node = source
  · subst hnode
    rw [if_pos rfl]
    cases crossEdges.find? node with
    | none => simp
    | some nodes => simp [or_comm]
  · rw [if_neg hnode]
    simp [hnode]

theorem cross_addIndirect {source target node x : ClassId} {crossEdges : ClassIdMap ClassIdSet} :
    Cross (addIndirectCrossEdge source target crossEdges) node x ↔
      Cross crossEdges node x ∨ node = source ∧ Cross crossEdges target x := by
  unfold addIndirectCrossEdge
  cases htarget : crossEdges.find? target with
  | none =>
    have hempty : ¬ Cross crossEdges target x := by
      rintro ⟨nodes, hnodes, -⟩
      rw [htarget] at hnodes
      cases hnodes
    simp [hempty]
  | some nodes =>
    have hcross : Cross crossEdges target x ↔ x ∈ nodes := by simp [Cross, htarget]
    rw [hcross]
    unfold Cross
    dsimp only
    rw [SortedMap.find?_update]
    by_cases hnode : node = source
    · subst hnode
      rw [if_pos rfl]
      cases crossEdges.find? node with
      | none => simp
      | some originalNodes => simp [or_comm]
    · rw [if_neg hnode]
      simp [hnode]

theorem find?_addDirect {source target node : ClassId} {crossEdges : ClassIdMap ClassIdSet}
    (h : node ≠ source) :
    (addDirectCrossEdge source target crossEdges).find? node = crossEdges.find? node := by
  unfold addDirectCrossEdge
  rw [SortedMap.find?_update, if_neg h]

theorem find?_addIndirect {source target node : ClassId} {crossEdges : ClassIdMap ClassIdSet}
    (h : node ≠ source) :
    (addIndirectCrossEdge source target crossEdges).find? node = crossEdges.find? node := by
  unfold addIndirectCrossEdge
  cases crossEdges.find? target with
  | none => rfl
  | some nodes => exact (SortedMap.find?_update _ _ _ _).trans (if_neg h)

/-! ## 2. The invariant -/

variable {graph : ClassHierarchyGraph}

structure Inv (graph : ClassHierarchyGraph) (walk : Walk) : Prop where
  interval : ∀ node, walk.Black node → ∃ lower upper hle,
    walk.intervals.find? node = some (.interval lower upper hle) ∧ upper ≤ walk.time
  onlyBlack : ∀ node interval, walk.intervals.find? node = some interval → walk.Black node
  closed : ∀ node child, walk.Black node → graph.Child node child → walk.Black child
  cross : ∀ node target, Cross walk.crossEdges node target →
    walk.Black target ∧ graph.Subclass target node
  nested : ∀ node child, walk.Black node → graph.Child node child →
    walk.reachSpan child ⊆ walk.reachSpan node
  endpoints : ∀ node t, t ∈ walk.span node → ∃ x, walk.Endpoint t x ∧ graph.Subclass x node
  distinct : ∀ t x y, walk.Endpoint t x → walk.Endpoint t y → x = y

theorem Inv.endpoint_le {walk : Walk} (h : Inv graph walk) {t : Int} {node : ClassId}
    (ht : walk.Endpoint t node) : t ≤ walk.time := by
  obtain ⟨lower, upper, hle, hfind, ht⟩ := ht
  obtain ⟨lower', upper', hle', hfind', hupper⟩ := h.interval node (h.onlyBlack _ _ hfind)
  rw [hfind] at hfind'
  cases hfind'
  omega

theorem inv_initial : Inv graph Walk.initial := by
  have hfind (node : ClassId) : Walk.initial.intervals.find? node = none := SortedMap.find?_empty _
  have hblack (node : ClassId) : ¬ Walk.initial.Black node := by
    intro h
    have h := (SortedMap.find?_empty node).symm.trans (show _ = _ from h)
    cases h
  have hend (t : Int) (node : ClassId) : ¬ Walk.initial.Endpoint t node := by
    rintro ⟨lower, upper, hle, h, -⟩
    rw [hfind] at h
    cases h
  constructor
  · exact fun node h => absurd h (hblack node)
  · intro node interval h
    rw [hfind] at h
    cases h
  · exact fun node _ h => absurd h (hblack node)
  · rintro node target ⟨nodes, h, -⟩
    rw [show Walk.initial.crossEdges.find? node = none from SortedMap.find?_empty _] at h
    cases h
  · exact fun node _ h => absurd h (hblack node)
  · rintro node t ⟨interval, h, -⟩
    rw [hfind] at h
    cases h
  · exact fun t x _ h => absurd h (hend t x)

/-- What visiting children of `node` may change. -/
structure Grows (graph : ClassHierarchyGraph) (node : ClassId) (walk walk' : Walk) : Prop where
  states : ∀ x, walk.Visited x → walk'.states.find? x = walk.states.find? x
  intervals : ∀ x, walk.Visited x → walk'.intervals.find? x = walk.intervals.find? x
  crossEdges : ∀ x, walk.Visited x → x ≠ node →
    walk'.crossEdges.find? x = walk.crossEdges.find? x
  crossGrows : ∀ target, walk.Visited node → Cross walk.crossEdges node target →
    Cross walk'.crossEdges node target
  time : walk.time ≤ walk'.time
  new : ∀ x, ¬ walk.Visited x → walk'.Visited x →
    walk'.Black x ∧ graph.Subclass x node ∧ ∀ t ∈ walk'.span x, walk.time < t

namespace Grows

variable {node child : ClassId} {walk walk' walk'' : Walk}

theorem refl : Grows graph node walk walk where
  states _ _ := rfl
  intervals _ _ := rfl
  crossEdges _ _ _ := rfl
  crossGrows _ _ h := h
  time := le_rfl
  new _ h h' := absurd h' h

theorem visited (h : Grows graph node walk walk') {x : ClassId} (hx : walk.Visited x) :
    walk'.Visited x := by
  unfold Visited
  rw [h.states x hx]
  exact hx

theorem black (h : Grows graph node walk walk') {x : ClassId} (hx : walk.Black x) :
    walk'.Black x := (h.states x hx.visited).trans hx

theorem span (h : Grows graph node walk walk') {x : ClassId} (hx : walk.Visited x) :
    walk'.span x = walk.span x := by
  unfold Walk.span
  rw [h.intervals x hx]

theorem endpoint (h : Grows graph node walk walk') {t : Int} {x : ClassId} (hx : walk.Visited x) :
    walk'.Endpoint t x ↔ walk.Endpoint t x := by
  unfold Endpoint
  rw [h.intervals x hx]

theorem trans (h : Grows graph node walk walk') (h' : Grows graph node walk' walk'') :
    Grows graph node walk walk'' where
  states x hx := (h'.states x (h.visited hx)).trans (h.states x hx)
  intervals x hx := (h'.intervals x (h.visited hx)).trans (h.intervals x hx)
  crossEdges x hx hne := (h'.crossEdges x (h.visited hx) hne).trans (h.crossEdges x hx hne)
  crossGrows target hnode hcross :=
    h'.crossGrows target (h.visited hnode) (h.crossGrows target hnode hcross)
  time := h.time.trans h'.time
  new x hx hx'' := by
    by_cases hx' : walk'.Visited x
    · obtain ⟨hblack, hsub, hspan⟩ := h.new x hx hx'
      refine ⟨h'.black hblack, hsub, fun t ht => hspan t ?_⟩
      rwa [h'.span hx'] at ht
    · obtain ⟨hblack, hsub, hspan⟩ := h'.new x hx' hx''
      exact ⟨hblack, hsub, fun t ht => h.time.trans_lt (hspan t ht)⟩

/-- The visit of a child, seen from the parent. -/
theorem ofChild (h : Grows graph child walk walk') (hchild : graph.Child node child)
    (hnew : ¬ walk.Visited child) : Grows graph node walk walk' where
  states := h.states
  intervals := h.intervals
  crossEdges x hx _ := h.crossEdges x hx fun heq => hnew (heq ▸ hx)
  crossGrows target hnode hcross := by
    unfold Cross
    rwa [h.crossEdges node hnode fun heq => hnew (heq ▸ hnode)]
  time := h.time
  new x hx hx' := by
    obtain ⟨hblack, hsub, hspan⟩ := h.new x hx hx'
    exact ⟨hblack, Relation.ReflTransGen.head hchild hsub, hspan⟩

end Grows

theorem Walk.Endpoint.mem_span {walk : Walk} {t : Int} {x : ClassId} (h : walk.Endpoint t x) :
    t ∈ walk.span x := by
  obtain ⟨lower, upper, hle, hfind, ht⟩ := h
  refine ⟨_, hfind, ?_⟩
  rcases ht with rfl | rfl
  · exact ⟨le_rfl, hle⟩
  · exact ⟨hle, le_rfl⟩

theorem Inv.endpoint_black {walk : Walk} (h : Inv graph walk) {t : Int} {x : ClassId}
    (hx : walk.Endpoint t x) : walk.Black x := by
  obtain ⟨lower, upper, hle, hfind, -⟩ := hx
  exact h.onlyBlack _ _ hfind

section Frame

variable {node : ClassId} {walk walk' : Walk}

theorem Grows.crossSpan_subset (h : Grows graph node walk walk') (hinv : Inv graph walk)
    (hnode : walk.Visited node) : walk.crossSpan node ⊆ walk'.crossSpan node := by
  rintro t ⟨target, hcross, ht⟩
  refine ⟨target, h.crossGrows target hnode hcross, ?_⟩
  rwa [h.span (hinv.cross _ _ hcross).1.visited]

/-- A visit leaves the times of a class alone that was left before. -/
theorem Grows.reachSpan (h : Grows graph node walk walk') (hinv : Inv graph walk) {x : ClassId}
    (hx : walk.Black x) (hne : x ≠ node) : walk'.reachSpan x = walk.reachSpan x := by
  have hcross (target : ClassId) :
      Cross walk'.crossEdges x target ↔ Cross walk.crossEdges x target := by
    unfold Cross
    rw [h.crossEdges x hx.visited hne]
  have hcrossSpan : walk'.crossSpan x = walk.crossSpan x := by
    ext t
    constructor
    · rintro ⟨target, htarget, ht⟩
      have htarget := (hcross target).mp htarget
      rw [h.span (hinv.cross _ _ htarget).1.visited] at ht
      exact ⟨target, htarget, ht⟩
    · rintro ⟨target, htarget, ht⟩
      refine ⟨target, (hcross target).mpr htarget, ?_⟩
      rwa [h.span (hinv.cross _ _ htarget).1.visited]
  unfold Walk.reachSpan
  rw [h.span hx.visited, hcrossSpan]

/-- New cross edges of a class that was not left yet. -/
theorem Inv.addCross (h : Inv graph walk) (crossEdges : ClassIdMap ClassIdSet)
    (hnode : ¬ walk.Black node)
    (hother : ∀ x, x ≠ node → crossEdges.find? x = walk.crossEdges.find? x)
    (hgrow : ∀ target, Cross walk.crossEdges node target → Cross crossEdges node target)
    (hnew : ∀ target, Cross crossEdges node target →
      walk.Black target ∧ graph.Subclass target node) :
    Inv graph { walk with crossEdges := crossEdges } ∧
      Grows graph node walk { walk with crossEdges := crossEdges } := by
  have hgrows : Grows graph node walk { walk with crossEdges := crossEdges } :=
    ⟨fun _ _ => rfl, fun _ _ => rfl, fun x _ hne => hother x hne, fun target _ => hgrow target,
      le_rfl, fun x hx hx' => absurd hx' hx⟩
  refine ⟨⟨h.interval, h.onlyBlack, h.closed, ?_, ?_, h.endpoints, h.distinct⟩, hgrows⟩
  · intro x target hcross
    by_cases hx : x = node
    · subst hx
      exact hnew target hcross
    · refine h.cross x target ?_
      unfold Cross at hcross ⊢
      rwa [← hother x hx]
  · intro x child hx hchild
    have hblack : walk.Black child := h.closed x child hx hchild
    rw [hgrows.reachSpan h hx fun heq => hnode (heq ▸ hx),
      hgrows.reachSpan h hblack fun heq => hnode (heq ▸ hblack)]
    exact h.nested x child hx hchild

end Frame

/-! ## 3. Visiting the children of a class -/

/-- The classes that are still to be entered. -/
def unvisited (graph : ClassHierarchyGraph) (walk : Walk) : ℕ :=
  graph.nodes.elements.countP fun node => (walk.states.find? node).isNone

theorem Grows.unvisited_le {node : ClassId} {walk walk' : Walk}
    (h : Grows graph node walk walk') : unvisited graph walk' ≤ unvisited graph walk := by
  refine List.countP_mono_left fun x _ hx => ?_
  rw [Option.isNone_iff_eq_none] at hx ⊢
  by_contra hvisited
  exact h.visited hvisited hx

/-- `node` was entered at `start`, and of its children `seen` were visited. -/
structure Visiting (graph : ClassHierarchyGraph) (fuel : ℕ) (node : ClassId) (start : Int)
    (seen : List ClassId) (walk : Walk) : Prop where
  inv : Inv graph walk
  grey : walk.states.find? node = some .grey
  ancestors : ∀ x, walk.states.find? x = some .grey → graph.Subclass node x
  started : start ≤ walk.time
  fresh : ∀ x, ¬ walk.Endpoint start x
  times : ∀ t, start < t → t ≤ walk.time → ∃ x, walk.Endpoint t x ∧ graph.Subclass x node
  room : unvisited graph walk ≤ fuel
  seen : ∀ child ∈ seen, walk.Black child ∧
    walk.reachSpan child ⊆ Set.Icc start walk.time ∪ walk.crossSpan node

namespace Visiting

variable {fuel : ℕ} {node : ClassId} {start : Int} {seen : List ClassId} {walk walk' : Walk}

theorem visited (h : Visiting graph fuel node start seen walk) : walk.Visited node := by
  unfold Walk.Visited
  rw [h.grey]
  exact Option.some_ne_none _

theorem notBlack (h : Visiting graph fuel node start seen walk) : ¬ walk.Black node := by
  intro hblack
  have hgrey := h.grey.symm.trans hblack
  cases hgrey

theorem ne_of_black (h : Visiting graph fuel node start seen walk) {x : ClassId}
    (hx : walk.Black x) : x ≠ node := by
  rintro rfl
  exact h.notBlack hx

/-- A step that grows the walk keeps what is known of the children that were seen. -/
theorem grow (h : Visiting graph fuel node start seen walk) (hinv : Inv graph walk')
    (hgrows : Grows graph node walk walk')
    (htimes : ∀ t, walk.time < t → t ≤ walk'.time →
      ∃ x, walk'.Endpoint t x ∧ graph.Subclass x node) :
    Visiting graph fuel node start seen walk' where
  inv := hinv
  grey := (hgrows.states node h.visited).trans h.grey
  ancestors x hx := by
    by_cases hvisited : walk.Visited x
    · exact h.ancestors x ((hgrows.states x hvisited).symm.trans hx)
    · have hx' : walk'.Visited x := by
        unfold Walk.Visited
        rw [hx]
        exact Option.some_ne_none _
      -- a class that is new was left already
      have hblack := (hgrows.new x hvisited hx').1.symm.trans hx
      cases hblack
  started := h.started.trans hgrows.time
  fresh x hx := by
    by_cases hvisited : walk.Visited x
    · exact h.fresh x ((hgrows.endpoint hvisited).mp hx)
    · have hlate := (hgrows.new x hvisited (hinv.endpoint_black hx).visited).2.2 _ hx.mem_span
      have := h.started
      omega
  times t hstart ht := by
    by_cases hold : t ≤ walk.time
    · obtain ⟨x, hx, hsub⟩ := h.times t hstart hold
      exact ⟨x, (hgrows.endpoint (h.inv.endpoint_black hx).visited).mpr hx, hsub⟩
    · exact htimes t (by omega) ht
  room := hgrows.unvisited_le.trans h.room
  seen child hchild := by
    obtain ⟨hblack, hsub⟩ := h.seen child hchild
    refine ⟨hgrows.black hblack, ?_⟩
    rw [hgrows.reachSpan h.inv hblack (h.ne_of_black hblack)]
    intro t ht
    rcases hsub ht with ht | ht
    · exact Or.inl ⟨ht.1, ht.2.trans hgrows.time⟩
    · exact Or.inr (hgrows.crossSpan_subset h.inv h.visited ht)

end Visiting

/-- A visit of `node` succeeds, and `node` is left with its interval. -/
def Visits (graph : ClassHierarchyGraph) (node : ClassId) (walk : Walk)
    (result : Except Failure Walk) : Prop :=
  ∃ walk' hle, result = .ok walk' ∧ Inv graph walk' ∧ Grows graph node walk walk' ∧
    walk'.Black node ∧
    walk'.intervals.find? node = some (.interval (walk.time + 1) walk'.time hle)

/-- When the walk may enter `node`. -/
structure Enterable (graph : ClassHierarchyGraph) (fuel : ℕ) (node : ClassId) (walk : Walk) :
    Prop where
  inv : Inv graph walk
  isNode : node ∈ graph.nodes
  new : ¬ walk.Visited node
  ancestors : ∀ x, walk.states.find? x = some .grey → graph.Subclass node x
  room : unvisited graph walk ≤ fuel

namespace Visiting

variable {fuel : ℕ} {node child : ClassId} {start : Int} {seen : List ClassId} {walk walk' : Walk}
  {search : ClassId → Walk → Except Failure Walk}

theorem see (h : Visiting graph fuel node start seen walk) (hblack : walk.Black child)
    (hsub : walk.reachSpan child ⊆ Set.Icc start walk.time ∪ walk.crossSpan node) :
    Visiting graph fuel node start (child :: seen) walk :=
  { h with
    seen := by
      intro x hx
      rcases List.mem_cons.mp hx with rfl | hx
      · exact ⟨hblack, hsub⟩
      · exact h.seen x hx }

/-- The child is entered, and its cross edges become those of the parent. -/
theorem enterChild (h : Visiting graph fuel node start seen walk) (hchild : graph.Child node child)
    (hnew : ¬ walk.Visited child) (hvisits : Visits graph child walk (search child walk)) :
    ∃ walk', visitChild search node walk child = .ok walk' ∧
      Visiting graph fuel node start (child :: seen) walk' ∧ Grows graph node walk walk' := by
  obtain ⟨walk₁, hle, hrun, hinv₁, hgrows₁, hblack₁, hfind₁⟩ := hvisits
  have hgrows₁ := hgrows₁.ofChild hchild hnew
  have hspan₁ : walk₁.span child = Set.Icc (walk.time + 1) walk₁.time := by
    unfold Walk.span
    rw [hfind₁]
    ext t
    simp [ClassInterval.denote]
  have h₁ := h.grow hinv₁ hgrows₁ (by
    intro t hlow hup
    have ht : t ∈ walk₁.span child := by
      rw [hspan₁]
      exact ⟨hlow, hup⟩
    obtain ⟨x, hx, hsub⟩ := hinv₁.endpoints child t ht
    exact ⟨x, hx, Relation.ReflTransGen.head hchild hsub⟩)
  obtain ⟨hinv₂, hgrows₂⟩ := hinv₁.addCross
    (addIndirectCrossEdge node child walk₁.crossEdges) h₁.notBlack
    (fun x hne => find?_addIndirect hne)
    (fun target hcross => cross_addIndirect.mpr (Or.inl hcross))
    (by
      intro target hcross
      rcases cross_addIndirect.mp hcross with hcross | ⟨-, hcross⟩
      · exact hinv₁.cross _ _ hcross
      · obtain ⟨hblack, hsub⟩ := hinv₁.cross _ _ hcross
        exact ⟨hblack, Relation.ReflTransGen.head hchild hsub⟩)
  have hne : child ≠ node := fun heq => hnew (heq ▸ h.visited)
  refine ⟨_, ?_, (h₁.grow hinv₂ hgrows₂ fun t hlow hup => absurd hup (not_le.mpr hlow)).see
    hblack₁ ?_, hgrows₁.trans hgrows₂⟩
  · unfold visitChild
    rw [not_not.mp hnew, hrun]
    rfl
  · rw [hgrows₂.reachSpan hinv₁ hblack₁ hne]
    rintro t (ht | ⟨target, hcross, ht⟩)
    · rw [hspan₁] at ht
      have := h.started
      exact Or.inl ⟨by have := ht.1; omega, ht.2⟩
    · exact Or.inr ⟨target, cross_addIndirect.mpr (Or.inr ⟨rfl, hcross⟩), ht⟩

/-- A child that was left before becomes a cross edge. -/
theorem crossChild (h : Visiting graph fuel node start seen walk) (hchild : graph.Child node child)
    (hblack : walk.Black child) :
    ∃ walk', visitChild search node walk child = .ok walk' ∧
      Visiting graph fuel node start (child :: seen) walk' ∧ Grows graph node walk walk' := by
  have hne : child ≠ node := h.ne_of_black hblack
  have hcross (target : ClassId) :
      Cross (addIndirectCrossEdge node child (addDirectCrossEdge node child walk.crossEdges)) node
        target ↔
      (Cross walk.crossEdges node target ∨ target = child) ∨ Cross walk.crossEdges child target := by
    rw [cross_addIndirect, cross_addDirect, cross_addDirect]
    simp [hne]
  obtain ⟨hinv', hgrows⟩ := h.inv.addCross
    (addIndirectCrossEdge node child (addDirectCrossEdge node child walk.crossEdges))
    h.notBlack
    (fun x hx => (find?_addIndirect hx).trans (find?_addDirect hx))
    (fun target ht => (hcross target).mpr (Or.inl (Or.inl ht)))
    (by
      intro target ht
      rcases (hcross target).mp ht with (ht | rfl) | ht
      · exact h.inv.cross _ _ ht
      · exact ⟨hblack, Relation.ReflTransGen.single hchild⟩
      · obtain ⟨hblack, hsub⟩ := h.inv.cross _ _ ht
        exact ⟨hblack, Relation.ReflTransGen.head hchild hsub⟩)
  refine ⟨_, ?_, (h.grow hinv' hgrows fun t hlow hup => absurd hup (not_le.mpr hlow)).see
    hblack ?_, hgrows⟩
  · unfold visitChild
    rw [show walk.states.find? child = _ from hblack]
  · rw [hgrows.reachSpan h.inv hblack hne]
    rintro t (ht | ⟨target, htarget, ht⟩)
    · exact Or.inr ⟨child, (hcross child).mpr (Or.inl (Or.inr rfl)), ht⟩
    · exact Or.inr ⟨target, (hcross target).mpr (Or.inr htarget), ht⟩

variable (hacyclic : graph.Acyclic)
  (hsearch : ∀ child walk, Enterable graph fuel child walk →
    Visits graph child walk (search child walk))

include hacyclic hsearch in
theorem step (h : Visiting graph fuel node start seen walk) (hchild : graph.Child node child) :
    ∃ walk', visitChild search node walk child = .ok walk' ∧
      Visiting graph fuel node start (child :: seen) walk' ∧ Grows graph node walk walk' := by
  cases hstate : walk.states.find? child with
  | none =>
    have hnew : ¬ walk.Visited child := fun hvisited => hvisited hstate
    refine h.enterChild hchild hnew (hsearch child walk ⟨h.inv, child_mem_nodes hchild, hnew, ?_,
      h.room⟩)
    exact fun x hx => (h.ancestors x hx).tail hchild
  | some state =>
    cases state with
    | grey =>
      -- a grey child is an ancestor, so the edge closes a cycle
      exact absurd (Relation.TransGen.tail' (h.ancestors child hstate) hchild)
        (hacyclic child)
    | black => exact h.crossChild hchild hstate

include hacyclic hsearch in
theorem steps (h : Visiting graph fuel node start seen walk) (list : List ClassId)
    (hlist : ∀ child ∈ list, graph.Child node child) :
    ∃ walk', list.foldlM (visitChild search node) walk = .ok walk' ∧
      Visiting graph fuel node start (list.reverse ++ seen) walk' ∧
      Grows graph node walk walk' := by
  induction list generalizing seen walk with
  | nil => exact ⟨walk, rfl, h, Grows.refl⟩
  | cons child rest ih =>
    obtain ⟨walk₁, hrun₁, h₁, hgrows₁⟩ := h.step hacyclic hsearch (hlist child List.mem_cons_self)
    obtain ⟨walk₂, hrun₂, h₂, hgrows₂⟩ :=
      ih h₁ fun child hchild => hlist child (List.mem_cons_of_mem _ hchild)
    refine ⟨walk₂, ?_, ?_, hgrows₁.trans hgrows₂⟩
    · rw [List.foldlM_cons, hrun₁]
      exact hrun₂
    · rw [List.reverse_cons, List.append_assoc]
      exact h₂

end Visiting

/-! ## 4. Entering and leaving a class -/

section EnterLeave

variable {fuel : ℕ} {node : ClassId} {walk : Walk}

theorem find?_enter (x : ClassId) :
    (walk.enter node).states.find? x = if x = node then some .grey else walk.states.find? x :=
  SortedMap.find?_add _ _ _ _

theorem Enterable.visiting (h : Enterable graph (fuel + 1) node walk) :
    Visiting graph fuel node (walk.time + 1) [] (walk.enter node) := by
  have hblack (x : ClassId) : (walk.enter node).Black x ↔ walk.Black x := by
    unfold Walk.Black
    rw [find?_enter]
    split
    · rename_i hx
      subst hx
      rw [not_not.mp h.new]
      simp
    · exact Iff.rfl
  constructor
  · constructor
    · intro x hx
      obtain ⟨lower, upper, hle, hfind, hupper⟩ := h.inv.interval x ((hblack x).mp hx)
      exact ⟨lower, upper, hle, hfind, hupper.trans (Int.le_add_one le_rfl)⟩
    · exact fun x interval hfind => (hblack x).mpr (h.inv.onlyBlack x interval hfind)
    · exact fun x child hx hchild =>
        (hblack child).mpr (h.inv.closed x child ((hblack x).mp hx) hchild)
    · exact fun x target hcross =>
        ⟨(hblack target).mpr (h.inv.cross x target hcross).1, (h.inv.cross x target hcross).2⟩
    · exact fun x child hx => h.inv.nested x child ((hblack x).mp hx)
    · exact h.inv.endpoints
    · exact h.inv.distinct
  · rw [find?_enter, if_pos rfl]
  · intro x hx
    rw [find?_enter] at hx
    split at hx
    · rename_i heq
      subst heq
      exact Relation.ReflTransGen.refl
    · exact h.ancestors x hx
  · exact le_rfl
  · intro x hx
    have := h.inv.endpoint_le (t := walk.time + 1) hx
    omega
  · intro t hlow hup
    exact absurd hup (not_le.mpr hlow)
  · have hlt : unvisited graph (walk.enter node) < unvisited graph walk := by
      refine countP_lt_of_mem h.isNode ?_ ?_ ?_
      · rw [not_not.mp h.new]
        rfl
      · rw [find?_enter, if_pos rfl]
        rfl
      · intro x hx
        rw [find?_enter] at hx
        split at hx
        · cases hx
        · exact hx
    have := h.room
    omega
  · exact fun child hchild => absurd hchild List.not_mem_nil

variable {start : Int} {seen : List ClassId}

theorem find?_leave_states (x : ClassId) :
    (walk.leave node start).states.find? x =
      if x = node then some .black else walk.states.find? x :=
  SortedMap.find?_add _ _ _ _

theorem find?_leave_intervals (x : ClassId) (hle : start ≤ walk.time + 1) :
    (walk.leave node start).intervals.find? x =
      if x = node then some (.interval start (walk.time + 1) hle) else walk.intervals.find? x := by
  unfold Walk.leave
  dsimp only
  rw [ClassInterval.create_of_le hle]
  exact SortedMap.find?_add _ _ _ _

theorem black_leave (x : ClassId) :
    (walk.leave node start).Black x ↔ x = node ∨ walk.Black x := by
  unfold Walk.Black
  rw [find?_leave_states]
  split
  · rename_i hx
    simp [hx]
  · rename_i hx
    simp [hx]

namespace Visiting

variable (h : Visiting graph fuel node start seen walk)

include h in
theorem leave_span (x : ClassId) :
    (walk.leave node start).span x =
      if x = node then Set.Icc start (walk.time + 1) else walk.span x := by
  unfold Walk.span
  rw [find?_leave_intervals x (h.started.trans (Int.le_add_one le_rfl))]
  split
  · ext t
    simp [ClassInterval.denote]
  · rfl

include h in
/-- No cross edge goes to the class that is being visited. -/
theorem leave_crossSpan (x : ClassId) :
    (walk.leave node start).crossSpan x = walk.crossSpan x := by
  ext t
  constructor
  · rintro ⟨target, hcross, ht⟩
    have hne : target ≠ node := h.ne_of_black (h.inv.cross x target hcross).1
    rw [h.leave_span, if_neg hne] at ht
    exact ⟨target, hcross, ht⟩
  · rintro ⟨target, hcross, ht⟩
    have hne : target ≠ node := h.ne_of_black (h.inv.cross x target hcross).1
    refine ⟨target, hcross, ?_⟩
    rwa [h.leave_span, if_neg hne]

include h in
theorem leave_reachSpan (x : ClassId) :
    (walk.leave node start).reachSpan x =
      (if x = node then Set.Icc start (walk.time + 1) else walk.span x) ∪ walk.crossSpan x := by
  unfold Walk.reachSpan
  rw [h.leave_span, h.leave_crossSpan]

include h in
theorem leave_endpoint {t : Int} {x : ClassId} :
    (walk.leave node start).Endpoint t x ↔
      x = node ∧ (t = start ∨ t = walk.time + 1) ∨ x ≠ node ∧ walk.Endpoint t x := by
  unfold Walk.Endpoint
  rw [find?_leave_intervals x (h.started.trans (Int.le_add_one le_rfl))]
  by_cases hx : x = node
  · rw [if_pos hx]
    simp only [hx, true_and, ne_eq, not_true_eq_false, false_and, or_false, Option.some.injEq,
      ClassInterval.interval.injEq]
    constructor
    · rintro ⟨lower, upper, -, ⟨rfl, rfl⟩, ht⟩
      exact ht
    · exact fun ht => ⟨_, _, h.started.trans (Int.le_add_one le_rfl), ⟨rfl, rfl⟩, ht⟩
  · rw [if_neg hx]
    simp [hx]

include h in
/-- When every child was seen, the class is left with the invariant. -/
theorem leave (hseen : ∀ child, graph.Child node child → child ∈ seen) :
    Inv graph (walk.leave node start) := by
  have hstart : start ≤ walk.time + 1 := h.started.trans (Int.le_add_one le_rfl)
  constructor
  · intro x hx
    by_cases heq : x = node
    · exact ⟨start, walk.time + 1, hstart, by rw [find?_leave_intervals x hstart, if_pos heq],
        le_rfl⟩
    · obtain ⟨lower, upper, hle, hfind, hupper⟩ :=
        h.inv.interval x (((black_leave x).mp hx).resolve_left heq)
      refine ⟨lower, upper, hle, ?_, hupper.trans (Int.le_add_one le_rfl)⟩
      rwa [find?_leave_intervals x hstart, if_neg heq]
  · intro x interval hfind
    rw [black_leave]
    by_cases heq : x = node
    · exact Or.inl heq
    · rw [find?_leave_intervals x hstart, if_neg heq] at hfind
      exact Or.inr (h.inv.onlyBlack x interval hfind)
  · intro x child hx hchild
    rw [black_leave]
    rcases (black_leave x).mp hx with rfl | hx
    · exact Or.inr (h.seen child (hseen child hchild)).1
    · exact Or.inr (h.inv.closed x child hx hchild)
  · intro x target hcross
    obtain ⟨hblack, hsub⟩ := h.inv.cross x target hcross
    exact ⟨(black_leave target).mpr (Or.inr hblack), hsub⟩
  · intro x child hx hchild
    rw [h.leave_reachSpan, h.leave_reachSpan]
    rcases (black_leave x).mp hx with rfl | hx
    · obtain ⟨hblack, hsub⟩ := h.seen child (hseen child hchild)
      rw [if_neg (h.ne_of_black hblack), if_pos rfl]
      intro t ht
      rcases hsub ht with ht | ht
      · exact Or.inl ⟨ht.1, ht.2.trans (Int.le_add_one le_rfl)⟩
      · exact Or.inr ht
    · have hblack : walk.Black child := h.inv.closed x child hx hchild
      rw [if_neg (h.ne_of_black hblack), if_neg (h.ne_of_black hx)]
      exact h.inv.nested x child hx hchild
  · intro x t ht
    rw [h.leave_span] at ht
    split at ht
    · rename_i heq
      subst heq
      by_cases hend : t = start ∨ t = walk.time + 1
      · exact ⟨x, h.leave_endpoint.mpr (Or.inl ⟨rfl, hend⟩), Relation.ReflTransGen.refl⟩
      · obtain ⟨hlow, hup⟩ := ht
        obtain ⟨y, hy, hsub⟩ := h.times t (by omega) (by omega)
        have hne : y ≠ x := h.ne_of_black (h.inv.endpoint_black hy)
        exact ⟨y, h.leave_endpoint.mpr (Or.inr ⟨hne, hy⟩), hsub⟩
    · obtain ⟨y, hy, hsub⟩ := h.inv.endpoints x t ht
      have hne : y ≠ node := h.ne_of_black (h.inv.endpoint_black hy)
      exact ⟨y, h.leave_endpoint.mpr (Or.inr ⟨hne, hy⟩), hsub⟩
  · -- the two times of the class are new
    have hnew (t : Int) (x : ClassId) (ht : t = start ∨ t = walk.time + 1) :
        ¬ walk.Endpoint t x := by
      rcases ht with rfl | rfl
      · exact h.fresh x
      · intro hx
        have := h.inv.endpoint_le hx
        omega
    intro t x y hx hy
    rcases h.leave_endpoint.mp hx with ⟨hx, ht⟩ | ⟨-, hx⟩
    · rcases h.leave_endpoint.mp hy with ⟨hy, -⟩ | ⟨-, hy⟩
      · rw [hx, hy]
      · exact absurd hy (hnew t y ht)
    · rcases h.leave_endpoint.mp hy with ⟨-, ht⟩ | ⟨-, hy⟩
      · exact absurd hx (hnew t x ht)
      · exact h.inv.distinct t x y hx hy

end Visiting

/-- From before the class was entered to after it was left. -/
theorem Grows.leave {walk' : Walk} (hnew : ¬ walk.Visited node) (hle : walk.time + 1 ≤ walk'.time + 1)
    (h : Grows graph node (walk.enter node) walk') :
    Grows graph node walk (walk'.leave node (walk.time + 1)) := by
  have hne (x : ClassId) (hx : walk.Visited x) : x ≠ node := fun heq => hnew (heq ▸ hx)
  have hstate (x : ClassId) (hx : x ≠ node) :
      (walk.enter node).states.find? x = walk.states.find? x := by
    rw [find?_enter, if_neg hx]
  have hvisited (x : ClassId) (hx : x ≠ node) : (walk.enter node).Visited x ↔ walk.Visited x := by
    unfold Walk.Visited
    rw [hstate x hx]
  constructor
  · intro x hx
    rw [find?_leave_states, if_neg (hne x hx),
      h.states x ((hvisited x (hne x hx)).mpr hx), hstate x (hne x hx)]
  · intro x hx
    rw [find?_leave_intervals x hle, if_neg (hne x hx)]
    exact h.intervals x ((hvisited x (hne x hx)).mpr hx)
  · exact fun x hx hxne => h.crossEdges x ((hvisited x hxne).mpr hx) hxne
  · exact fun target hvisited => absurd hvisited hnew
  · exact (Int.le_add_one le_rfl).trans hle
  · intro x hx hx'
    by_cases heq : x = node
    · subst heq
      refine ⟨(black_leave x).mpr (Or.inl rfl), Relation.ReflTransGen.refl, ?_⟩
      rintro t ⟨interval, hfind, ht⟩
      rw [find?_leave_intervals x hle, if_pos rfl] at hfind
      cases hfind
      exact Int.lt_of_add_one_le ht.1
    · have hvisited' : walk'.Visited x := by
        unfold Walk.Visited at hx' ⊢
        rwa [find?_leave_states, if_neg heq] at hx'
      obtain ⟨hblack, hsub, hspan⟩ := h.new x ((hvisited x heq).not.mpr hx) hvisited'
      refine ⟨(black_leave x).mpr (Or.inr hblack), hsub, ?_⟩
      rintro t ⟨interval, hfind, ht⟩
      rw [find?_leave_intervals x hle, if_neg heq] at hfind
      exact (Int.lt_succ walk.time).trans (hspan t ⟨interval, hfind, ht⟩)

/-- **In an acyclic graph the walk succeeds at every class that it may enter.** -/
theorem depthFirstSearch_spec (hacyclic : graph.Acyclic) (fuel : ℕ) (node : ClassId) (walk : Walk)
    (h : Enterable graph fuel node walk) :
    Visits graph node walk (depthFirstSearch graph fuel node walk) := by
  induction fuel generalizing node walk with
  | zero =>
    -- the class itself is still to be entered
    have hpos : 0 < unvisited graph walk := by
      refine List.countP_pos_iff.mpr ⟨node, h.isNode, ?_⟩
      rw [not_not.mp h.new]
      rfl
    have := h.room
    omega
  | succ fuel ih =>
    obtain ⟨walk', hrun, hvisiting, hgrows⟩ :=
      h.visiting.steps hacyclic ih (graph.children node).elements fun child hchild => hchild
    have hstart : walk.time + 1 ≤ walk'.time + 1 := hvisiting.started.trans (Int.le_add_one le_rfl)
    refine ⟨walk'.leave node (walk.time + 1), hstart, ?_, ?_, ?_, ?_, ?_⟩
    · unfold depthFirstSearch
      dsimp only
      rw [hrun]
      rfl
    · refine hvisiting.leave fun child hchild => ?_
      rw [List.append_nil, List.mem_reverse]
      exact hchild
    · exact hgrows.leave h.new hstart
    · exact (black_leave node).mpr (Or.inl rfl)
    · rw [find?_leave_intervals node hstart, if_pos rfl]
      rfl

end EnterLeave

end Pysa.ClassIntervalSetGraph
