/-
  Subject: THE CONSTRUCTION YIELDS A WEAK TOPOLOGICAL ORDER.

  * `OrderedList` -- no edge goes back to an earlier component, save to the head of a cycle from
    within the cycle;
  * `StackInv` -- the numbers of the nodes on the stack grow towards its top, and every other node
    is new or complete;
  * `Grown` -- what a visit adds: complete components, whose nodes only lead to complete ones, and
    a segment on top of the stack;
  * `visit_spec`, `create_spec` -- **the components hold every node that can be reached, once, in
    order**.
-/
import Pysa.Analysis.WeakTopologicalOrder

namespace Pysa

variable {S : Type}

/-! ## 1. Components -/

mutual

def Component.nodes : Component S → List (CfgNode S)
  | .node _ node => [node]
  | .cycle _ head components => head :: nodesOf components

def nodesOf : List (Component S) → List (CfgNode S)
  | [] => []
  | component :: components => component.nodes ++ nodesOf components

end

def Component.ids (component : Component S) : List ℕ := component.nodes.map (·.id)

def idsOf (components : List (Component S)) : List ℕ := (nodesOf components).map (·.id)

mutual

/-- A node alone has no edge to itself; within a cycle only the head may be led back to. -/
def Component.Ordered (edge : ℕ → ℕ → Prop) : Component S → Prop
  | .node _ node => ¬ edge node.id node.id
  | .cycle _ _ components => OrderedList edge components

def OrderedList (edge : ℕ → ℕ → Prop) : List (Component S) → Prop
  | [] => True
  | component :: components => component.Ordered edge ∧ OrderedList edge components ∧
    ∀ a ∈ idsOf components, ∀ b ∈ component.ids, ¬ edge a b

end

theorem nodesOf_append (left right : List (Component S)) :
    nodesOf (left ++ right) = nodesOf left ++ nodesOf right := by
  induction left with
  | nil => rfl
  | cons component rest ih => rw [List.cons_append, nodesOf, nodesOf, ih, List.append_assoc]

theorem idsOf_cons (component : Component S) (components : List (Component S)) :
    idsOf (component :: components) = component.ids ++ idsOf components := by
  unfold idsOf Component.ids
  rw [nodesOf, List.map_append]

theorem idsOf_append (left right : List (Component S)) :
    idsOf (left ++ right) = idsOf left ++ idsOf right := by
  unfold idsOf
  rw [nodesOf_append, List.map_append]

theorem ids_node (id : ℕ) (node : CfgNode S) : (Component.node id node).ids = [node.id] := rfl

theorem ids_cycle (id : ℕ) (head : CfgNode S) (components : List (Component S)) :
    (Component.cycle id head components).ids = head.id :: idsOf components := rfl

theorem OrderedList.append {edge : ℕ → ℕ → Prop} {left right : List (Component S)}
    (hleft : OrderedList edge left) (hright : OrderedList edge right)
    (h : ∀ a ∈ idsOf right, ∀ b ∈ idsOf left, ¬ edge a b) : OrderedList edge (left ++ right) := by
  induction left with
  | nil => exact hright
  | cons component rest ih =>
    rw [idsOf_cons] at h
    refine ⟨hleft.1, ih hleft.2.1 fun a ha b hb => h a ha b (List.mem_append_right _ hb), ?_⟩
    intro a ha b hb
    have ha : a ∈ idsOf (rest ++ right) := ha
    rw [idsOf_append, List.mem_append] at ha
    rcases ha with ha | ha
    · exact hleft.2.2 a ha b hb
    · exact h a ha b (List.mem_append_left _ hb)

namespace WeakTopologicalOrder

/-! ## 2. The tables -/

namespace Tables

theorem dfn_set (tables : Tables) (x y : ℕ) (number : ℕ∞) :
    (tables.setDepthFirstNumber x number).getDepthFirstNumber y =
      if y = x then number else tables.getDepthFirstNumber y := by
  unfold getDepthFirstNumber setDepthFirstNumber
  dsimp only
  rw [SortedMap.find?_add]
  split <;> rfl

theorem dfn_enter (tables : Tables) (x y : ℕ) :
    (tables.enter x).getDepthFirstNumber y =
      if y = x then ((tables.currentDepthFirstNumber + 1 : ℕ) : ℕ∞)
      else tables.getDepthFirstNumber y := by
  unfold getDepthFirstNumber enter
  dsimp only
  rw [SortedMap.find?_add]
  split <;> rfl

end Tables

open Tables

structure StackInv (tables : Tables) : Prop where
  sorted : tables.stack.Pairwise fun upper lower =>
    tables.getDepthFirstNumber lower < tables.getDepthFirstNumber upper
  onStack : ∀ x ∈ tables.stack, tables.getDepthFirstNumber x ≠ 0 ∧
    tables.getDepthFirstNumber x ≤ tables.currentDepthFirstNumber
  offStack : ∀ x, x ∉ tables.stack →
    tables.getDepthFirstNumber x = 0 ∨ tables.getDepthFirstNumber x = ⊤

theorem stackInv_initial : StackInv Tables.initial where
  sorted := .nil
  onStack _ h := absurd h List.not_mem_nil
  offStack x _ := Or.inl (by
    unfold Tables.getDepthFirstNumber
    rw [show Tables.initial.depthFirstNumbers.find? x = none from SortedMap.find?_empty x]
    rfl)

namespace StackInv

variable {tables : Tables}

theorem ne_top (h : StackInv tables) {x : ℕ} (hx : x ∈ tables.stack) :
    tables.getDepthFirstNumber x ≠ ⊤ := by
  intro htop
  have hle := (h.onStack x hx).2
  rw [htop] at hle
  exact ENat.natCast_ne_top _ (top_le_iff.mp hle)

theorem mem_of_ne (h : StackInv tables) {x : ℕ} (hzero : tables.getDepthFirstNumber x ≠ 0)
    (htop : tables.getDepthFirstNumber x ≠ ⊤) : x ∈ tables.stack := by
  by_contra hx
  rcases h.offStack x hx with h | h
  · exact hzero h
  · exact htop h

theorem nodup (h : StackInv tables) : tables.stack.Nodup :=
  h.sorted.imp fun hlt heq => hlt.ne (by rw [heq])

theorem enter (h : StackInv tables) {x : ℕ} (hx : tables.getDepthFirstNumber x = 0) :
    StackInv (tables.enter x) := by
  have hnot : x ∉ tables.stack := fun hmem => (h.onStack x hmem).1 hx
  have hne (y : ℕ) (hy : y ∈ tables.stack) : y ≠ x := fun heq => hnot (heq ▸ hy)
  have hnumber (y : ℕ) (hy : y ∈ tables.stack) :
      (tables.enter x).getDepthFirstNumber y = tables.getDepthFirstNumber y := by
    rw [dfn_enter, if_neg (hne y hy)]
  constructor
  · refine List.pairwise_cons.mpr ⟨fun y hy => ?_, h.sorted.imp_of_mem fun {a b} ha hb hlt => ?_⟩
    · rw [hnumber y hy, dfn_enter, if_pos rfl]
      refine (h.onStack y hy).2.trans_lt ?_
      exact_mod_cast Nat.lt_succ_self _
    · rwa [hnumber a ha, hnumber b hb]
  · intro y hy
    rcases List.mem_cons.mp hy with rfl | hy
    · rw [dfn_enter, if_pos rfl]
      exact ⟨Nat.cast_ne_zero.mpr (Nat.succ_ne_zero _), le_rfl⟩
    · rw [hnumber y hy]
      refine ⟨(h.onStack y hy).1, (h.onStack y hy).2.trans ?_⟩
      exact_mod_cast Nat.le_succ _
  · intro y hy
    have hy : y ≠ x ∧ y ∉ tables.stack := by
      constructor
      · rintro rfl
        exact hy List.mem_cons_self
      · exact fun hmem => hy (List.mem_cons_of_mem _ hmem)
    rw [dfn_enter, if_neg hy.1]
    exact h.offStack y hy.2

end StackInv

/-! ## 3. What a visit adds -/

variable {cfg : Cfg S} {edge : ℕ → ℕ → Prop}

/-- From `tables` to `tables'` the components `new` were completed and `segment` was left on top of
    the stack. Its nodes lead to complete nodes, or to nodes on the stack with a number from `low`
    on. Every node that was entered satisfies `P`. -/
structure Grown (cfg : Cfg S) (edge : ℕ → ℕ → Prop) (P : ℕ → Prop) (low : ℕ∞)
    (tables tables' : Tables) (new : List (Component S)) (segment : List ℕ) : Prop where
  stack : tables'.stack = segment ++ tables.stack
  inv : StackInv tables'
  current : tables.currentDepthFirstNumber ≤ tables'.currentDepthFirstNumber
  kept : ∀ x, tables.getDepthFirstNumber x ≠ 0 →
    tables'.getDepthFirstNumber x = tables.getDepthFirstNumber x
  complete : ∀ x, x ∈ idsOf new ↔
    tables.getDepthFirstNumber x = 0 ∧ tables'.getDepthFirstNumber x = ⊤
  closed : ∀ x ∈ idsOf new, ∀ y, edge x y → tables'.getDepthFirstNumber y = ⊤
  low : ∀ x ∈ segment, ∀ y, edge x y → tables'.getDepthFirstNumber y = ⊤ ∨
    y ∈ tables'.stack ∧ low ≤ tables'.getDepthFirstNumber y
  confined : ∀ x, tables.getDepthFirstNumber x = 0 → tables'.getDepthFirstNumber x ≠ 0 → P x
  ordered : OrderedList edge new
  nodup : (idsOf new).Nodup
  nodes : ∀ node ∈ nodesOf new, cfg.node node.id = some node

namespace Grown

variable {P P' : ℕ → Prop} {low low' : ℕ∞} {tables tables' tables'' : Tables}
  {new new' : List (Component S)} {segment segment' : List ℕ}

theorem refl (h : StackInv tables) : Grown cfg edge P low tables tables [] [] where
  stack := rfl
  inv := h
  current := le_rfl
  kept _ _ := rfl
  complete x := by
    refine iff_of_false List.not_mem_nil fun hx => ?_
    rw [hx.1] at hx
    exact absurd hx.2 (by decide)
  closed _ h := absurd h List.not_mem_nil
  low _ h := absurd h List.not_mem_nil
  confined _ h h' := absurd h h'
  ordered := trivial
  nodup := .nil
  nodes _ h := absurd h List.not_mem_nil

theorem zero_of_zero (h : Grown cfg edge P low tables tables' new segment) {x : ℕ}
    (hx : tables'.getDepthFirstNumber x = 0) : tables.getDepthFirstNumber x = 0 := by
  by_contra hne
  exact hne ((h.kept x hne).symm.trans hx)

/-- The nodes of the segment are new, and they have a number. -/
theorem segment_new (h : Grown cfg edge P low tables tables' new segment) (hinv : StackInv tables)
    {x : ℕ} (hx : x ∈ segment) :
    tables.getDepthFirstNumber x = 0 ∧ tables'.getDepthFirstNumber x ≠ 0 ∧
      tables'.getDepthFirstNumber x ≠ ⊤ := by
  have hmem : x ∈ tables'.stack := by
    rw [h.stack]
    exact List.mem_append_left _ hx
  refine ⟨?_, (h.inv.onStack x hmem).1, h.inv.ne_top hmem⟩
  by_contra hne
  have hkept := h.kept x hne
  -- an old node with a number is on the stack already
  have hold : x ∈ tables.stack := hinv.mem_of_ne hne (hkept ▸ h.inv.ne_top hmem)
  have hnodup := h.inv.nodup
  rw [h.stack] at hnodup
  exact (List.nodup_append.mp hnodup).2.2 x hx x hold rfl

theorem weaken (h : Grown cfg edge P low tables tables' new segment) (hP : ∀ x, P x → P' x)
    (hlow : low' ≤ low) : Grown cfg edge P' low' tables tables' new segment :=
  { h with
    low := fun x hx y hxy => (h.low x hx y hxy).imp_right fun hy => ⟨hy.1, hlow.trans hy.2⟩
    confined := fun x hx hx' => hP x (h.confined x hx hx') }

/-- A component id changes nothing here. -/
theorem makeComponentId (h : Grown cfg edge P low tables tables' new segment) :
    Grown cfg edge P low tables tables'.makeComponentId.2 new segment :=
  ⟨h.stack, ⟨h.inv.sorted, h.inv.onStack, h.inv.offStack⟩, h.current, h.kept, h.complete, h.closed,
    h.low, h.confined, h.ordered, h.nodup, h.nodes⟩

theorem trans (h : Grown cfg edge P low tables tables' new segment)
    (h' : Grown cfg edge P low tables' tables'' new' segment') :
    Grown cfg edge P low tables tables'' (new' ++ new) (segment' ++ segment) where
  stack := by rw [h'.stack, h.stack, List.append_assoc]
  inv := h'.inv
  current := h.current.trans h'.current
  kept x hx := by
    have hx' : tables'.getDepthFirstNumber x ≠ 0 := by rwa [h.kept x hx]
    rw [h'.kept x hx', h.kept x hx]
  complete x := by
    rw [idsOf_append, List.mem_append, h.complete, h'.complete]
    constructor
    · intro hx
      rcases hx with hx | hx
      · exact ⟨h.zero_of_zero hx.1, hx.2⟩
      · have hne : tables'.getDepthFirstNumber x ≠ 0 := by
          rw [hx.2]
          decide
        exact ⟨hx.1, (h'.kept x hne).trans hx.2⟩
    · intro hx
      by_cases hzero : tables'.getDepthFirstNumber x = 0
      · exact Or.inl ⟨hzero, hx.2⟩
      · exact Or.inr ⟨hx.1, (h'.kept x hzero).symm.trans hx.2⟩
  closed x hx y hxy := by
    rw [idsOf_append, List.mem_append] at hx
    rcases hx with hx | hx
    · exact h'.closed x hx y hxy
    · have htop := h.closed x hx y hxy
      rw [h'.kept y (by rw [htop]; decide), htop]
  low x hx y hxy := by
    rcases List.mem_append.mp hx with hx | hx
    · exact h'.low x hx y hxy
    · rcases h.low x hx y hxy with htop | ⟨hmem, hle⟩
      · exact Or.inl (by rw [h'.kept y (by rw [htop]; decide), htop])
      · refine Or.inr ⟨?_, ?_⟩
        · rw [h'.stack]
          exact List.mem_append_right _ hmem
        · rwa [h'.kept y (h.inv.onStack y hmem).1]
  confined x hx hx'' := by
    by_cases hzero : tables'.getDepthFirstNumber x = 0
    · exact h'.confined x hzero hx''
    · exact h.confined x hx hzero
  ordered := by
    refine h'.ordered.append h.ordered fun a ha b hb hab => ?_
    have htop := h.closed a ha b hab
    rw [((h'.complete b).mp hb).1] at htop
    exact absurd htop (by decide)
  nodup := by
    rw [idsOf_append]
    refine h'.nodup.append h.nodup ?_
    intro x hx' hx
    have htop := ((h.complete x).mp hx).2
    rw [((h'.complete x).mp hx').1] at htop
    exact absurd htop (by decide)
  nodes node hnode := by
    rw [nodesOf_append] at hnode
    rcases List.mem_append.mp hnode with hnode | hnode
    · exact h'.nodes node hnode
    · exact h.nodes node hnode

end Grown

/-! ## 4. The walk over the successors of a node -/

/-- A path from `source` through nodes that satisfy `P`. -/
abbrev Within (edge : ℕ → ℕ → Prop) (P : ℕ → Prop) (source target : ℕ) : Prop :=
  Relation.ReflTransGen (fun a b => edge a b ∧ P b) source target

theorem within_mono {edge : ℕ → ℕ → Prop} {P Q : ℕ → Prop} (h : ∀ b, P b → Q b) {a b : ℕ}
    (hpath : Within edge P a b) : Within edge Q a b :=
  Relation.ReflTransGen.mono (fun _ b hab => ⟨hab.1, h b hab.2⟩) _ _ hpath

/-- A path from `source` through nodes that have no number yet. -/
def WhitePath (edge : ℕ → ℕ → Prop) (tables : Tables) (source target : ℕ) : Prop :=
  Within edge (fun b => tables.getDepthFirstNumber b = 0) source target

/-- What a visit of `node` returns: `node` is complete, or it stays on the stack because something
    leads from above it to a node below it. -/
def Visited (cfg : Cfg S) (edge : ℕ → ℕ → Prop) (components : List (Component S)) (node : ℕ)
    (tables : Tables) (result : List (Component S) × ℕ∞ × Tables) : Prop :=
  ∃ new segment, result.1 = new ++ components ∧
    Grown cfg edge (WhitePath edge tables node) result.2.1 tables result.2.2 new segment ∧
    (∀ x ∈ segment, Within edge (· ∈ segment) node x) ∧
    (segment = [] ∧ result.2.2.getDepthFirstNumber node = ⊤ ∧
        (∀ y ∈ tables.stack, tables.getDepthFirstNumber y < result.2.1) ∨
      node ∈ segment ∧ ∃ x ∈ segment, ∃ y ∈ tables.stack, edge x y ∧
        result.2.1 = tables.getDepthFirstNumber y)

/-- The number that the next node gets. -/
def nextNumber (tables : Tables) : ℕ∞ := ((tables.currentDepthFirstNumber + 1 : ℕ) : ℕ∞)

theorem nextNumber_ne_zero (tables : Tables) : nextNumber tables ≠ 0 :=
  Nat.cast_ne_zero.mpr (Nat.succ_ne_zero _)

theorem lt_nextNumber (tables : Tables) :
    (tables.currentDepthFirstNumber : ℕ∞) < nextNumber tables :=
  Nat.cast_lt.mpr (Nat.lt_succ_self _)

theorem dfn_enter_self (tables : Tables) (node : ℕ) :
    (tables.enter node).getDepthFirstNumber node = nextNumber tables := by
  rw [dfn_enter, if_pos rfl]
  rfl

/-- `node` was entered from `tables`, and its successors in `seen` were visited. -/
structure Scanned (cfg : Cfg S) (edge : ℕ → ℕ → Prop) (components : List (Component S))
    (node : ℕ) (tables : Tables) (seen : List ℕ) (walked : Walked S)
    (new : List (Component S)) (segment : List ℕ) : Prop where
  found : walked.components = new ++ components
  grown : Grown cfg edge (WhitePath edge tables node) walked.minimumDfn (tables.enter node)
    walked.tables new segment
  path : ∀ x ∈ segment, Within edge (· ∈ segment) node x
  placed : ∀ y ∈ seen, walked.tables.getDepthFirstNumber y = ⊤ ∨
    y ∈ walked.tables.stack ∧ walked.minimumDfn ≤ walked.tables.getDepthFirstNumber y
  le : walked.minimumDfn ≤ nextNumber tables
  alone : walked.loop = false →
    segment = [] ∧ node ∉ seen ∧ walked.minimumDfn = nextNumber tables
  minimum : walked.minimumDfn < nextNumber tables → ∃ x ∈ node :: segment, ∃ y ∈ tables.stack,
    edge x y ∧ walked.minimumDfn = tables.getDepthFirstNumber y

namespace Scanned

variable {components : List (Component S)} {node successor : ℕ} {tables : Tables} {seen : List ℕ}
  {walked walked' : Walked S} {new : List (Component S)} {segment : List ℕ} {visit : Visit S}

theorem enter (h : StackInv tables) (hnode : tables.getDepthFirstNumber node = 0) :
    Scanned cfg edge components node tables []
      ⟨components, (tables.enter node).getDepthFirstNumber node, false, tables.enter node⟩
      [] [] where
  found := rfl
  grown := Grown.refl (h.enter hnode)
  path _ hx := absurd hx List.not_mem_nil
  placed _ hy := absurd hy List.not_mem_nil
  le := (dfn_enter_self tables node).le
  alone _ := ⟨rfl, List.not_mem_nil, dfn_enter_self tables node⟩
  minimum hlt := absurd (dfn_enter_self tables node) hlt.ne

theorem stack (h : Scanned cfg edge components node tables seen walked new segment) :
    walked.tables.stack = segment ++ node :: tables.stack := h.grown.stack

theorem number (h : Scanned cfg edge components node tables seen walked new segment) :
    walked.tables.getDepthFirstNumber node = nextNumber tables := by
  rw [h.grown.kept node (by rw [dfn_enter_self]; exact nextNumber_ne_zero tables), dfn_enter_self]

theorem zero_of_zero (h : Scanned cfg edge components node tables seen walked new segment) {x : ℕ}
    (hx : walked.tables.getDepthFirstNumber x = 0) :
    x ≠ node ∧ tables.getDepthFirstNumber x = 0 := by
  have hne : x ≠ node := by
    intro heq
    rw [heq, h.number] at hx
    exact nextNumber_ne_zero tables hx
  have hzero := h.grown.zero_of_zero hx
  rw [dfn_enter, if_neg hne] at hzero
  exact ⟨hne, hzero⟩

/-- A node with a number before `node` is entered keeps it. -/
theorem kept (h : Scanned cfg edge components node tables seen walked new segment)
    (hnode : tables.getDepthFirstNumber node = 0) {y : ℕ}
    (hy : tables.getDepthFirstNumber y ≠ 0) :
    walked.tables.getDepthFirstNumber y = tables.getDepthFirstNumber y := by
  have hne : y ≠ node := fun heq => hy (heq ▸ hnode)
  have hkept := h.grown.kept y (by rwa [dfn_enter, if_neg hne])
  rwa [dfn_enter, if_neg hne] at hkept

/-- Numbers above `node` on the stack are greater than its own, those below it are less. -/
theorem above (h : Scanned cfg edge components node tables seen walked new segment) {x : ℕ}
    (hx : x ∈ segment) : nextNumber tables < walked.tables.getDepthFirstNumber x := by
  have hsorted := h.grown.inv.sorted
  rw [h.stack, List.pairwise_append] at hsorted
  have hlt := hsorted.2.2 x hx node List.mem_cons_self
  rwa [h.number] at hlt

theorem below (h : Scanned cfg edge components node tables seen walked new segment) {y : ℕ}
    (hy : y ∈ tables.stack) : walked.tables.getDepthFirstNumber y < nextNumber tables := by
  have hsorted := h.grown.inv.sorted
  rw [h.stack, List.pairwise_append, List.pairwise_cons] at hsorted
  have hlt := hsorted.2.1.1 y hy
  rwa [h.number] at hlt

/-- Which nodes on the stack have a number less than that of `node`. -/
theorem mem_of_lt (h : Scanned cfg edge components node tables seen walked new segment) {y : ℕ}
    (hy : y ∈ walked.tables.stack) (hlt : walked.tables.getDepthFirstNumber y < nextNumber tables) :
    y ∈ tables.stack := by
  rw [h.stack, List.mem_append, List.mem_cons] at hy
  rcases hy with hy | rfl | hy
  · exact absurd (h.above hy) hlt.not_gt
  · exact absurd h.number hlt.ne
  · exact hy

end Scanned

/-- What the walk learns from a `successor` of `node`, visited or not: it is complete, or it stays
    on the stack and `found` is the number of a node that is reached. -/
structure Outcome (cfg : Cfg S) (edge : ℕ → ℕ → Prop) (node : ℕ) (tables : Tables)
    (minimum : ℕ∞) (before after : Tables) (successor : ℕ) (found : ℕ∞)
    (new : List (Component S)) (segment : List ℕ) : Prop where
  grown : Grown cfg edge (WhitePath edge tables node) found before after new segment
  top : ∀ x ∈ segment, successor ∈ segment
  path : ∀ x ∈ segment, Within edge (· ∈ segment) successor x
  place : segment = [] ∧ after.getDepthFirstNumber successor = ⊤ ∧ minimum < found ∨
    successor ∈ after.stack ∧ min minimum found ≤ after.getDepthFirstNumber successor ∧
      ∃ x ∈ node :: segment, ∃ y ∈ before.stack, edge x y ∧ found = before.getDepthFirstNumber y

namespace Scanned

variable {components : List (Component S)} {node successor : ℕ} {tables after : Tables}
  {seen : List ℕ} {walked : Walked S} {new new' : List (Component S)} {segment segment' : List ℕ}
  {visit : Visit S} {found minimum : ℕ∞} {loop : Bool}

theorem step (h : Scanned cfg edge components node tables seen walked new segment)
    (hinv : StackInv tables) (hnode : tables.getDepthFirstNumber node = 0)
    (hedge : edge node successor)
    (hout : Outcome cfg edge node tables walked.minimumDfn walked.tables after successor found new'
      segment')
    (hminimum : minimum = min walked.minimumDfn found)
    (hloop : loop = false → walked.loop = false ∧ walked.minimumDfn < found) :
    Scanned cfg edge components node tables (successor :: seen)
      ⟨new' ++ walked.components, minimum, loop, after⟩ (new' ++ new) (segment' ++ segment) := by
  have hold : minimum ≤ walked.minimumDfn := hminimum ▸ min_le_left _ _
  have hfound : minimum ≤ found := hminimum ▸ min_le_right _ _
  have hstack := hout.grown.stack
  have hgrown := (h.grown.weaken (fun _ hx => hx) hold).trans
    (hout.grown.weaken (fun _ hx => hx) hfound)
  constructor
  case found => rw [h.found, List.append_assoc]
  case grown => exact hgrown
  case path =>
    intro x hx
    rcases List.mem_append.mp hx with hx | hx
    · have hhead : Within edge (· ∈ segment' ++ segment) node successor :=
        .single ⟨hedge, List.mem_append_left _ (hout.top x hx)⟩
      exact hhead.trans (within_mono (fun b hb => List.mem_append_left _ hb) (hout.path x hx))
    · exact within_mono (fun b hb => List.mem_append_right _ hb) (h.path x hx)
  case placed =>
    intro y hy
    rcases List.mem_cons.mp hy with rfl | hy
    · rcases hout.place with ⟨-, htop, -⟩ | ⟨hmem, hle, -⟩
      · exact Or.inl htop
      · exact Or.inr ⟨hmem, hminimum ▸ hle⟩
    · rcases h.placed y hy with htop | ⟨hmem, hle⟩
      · exact Or.inl (by rw [hout.grown.kept y (by rw [htop]; decide), htop])
      · refine Or.inr ⟨?_, ?_⟩
        · show y ∈ after.stack
          rw [hstack]
          exact List.mem_append_right _ hmem
        · show minimum ≤ after.getDepthFirstNumber y
          rw [hout.grown.kept y (h.grown.inv.onStack y hmem).1]
          exact hold.trans hle
  case le => exact hold.trans h.le
  case alone =>
    intro hfalse
    obtain ⟨hwalked, hlt⟩ := hloop hfalse
    obtain ⟨hempty, hseen, hnext⟩ := h.alone hwalked
    rcases hout.place with ⟨hempty', htop, -⟩ | ⟨-, -, x, -, y, hy, -, heq⟩
    · refine ⟨by rw [hempty, hempty']; rfl, ?_, ?_⟩
      · intro hmem
        rcases List.mem_cons.mp hmem with rfl | hmem
        · have hnumber := h.number
          rw [← hout.grown.kept node (by rw [hnumber]; exact nextNumber_ne_zero _), htop] at hnumber
          exact absurd hnumber.symm (ENat.natCast_ne_top _)
        · exact hseen hmem
      · show minimum = _
        rw [hminimum, min_eq_left hlt.le, hnext]
    · -- without anything above `node`, the number found is at most its own
      rw [h.stack, hempty, List.nil_append, List.mem_cons] at hy
      have hle : found ≤ nextNumber tables := by
        rcases hy with rfl | hy
        · rw [heq, h.number]
        · rw [heq]
          exact (h.below hy).le
      rw [hnext] at hlt
      exact absurd hlt hle.not_gt
  case minimum =>
    intro hlt
    have hlt : minimum < nextNumber tables := hlt
    rcases le_or_gt walked.minimumDfn found with hle | hgt
    · rw [min_eq_left hle] at hminimum
      obtain ⟨x, hx, y, hy, hxy, heq⟩ := h.minimum (hminimum ▸ hlt)
      refine ⟨x, ?_, y, hy, hxy, hminimum.trans heq⟩
      rcases List.mem_cons.mp hx with hx | hx
      · exact hx ▸ List.mem_cons_self
      · exact List.mem_cons_of_mem _ (List.mem_append_right _ hx)
    · rw [min_eq_right hgt.le] at hminimum
      rcases hout.place with ⟨-, -, hnot⟩ | ⟨-, -, x, hx, y, hy, hxy, heq⟩
      · exact absurd hnot hgt.not_gt
      · have hmem := h.mem_of_lt hy (heq ▸ hminimum ▸ hlt)
        refine ⟨x, ?_, y, hmem, hxy, ?_⟩
        · rcases List.mem_cons.mp hx with hx | hx
          · exact hx ▸ List.mem_cons_self
          · exact List.mem_cons_of_mem _ (List.mem_append_left _ hx)
        · show minimum = _
          rw [hminimum, heq, h.kept hnode (hinv.onStack y hmem).1]

/-- A successor that has a number already. -/
theorem outcome_numbered (h : Scanned cfg edge components node tables seen walked new segment)
    (hedge : edge node successor) (hne : walked.tables.getDepthFirstNumber successor ≠ 0) :
    Outcome cfg edge node tables walked.minimumDfn walked.tables walked.tables successor
      (walked.tables.getDepthFirstNumber successor) ([] : List (Component S)) [] where
  grown := Grown.refl h.grown.inv
  top _ hx := absurd hx List.not_mem_nil
  path _ hx := absurd hx List.not_mem_nil
  place := by
    by_cases htop : walked.tables.getDepthFirstNumber successor = ⊤
    · refine Or.inl ⟨rfl, htop, ?_⟩
      rw [htop]
      exact h.le.trans_lt (ENat.natCast_lt_top _)
    · have hmem := h.grown.inv.mem_of_ne hne htop
      exact Or.inr ⟨hmem, min_le_right _ _, node, List.mem_cons_self, successor, hmem, hedge, rfl⟩

/-- A successor that is visited now. -/
theorem outcome_visited {result : List (Component S) × ℕ∞ × Tables}
    (h : Scanned cfg edge components node tables seen walked new segment)
    (hedge : edge node successor) (hzero : walked.tables.getDepthFirstNumber successor = 0)
    (hvisited : Visited cfg edge walked.components successor walked.tables result) :
    ∃ new' segment', result.1 = new' ++ walked.components ∧
      Outcome cfg edge node tables walked.minimumDfn walked.tables result.2.2 successor
        result.2.1 new' segment' := by
  obtain ⟨new', segment', heq, hgrown, hpath, hplace⟩ := hvisited
  have hwhite (x : ℕ) (hx : WhitePath edge walked.tables successor x) :
      WhitePath edge tables node x :=
    .head ⟨hedge, (h.zero_of_zero hzero).2⟩ (within_mono (fun b hb => (h.zero_of_zero hb).2) hx)
  have hmem : node ∈ walked.tables.stack := by
    rw [h.stack]
    exact List.mem_append_right _ List.mem_cons_self
  refine ⟨new', segment', heq, hgrown.weaken hwhite le_rfl, ?_, hpath, ?_⟩
  · rcases hplace with ⟨rfl, -, -⟩ | ⟨hsuccessor, -⟩
    · exact fun x hx => absurd hx List.not_mem_nil
    · exact fun _ _ => hsuccessor
  · rcases hplace with ⟨hempty, htop, hlt⟩ | ⟨hsuccessor, x, hx, y, hy, hxy, hfound⟩
    · have hown := hlt node hmem
      rw [h.number] at hown
      exact Or.inl ⟨hempty, htop, h.le.trans_lt hown⟩
    · have hafter : successor ∈ result.2.2.stack := by
        rw [hgrown.stack]
        exact List.mem_append_left _ hsuccessor
      refine Or.inr ⟨hafter, ?_, x, List.mem_cons_of_mem _ hx, y, hy, hxy, hfound⟩
      -- `successor` is above `node`
      have hsorted := hgrown.inv.sorted
      rw [hgrown.stack, List.pairwise_append] at hsorted
      have hlt := hsorted.2.2 successor hsuccessor node hmem
      have hkept := hgrown.kept node (h.grown.inv.onStack node hmem).1
      rw [hkept, h.number] at hlt
      exact (min_le_left _ _).trans (h.le.trans hlt.le)

/-- One step of the walk. -/
theorem visitSuccessor {walked' : Walked S}
    (h : Scanned cfg edge components node tables seen walked new segment)
    (hinv : StackInv tables) (hnode : tables.getDepthFirstNumber node = 0)
    (hedge : edge node successor)
    (hvisit : ∀ components node tables result, visit components node tables = some result →
      StackInv tables → tables.getDepthFirstNumber node = 0 →
      Visited cfg edge components node tables result)
    (hrun : WeakTopologicalOrder.visitSuccessor visit walked successor = some walked') :
    ∃ new' segment',
      Scanned cfg edge components node tables (successor :: seen) walked' new' segment' := by
  obtain ⟨components', found, after, ⟨new', segment', heq, hout⟩, hrun⟩ :
      ∃ components' found after,
        (∃ new' segment', components' = new' ++ walked.components ∧
          Outcome cfg edge node tables walked.minimumDfn walked.tables after successor found new'
            segment') ∧
        (if found ≤ walked.minimumDfn then
          some (⟨components', found, true, after⟩ : Walked S)
        else some ⟨components', walked.minimumDfn, walked.loop, after⟩) = some walked' := by
    unfold WeakTopologicalOrder.visitSuccessor at hrun
    dsimp only at hrun
    split at hrun
    case isTrue hzero =>
      obtain ⟨result, hresult, hrun⟩ := Option.bind_eq_some_iff.mp hrun
      exact ⟨_, _, _,
        h.outcome_visited hedge hzero (hvisit _ _ _ _ hresult h.grown.inv hzero), hrun⟩
    case isFalse hne =>
      exact ⟨_, _, _, ⟨[], [], rfl, h.outcome_numbered hedge hne⟩, hrun⟩
  refine ⟨new' ++ new, segment' ++ segment, ?_⟩
  subst heq
  split at hrun
  case isTrue hle =>
    cases hrun
    exact h.step hinv hnode hedge hout (min_eq_right hle).symm (fun hfalse => by cases hfalse)
  case isFalse hlt =>
    cases hrun
    have hlt := not_le.mp hlt
    exact h.step hinv hnode hedge hout (min_eq_left hlt.le).symm (fun hloop => ⟨hloop, hlt⟩)

/-- The whole walk. -/
theorem foldlM {walked' : Walked S} (hinv : StackInv tables)
    (hnode : tables.getDepthFirstNumber node = 0)
    (hvisit : ∀ components node tables result, visit components node tables = some result →
      StackInv tables → tables.getDepthFirstNumber node = 0 →
      Visited cfg edge components node tables result) :
    ∀ (successors seen : List ℕ) (walked : Walked S) (new : List (Component S))
      (segment : List ℕ), (∀ successor ∈ successors, edge node successor) →
      Scanned cfg edge components node tables seen walked new segment →
      successors.foldlM (WeakTopologicalOrder.visitSuccessor visit) walked = some walked' →
      ∃ new' segment', Scanned cfg edge components node tables (successors.reverse ++ seen)
        walked' new' segment' := by
  intro successors
  induction successors with
  | nil =>
    intro seen walked new segment _ h hrun
    cases hrun
    exact ⟨new, segment, h⟩
  | cons successor rest ih =>
    intro seen walked new segment hedge h hrun
    rw [List.foldlM_cons] at hrun
    obtain ⟨next, hnext, hrun⟩ := Option.bind_eq_some_iff.mp hrun
    obtain ⟨new', segment', h'⟩ :=
      h.visitSuccessor hinv hnode (hedge successor List.mem_cons_self) hvisit hnext
    obtain ⟨new'', segment'', h''⟩ := ih _ next new' segment'
      (fun y hy => hedge y (List.mem_cons_of_mem _ hy)) h' hrun
    refine ⟨new'', segment'', ?_⟩
    rwa [List.reverse_cons, List.append_assoc]

end Scanned

/-! ## 5. A complete component -/

theorem resetDfn_spec {node element : ℕ} {stack below : List ℕ} {segment : List ℕ}
    {numbers : SortedMap ℕ ℕ∞} {result : List ℕ × SortedMap ℕ ℕ∞}
    (hstack : element :: stack = segment ++ node :: below) (hnode : node ∉ segment)
    (hrun : resetDfn node element stack numbers = some result) :
    result.1 = below ∧ ∀ x, (result.2.find? x).getD 0 =
      if x ∈ segment then 0 else (numbers.find? x).getD 0 := by
  induction segment generalizing element stack numbers with
  | nil =>
    obtain ⟨rfl, rfl⟩ := List.cons.inj hstack
    unfold resetDfn at hrun
    rw [if_pos rfl] at hrun
    cases hrun
    exact ⟨rfl, fun x => (if_neg List.not_mem_nil).symm⟩
  | cons upper rest ih =>
    obtain ⟨rfl, htail⟩ := List.cons.inj hstack
    have hne : element ≠ node := fun heq => hnode (heq ▸ List.mem_cons_self)
    cases stack with
    | nil => cases rest <;> cases htail
    | cons next stack =>
      rw [resetDfn, if_neg hne] at hrun
      obtain ⟨hbelow, hnumbers⟩ :=
        ih htail (fun hmem => hnode (List.mem_cons_of_mem _ hmem)) hrun
      refine ⟨hbelow, fun x => ?_⟩
      rw [hnumbers x, SortedMap.find?_add]
      by_cases hx : x = element
      · simp [hx]
      · simp [hx]

/-- The tables after `node` was completed and `segment` forgotten. -/
structure Reopened (node : ℕ) (below segment : List ℕ) (walked reopened : Tables) : Prop where
  stack : reopened.stack = below
  current : reopened.currentDepthFirstNumber = walked.currentDepthFirstNumber
  head : reopened.getDepthFirstNumber node = ⊤
  inner : ∀ x ∈ segment, reopened.getDepthFirstNumber x = 0
  other : ∀ x, x ≠ node → x ∉ segment →
    reopened.getDepthFirstNumber x = walked.getDepthFirstNumber x

theorem Reopened.of_dfn {node : ℕ} {below segment : List ℕ} {walked reopened : Tables}
    (hstack : reopened.stack = below)
    (hcurrent : reopened.currentDepthFirstNumber = walked.currentDepthFirstNumber)
    (hnode : node ∉ segment)
    (hdfn : ∀ x, reopened.getDepthFirstNumber x = if x ∈ segment then 0 else
      (walked.setDepthFirstNumber node ⊤).getDepthFirstNumber x) :
    Reopened node below segment walked reopened where
  stack := hstack
  current := hcurrent
  head := by rw [hdfn, if_neg hnode, dfn_set, if_pos rfl]
  inner x hx := by rw [hdfn, if_pos hx]
  other x hne hx := by rw [hdfn, if_neg hx, dfn_set, if_neg hne]

/-- A completed walk whose least number is that of `node`, with the tables to go on from. -/
structure Closing (cfg : Cfg S) (edge : ℕ → ℕ → Prop) (components : List (Component S))
    (node : ℕ) (tables : Tables) (seen : List ℕ) (walked : Walked S)
    (new : List (Component S)) (segment : List ℕ) (reopened : Tables) : Prop where
  scanned : Scanned cfg edge components node tables seen walked new segment
  inv : StackInv tables
  fresh : tables.getDepthFirstNumber node = 0
  seen : ∀ y, edge node y → y ∈ seen
  minimum : walked.minimumDfn = nextNumber tables
  reopened : Reopened node tables.stack segment walked.tables reopened

namespace Closing

variable {components : List (Component S)} {node : ℕ} {tables reopened after : Tables}
  {seen : List ℕ} {walked : Walked S} {new inner : List (Component S)} {segment : List ℕ}
  {visit : Visit S}

theorem not_mem (h : Closing cfg edge components node tables seen walked new segment reopened)
    {y : ℕ} (hy : y ∈ tables.stack) : y ≠ node ∧ y ∉ segment := by
  have hnodup := h.scanned.grown.inv.nodup
  rw [h.scanned.stack, List.nodup_append, List.nodup_cons] at hnodup
  constructor
  · intro heq
    exact hnodup.2.1.1 (heq ▸ hy)
  · exact fun hmem => hnodup.2.2 y hmem y (List.mem_cons_of_mem _ hy) rfl

theorem node_not_mem (h : Closing cfg edge components node tables seen walked new segment reopened) :
    node ∉ segment := by
  have hnodup := h.scanned.grown.inv.nodup
  rw [h.scanned.stack, List.nodup_append] at hnodup
  exact fun hmem => hnodup.2.2 node hmem node List.mem_cons_self rfl

/-- Numbers on the segment are neither that of a new node nor that of a complete one. -/
theorem of_segment (h : Closing cfg edge components node tables seen walked new segment reopened)
    {x : ℕ} (hx : x ∈ segment) :
    tables.getDepthFirstNumber x = 0 ∧ walked.tables.getDepthFirstNumber x ≠ 0 ∧
      walked.tables.getDepthFirstNumber x ≠ ⊤ := by
  obtain ⟨hzero, hne⟩ := h.scanned.grown.segment_new (h.inv.enter h.fresh) hx
  have hnode : x ≠ node := fun heq => h.node_not_mem (heq ▸ hx)
  rw [dfn_enter, if_neg hnode] at hzero
  exact ⟨hzero, hne⟩

/-- The edges of `node` and of the segment lead to them again, or to complete nodes. -/
theorem edge_inside (h : Closing cfg edge components node tables seen walked new segment reopened)
    {x y : ℕ} (hx : x ∈ node :: segment) (hxy : edge x y) :
    walked.tables.getDepthFirstNumber y = ⊤ ∨ y ∈ node :: segment := by
  have hplaced : walked.tables.getDepthFirstNumber y = ⊤ ∨
      y ∈ walked.tables.stack ∧ walked.minimumDfn ≤ walked.tables.getDepthFirstNumber y := by
    rcases List.mem_cons.mp hx with rfl | hx
    · exact h.scanned.placed y (h.seen y hxy)
    · exact h.scanned.grown.low x hx y hxy
  refine hplaced.imp_right fun ⟨hmem, hle⟩ => ?_
  rw [h.scanned.stack, List.mem_append, List.mem_cons] at hmem
  rcases hmem with hmem | rfl | hmem
  · exact List.mem_cons_of_mem _ hmem
  · exact List.mem_cons_self
  · have hlt := h.scanned.below hmem
    rw [h.minimum] at hle
    exact absurd hle hlt.not_ge

theorem not_below (h : Closing cfg edge components node tables seen walked new segment reopened)
    {x y : ℕ} (hx : x ∈ node :: segment) (hxy : edge x y) : y ∉ tables.stack := by
  intro hy
  have hstack : y ∈ walked.tables.stack := by
    rw [h.scanned.stack]
    exact List.mem_append_right _ (List.mem_cons_of_mem _ hy)
  rcases h.edge_inside hx hxy with htop | hinside
  · exact h.scanned.grown.inv.ne_top hstack htop
  · rcases List.mem_cons.mp hinside with heq | hinside
    · exact (h.not_mem hy).1 heq
    · exact (h.not_mem hy).2 hinside

theorem top_of_top (h : Closing cfg edge components node tables seen walked new segment reopened)
    {x : ℕ} (hx : walked.tables.getDepthFirstNumber x = ⊤) :
    reopened.getDepthFirstNumber x = ⊤ := by
  by_cases hnode : x = node
  · rw [hnode, h.reopened.head]
  · rw [h.reopened.other x hnode (fun hmem => (h.of_segment hmem).2.2 hx), hx]

/-- What an edge of `node` or of the segment leads to is forgotten only if it is on the segment. -/
theorem mem_of_edge (h : Closing cfg edge components node tables seen walked new segment reopened)
    {x y : ℕ} (hx : x ∈ node :: segment) (hxy : edge x y)
    (hzero : reopened.getDepthFirstNumber y = 0) : y ∈ segment := by
  rcases h.edge_inside hx hxy with htop | hmem
  · rw [h.top_of_top htop] at hzero
    exact absurd hzero (by decide)
  · rcases List.mem_cons.mp hmem with rfl | hmem
    · rw [h.reopened.head] at hzero
      exact absurd hzero (by decide)
    · exact hmem

theorem stackInv (h : Closing cfg edge components node tables seen walked new segment reopened) :
    StackInv reopened := by
  have hinv := h.scanned.grown.inv
  have hmem {y : ℕ} (hy : y ∈ tables.stack) : y ∈ walked.tables.stack := by
    rw [h.scanned.stack]
    exact List.mem_append_right _ (List.mem_cons_of_mem _ hy)
  have hnumber {y : ℕ} (hy : y ∈ tables.stack) :
      reopened.getDepthFirstNumber y = walked.tables.getDepthFirstNumber y :=
    h.reopened.other y (h.not_mem hy).1 (h.not_mem hy).2
  constructor
  · have hsorted := hinv.sorted
    rw [h.scanned.stack, List.pairwise_append, List.pairwise_cons] at hsorted
    rw [h.reopened.stack]
    refine hsorted.2.1.2.imp_of_mem fun {a b} ha hb hlt => ?_
    rwa [hnumber ha, hnumber hb]
  · intro x hx
    rw [h.reopened.stack] at hx
    rw [hnumber hx, h.reopened.current]
    exact hinv.onStack x (hmem hx)
  · intro x hx
    rw [h.reopened.stack] at hx
    by_cases hnode : x = node
    · exact Or.inr (hnode ▸ h.reopened.head)
    · by_cases hsegment : x ∈ segment
      · exact Or.inl (h.reopened.inner x hsegment)
      · rw [h.reopened.other x hnode hsegment]
        refine hinv.offStack x fun hstack => ?_
        rw [h.scanned.stack, List.mem_append, List.mem_cons] at hstack
        rcases hstack with hstack | hstack | hstack
        · exact hsegment hstack
        · exact hnode hstack
        · exact hx hstack

/-- The rest of the cycle is visited within the segment. -/
abbrev Inner (cfg : Cfg S) (edge : ℕ → ℕ → Prop) (segment : List ℕ) (reopened after : Tables)
    (inner : List (Component S)) : Prop :=
  Grown cfg edge (· ∈ segment) 0 reopened after inner []

theorem white_inside
    (h : Closing cfg edge components node tables seen walked new segment reopened)
    (hinner : Inner cfg edge segment reopened after inner) {x y : ℕ} (hx : x ∈ segment)
    (hpath : WhitePath edge after x y) : y ∈ segment := by
  induction hpath with
  | refl => exact hx
  | tail _ hstep ih =>
    exact h.mem_of_edge (List.mem_cons_of_mem _ ih) hstep.1 (hinner.zero_of_zero hstep.2)

/-- A visit in the rest of the cycle completes its node: nothing there leads below the head. -/
theorem visited (h : Closing cfg edge components node tables seen walked new segment reopened)
    (hinner : Inner cfg edge segment reopened after inner) {x : ℕ} (hx : x ∈ segment)
    {result : List (Component S) × ℕ∞ × Tables}
    (hvisited : Visited cfg edge inner x after result) :
    Inner cfg edge segment reopened result.2.2 result.1 ∧
      result.2.2.getDepthFirstNumber x ≠ 0 := by
  obtain ⟨new', segment', heq, hgrown, -, hplace⟩ := hvisited
  have hwhite (y : ℕ) (hy : WhitePath edge after x y) : y ∈ segment := h.white_inside hinner hx hy
  rcases hplace with ⟨hempty, htop, -⟩ | ⟨-, y, hy, z, hz, hyz, -⟩
  · subst hempty
    refine ⟨?_, by rw [htop]; decide⟩
    rw [heq]
    exact hinner.trans (hgrown.weaken hwhite bot_le)
  · exfalso
    have hnew := hgrown.segment_new hinner.inv hy
    have hmem := hwhite y (hgrown.confined y hnew.1 hnew.2.1)
    rw [hinner.stack, List.nil_append, h.reopened.stack] at hz
    exact h.not_below (List.mem_cons_of_mem _ hmem) hyz hz

/-- One step over the rest of the cycle. -/
theorem revisitSuccessor {successor : ℕ} {result : List (Component S) × Tables}
    (h : Closing cfg edge components node tables seen walked new segment reopened)
    (hvisit : ∀ components node tables result, visit components node tables = some result →
      StackInv tables → tables.getDepthFirstNumber node = 0 →
      Visited cfg edge components node tables result)
    (hedge : edge node successor) (hinner : Inner cfg edge segment reopened after inner)
    (hrun : WeakTopologicalOrder.revisitSuccessor visit (inner, after) successor = some result) :
    Inner cfg edge segment reopened result.2 result.1 ∧
      (∀ x, after.getDepthFirstNumber x ≠ 0 → result.2.getDepthFirstNumber x ≠ 0) ∧
      result.2.getDepthFirstNumber successor ≠ 0 := by
  unfold WeakTopologicalOrder.revisitSuccessor at hrun
  split at hrun
  case isTrue hzero =>
    obtain ⟨found, hfound, hrun⟩ := Option.bind_eq_some_iff.mp hrun
    cases hrun
    have hmem := h.mem_of_edge List.mem_cons_self hedge (hinner.zero_of_zero hzero)
    have hvisited := hvisit _ _ _ _ hfound hinner.inv hzero
    obtain ⟨hinner', hne⟩ := h.visited hinner hmem hvisited
    obtain ⟨_, _, -, hgrown, -⟩ := hvisited
    exact ⟨hinner', fun x hx hx' => hx (hgrown.zero_of_zero hx'), hne⟩
  case isFalse hne =>
    cases hrun
    exact ⟨hinner, fun _ hx => hx, hne⟩

theorem foldlM (h : Closing cfg edge components node tables seen walked new segment reopened)
    (hvisit : ∀ components node tables result, visit components node tables = some result →
      StackInv tables → tables.getDepthFirstNumber node = 0 →
      Visited cfg edge components node tables result)
    {result : List (Component S) × Tables} :
    ∀ (successors : List ℕ) (inner : List (Component S)) (after : Tables),
      (∀ successor ∈ successors, edge node successor) →
      Inner cfg edge segment reopened after inner →
      successors.foldlM (WeakTopologicalOrder.revisitSuccessor visit) (inner, after) =
        some result →
      Inner cfg edge segment reopened result.2 result.1 ∧
        (∀ x, after.getDepthFirstNumber x ≠ 0 → result.2.getDepthFirstNumber x ≠ 0) ∧
        ∀ successor ∈ successors, result.2.getDepthFirstNumber successor ≠ 0 := by
  intro successors
  induction successors with
  | nil =>
    intro inner after _ hinner hrun
    cases hrun
    exact ⟨hinner, fun _ hx => hx, fun _ hx => absurd hx List.not_mem_nil⟩
  | cons successor rest ih =>
    intro inner after hedge hinner hrun
    rw [List.foldlM_cons] at hrun
    obtain ⟨⟨inner', after'⟩, hnext, hrun⟩ := Option.bind_eq_some_iff.mp hrun
    obtain ⟨hinner', hkept, hne⟩ :=
      h.revisitSuccessor hvisit (hedge successor List.mem_cons_self) hinner hnext
    obtain ⟨hresult, hkept', hrest⟩ :=
      ih inner' after' (fun y hy => hedge y (List.mem_cons_of_mem _ hy)) hinner' hrun
    refine ⟨hresult, fun x hx => hkept' x (hkept x hx), fun y hy => ?_⟩
    rcases List.mem_cons.mp hy with rfl | hy
    · exact hkept' _ hne
    · exact hrest y hy

theorem node_top (h : Closing cfg edge components node tables seen walked new segment reopened)
    (hinner : Inner cfg edge segment reopened after inner) :
    after.getDepthFirstNumber node = ⊤ := by
  have hhead := h.reopened.head
  rw [hinner.kept node (by rw [hhead]; decide), hhead]

theorem successor_top
    (h : Closing cfg edge components node tables seen walked new segment reopened)
    (hinner : Inner cfg edge segment reopened after inner)
    (hne : ∀ y, edge node y → after.getDepthFirstNumber y ≠ 0) {y : ℕ} (hy : edge node y) :
    after.getDepthFirstNumber y = ⊤ := by
  refine (hinner.inv.offStack y ?_).resolve_left (hne y hy)
  rw [hinner.stack, List.nil_append, h.reopened.stack]
  exact h.not_below List.mem_cons_self hy

/-- **What is left when the component of `node` is complete.** -/
theorem grown (h : Closing cfg edge components node tables seen walked new segment reopened)
    (hinner : Inner cfg edge segment reopened after inner)
    (hne : ∀ y, edge node y → after.getDepthFirstNumber y ≠ 0) (component : Component S)
    (hids : component.ids = node :: idsOf inner) (hordered : component.Ordered edge)
    (hnodes : ∀ node ∈ component.nodes, cfg.node node.id = some node) (low : ℕ∞) :
    Grown cfg edge (WhitePath edge tables node) low tables after (component :: new) [] := by
  have hscanned := h.scanned.grown
  have hnode := h.node_top hinner
  -- the nodes of `new` were complete before, the others are complete now
  have hnew {x : ℕ} (hx : x ∈ idsOf new) : x ≠ node ∧ tables.getDepthFirstNumber x = 0 ∧
      walked.tables.getDepthFirstNumber x = ⊤ := by
    have hx := (hscanned.complete x).mp hx
    have hne : x ≠ node := by
      intro heq
      rw [heq, dfn_enter_self] at hx
      exact nextNumber_ne_zero _ hx.1
    rw [dfn_enter, if_neg hne] at hx
    exact ⟨hne, hx⟩
  have hmem {x : ℕ} (hx : x ∈ idsOf inner) : x ∈ segment := by
    have hx := (hinner.complete x).mp hx
    exact hinner.confined x hx.1 (by rw [hx.2]; decide)
  have htop {x : ℕ} (hx : walked.tables.getDepthFirstNumber x = ⊤) :
      after.getDepthFirstNumber x = ⊤ := by
    have hx := h.top_of_top hx
    rw [hinner.kept x (by rw [hx]; decide), hx]
  -- a node that is neither `node` nor on the segment keeps its number, unless it had none
  have hother {x : ℕ} (hx : x ≠ node) (hx' : x ∉ segment) :
      after.getDepthFirstNumber x = walked.tables.getDepthFirstNumber x := by
    have heq := h.reopened.other x hx hx'
    by_cases hzero : walked.tables.getDepthFirstNumber x = 0
    · rw [hzero] at heq ⊢
      by_contra hne
      exact hx' (hinner.confined x heq hne)
    · rw [hinner.kept x (by rwa [heq]), heq]
  constructor
  case stack => rw [hinner.stack, h.reopened.stack]
  case inv => exact hinner.inv
  case current =>
    have hle := hinner.current
    rw [h.reopened.current] at hle
    exact (Nat.le_succ _).trans (hscanned.current.trans hle)
  case kept =>
    intro x hx
    have hx' : x ∉ segment := fun hmem => hx (h.of_segment hmem).1
    have hnode : x ≠ node := fun heq => hx (heq ▸ h.fresh)
    rw [hother hnode hx', h.scanned.kept h.fresh hx]
  case complete =>
    intro x
    rw [idsOf_cons, hids, List.mem_append, List.mem_cons]
    constructor
    · intro hx
      rcases hx with (rfl | hx) | hx
      · exact ⟨h.fresh, hnode⟩
      · exact ⟨(h.of_segment (hmem hx)).1, ((hinner.complete x).mp hx).2⟩
      · exact ⟨(hnew hx).2.1, htop (hnew hx).2.2⟩
    · intro ⟨hzero, hx⟩
      by_cases heq : x = node
      · exact Or.inl (Or.inl heq)
      · by_cases hsegment : x ∈ segment
        · exact Or.inl (Or.inr ((hinner.complete x).mpr ⟨h.reopened.inner x hsegment, hx⟩))
        · rw [hother heq hsegment] at hx
          exact Or.inr ((hscanned.complete x).mpr ⟨by rwa [dfn_enter, if_neg heq], hx⟩)
  case closed =>
    intro x hx y hxy
    rw [idsOf_cons, hids, List.mem_append, List.mem_cons] at hx
    rcases hx with (rfl | hx) | hx
    · exact h.successor_top hinner hne hxy
    · exact hinner.closed x hx y hxy
    · exact htop (hscanned.closed x hx y hxy)
  case low => exact fun x hx => absurd hx List.not_mem_nil
  case confined =>
    intro x hx hx'
    by_cases heq : x = node
    · exact heq ▸ .refl
    · have hx : (tables.enter node).getDepthFirstNumber x = 0 := by rwa [dfn_enter, if_neg heq]
      refine hscanned.confined x hx ?_
      by_cases hsegment : x ∈ segment
      · exact (h.of_segment hsegment).2.1
      · rwa [← hother heq hsegment]
  case ordered =>
    refine ⟨hordered, hscanned.ordered, fun a ha b hb hab => ?_⟩
    have hb' := hscanned.closed a ha b hab
    rw [hids, List.mem_cons] at hb
    rcases hb with rfl | hb
    · rw [h.scanned.number] at hb'
      exact ENat.natCast_ne_top _ hb'
    · exact (h.of_segment (hmem hb)).2.2 hb'
  case nodup =>
    rw [idsOf_cons, hids]
    have hcomponent : (node :: idsOf inner).Nodup :=
      List.nodup_cons.mpr ⟨fun hx => h.node_not_mem (hmem hx), hinner.nodup⟩
    refine hcomponent.append hscanned.nodup ?_
    intro x hx hx'
    rcases List.mem_cons.mp hx with heq | hx
    · exact (hnew hx').1 heq
    · exact (h.of_segment (hmem hx)).2.2 (hnew hx').2.2
  case nodes =>
    intro node hmem
    rw [nodesOf, List.mem_append] at hmem
    rcases hmem with hmem | hmem
    · exact hnodes node hmem
    · exact hscanned.nodes node hmem

end Closing

/-! ## 6. The construction -/

section Construction

variable {successors : CfgNode S → SortedSet ℕ}

/-- The edges that the construction follows. -/
def Follows (cfg : Cfg S) (successors : CfgNode S → SortedSet ℕ) (a b : ℕ) : Prop :=
  ∃ node, cfg.node a = some node ∧ b ∈ successors node

theorem closeComponent_spec {visit : Visit S} (hid : ∀ {id node}, cfg.node id = some node → node.id = id)
    (hvisit : ∀ components node tables result, visit components node tables = some result →
      StackInv tables → tables.getDepthFirstNumber node = 0 →
      Visited cfg (Follows cfg successors) components node tables result)
    {components new : List (Component S)} {nodeIndex : ℕ} {node : CfgNode S} {tables : Tables}
    {seen segment : List ℕ} {walked : Walked S} {result : List (Component S) × Tables}
    (hinv : StackInv tables) (hfresh : tables.getDepthFirstNumber nodeIndex = 0)
    (hnode : cfg.node nodeIndex = some node) (hseen : ∀ y ∈ successors node, y ∈ seen)
    (h : Scanned cfg (Follows cfg successors) components nodeIndex tables seen walked new segment)
    (hminimum : walked.minimumDfn = nextNumber tables)
    (hrun : closeComponent visit successors nodeIndex node walked = some result) :
    ∃ component, result.1 = component :: (new ++ components) ∧
      result.2.getDepthFirstNumber nodeIndex = ⊤ ∧
      Grown cfg (Follows cfg successors) (WhitePath (Follows cfg successors) tables nodeIndex)
        walked.minimumDfn tables result.2 (component :: new) [] := by
  have hself : node.id = nodeIndex := hid hnode
  have hfollows (y : ℕ) : Follows cfg successors nodeIndex y ↔ y ∈ successors node := by
    constructor
    · intro ⟨other, hother, hy⟩
      rw [hnode] at hother
      cases hother
      exact hy
    · exact fun hy => ⟨node, hnode, hy⟩
  have hnotMem : nodeIndex ∉ segment := by
    have hnodup := h.grown.inv.nodup
    rw [h.stack, List.nodup_append] at hnodup
    exact fun hmem => hnodup.2.2 nodeIndex hmem nodeIndex List.mem_cons_self rfl
  unfold closeComponent at hrun
  dsimp only at hrun
  obtain ⟨⟨element, popped⟩, hpop, hrun⟩ := Option.bind_eq_some_iff.mp hrun
  unfold Tables.pop at hpop
  split at hpop
  case h_1 => cases hpop
  case h_2 element' stack hstack =>
    cases hpop
    have hstack : element :: stack = segment ++ nodeIndex :: tables.stack :=
      hstack.symm.trans h.stack
    dsimp only at hrun
    split at hrun
    case isTrue hloop =>
      obtain ⟨⟨below, numbers⟩, hreset, hrun⟩ := Option.bind_eq_some_iff.mp hrun
      obtain ⟨rfl, hnumbers⟩ := resetDfn_spec hstack hnotMem hreset
      obtain ⟨⟨inner, after⟩, hfold, hrun⟩ := Option.bind_eq_some_iff.mp hrun
      cases hrun
      have hclosing : Closing cfg (Follows cfg successors) components nodeIndex tables seen walked
          new segment { walked.tables.setDepthFirstNumber nodeIndex ⊤ with
            stack := tables.stack, depthFirstNumbers := numbers } := {
        scanned := h, inv := hinv, fresh := hfresh, minimum := hminimum
        seen := fun y hy => hseen y ((hfollows y).mp hy)
        reopened := .of_dfn rfl rfl hnotMem hnumbers }
      obtain ⟨hinner, -, hvisited⟩ := hclosing.foldlM hvisit _ _ _
        (fun y hy => (hfollows y).mpr hy) (Grown.refl hclosing.stackInv) hfold
      have hgrown := hclosing.grown hinner (fun y hy => hvisited y ((hfollows y).mp hy))
        (.cycle after.currentComponentId node inner) (by rw [ids_cycle, hself]) hinner.ordered
        (fun other hother => by
          rcases List.mem_cons.mp hother with rfl | hother
          · rwa [hself]
          · exact hinner.nodes other hother)
        walked.minimumDfn
      have htop := hclosing.node_top hinner
      exact ⟨_, by rw [h.found]; rfl, htop, hgrown.makeComponentId⟩
    case isFalse hloop =>
      cases hrun
      obtain ⟨rfl, hnotSeen, -⟩ := h.alone (Bool.not_eq_true _ ▸ hloop)
      obtain ⟨rfl, rfl⟩ := List.cons.inj hstack
      have hclosing : Closing cfg (Follows cfg successors) components element tables seen walked
          new [] { walked.tables.setDepthFirstNumber element ⊤ with stack := tables.stack } := {
        scanned := h, inv := hinv, fresh := hfresh, minimum := hminimum
        seen := fun y hy => hseen y ((hfollows y).mp hy)
        reopened := .of_dfn rfl rfl hnotMem fun x => (if_neg List.not_mem_nil).symm }
      have hinner : Closing.Inner cfg (Follows cfg successors) [] _ _ [] :=
        Grown.refl hclosing.stackInv
      have hloopless : ¬ Follows cfg successors element element :=
        fun hedge => hnotSeen (hseen _ ((hfollows _).mp hedge))
      have hgrown := hclosing.grown hinner
        (fun y hy hzero => List.not_mem_nil (hclosing.mem_of_edge List.mem_cons_self hy hzero))
        (.node walked.tables.currentComponentId node) (by rw [ids_node, hself]; rfl)
        (by rw [Component.Ordered, hself]; exact hloopless)
        (fun other hother => by
          obtain rfl := List.mem_singleton.mp hother
          rwa [hself])
        walked.minimumDfn
      have htop := hclosing.node_top hinner
      exact ⟨_, by rw [h.found]; rfl, htop, hgrown.makeComponentId⟩

/-- Without a way back below it, `node` stays on the stack with everything above it. -/
theorem Scanned.pending {edge : ℕ → ℕ → Prop} {components new : List (Component S)} {node : ℕ}
    {tables : Tables} {seen segment : List ℕ} {walked : Walked S}
    (h : Scanned cfg edge components node tables seen walked new segment)
    (hfresh : tables.getDepthFirstNumber node = 0) (hseen : ∀ y, edge node y → y ∈ seen) :
    Grown cfg edge (WhitePath edge tables node) walked.minimumDfn tables walked.tables new
      (segment ++ [node]) where
  stack := by rw [h.stack, List.append_assoc]; rfl
  inv := h.grown.inv
  current := (Nat.le_succ _).trans h.grown.current
  kept x hx := h.kept hfresh hx
  complete x := by
    rw [h.grown.complete, dfn_enter]
    by_cases heq : x = node
    · rw [heq, h.number]
      exact iff_of_false (fun hx => ENat.natCast_ne_top _ hx.2)
        (fun hx => ENat.natCast_ne_top _ hx.2)
    · rw [if_neg heq]
  closed := h.grown.closed
  low x hx y hxy := by
    rcases List.mem_append.mp hx with hx | hx
    · exact h.grown.low x hx y hxy
    · obtain rfl := List.mem_singleton.mp hx
      exact h.placed y (hseen y hxy)
  confined x hx hx' := by
    by_cases heq : x = node
    · exact heq ▸ .refl
    · exact h.grown.confined x (by rwa [dfn_enter, if_neg heq]) hx'
  ordered := h.grown.ordered
  nodup := h.grown.nodup
  nodes := h.grown.nodes

theorem visit_spec (hid : ∀ {id node}, cfg.node id = some node → node.id = id) :
    ∀ (fuel : ℕ) (components : List (Component S)) (nodeIndex : ℕ) (tables : Tables)
      (result : List (Component S) × ℕ∞ × Tables),
      visit cfg successors fuel components nodeIndex tables = some result → StackInv tables →
      tables.getDepthFirstNumber nodeIndex = 0 →
      Visited cfg (Follows cfg successors) components nodeIndex tables result := by
  intro fuel
  induction fuel with
  | zero =>
    intro components nodeIndex tables result hrun
    cases hrun
  | succ fuel ih =>
    intro components nodeIndex tables result hrun hinv hfresh
    unfold visit at hrun
    dsimp only at hrun
    obtain ⟨node, hnode, hrun⟩ := Option.bind_eq_some_iff.mp hrun
    obtain ⟨walked, hwalk, hrun⟩ := Option.bind_eq_some_iff.mp hrun
    obtain ⟨new, segment, h⟩ := (Scanned.enter hinv hfresh).foldlM hinv hfresh ih
      (successors node).elements _ _ _ _ (fun y hy => ⟨node, hnode, hy⟩) hwalk
    rw [List.append_nil] at h
    have hseen (y : ℕ) (hy : y ∈ successors node) : y ∈ (successors node).elements.reverse :=
      List.mem_reverse.mpr hy
    have hfollows (y : ℕ) (hy : Follows cfg successors nodeIndex y) :
        y ∈ (successors node).elements.reverse := by
      obtain ⟨other, hother, hy⟩ := hy
      rw [hnode] at hother
      cases hother
      exact hseen y hy
    rw [h.number] at hrun
    split at hrun
    case isTrue hminimum =>
      obtain ⟨⟨components', after⟩, hclose, hrun⟩ := Option.bind_eq_some_iff.mp hrun
      cases hrun
      obtain ⟨component, hresult, htop, hgrown⟩ :=
        closeComponent_spec hid ih hinv hfresh hnode hseen h hminimum hclose
      refine ⟨component :: new, [], hresult, hgrown, fun _ hx => absurd hx List.not_mem_nil,
        Or.inl ⟨rfl, htop, fun y hy => ?_⟩⟩
      show _ < walked.minimumDfn
      rw [hminimum]
      exact (hinv.onStack y hy).2.trans_lt (lt_nextNumber tables)
    case isFalse hminimum =>
      cases hrun
      have hlt : walked.minimumDfn < nextNumber tables := lt_of_le_of_ne h.le hminimum
      obtain ⟨x, hx, y, hy, hxy, heq⟩ := h.minimum hlt
      have hself : nodeIndex ∈ segment ++ [nodeIndex] :=
        List.mem_append_right _ (List.mem_singleton.mpr rfl)
      refine ⟨new, segment ++ [nodeIndex], h.found, h.pending hfresh hfollows, fun z hz => ?_,
        Or.inr ⟨hself, x, ?_, y, hy, hxy, heq⟩⟩
      · rcases List.mem_append.mp hz with hz | hz
        · exact within_mono (fun b hb => List.mem_append_left _ hb) (h.path z hz)
        · obtain rfl := List.mem_singleton.mp hz
          exact .refl
      · rcases List.mem_cons.mp hx with rfl | hx
        · exact hself
        · exact List.mem_append_left _ hx

/-- What a weak topological order of the nodes that can be reached from `entryIndex` is. -/
structure Correct (cfg : Cfg S) (successors : CfgNode S → SortedSet ℕ) (entryIndex : ℕ)
    (components : List (Component S)) : Prop where
  ordered : OrderedList (Follows cfg successors) components
  nodup : (idsOf components).Nodup
  nodes : ∀ node ∈ nodesOf components, cfg.node node.id = some node
  reached : ∀ x, Relation.ReflTransGen (Follows cfg successors) entryIndex x →
    x ∈ idsOf components

/-- **The construction yields a weak topological order of the reachable nodes.** -/
theorem create_spec (hid : ∀ {id node}, cfg.node id = some node → node.id = id)
    {entryIndex fuel : ℕ} {components : List (Component S)}
    (hrun : create cfg entryIndex successors fuel = some components) :
    Correct cfg successors entryIndex components := by
  unfold create at hrun
  obtain ⟨result, hvisit, hrun⟩ := Option.bind_eq_some_iff.mp hrun
  cases hrun
  have hfresh (x : ℕ) : Tables.initial.getDepthFirstNumber x = 0 := by
    unfold Tables.getDepthFirstNumber
    rw [show Tables.initial.depthFirstNumbers.find? x = none from SortedMap.find?_empty x]
    rfl
  obtain ⟨new, segment, heq, hgrown, -, hplace⟩ :=
    visit_spec hid fuel [] entryIndex .initial result hvisit stackInv_initial (hfresh _)
  rw [List.append_nil] at heq
  rw [heq]
  rcases hplace with ⟨-, htop, -⟩ | ⟨-, x, -, y, hy, -⟩
  · refine ⟨hgrown.ordered, hgrown.nodup, hgrown.nodes, fun x hx => ?_⟩
    rw [hgrown.complete]
    refine ⟨hfresh x, ?_⟩
    induction hx with
    | refl => exact htop
    | tail _ hedge ih => exact hgrown.closed _ ((hgrown.complete _).mpr ⟨hfresh _, ih⟩) _ hedge
  · exact absurd hy List.not_mem_nil

end Construction

end WeakTopologicalOrder

end Pysa
