/-
  Subject: THE CONSTRUCTION ENDS, AND WHAT ITS ORDER SAYS OF AN EDGE.

  * `unnumbered` -- the nodes without a number; entering a node takes it out, and no visit and no
    reopening of a component puts one back that was not there when the node was entered;
  * `visit_total` -- hence a visit ends within as many calls as there are such nodes;
  * `HeadOf`, `OrderedList.edge` -- an edge leads forward, or to the head of a cycle around it;
  * `weakTopologicalOrder_create` -- **on every finite graph the construction returns the reachable
    nodes, once each, in a weak topological order**.
-/
import Pysa.Analysis.WeakTopologicalOrderCorrect
import Pysa.Lib.Fuel

namespace Pysa

variable {S : Type}

/-! ## 1. Heads of cycles -/

mutual

/-- `head` is the head of a cycle in the component that contains `x`. -/
def Component.HeadOf (head x : ℕ) : Component S → Prop
  | .node _ _ => False
  | .cycle _ node components =>
    head = node.id ∧ (x = node.id ∨ x ∈ idsOf components) ∨ HeadOf head x components

/-- `head` is the head of a cycle in one of the components, or within one, that contains `x`. -/
def HeadOf (head x : ℕ) : List (Component S) → Prop
  | [] => False
  | component :: components => component.HeadOf head x ∨ HeadOf head x components

end

mutual

theorem Component.Ordered.edge {edge : ℕ → ℕ → Prop} {u v : ℕ} (huv : edge u v) :
    ∀ {component : Component S}, component.Ordered edge → u ∈ component.ids → v ∈ component.ids →
      [u, v].Sublist component.ids ∨ component.HeadOf v u
  | .node _ node, h, hu, hv => by
      rw [ids_node, List.mem_singleton] at hu hv
      subst hu hv
      exact absurd huv h
  | .cycle _ node components, h, hu, hv => by
      rw [ids_cycle, List.mem_cons] at hu hv
      rcases hv with hv | hv
      · exact Or.inr (Or.inl ⟨hv, hu⟩)
      · rcases hu with hu | hu
        · left
          rw [hu, ids_cycle]
          exact List.cons_sublist_cons.mpr (List.singleton_sublist.mpr hv)
        · rcases OrderedList.edge huv h hu hv with hsub | hhead
          · exact Or.inl (hsub.cons _)
          · exact Or.inr (Or.inr hhead)

/-- An edge leads forward, or to the head of a cycle that contains its source. -/
theorem OrderedList.edge {edge : ℕ → ℕ → Prop} {u v : ℕ} (huv : edge u v) :
    ∀ {components : List (Component S)}, OrderedList edge components → u ∈ idsOf components →
      v ∈ idsOf components → [u, v].Sublist (idsOf components) ∨ HeadOf v u components
  | [], _, hu, _ => absurd hu List.not_mem_nil
  | component :: components, h, hu, hv => by
      rw [idsOf_cons] at hu hv ⊢
      rw [List.mem_append] at hu hv
      rcases hu with hu | hu <;> rcases hv with hv | hv
      · rcases Component.Ordered.edge huv h.1 hu hv with hsub | hhead
        · exact Or.inl (hsub.trans (List.sublist_append_left _ _))
        · exact Or.inr (Or.inl hhead)
      · exact Or.inl ((List.singleton_sublist.mpr hu).append (List.singleton_sublist.mpr hv))
      · exact absurd huv (h.2.2 u hu v hv)
      · rcases OrderedList.edge huv h.2.1 hu hv with hsub | hhead
        · exact Or.inl (hsub.trans (List.sublist_append_right _ _))
        · exact Or.inr (Or.inr hhead)

end

namespace WeakTopologicalOrder

open Tables

variable {cfg : Cfg S} {edge : ℕ → ℕ → Prop}

/-! ## 2. Nodes without a number -/

theorem dfn_initial {x : ℕ} : Tables.initial.getDepthFirstNumber x = 0 := by
  unfold Tables.getDepthFirstNumber
  rw [show Tables.initial.depthFirstNumbers.find? x = none from SortedMap.find?_empty x]
  rfl

def unnumbered (cfg : Cfg S) (tables : Tables) : Finset ℕ :=
  cfg.keys.toFinset.filter fun x => tables.getDepthFirstNumber x = 0

theorem mem_unnumbered {tables : Tables} {x : ℕ} :
    x ∈ unnumbered cfg tables ↔ x ∈ cfg.keys ∧ tables.getDepthFirstNumber x = 0 := by
  unfold unnumbered
  rw [Finset.mem_filter, List.mem_toFinset]

/-- From a node on, the nodes without a number are fewer: the node itself has one. -/
theorem unnumbered_card_lt {tables tables' : Tables} {node : ℕ} (hnode : node ∈ cfg.keys)
    (hfresh : tables.getDepthFirstNumber node = 0)
    (h : ∀ x, tables'.getDepthFirstNumber x = 0 → x ≠ node ∧ tables.getDepthFirstNumber x = 0) :
    (unnumbered cfg tables').card < (unnumbered cfg tables).card := by
  refine Finset.card_lt_card ⟨fun x hx => ?_, fun hsub => ?_⟩
  · rw [mem_unnumbered] at hx ⊢
    exact ⟨hx.1, (h x hx.2).2⟩
  · have hmem := hsub (mem_unnumbered.mpr ⟨hnode, hfresh⟩)
    exact (h node (mem_unnumbered.mp hmem).2).1 rfl

/-! ## 3. A visit ends -/

/-- A visit returns as long as fewer than `bound` nodes have no number. -/
def Total (cfg : Cfg S) (bound : ℕ) (visit : Visit S) : Prop :=
  ∀ components node tables, StackInv tables → tables.getDepthFirstNumber node = 0 →
    node ∈ cfg.keys → (unnumbered cfg tables).card < bound →
    ∃ result, visit components node tables = some result

/-- A visit returns what `visit_spec` says. -/
def Sound (cfg : Cfg S) (edge : ℕ → ℕ → Prop) (visit : Visit S) : Prop :=
  ∀ components node tables result, visit components node tables = some result →
    StackInv tables → tables.getDepthFirstNumber node = 0 →
    Visited cfg edge components node tables result

theorem Scanned.visitSuccessor_total {components : List (Component S)} {node successor bound : ℕ}
    {tables : Tables} {seen segment : List ℕ} {walked : Walked S} {new : List (Component S)}
    {visit : Visit S} (h : Scanned cfg edge components node tables seen walked new segment)
    (htotal : Total cfg bound visit) (hsuccessor : successor ∈ cfg.keys)
    (hbound : (unnumbered cfg walked.tables).card < bound) :
    ∃ walked', WeakTopologicalOrder.visitSuccessor visit walked successor = some walked' := by
  unfold WeakTopologicalOrder.visitSuccessor
  split
  case isTrue hzero =>
    obtain ⟨result, hresult⟩ := htotal walked.components successor walked.tables h.grown.inv hzero
      hsuccessor hbound
    rw [hresult]
    dsimp only [Option.bind_eq_bind, Option.bind_some]
    split <;> exact ⟨_, rfl⟩
  case isFalse =>
    dsimp only [Option.bind_eq_bind, Option.bind_some]
    split <;> exact ⟨_, rfl⟩

/-- The walk over the successors of `node` ends. -/
theorem Scanned.foldlM_total {components : List (Component S)} {node bound : ℕ} {tables : Tables}
    {visit : Visit S} (hinv : StackInv tables) (hfresh : tables.getDepthFirstNumber node = 0)
    (hnode : node ∈ cfg.keys) (hsound : Sound cfg edge visit) (htotal : Total cfg bound visit)
    (hbound : (unnumbered cfg tables).card < bound + 1) :
    ∀ (successors seen : List ℕ) (walked : Walked S) (new : List (Component S))
      (segment : List ℕ), (∀ successor ∈ successors, edge node successor ∧ successor ∈ cfg.keys) →
      Scanned cfg edge components node tables seen walked new segment →
      ∃ walked', successors.foldlM (WeakTopologicalOrder.visitSuccessor visit) walked =
        some walked' := by
  intro successors
  induction successors with
  | nil => exact fun _ walked _ _ _ _ => ⟨walked, rfl⟩
  | cons successor rest ih =>
    intro seen walked new segment hedge h
    have hlt := unnumbered_card_lt hnode hfresh fun x => h.zero_of_zero
    obtain ⟨next, hnext⟩ := h.visitSuccessor_total htotal (hedge successor List.mem_cons_self).2
      (by omega)
    obtain ⟨new', segment', h'⟩ := h.visitSuccessor hinv hfresh
      (hedge successor List.mem_cons_self).1 hsound hnext
    obtain ⟨walked', hwalked'⟩ := ih _ next new' segment'
      (fun y hy => hedge y (List.mem_cons_of_mem _ hy)) h'
    rw [List.foldlM_cons, hnext]
    exact ⟨walked', hwalked'⟩

theorem resetDfn_total {node element : ℕ} {stack below segment : List ℕ}
    {numbers : SortedMap ℕ ℕ∞} (hstack : element :: stack = segment ++ node :: below) :
    ∃ result, resetDfn node element stack numbers = some result := by
  induction segment generalizing element stack numbers with
  | nil =>
    obtain ⟨rfl, rfl⟩ := List.cons.inj hstack
    unfold resetDfn
    rw [if_pos rfl]
    exact ⟨_, rfl⟩
  | cons upper rest ih =>
    obtain ⟨rfl, htail⟩ := List.cons.inj hstack
    unfold resetDfn
    split
    · exact ⟨_, rfl⟩
    · cases stack with
      | nil => cases rest <;> cases htail
      | cons next stack => exact ih htail

/-- Reopening a component leaves the node numbered, and no other node loses its number than those
    entered after it. -/
theorem Closing.zero_of_zero {components new : List (Component S)} {node : ℕ}
    {tables reopened : Tables} {seen segment : List ℕ} {walked : Walked S}
    (h : Closing cfg edge components node tables seen walked new segment reopened) {x : ℕ}
    (hx : reopened.getDepthFirstNumber x = 0) : x ≠ node ∧ tables.getDepthFirstNumber x = 0 := by
  have hne : x ≠ node := by
    rintro rfl
    rw [h.reopened.head] at hx
    exact absurd hx (by decide)
  by_cases hsegment : x ∈ segment
  · exact ⟨hne, (h.of_segment hsegment).1⟩
  · rw [h.reopened.other x hne hsegment] at hx
    exact h.scanned.zero_of_zero hx

/-- The walk over the rest of a cycle ends. -/
theorem Closing.foldlM_total {components new : List (Component S)} {node bound : ℕ}
    {tables reopened : Tables} {seen segment : List ℕ} {walked : Walked S} {visit : Visit S}
    (h : Closing cfg edge components node tables seen walked new segment reopened)
    (hnode : node ∈ cfg.keys) (hsound : Sound cfg edge visit) (htotal : Total cfg bound visit)
    (hbound : (unnumbered cfg tables).card < bound + 1) :
    ∀ (successors : List ℕ) (inner : List (Component S)) (after : Tables),
      (∀ successor ∈ successors, edge node successor ∧ successor ∈ cfg.keys) →
      Closing.Inner cfg edge segment reopened after inner →
      ∃ result, successors.foldlM (WeakTopologicalOrder.revisitSuccessor visit) (inner, after) =
        some result := by
  intro successors
  induction successors with
  | nil => exact fun inner after _ _ => ⟨_, rfl⟩
  | cons successor rest ih =>
    intro inner after hedge hinner
    have hlt : (unnumbered cfg after).card < bound := by
      have hlt := unnumbered_card_lt hnode h.fresh fun x hx =>
        h.zero_of_zero (hinner.zero_of_zero hx)
      omega
    obtain ⟨hedge₁, hkey⟩ := hedge successor List.mem_cons_self
    obtain ⟨⟨inner', after'⟩, hnext⟩ :
        ∃ next, WeakTopologicalOrder.revisitSuccessor visit (inner, after) successor = some next := by
      unfold WeakTopologicalOrder.revisitSuccessor
      split
      case isTrue hzero =>
        obtain ⟨result, hresult⟩ := htotal inner successor after hinner.inv hzero hkey hlt
        dsimp only at hresult ⊢
        rw [hresult]
        exact ⟨_, rfl⟩
      case isFalse => exact ⟨_, rfl⟩
    obtain ⟨hinner', -, -⟩ := h.revisitSuccessor hsound hedge₁ hinner hnext
    obtain ⟨result, hresult⟩ := ih inner' after'
      (fun y hy => hedge y (List.mem_cons_of_mem _ hy)) hinner'
    rw [List.foldlM_cons, hnext]
    exact ⟨result, hresult⟩

section Construction

variable {successors : CfgNode S → SortedSet ℕ}

theorem closeComponent_total {visit : Visit S} {components new : List (Component S)}
    {nodeIndex bound : ℕ} {node : CfgNode S} {tables : Tables} {seen segment : List ℕ}
    {walked : Walked S} (hinv : StackInv tables) (hfresh : tables.getDepthFirstNumber nodeIndex = 0)
    (hkey : nodeIndex ∈ cfg.keys) (hsound : Sound cfg edge visit) (htotal : Total cfg bound visit)
    (hbound : (unnumbered cfg tables).card < bound + 1)
    (hseen : ∀ y, edge nodeIndex y → y ∈ seen)
    (hedge : ∀ y ∈ (successors node).elements, edge nodeIndex y ∧ y ∈ cfg.keys)
    (h : Scanned cfg edge components nodeIndex tables seen walked new segment)
    (hminimum : walked.minimumDfn = nextNumber tables) :
    ∃ result, closeComponent visit successors nodeIndex node walked = some result := by
  have hnotMem : nodeIndex ∉ segment := by
    have hnodup := h.grown.inv.nodup
    rw [h.stack, List.nodup_append] at hnodup
    exact fun hmem => hnodup.2.2 nodeIndex hmem nodeIndex List.mem_cons_self rfl
  obtain ⟨element, stack, hstack⟩ : ∃ element stack, walked.tables.stack = element :: stack := by
    rw [h.stack]
    cases segment with
    | nil => exact ⟨_, _, rfl⟩
    | cons element rest => exact ⟨_, _, rfl⟩
  have hpop : (walked.tables.setDepthFirstNumber nodeIndex ⊤).pop =
      some (element, { walked.tables.setDepthFirstNumber nodeIndex ⊤ with stack := stack }) := by
    unfold Tables.pop
    rw [show (walked.tables.setDepthFirstNumber nodeIndex ⊤).stack = element :: stack from hstack]
  have hsplit : element :: stack = segment ++ nodeIndex :: tables.stack :=
    hstack.symm.trans h.stack
  unfold closeComponent
  dsimp only
  rw [hpop]
  dsimp only [Option.bind_eq_bind, Option.bind_some]
  split
  case isTrue =>
    obtain ⟨⟨below, numbers⟩, hreset⟩ : ∃ result, resetDfn nodeIndex element stack
        (walked.tables.setDepthFirstNumber nodeIndex ⊤).depthFirstNumbers = some result :=
      resetDfn_total hsplit
    obtain ⟨rfl, hnumbers⟩ := resetDfn_spec hsplit hnotMem hreset
    have hclosing : Closing cfg edge components nodeIndex tables seen walked new segment
        { walked.tables.setDepthFirstNumber nodeIndex ⊤ with
          stack := tables.stack, depthFirstNumbers := numbers } := {
      scanned := h, inv := hinv, fresh := hfresh, minimum := hminimum, seen := hseen
      reopened := .of_dfn rfl rfl hnotMem hnumbers }
    obtain ⟨result, hresult⟩ := hclosing.foldlM_total hkey hsound htotal hbound
      (successors node).elements [] _ hedge (Grown.refl hclosing.stackInv)
    rw [hreset]
    dsimp only [Option.bind_some]
    rw [hresult]
    exact ⟨_, rfl⟩
  case isFalse => exact ⟨_, rfl⟩

/-- A graph: nodes carry their own id, and `successors` stays within the graph. -/
structure FiniteGraph (cfg : Cfg S) (successors : CfgNode S → SortedSet ℕ) : Prop where
  id : ∀ {id node}, cfg.node id = some node → node.id = id
  successor : ∀ {id node}, cfg.node id = some node → ∀ y ∈ successors node, y ∈ cfg.keys

/-- **A visit ends** when the fuel exceeds the number of nodes without a number. -/
theorem visit_total (hgraph : FiniteGraph cfg successors) (fuel : ℕ) :
    Total cfg fuel (visit cfg successors fuel) := by
  induction fuel with
  | zero => exact fun _ _ _ _ _ _ hbound => absurd hbound (Nat.not_lt_zero _)
  | succ fuel ih =>
    intro components nodeIndex tables hinv hfresh hkey hbound
    obtain ⟨node, hnode⟩ : ∃ node, cfg.node nodeIndex = some node :=
      Option.isSome_iff_exists.mp (SortedMap.isSome_find?.mpr hkey)
    have hsound : Sound cfg (Follows cfg successors) (visit cfg successors fuel) :=
      visit_spec hgraph.id fuel
    have hedge (y : ℕ) (hy : y ∈ (successors node).elements) :
        Follows cfg successors nodeIndex y ∧ y ∈ cfg.keys :=
      ⟨⟨node, hnode, hy⟩, hgraph.successor hnode y hy⟩
    have henter : Scanned cfg (Follows cfg successors) components nodeIndex tables [] _ [] [] :=
      Scanned.enter hinv hfresh
    obtain ⟨walked, hwalk⟩ := henter.foldlM_total hinv hfresh hkey hsound ih hbound
      (successors node).elements _ _ _ _ hedge
    obtain ⟨new, segment, h⟩ := henter.foldlM hinv hfresh hsound
      (successors node).elements _ _ _ _ (fun y hy => (hedge y hy).1) hwalk
    rw [visit]
    dsimp only
    rw [hnode]
    dsimp only [Option.bind_eq_bind, Option.bind_some]
    rw [hwalk]
    dsimp only [Option.bind_some]
    rw [h.number]
    split
    case isTrue hminimum =>
      obtain ⟨result, hresult⟩ := closeComponent_total hinv hfresh hkey hsound ih hbound
        (fun y ⟨other, hother, hy⟩ => by
          rw [hnode] at hother
          cases hother
          exact List.mem_append_left _ (List.mem_reverse.mpr hy))
        hedge h hminimum
      rw [hresult]
      exact ⟨_, rfl⟩
    case isFalse => exact ⟨_, rfl⟩

/-! ## 4. The order -/

open Fuel in
theorem visit_refines_succ (cfg : Cfg S) (successors : CfgNode S → SortedSet ℕ) (fuel : ℕ) :
    ∀ components node, Refines (visit cfg successors fuel components node)
      (visit cfg successors (fuel + 1) components node) := by
  induction fuel with
  | zero => exact fun _ _ _ _ hrun => by cases hrun
  | succ fuel ih =>
    intro components nodeIndex tables result hrun
    have hwalks (walked : Walked S) :
        Refines (visitSuccessor (visit cfg successors fuel) walked)
          (visitSuccessor (visit cfg successors (fuel + 1)) walked) := by
      intro successor walked' hrun
      unfold visitSuccessor at hrun ⊢
      dsimp only at hrun ⊢
      split at hrun
      case isTrue hzero =>
        obtain ⟨visited, hvisit, hrun⟩ := Option.bind_eq_some_iff.mp hrun
        rw [if_pos hzero, ih _ _ _ _ hvisit]
        exact hrun
      case isFalse hzero =>
        rw [if_neg hzero]
        exact hrun
    have hrewalks (walked : List (Component S) × Tables) :
        Refines (revisitSuccessor (visit cfg successors fuel) walked)
          (revisitSuccessor (visit cfg successors (fuel + 1)) walked) := by
      intro successor walked' hrun
      unfold revisitSuccessor at hrun ⊢
      split at hrun
      case isTrue hzero =>
        obtain ⟨visited, hvisit, hrun⟩ := Option.bind_eq_some_iff.mp hrun
        rw [if_pos hzero, ih _ _ _ _ hvisit]
        exact hrun
      case isFalse hzero => rw [if_neg hzero, hrun]
    have hclose (node : CfgNode S) : Refines
        (closeComponent (visit cfg successors fuel) successors nodeIndex node)
        (closeComponent (visit cfg successors (fuel + 1)) successors nodeIndex node) := by
      intro walked result hrun
      unfold closeComponent at hrun ⊢
      obtain ⟨popped, hpop, hrun⟩ := Option.bind_eq_some_iff.mp hrun
      dsimp only at hpop hrun ⊢
      rw [hpop]
      dsimp only [Option.bind_eq_bind, Option.bind_some]
      split at hrun
      case isTrue hloop =>
        obtain ⟨reset, hreset, hrun⟩ := Option.bind_eq_some_iff.mp hrun
        obtain ⟨inner, hinner, hrun⟩ := Option.bind_eq_some_iff.mp hrun
        rw [if_pos hloop, hreset]
        dsimp only [Option.bind_some]
        rw [Refines.foldlM hrewalks hinner]
        exact hrun
      case isFalse hloop =>
        rw [if_neg hloop]
        exact hrun
    rw [visit] at hrun ⊢
    obtain ⟨node, hnode, hrun⟩ := Option.bind_eq_some_iff.mp hrun
    obtain ⟨walked, hwalk, hrun⟩ := Option.bind_eq_some_iff.mp hrun
    dsimp only at hwalk hrun ⊢
    rw [hnode]
    dsimp only [Option.bind_eq_bind, Option.bind_some]
    rw [Refines.foldlM hwalks hwalk]
    dsimp only [Option.bind_some]
    split at hrun
    case isTrue hminimum =>
      obtain ⟨closed, hclosed, hrun⟩ := Option.bind_eq_some_iff.mp hrun
      rw [if_pos hminimum, hclose _ _ _ hclosed]
      exact hrun
    case isFalse hminimum =>
      rw [if_neg hminimum]
      exact hrun

/-- The nodes of the components are those that can be reached. -/
theorem mem_idsOf_create (hid : ∀ {id node}, cfg.node id = some node → node.id = id)
    {entryIndex fuel : ℕ} {components : List (Component S)}
    (hrun : create cfg entryIndex successors fuel = some components) (x : ℕ) :
    x ∈ idsOf components ↔ Relation.ReflTransGen (Follows cfg successors) entryIndex x := by
  refine ⟨fun hx => ?_, (create_spec hid hrun).reached x⟩
  unfold create at hrun
  obtain ⟨result, hvisit, hrun⟩ := Option.bind_eq_some_iff.mp hrun
  cases hrun
  obtain ⟨new, segment, heq, hgrown, -, -⟩ :=
    visit_spec hid fuel [] entryIndex .initial result hvisit stackInv_initial dfn_initial
  rw [heq, List.append_nil] at hx
  have hnumber := (hgrown.complete x).mp hx
  have hwhite := hgrown.confined x hnumber.1 (by rw [hnumber.2]; decide)
  exact Relation.ReflTransGen.mono (fun _ _ hab => hab.1) _ _ hwhite

/-- **On every finite graph the construction ends, and its components are a weak topological order
    of the nodes that the entry reaches.** More fuel than the graph has nodes makes no
    difference. -/
theorem weakTopologicalOrder_create (cfg : Cfg S) (successors : CfgNode S → SortedSet ℕ)
    (entryIndex : ℕ) (hgraph : FiniteGraph cfg successors) (hentry : entryIndex ∈ cfg.keys) :
    ∃ components,
      (∀ fuel, cfg.keys.length < fuel → create cfg entryIndex successors fuel = some components) ∧
      (idsOf components).Nodup ∧
      (∀ node ∈ nodesOf components, cfg.node node.id = some node) ∧
      (∀ x, x ∈ idsOf components ↔
        Relation.ReflTransGen (Follows cfg successors) entryIndex x) ∧
      ∀ u v, Relation.ReflTransGen (Follows cfg successors) entryIndex u →
        Follows cfg successors u v →
        [u, v].Sublist (idsOf components) ∧ ¬ HeadOf v u components ∨ HeadOf v u components := by
  have hbound : (unnumbered cfg Tables.initial).card < cfg.keys.length + 1 :=
    ((Finset.card_filter_le _ _).trans (List.toFinset_card_le _)).trans_lt (Nat.lt_succ_self _)
  obtain ⟨result, hresult⟩ := visit_total hgraph _ [] entryIndex .initial stackInv_initial
    dfn_initial hentry hbound
  have hcreate (fuel : ℕ) (hfuel : cfg.keys.length < fuel) :
      create cfg entryIndex successors fuel = some result.1 := by
    unfold create
    rw [Fuel.Refines.of_succ (f := fun fuel => visit cfg successors fuel [] entryIndex)
      (fun fuel => visit_refines_succ cfg successors fuel [] entryIndex) hfuel _ _ hresult]
    rfl
  have hrun := hcreate _ (Nat.lt_succ_self _)
  have hcorrect := create_spec hgraph.id hrun
  have hmem := mem_idsOf_create hgraph.id hrun
  refine ⟨result.1, hcreate, hcorrect.nodup, hcorrect.nodes, hmem, fun u v hu huv => ?_⟩
  by_cases hhead : HeadOf v u result.1
  · exact Or.inr hhead
  · have hedge := OrderedList.edge huv hcorrect.ordered ((hmem u).mpr hu)
      ((hmem v).mpr (hu.tail huv))
    exact Or.inl ⟨hedge.resolve_right hhead, hhead⟩

/-- Two loops, one within the other. -/
theorem weakTopologicalOrder_create_nested :
    let cfg : Cfg Bool := SortedMap.empty
      |>.add 0 ⟨0, .entry, .empty, .singleton 4⟩
      |>.add 4 ⟨4, .whileLoop, .ofList [0, 5], .ofList [5]⟩
      |>.add 5 ⟨5, .whileLoop, .ofList [4, 6], .ofList [4, 6]⟩
      |>.add 6 ⟨6, .block [true], .singleton 5, .singleton 5⟩
    (0 ∈ cfg.keys ∧ FiniteGraph cfg (·.successors)) ∧
      ∃ components,
      (∀ fuel, cfg.keys.length < fuel → create cfg 0 (·.successors) fuel = some components) ∧
      (idsOf components).Nodup ∧
      (∀ node ∈ nodesOf components, cfg.node node.id = some node) ∧
      (∀ x, x ∈ idsOf components ↔ Relation.ReflTransGen (Follows cfg (·.successors)) 0 x) ∧
      ∀ u v, Relation.ReflTransGen (Follows cfg (·.successors)) 0 u →
        Follows cfg (·.successors) u v →
        [u, v].Sublist (idsOf components) ∧ ¬ HeadOf v u components ∨ HeadOf v u components := by
  intro cfg
  have hkeys : ∀ id ∈ cfg.keys, ∀ node ∈ cfg.node id,
      node.id = id ∧ ∀ y ∈ node.successors.elements, y ∈ cfg.keys := by decide +kernel
  have hentry : 0 ∈ cfg.keys := by decide +kernel
  have hgraph : FiniteGraph cfg (·.successors) := {
    id := fun hnode => (hkeys _ (SortedMap.mem_of_find? hnode) _ hnode).1
    successor := fun hnode => (hkeys _ (SortedMap.mem_of_find? hnode) _ hnode).2 }
  exact ⟨⟨hentry, hgraph⟩, weakTopologicalOrder_create cfg (·.successors) 0 hgraph hentry⟩

end Construction

end WeakTopologicalOrder

end Pysa
