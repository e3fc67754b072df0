/-
  Subject: A RUN THAT RETURNS LEAVES A POST-FIXPOINT.

  * `Stable` -- the precondition of a node is above what flows into it, and its postcondition above
    what the transition makes of that;
  * `analyzeComponents_spec` -- along an ordered list every node is left stable, and other nodes
    are not touched;
  * `PostFixpoint`, `computeFixpoint_postFixpoint` -- **the result, in either direction**.
-/
import Pysa.Analysis.Fixpoint
import Pysa.Analysis.WeakTopologicalOrderCorrect

namespace Pysa

namespace State

variable {A S : Type} (domain : State A S)

def Le (a b : A) : Prop := domain.lessOrEqual a b = true

instance (a b : A) : Decidable (domain.Le a b) := inferInstanceAs (Decidable (_ = true))

/-- The order is a preorder, and `join` is an upper bound. Nothing is asked of `widen`: what it
    returns is joined with the flow before it is used. -/
structure Lawful : Prop where
  refl : ∀ a, domain.Le a a
  trans : ∀ {a b c}, domain.Le a b → domain.Le b c → domain.Le a c
  le_join_left : ∀ a b, domain.Le a (domain.join a b)
  le_join_right : ∀ a b, domain.Le b (domain.join a b)

end State

namespace Fixpoint

variable {A S : Type} {problem : Problem A S}

/-! ## 1. What flows into a node -/

/-- `state` flows into `node` under these postconditions. -/
def Flows (problem : Problem A S) (postconditions : SortedMap ℕ A) (node : CfgNode S) (state : A) :
    Prop :=
  if node.id = problem.initialIndex then state = problem.initial
  else ∃ predecessor ∈ problem.predecessors node,
    state = (postconditions.find? predecessor).getD problem.domain.bottom

theorem le_foldl_join {domain : State A S} (h : domain.Lawful) (f : ℕ → A) :
    ∀ (ids : List ℕ) (state : A),
      domain.Le state (ids.foldl (fun sofar id => domain.join sofar (f id)) state) ∧
      ∀ id ∈ ids, domain.Le (f id) (ids.foldl (fun sofar id => domain.join sofar (f id)) state) := by
  intro ids
  induction ids with
  | nil => exact fun state => ⟨h.refl state, fun _ hid => absurd hid List.not_mem_nil⟩
  | cons id rest ih =>
    intro state
    obtain ⟨hle, hrest⟩ := ih (domain.join state (f id))
    rw [List.foldl_cons]
    refine ⟨h.trans (h.le_join_left _ _) hle, fun x hx => ?_⟩
    rcases List.mem_cons.mp hx with rfl | hx
    · exact h.trans (h.le_join_right _ _) hle
    · exact hrest x hx

theorem join_spec (h : problem.domain.Lawful) (postconditions : SortedMap ℕ A) (node : CfgNode S)
    (state : A) :
    problem.domain.Le state
        (joinWithPredecessorsPostconditions problem postconditions node state) ∧
      ∀ {flow}, Flows problem postconditions node flow → problem.domain.Le flow
        (joinWithPredecessorsPostconditions problem postconditions node state) := by
  unfold joinWithPredecessorsPostconditions Flows
  split
  case isTrue hinitial =>
    refine ⟨h.le_join_left _ _, fun {flow} hflow => ?_⟩
    rw [hflow]
    exact h.le_join_right _ _
  case isFalse hinitial =>
    obtain ⟨hle, hall⟩ := le_foldl_join h
      (fun id => (postconditions.find? id).getD problem.domain.bottom)
      (problem.predecessors node).elements state
    refine ⟨hle, fun {flow} hflow => ?_⟩
    obtain ⟨predecessor, hmem, rfl⟩ := hflow
    exact hall predecessor hmem

/-! ## 2. Stable nodes -/

structure Stable (problem : Problem A S) (fixpoint : Fixpoint A) (node : CfgNode S)
    (precondition postcondition : A) : Prop where
  pre : fixpoint.preconditions.find? node.id = some precondition
  post : fixpoint.postconditions.find? node.id = some postcondition
  flows : ∀ {state}, Flows problem fixpoint.postconditions node state →
    problem.domain.Le state precondition
  transition : problem.domain.Le
    (problem.transition node.id precondition node.statements) postcondition

/-- The entries of every node outside `ids` are the same. -/
def SameOutside (ids : List ℕ) (fixpoint fixpoint' : Fixpoint A) : Prop :=
  ∀ id ∉ ids, fixpoint'.preconditions.find? id = fixpoint.preconditions.find? id ∧
    fixpoint'.postconditions.find? id = fixpoint.postconditions.find? id

namespace SameOutside

variable {ids ids' : List ℕ} {fixpoint fixpoint' fixpoint'' : Fixpoint A}

theorem refl (fixpoint : Fixpoint A) : SameOutside ids fixpoint fixpoint := fun _ _ => ⟨rfl, rfl⟩

theorem mono (h : SameOutside ids fixpoint fixpoint') (hids : ∀ id ∈ ids, id ∈ ids') :
    SameOutside ids' fixpoint fixpoint' :=
  fun id hid => h id fun hmem => hid (hids id hmem)

theorem trans (h : SameOutside ids fixpoint fixpoint') (h' : SameOutside ids fixpoint' fixpoint'') :
    SameOutside ids fixpoint fixpoint'' := by
  intro id hid
  obtain ⟨hpre, hpost⟩ := h id hid
  obtain ⟨hpre', hpost'⟩ := h' id hid
  exact ⟨hpre'.trans hpre, hpost'.trans hpost⟩

theorem setPrecondition (fixpoint : Fixpoint A) (id : ℕ) (state : A) :
    SameOutside [id] fixpoint (fixpoint.setPrecondition id state) := by
  intro x hx
  rw [List.mem_singleton] at hx
  refine ⟨?_, rfl⟩
  show (fixpoint.preconditions.add id state).find? x = _
  rw [SortedMap.find?_add, if_neg hx]

theorem analyzeNode (problem : Problem A S) (node : CfgNode S) (fixpoint : Fixpoint A) :
    SameOutside [node.id] fixpoint (Fixpoint.analyzeNode problem node fixpoint) := by
  intro x hx
  rw [List.mem_singleton] at hx
  constructor
  · show (fixpoint.preconditions.add _ _).find? x = _
    rw [SortedMap.find?_add, if_neg hx]
  · show (fixpoint.postconditions.add _ _).find? x = _
    rw [SortedMap.find?_add, if_neg hx]

end SameOutside

theorem Flows.congr {postconditions postconditions' : SortedMap ℕ A} {node : CfgNode S} {state : A}
    (h : ∀ predecessor ∈ problem.predecessors node,
      postconditions'.find? predecessor = postconditions.find? predecessor)
    (hflow : Flows problem postconditions' node state) :
    Flows problem postconditions node state := by
  unfold Flows at hflow ⊢
  split
  case isTrue hinitial =>
    rwa [if_pos hinitial] at hflow
  case isFalse hinitial =>
    rw [if_neg hinitial] at hflow
    obtain ⟨predecessor, hmem, heq⟩ := hflow
    exact ⟨predecessor, hmem, by rw [heq, h predecessor hmem]⟩

/-- Changes elsewhere, where nothing flows into `node` from, leave it stable. -/
theorem Stable.frame {fixpoint fixpoint' : Fixpoint A} {node : CfgNode S} {pre post : A}
    {ids : List ℕ} (h : Stable problem fixpoint node pre post)
    (hsame : SameOutside ids fixpoint fixpoint') (hnode : node.id ∉ ids)
    (hflow : ∀ predecessor ∈ problem.predecessors node, predecessor ∉ ids) :
    Stable problem fixpoint' node pre post where
  pre := (hsame _ hnode).1.trans h.pre
  post := (hsame _ hnode).2.trans h.post
  flows hstate := h.flows (hstate.congr fun predecessor hmem =>
    (hsame predecessor (hflow predecessor hmem)).2)
  transition := h.transition

/-- The new precondition of `node`, and its postcondition. -/
theorem analyzeNode_spec (problem : Problem A S) (node : CfgNode S) (fixpoint : Fixpoint A) :
    ∃ pre, pre = joinWithPredecessorsPostconditions problem fixpoint.postconditions node
        ((fixpoint.preconditions.find? node.id).getD problem.domain.bottom) ∧
      (analyzeNode problem node fixpoint).preconditions.find? node.id = some pre ∧
      (analyzeNode problem node fixpoint).postconditions.find? node.id =
        some (problem.transition node.id pre node.statements) := by
  refine ⟨_, rfl, ?_, ?_⟩
  · show (fixpoint.preconditions.add _ _).find? _ = _
    rw [SortedMap.find?_add, if_pos rfl]
  · show (fixpoint.postconditions.add _ _).find? _ = _
    rw [SortedMap.find?_add, if_pos rfl]

/-! ## 3. Components -/

/-- What the analysis needs of the graph and of the domain. -/
structure Sound (problem : Problem A S) : Prop where
  lawful : problem.domain.Lawful
  monotone : ∀ {id node}, problem.cfg.node id = some node → ∀ {a b}, problem.domain.Le a b →
    problem.domain.Le (problem.transition id a node.statements)
      (problem.transition id b node.statements)
  id : ∀ {id node}, problem.cfg.node id = some node → node.id = id
  source : ∀ {id node source}, problem.cfg.node id = some node →
    source ∈ problem.predecessors node →
      WeakTopologicalOrder.Follows problem.cfg problem.successors source id
  target : ∀ {source id node},
    WeakTopologicalOrder.Follows problem.cfg problem.successors source id →
      problem.cfg.node id = some node → source ∈ problem.predecessors node

/-- What the analysis of components does: it leaves their nodes stable, and nothing else is
    touched. -/
structure Analyzed (problem : Problem A S) (ids : List ℕ) (nodes : List (CfgNode S))
    (fixpoint fixpoint' : Fixpoint A) : Prop where
  same : SameOutside ids fixpoint fixpoint'
  stable : ∀ node ∈ nodes, ∃ pre post, Stable problem fixpoint' node pre post

abbrev edge (problem : Problem A S) : ℕ → ℕ → Prop :=
  WeakTopologicalOrder.Follows problem.cfg problem.successors

theorem analyzeNode_analyzed (h : Sound problem) {node : CfgNode S} (fixpoint : Fixpoint A)
    (hnode : problem.cfg.node node.id = some node) (hloop : ¬ edge problem node.id node.id) :
    Analyzed problem [node.id] [node] fixpoint (analyzeNode problem node fixpoint) where
  same := .analyzeNode problem node fixpoint
  stable other hother := by
    obtain rfl := List.mem_singleton.mp hother
    obtain ⟨pre, hjoin, hpre, hpost⟩ := analyzeNode_spec problem other fixpoint
    refine ⟨pre, _, hpre, hpost, fun hflow => ?_, h.lawful.refl _⟩
    rw [hjoin]
    refine (join_spec h.lawful _ other _).2 (hflow.congr fun predecessor hmem => ?_)
    refine (SameOutside.analyzeNode problem other fixpoint predecessor ?_).2
    intro hself
    rw [List.mem_singleton] at hself
    subst hself
    exact hloop (h.source hnode hmem)

/-- One round of a cycle, and the rounds that follow. -/
theorem iterate_analyzed (h : Sound problem) {head : CfgNode S} {components : List (Component S)}
    {analyzeBody : Fixpoint A → Option (Fixpoint A)}
    (hhead : problem.cfg.node head.id = some head) (hnot : head.id ∉ idsOf components)
    (hbody : ∀ {fixpoint fixpoint'}, analyzeBody fixpoint = some fixpoint' →
      Analyzed problem (idsOf components) (nodesOf components)
        (analyzeNode problem head fixpoint) fixpoint') :
    ∀ (fuel localIteration : ℕ) (fixpoint fixpoint' : Fixpoint A),
      iterate problem analyzeBody head fuel localIteration fixpoint = some fixpoint' →
      Analyzed problem (head.id :: idsOf components) (head :: nodesOf components)
        fixpoint fixpoint' := by
  intro fuel
  induction fuel with
  | zero =>
    intro localIteration fixpoint fixpoint' hrun
    cases hrun
  | succ fuel ih =>
    intro localIteration fixpoint fixpoint' hrun
    rw [iterate] at hrun
    obtain ⟨body, hrunBody, hrun⟩ := Option.bind_eq_some_iff.mp hrun
    obtain ⟨current, hcurrent, hrun⟩ := Option.bind_eq_some_iff.mp hrun
    have hanalyzed := hbody hrunBody
    have hhead' : ∀ id ∈ [head.id], id ∈ head.id :: idsOf components :=
      fun id hid => List.mem_singleton.mp hid ▸ List.mem_cons_self
    have hsame : SameOutside (head.id :: idsOf components) fixpoint body :=
      ((SameOutside.analyzeNode problem head fixpoint).mono hhead').trans
        (hanalyzed.same.mono fun _ hid => List.mem_cons_of_mem _ hid)
    dsimp only at hrun
    split at hrun
    case isFalse hlt =>
      -- another round
      have hnext := ih _ _ _ hrun
      exact ⟨(hsame.trans ((SameOutside.setPrecondition _ _ _).mono hhead')).trans hnext.same,
        hnext.stable⟩
    case isTrue hconverged =>
      cases hrun
      have hset := SameOutside.setPrecondition body head.id
        (joinWithPredecessorsPostconditions problem body.postconditions head current)
      refine ⟨hsame.trans (hset.mono hhead'), fun node hmem => ?_⟩
      rcases List.mem_cons.mp hmem with rfl | hmem
      · -- the head: its postcondition is that of `current`
        obtain ⟨pre, -, hpre, hpost⟩ := analyzeNode_spec problem node fixpoint
        rw [(hanalyzed.same _ hnot).1, hpre] at hcurrent
        cases hcurrent
        refine ⟨joinWithPredecessorsPostconditions problem body.postconditions node current, _,
          ?_, (hanalyzed.same _ hnot).2.trans hpost, fun hflow => ?_, ?_⟩
        · show (body.preconditions.add _ _).find? _ = _
          rw [SortedMap.find?_add, if_pos rfl]
        · exact (join_spec h.lawful body.postconditions node _).2 hflow
        · exact h.monotone hhead hconverged
      · obtain ⟨pre, post, hstable⟩ := hanalyzed.stable node hmem
        have hne : node.id ≠ head.id := fun heq => hnot (heq ▸ List.mem_map_of_mem hmem)
        exact ⟨pre, post, (hset node.id (by simpa using hne)).1.trans hstable.pre,
          hstable.post, hstable.flows, hstable.transition⟩

mutual

theorem analyzeComponent_spec (h : Sound problem) (fuel : ℕ) :
    ∀ (component : Component S) (fixpoint fixpoint' : Fixpoint A),
      component.Ordered (edge problem) → component.ids.Nodup →
      (∀ node ∈ component.nodes, problem.cfg.node node.id = some node) →
      analyzeComponent problem fuel component fixpoint = some fixpoint' →
      Analyzed problem component.ids component.nodes fixpoint fixpoint'
  | .node _ node, fixpoint, fixpoint', hordered, _, hnodes, hrun => by
      rw [analyzeComponent] at hrun
      cases hrun
      exact analyzeNode_analyzed h fixpoint (hnodes node List.mem_cons_self) hordered
  | .cycle _ head components, fixpoint, fixpoint', hordered, hnodup, hnodes, hrun => by
      rw [analyzeComponent] at hrun
      rw [ids_cycle, List.nodup_cons] at hnodup
      exact iterate_analyzed h (hnodes head List.mem_cons_self) hnodup.1
        (analyzeComponents_spec h fuel components _ _ hordered hnodup.2
          (fun node hmem => hnodes node (List.mem_cons_of_mem _ hmem)))
        fuel 0 fixpoint fixpoint' hrun

theorem analyzeComponents_spec (h : Sound problem) (fuel : ℕ) :
    ∀ (components : List (Component S)) (fixpoint fixpoint' : Fixpoint A),
      OrderedList (edge problem) components → (idsOf components).Nodup →
      (∀ node ∈ nodesOf components, problem.cfg.node node.id = some node) →
      analyzeComponents problem fuel components fixpoint = some fixpoint' →
      Analyzed problem (idsOf components) (nodesOf components) fixpoint fixpoint'
  | [], fixpoint, fixpoint', _, _, _, hrun => by
      rw [analyzeComponents] at hrun
      cases hrun
      exact ⟨.refl _, fun _ hmem => absurd hmem List.not_mem_nil⟩
  | component :: components, fixpoint, fixpoint', hordered, hnodup, hnodes, hrun => by
      rw [analyzeComponents] at hrun
      obtain ⟨next, hfirst, hrest⟩ := Option.bind_eq_some_iff.mp hrun
      rw [idsOf_cons, List.nodup_append] at hnodup
      have hfirst := analyzeComponent_spec h fuel component fixpoint next hordered.1 hnodup.1
        (fun node hmem => hnodes node (List.mem_append_left _ hmem)) hfirst
      have hrest := analyzeComponents_spec h fuel components next fixpoint' hordered.2.1
        hnodup.2.1 (fun node hmem => hnodes node (List.mem_append_right _ hmem)) hrest
      rw [idsOf_cons, nodesOf]
      refine ⟨(hfirst.same.mono fun _ hid => List.mem_append_left _ hid).trans
        (hrest.same.mono fun _ hid => List.mem_append_right _ hid), fun node hmem => ?_⟩
      rcases List.mem_append.mp hmem with hmem | hmem
      · obtain ⟨pre, post, hstable⟩ := hfirst.stable node hmem
        have hid : node.id ∈ component.ids := List.mem_map_of_mem hmem
        refine ⟨pre, post, hstable.frame hrest.same
          (fun hid' => hnodup.2.2 _ hid _ hid' rfl) fun predecessor hpredecessor hid' => ?_⟩
        -- no edge comes back from a later component
        exact hordered.2.2 predecessor hid' node.id hid
          (h.source (hnodes node (List.mem_append_left _ hmem)) hpredecessor)
      · exact hrest.stable node hmem

end

/-! ## 4. The result -/

def Reachable (problem : Problem A S) (id : ℕ) : Prop :=
  Relation.ReflTransGen (edge problem) problem.initialIndex id

/-- A post-fixpoint on the nodes that can be reached. -/
structure PostFixpoint (problem : Problem A S) (result : Fixpoint A) : Prop where
  initial : ∃ pre, result.preconditions.find? problem.initialIndex = some pre ∧
    problem.domain.Le problem.initial pre
  edge : ∀ {source id}, Reachable problem source → edge problem source id → ∃ post pre,
    result.postconditions.find? source = some post ∧ result.preconditions.find? id = some pre ∧
      problem.domain.Le post pre
  transition : ∀ {id node}, Reachable problem id → problem.cfg.node id = some node → ∃ pre post,
    result.preconditions.find? id = some pre ∧ result.postconditions.find? id = some post ∧
      problem.domain.Le (problem.transition id pre node.statements) post

/-- **A run that returns leaves a post-fixpoint.** -/
theorem computeFixpoint_postFixpoint (h : Sound problem)
    (hinitial : ∀ {node}, problem.cfg.node problem.initialIndex = some node →
      ∀ predecessor, predecessor ∉ problem.predecessors node)
    {fuel : ℕ} {result : Fixpoint A} (hrun : computeFixpoint problem fuel = some result) :
    PostFixpoint problem result := by
  obtain ⟨components, hcreate, hrun⟩ := Option.bind_eq_some_iff.mp hrun
  have hcorrect := WeakTopologicalOrder.create_spec h.id hcreate
  have hanalyzed :=
    analyzeComponents_spec h fuel components _ _ hcorrect.ordered hcorrect.nodup hcorrect.nodes hrun
  have hstable {id : ℕ} (hid : Reachable problem id) : ∃ node pre post,
      problem.cfg.node id = some node ∧ node.id = id ∧ Stable problem result node pre post := by
    obtain ⟨node, hmem, rfl⟩ := List.mem_map.mp (hcorrect.reached id hid)
    obtain ⟨pre, post, hstable⟩ := hanalyzed.stable node hmem
    exact ⟨node, pre, post, hcorrect.nodes node hmem, rfl, hstable⟩
  constructor
  case initial =>
    obtain ⟨node, pre, post, -, hid, hnode⟩ := hstable .refl
    refine ⟨pre, hid ▸ hnode.pre, hnode.flows ?_⟩
    unfold Flows
    rw [if_pos hid]
  case edge =>
    intro source id hsource hedge
    obtain ⟨_, _, post, -, rfl, hsourceStable⟩ := hstable hsource
    obtain ⟨node, pre, _, hnode, rfl, hidStable⟩ := hstable (hsource.tail hedge)
    refine ⟨post, pre, hsourceStable.post, hidStable.pre, hidStable.flows ?_⟩
    have hmem := h.target hedge hnode
    have hne : node.id ≠ problem.initialIndex := fun heq => hinitial (heq ▸ hnode) _ hmem
    unfold Flows
    rw [if_neg hne]
    exact ⟨_, hmem, by rw [hsourceStable.post]; rfl⟩
  case transition =>
    intro id node hid hnode
    obtain ⟨other, pre, post, hother, rfl, hstable⟩ := hstable hid
    rw [hnode] at hother
    cases hother
    exact ⟨pre, post, hstable.pre, hstable.post, hstable.transition⟩

section Directions

variable (domain : State A S) (hash : ℕ × ℕ → ℕ) (cfg : Cfg S) (initial : A)

/-- The transition of a block is monotone when that of each statement is. -/
theorem forwardTransition_mono {domain : State A S}
    (h : ∀ key statement {a b}, domain.Le a b →
      domain.Le (domain.forward key a statement) (domain.forward key b statement))
    (id : ℕ) (statements : List S) {a b : A} (hab : domain.Le a b) :
    domain.Le (forwardTransition domain hash id a statements)
      (forwardTransition domain hash id b statements) := by
  unfold forwardTransition
  generalize statements.zipIdx = indexed
  induction indexed generalizing a b with
  | nil => exact hab
  | cons head rest ih => exact ih (h _ _ hab)

theorem backwardTransition_mono {domain : State A S}
    (h : ∀ key statement {a b}, domain.Le a b →
      domain.Le (domain.backward key a statement) (domain.backward key b statement))
    (id : ℕ) (statements : List S) {a b : A} (hab : domain.Le a b) :
    domain.Le (backwardTransition domain hash id a statements)
      (backwardTransition domain hash id b statements) := by
  unfold backwardTransition
  generalize statements.zipIdx = indexed
  induction indexed with
  | nil => exact hab
  | cons head rest ih => exact h _ _ ih

theorem sound_forward (hlawful : domain.Lawful) (hcfg : cfg.WellFormed)
    (hmonotone : ∀ {id node}, cfg.node id = some node → ∀ {a b}, domain.Le a b →
      domain.Le (forwardTransition domain hash id a node.statements)
        (forwardTransition domain hash id b node.statements)) :
    Sound (forwardProblem domain hash cfg initial) where
  lawful := hlawful
  monotone := hmonotone
  id := hcfg.id
  source hnode hmem := hcfg.source hnode hmem
  target hedge hnode := by
    obtain ⟨previous, hprevious, hmem⟩ := hedge
    obtain ⟨next, hnext, hmem⟩ := hcfg.target hprevious hmem
    exact Option.some.inj (hnext.symm.trans hnode) ▸ hmem

theorem sound_backward (hlawful : domain.Lawful) (hcfg : cfg.WellFormed)
    (hmonotone : ∀ {id node}, cfg.node id = some node → ∀ {a b}, domain.Le a b →
      domain.Le (backwardTransition domain hash id a node.statements)
        (backwardTransition domain hash id b node.statements)) :
    Sound (backwardProblem domain hash cfg initial) where
  lawful := hlawful
  monotone := hmonotone
  id := hcfg.id
  source hnode hmem := hcfg.target hnode hmem
  target hedge hnode := by
    obtain ⟨next, hnext, hmem⟩ := hedge
    obtain ⟨previous, hprevious, hmem⟩ := hcfg.source hnext hmem
    exact Option.some.inj (hprevious.symm.trans hnode) ▸ hmem

end Directions

/-- **The forward and the backward analysis each return a post-fixpoint**, on every graph and for
    every domain with a preorder, upper bounds and monotone transitions. -/
theorem forward_backward_postFixpoint (domain : State A S) (hash : ℕ × ℕ → ℕ) (cfg : Cfg S)
    (initial : A) (fuel : ℕ) (result : Fixpoint A) (hlawful : domain.Lawful)
    (hcfg : cfg.WellFormed) :
    ((∀ {id node}, cfg.node id = some node → ∀ {a b}, domain.Le a b →
        domain.Le (forwardTransition domain hash id a node.statements)
          (forwardTransition domain hash id b node.statements)) →
      (∀ {node}, cfg.node Cfg.entryIndex = some node → ∀ x, x ∉ node.predecessors) →
      forward domain hash cfg initial fuel = some result →
      PostFixpoint (forwardProblem domain hash cfg initial) result) ∧
    ((∀ {id node}, cfg.node id = some node → ∀ {a b}, domain.Le a b →
        domain.Le (backwardTransition domain hash id a node.statements)
          (backwardTransition domain hash id b node.statements)) →
      (∀ {node}, cfg.node Cfg.exitIndex = some node → ∀ x, x ∉ node.successors) →
      backward domain hash cfg initial fuel = some result →
      PostFixpoint (backwardProblem domain hash cfg initial) result) := by
  constructor
  · intro hmonotone hentry hrun
    exact computeFixpoint_postFixpoint
      (sound_forward domain hash cfg initial hlawful hcfg hmonotone) hentry hrun
  · intro hmonotone hexit hrun
    exact computeFixpoint_postFixpoint
      (sound_backward domain hash cfg initial hlawful hcfg hmonotone) hexit hrun

/-- A loop over one statement that taints the state. -/
theorem forward_backward_postFixpoint_loop :
    let domain : State Bool Bool := ⟨false, fun a b => !a || b, (· || ·), fun _ next _ => next,
      fun _ state statement => state || statement, fun _ state statement => state || statement⟩
    let cfg : Cfg Bool := SortedMap.empty
      |>.add 0 ⟨0, .entry, .empty, .singleton 4⟩
      |>.add 1 ⟨1, .normal, .singleton 4, .singleton 3⟩
      |>.add 3 ⟨3, .final, .singleton 1, .empty⟩
      |>.add 4 ⟨4, .whileLoop, .ofList [0, 5], .ofList [1, 5]⟩
      |>.add 5 ⟨5, .block [true], .singleton 4, .singleton 4⟩
    ∃ forwardResult backwardResult,
      forward domain (fun _ => 0) cfg false 20 = some forwardResult ∧
      PostFixpoint (forwardProblem domain (fun _ => 0) cfg false) forwardResult ∧
      backward domain (fun _ => 0) cfg false 20 = some backwardResult ∧
      PostFixpoint (backwardProblem domain (fun _ => 0) cfg false) backwardResult := by
  intro domain cfg
  have hlawful : domain.Lawful :=
    ⟨by decide, fun {a b c} => by revert a b c; decide, by decide, by decide⟩
  have hcfg : cfg.WellFormed := .of_keys (by decide +kernel)
  have hmono (key : ℕ) (statement : Bool) {a b : Bool} (h : domain.Le a b) :
      domain.Le (a || statement) (b || statement) := by
    revert a b statement
    decide
  obtain ⟨forwardResult, hforward⟩ :=
    Option.isSome_iff_exists.mp
      (show (forward domain (fun _ => 0) cfg false 20).isSome by decide +kernel)
  obtain ⟨backwardResult, hbackward⟩ :=
    Option.isSome_iff_exists.mp
      (show (backward domain (fun _ => 0) cfg false 20).isSome by decide +kernel)
  refine ⟨forwardResult, backwardResult, hforward, ?_, hbackward, ?_⟩
  · exact (forward_backward_postFixpoint domain (fun _ => 0) cfg false 20 forwardResult hlawful
      hcfg).1 (fun _ => forwardTransition_mono _ hmono _ _)
      (fun hentry => by cases hentry; exact SortedSet.notMem_empty) hforward
  · exact (forward_backward_postFixpoint domain (fun _ => 0) cfg false 20 backwardResult hlawful
      hcfg).2 (fun _ => backwardTransition_mono _ hmono _ _)
      (fun hexit => by cases hexit; exact SortedSet.notMem_empty) hbackward

end Fixpoint

end Pysa
