/-
  Subject: THE GRAPH OVER-APPROXIMATES EXECUTION.

  * `Created` -- whatever a statement can execute is a run of the nodes created for it, in every
    graph that extends them;
  * one lemma for each way in which the construction puts graphs together;
  * `createStatements_created` -- for all statements without a finally clause;
  * `Cfg.create_path` -- **every execution of a function body is a path from the entry**.
-/
import Pysa.Analysis.CfgBuilder
import Pysa.Analysis.Execution

namespace Pysa

open Builder Behavior

variable {X : Type}

/-! ## 1. Runs of a statement -/

/-- Where a run ends that leaves in this way; `next` is the position behind the statement. -/
def Arrives (final : Builder X) (jumps : Jumps) (next : Option Position) (start : Position)
    (trace : List (Statement X)) : Flow → Prop
  | .next => ∃ position, next = some position ∧ final.Run start trace position
  | .breakLoop => final.Run start trace (jumps.breakTo, 0)
  | .continueLoop => final.Run start trace (jumps.continueTo, 0)
  | .raise => final.Run start trace (jumps.error, 0)
  | .returnValue => final.Run start trace (jumps.normal, 0)

/-- A run in front. -/
theorem Arrives.behind {final : Builder X} {jumps : Jumps} {next : Option Position}
    {start middle : Position} {trace trace' : List (Statement X)} {flow : Flow}
    (hrun : final.Run start trace middle) (h : Arrives final jumps next middle trace' flow) :
    Arrives final jumps next start (trace ++ trace') flow := by
  cases flow with
  | next =>
    obtain ⟨position, hnext, h⟩ := h
    exact ⟨position, hnext, hrun.trans h⟩
  | breakLoop => exact hrun.trans h
  | continueLoop => exact hrun.trans h
  | raise => exact hrun.trans h
  | returnValue => exact hrun.trans h

theorem Arrives.of_ne {final : Builder X} {jumps : Jumps} {next next' : Option Position}
    {start : Position} {trace : List (Statement X)} {flow : Flow} (hflow : flow ≠ .next)
    (h : Arrives final jumps next start trace flow) :
    Arrives final jumps next' start trace flow := by
  cases flow with
  | next => exact absurd rfl hflow
  | breakLoop => exact h
  | continueLoop => exact h
  | raise => exact h
  | returnValue => exact h

/-- From `before` to `after` nodes were created behind `p` that run every execution of `behavior`.
    `opened` may be extended later on. -/
structure Created (behavior : Behavior X) (jumps : Jumps) (before : Builder X) (p : ℕ)
    (after : Builder X) (opened : Option ℕ) (next : Option Position) : Prop where
  wf : after.WellFormed
  count : before.nodeCount ≤ after.nodeCount
  keeps : Extends Everywhere (some p) before after
  fresh : ∀ {x}, opened = some x → x < after.nodeCount ∧ Region p before.nodeCount x
  run : ∀ {final}, Extends (Region p before.nodeCount) opened after final →
    ∀ {trace flow}, behavior trace flow → Arrives final jumps next (before.last p) trace flow

/-- The result of `createStatement`. -/
def CreatedNext (behavior : Behavior X) (jumps : Jumps) (before : Builder X) (p : ℕ)
    (result : Next × Builder X) : Prop :=
  match result.1 with
  | .goOn node => Created behavior jumps before p result.2 (some node) (some (result.2.last node))
  | .stop node => Created behavior jumps before p result.2 node none

/-- The result of `createStatements`. -/
def CreatedList (behavior : Behavior X) (jumps : Jumps) (before : Builder X) (p : ℕ)
    (result : Option ℕ × Builder X) : Prop :=
  Created behavior jumps before p result.2 result.1 (result.1.map result.2.last)

/-! ## 2. How graphs are put together -/

namespace Created

variable {behavior first second : Behavior X} {jumps : Jumps} {before middle after : Builder X}
  {p q : ℕ} {opened : Option ℕ} {next : Option Position}

theorem skip (hwf : before.WellFormed) (hp : p < before.nodeCount) :
    Created Behavior.skip jumps before p before (some p) (some (before.last p)) where
  wf := hwf
  count := le_rfl
  keeps := .refl before
  fresh hx := ⟨Option.some.inj hx ▸ hp, Or.inl (Option.some.inj hx).symm⟩
  run _ _ _ h := by
    obtain ⟨rfl, rfl⟩ := h
    exact ⟨_, rfl, Run.refl _⟩

theorem weaken {behavior' : Behavior X} {jumps' : Jumps} {next' : Option Position}
    (h : Created behavior jumps before p after opened next)
    (hbehavior : ∀ {trace flow}, behavior' trace flow → behavior trace flow)
    (harrives : ∀ {final start trace flow}, behavior' trace flow →
      Arrives final jumps next start trace flow → Arrives final jumps' next' start trace flow) :
    Created behavior' jumps' before p after opened next' where
  wf := h.wf
  count := h.count
  keeps := h.keeps
  fresh := h.fresh
  run hfinal _ _ htrace := harrives htrace (h.run hfinal (hbehavior htrace))

/-- Nothing is executed. -/
theorem never {behavior' : Behavior X} {next' : Option Position}
    (h : Created behavior jumps before p after opened next)
    (hbehavior : ∀ {trace flow}, ¬ behavior' trace flow) :
    Created behavior' jumps before p after none next' where
  wf := h.wf
  count := h.count
  keeps := h.keeps
  fresh hx := by cases hx
  run _ _ _ htrace := absurd htrace hbehavior

theorem seq (h : Created first jumps before p middle (some q) (some (middle.last q)))
    (h' : Created second jumps middle q after opened next) (hwf : before.WellFormed) :
    Created (Behavior.seq first second) jumps before p after opened next where
  wf := h'.wf
  count := h.count.trans h'.count
  keeps := by
    refine h.keeps.trans h'.keeps (fun x _ hx heq => ?_) hwf
    obtain rfl := Option.some.inj heq
    rcases (h.fresh rfl).2 with rfl | hle
    · rfl
    · exact absurd hx hle.not_gt
  fresh hx := by
    obtain ⟨hlt, hregion⟩ := h'.fresh hx
    refine ⟨hlt, ?_⟩
    rcases hregion with rfl | hle
    · exact (h.fresh rfl).2
    · exact Or.inr (h.count.trans hle)
  run {final} hfinal {trace flow} htrace := by
    have hfirst : Extends (Region p before.nodeCount) (some q) middle final := by
      refine (h'.keeps.mono (fun _ _ => trivial) (fun _ _ hx => hx)).trans hfinal
        (fun x _ hlt hx => ?_) h.wf
      rcases (h'.fresh hx).2 with rfl | hle
      · rfl
      · exact absurd hlt hle.not_gt
    have hsecond : Extends (Region q middle.nodeCount) opened after final := by
      refine hfinal.mono (fun x hx => ?_) (fun _ _ hx => hx)
      rcases hx with rfl | hle
      · exact (h.fresh rfl).2
      · exact Or.inr (h.count.trans hle)
    rcases htrace with ⟨trace₁, trace₂, rfl, htrace₁, htrace₂⟩ | ⟨hne, htrace₁⟩
    · obtain ⟨position, hposition, hrun⟩ := h.run hfirst htrace₁
      cases hposition
      exact (h'.run hsecond htrace₂).behind hrun
    · exact (h.run hfirst htrace₁).of_ne hne

/-- A node that was made behind `p`, and what was created behind it. -/
theorem behind {opened' : Option ℕ} (h : Created behavior jumps middle q after opened next)
    (hwf : before.WellFormed) (hp : p < before.nodeCount)
    (hq : before.nodeCount ≤ q) (hcount : before.nodeCount ≤ middle.nodeCount)
    (hkeeps : Extends Everywhere none before middle) (hedge : middle.Edge p q)
    (hlast : middle.last q = (q, 0))
    (hopened : ∀ {x}, opened' = some x → x < after.nodeCount ∧ before.nodeCount ≤ x ∧
      (opened = some x ∨ x ≠ q ∧ x < middle.nodeCount)) :
    Created behavior jumps before p after opened' next where
  wf := h.wf
  count := hcount.trans h.count
  keeps := by
    refine Extends.mono (hkeeps.trans h.keeps (fun x _ hx heq => ?_) hwf) (fun _ hx => hx)
      (fun x _ hx => by cases hx)
    exact absurd hx (Option.some.inj heq ▸ hq.not_gt)
  fresh hx := ⟨(hopened hx).1, Or.inr (hopened hx).2.1⟩
  run {final} hfinal {trace flow} htrace := by
    have hinner : Extends (Region q middle.nodeCount) opened after final := by
      refine hfinal.mono (fun x hx => ?_) (fun x hx heq => ?_)
      · rcases hx with rfl | hle
        · exact Or.inr hq
        · exact Or.inr (hcount.trans hle)
      · rcases (hopened heq).2.2 with hopened | ⟨hne, hlt⟩
        · exact hopened
        · rcases hx with rfl | hle
          · exact absurd rfl hne
          · exact absurd hlt hle.not_gt
    -- the end of `p` is where it was
    obtain ⟨node, hnode⟩ := hwf.exists_node hp
    obtain ⟨node', hnode', -⟩ := hkeeps.node trivial hnode
    obtain ⟨node'', hnode'', -⟩ := h.keeps.node trivial hnode'
    have hpq : q ≠ p := fun heq => absurd hp (heq ▸ hq.not_gt)
    have hmiddle : middle.last p = before.last p := hkeeps.last_eq trivial (by simp) hnode
    have hafter : after.last p = middle.last p :=
      h.keeps.last_eq trivial (fun heq => hpq (Option.some.inj heq)) hnode'
    have hfinalLast : final.last p = after.last p :=
      hfinal.last_eq (Or.inl rfl) (fun heq => absurd hp (hopened heq).2.1.not_gt) hnode''
    have hedge' : final.Edge p q := hfinal.edge (Or.inl rfl) (h.keeps.edge trivial hedge)
    have hrun := Run.along hedge'
    rw [hfinalLast, hafter, hmiddle] at hrun
    have hbehind := (h.run hinner htrace)
    rw [hlast] at hbehind
    exact hbehind.behind hrun

/-- Two branches behind the same node. -/
theorem either (h : Created first jumps before p middle none next)
    (h' : Created second jumps middle p after none next)
    (hwf : before.WellFormed) (hkeeps : Extends Everywhere none middle after)
    (hlast : middle.last p = before.last p) :
    Created (Behavior.either first second) jumps before p after none next where
  wf := h'.wf
  count := h.count.trans h'.count
  keeps := h.keeps.trans hkeeps (fun _ _ _ hx => by cases hx) hwf
  fresh hx := by cases hx
  run {final} hfinal {trace flow} htrace := by
    rcases htrace with htrace | htrace
    · exact h.run ((hkeeps.mono (fun _ _ => trivial) (fun _ _ hx => hx)).trans hfinal
        (fun _ _ _ hx => by cases hx) h.wf) htrace
    · have hrun := h'.run (hfinal.mono
        (fun x hx => hx.imp_right fun hle => h.count.trans hle) (fun _ _ hx => hx)) htrace
      rwa [hlast] at hrun

/-- More edges and nodes. -/
theorem extended {last : Builder X} (h : Created behavior jumps before p after none next)
    (hwf : before.WellFormed) (hwf' : last.WellFormed) (hcount : after.nodeCount ≤ last.nodeCount)
    (hkeeps : Extends Everywhere none after last) :
    Created behavior jumps before p last none next where
  wf := hwf'
  count := h.count.trans hcount
  keeps := h.keeps.trans hkeeps (fun _ _ _ hx => by cases hx) hwf
  fresh hx := by cases hx
  run hfinal _ _ htrace :=
    h.run ((hkeeps.mono (fun _ _ => trivial) (fun _ _ hx => hx)).trans hfinal
      (fun _ _ _ hx => by cases hx) h.wf) htrace

/-- Nodes that were made before. -/
theorem earlier {first : Builder X} (h : Created behavior jumps before p after opened next)
    (hwf : first.WellFormed) (hcount : first.nodeCount ≤ before.nodeCount)
    (hkeeps : Extends Everywhere none first before) (hlast : before.last p = first.last p) :
    Created behavior jumps first p after opened next where
  wf := h.wf
  count := hcount.trans h.count
  keeps := Extends.trans (hkeeps.mono (fun _ hx => hx) (fun _ _ hx => by cases hx)) h.keeps
    (fun _ _ _ hx => hx) hwf
  fresh hx := ⟨(h.fresh hx).1, (h.fresh hx).2.imp_right fun hle => hcount.trans hle⟩
  run {final} hfinal {trace flow} htrace := by
    rw [← hlast]
    exact h.run (hfinal.mono (fun _ hx => hx.imp_right fun hle => hcount.trans hle)
      (fun _ _ hx => hx)) htrace

/-- An edge from the end to `q`. -/
theorem arrive {n : ℕ} (h : Created behavior jumps before p after (some n) (some (after.last n)))
    {final : Builder X}
    (hfinal : Extends (Region p before.nodeCount) none (after.connect n q) final)
    {trace : List (Statement X)} (htrace : behavior trace .next) :
    final.Run (before.last p) trace (q, 0) := by
  have hconnect : Extends (Region p before.nodeCount) none after (after.connect n q) := .connect n q
  obtain ⟨hlt, hregion⟩ := h.fresh rfl
  obtain ⟨node, hnode⟩ := h.wf.exists_node hlt
  obtain ⟨node', hnode', -⟩ := hconnect.node hregion hnode
  have hafter := hconnect.trans hfinal (fun _ _ _ hx => by cases hx) h.wf
  obtain ⟨position, hposition, hrun⟩ :=
    h.run (hafter.mono (fun _ hx => hx) (fun _ _ hx => by cases hx)) htrace
  cases hposition
  have hedge : (after.connect n q).Edge n q := by
    refine ⟨_, by rw [node_connect, hnode]; rfl, ?_⟩
    unfold connected
    rw [if_pos rfl]
    exact SortedSet.mem_add.mpr (Or.inl rfl)
  have halong := Run.along (hfinal.edge hregion hedge)
  rw [hafter.last_eq hregion (by simp) hnode] at halong
  simpa using hrun.trans halong

/-- The end of a list is connected to `q`. -/
theorem joined {result : Option ℕ × Builder X} (h : CreatedList behavior jumps before p result)
    (hwf : before.WellFormed) (hq : q < result.2.nodeCount) :
    Created behavior jumps before p (result.2.connectOption result.1 q) none (some (q, 0)) where
  wf := h.wf.connectOption (fun n hn => (h.fresh hn).1) hq
  count := by
    rw [nodeCount_connectOption]
    exact h.count
  keeps := h.keeps.thenConnectOption hwf _ _
  fresh hx := by cases hx
  run {final} hfinal {trace flow} htrace := by
    obtain ⟨opened, after⟩ := result
    have hafter : Extends (Region p before.nodeCount) opened after final :=
      (Extends.connectOption opened q).trans hfinal (fun _ _ _ hx => by cases hx) h.wf
    by_cases hflow : flow = .next
    · subst hflow
      obtain ⟨position, hposition, -⟩ := h.run hafter htrace
      obtain ⟨n, rfl, -⟩ := Option.map_eq_some_iff.mp hposition
      exact ⟨_, rfl, arrive h hfinal htrace⟩
    · exact (h.run hafter htrace).of_ne hflow

theorem loop {round leave : Behavior X} {j : ℕ}
    (hround : Created round { jumps with breakTo := j, continueTo := p } before p middle none
      (some (p, 0)))
    (hleave : Created leave jumps middle p after none (some (j, 0)))
    (hwf : before.WellFormed) (hkeeps : Extends Everywhere none middle after)
    (hlast : before.last p = (p, 0)) (hlast' : middle.last p = (p, 0)) :
    Created (Loop round leave) jumps before p after none (some (j, 0)) where
  wf := hleave.wf
  count := hround.count.trans hleave.count
  keeps := hround.keeps.trans hkeeps (fun _ _ _ hx => by cases hx) hwf
  fresh hx := by cases hx
  run {final} hfinal {trace flow} htrace := by
    have hrounds := @hround.run final ((hkeeps.mono (fun _ _ => trivial) (fun _ _ hx => hx)).trans
      hfinal (fun _ _ _ hx => by cases hx) hround.wf)
    have hleaves := @hleave.run final (hfinal.mono
      (fun x hx => hx.imp_right fun hle => hround.count.trans hle) (fun _ _ hx => hx))
    rw [hlast] at hrounds ⊢
    rw [hlast'] at hleaves
    induction htrace with
    | leave h => exact hleaves h
    | again h hflow _ ih =>
      refine ih.behind ?_
      rcases hflow with rfl | rfl
      · obtain ⟨position, hposition, hrun⟩ := hrounds h
        cases hposition
        exact hrun
      · exact hrounds h
    | broken h => exact ⟨_, rfl, hrounds h⟩
    | jumped h hflow =>
      rcases hflow with rfl | rfl
      · exact hrounds h
      · exact hrounds h

end Created

/-- A run that ends at the start of a node comes along an edge, unless it does not move. -/
theorem Builder.Run.hasPredecessors {builder : Builder X} (hwf : builder.WellFormed)
    {start : Position} {trace : List (Statement X)} {q : ℕ}
    (h : builder.Run start trace (q, 0)) (hne : start ≠ (q, 0)) :
    builder.hasPredecessors q = true := by
  generalize hfinish : ((q, 0) : Position) = finish at h
  induction h with
  | refl => exact absurd hfinish.symm hne
  | @step id offset statement trace position hstatement hrun ih =>
    refine ih (fun heq => ?_) hfinish
    cases heq
  | @edge id target trace position hedge hrun ih =>
    obtain ⟨node, hnode, hmem⟩ := hedge
    by_cases htarget : target = q
    · exact htarget ▸ hwf.hasPredecessors hnode hmem
    · exact ih (fun heq => htarget (Prod.mk.inj heq).1) hfinish

/-- Nothing leads to `q`: the statement does not end. -/
theorem Created.no_next {behavior : Behavior X} {jumps : Jumps} {before after : Builder X} {p q : ℕ}
    {opened : Option ℕ} (h : Created behavior jumps before p after opened (some (q, 0)))
    (hne : before.last p ≠ (q, 0)) (hnone : after.hasPredecessors q = false)
    (trace : List (Statement X)) : ¬ behavior trace .next := by
  intro htrace
  obtain ⟨position, hposition, hrun⟩ := h.run (.refl after) htrace
  cases hposition
  rw [hrun.hasPredecessors h.wf hne] at hnone
  cases hnone

theorem Created.drop_next {behavior : Behavior X} {jumps : Jumps} {before after : Builder X} {p : ℕ}
    {opened : Option ℕ} {next : Option Position}
    (h : Created behavior jumps before p after opened next)
    (hnever : ∀ trace, ¬ behavior trace .next) :
    Created behavior jumps before p after opened none :=
  h.weaken (fun htrace => htrace) fun {_ _ trace _} htrace harrives =>
    harrives.of_ne fun heq => hnever trace (heq ▸ htrace)

/-! ## 3. Single statements -/

section Single

variable {jumps : Jumps} {builder : Builder X} {p : ℕ}

theorem last_of_kind {kind : NodeKind (Statement X)} {id : ℕ} (h : builder.kind? id = some kind)
    (hkind : ∀ statements, kind ≠ .block statements) : builder.last id = (id, 0) := by
  unfold Builder.last Builder.block
  rw [h]
  cases kind with
  | block statements => exact absurd rfl (hkind statements)
  | _ => rfl

/-- A new node behind `p`. -/
theorem new_keeps (hwf : builder.WellFormed) (kind : NodeKind (Statement X)) (p : ℕ) :
    Extends Everywhere none builder
      ((builder.emptyNode kind).2.connect p builder.nodeCount) :=
  Extends.trans (.emptyNode hwf kind) (.connect p builder.nodeCount) (fun _ _ _ hx => hx) hwf

/-- A new block for one statement. -/
theorem created_block (hwf : builder.WellFormed) (hp : p < builder.nodeCount)
    (statement : Statement X) :
    let after := (builder.emptyNode (.block [statement])).2.connect p builder.nodeCount
    Created (jump statement .next) jumps builder p after (some builder.nodeCount)
      (some (after.last builder.nodeCount)) := by
  intro after
  have hempty : Extends Everywhere none builder (builder.emptyNode (.block [statement])).2 :=
    .emptyNode hwf _
  have hkeeps : Extends Everywhere none builder after := new_keeps hwf _ p
  have hwf' : after.WellFormed := (hwf.emptyNode _).connect (Nat.lt_succ_of_lt hp) (Nat.lt_succ_self _)
  obtain ⟨node, hnode⟩ := hwf.exists_node hp
  obtain ⟨node', hnode', -⟩ := hkeeps.node trivial hnode
  have hblock : after.block builder.nodeCount = [statement] := by
    unfold Builder.block Builder.kind?
    rw [node_connect, node_emptyNode, if_pos rfl]
    rfl
  constructor
  case wf => exact hwf'
  case count => exact Nat.le_succ _
  case keeps => exact hkeeps.mono (fun _ hx => hx) (fun _ _ hx => by cases hx)
  case fresh =>
    intro x hx
    obtain rfl := Option.some.inj hx
    exact ⟨Nat.lt_succ_self _, Or.inr le_rfl⟩
  case run =>
    intro final hfinal trace flow htrace
    obtain ⟨rfl, rfl⟩ := htrace
    refine ⟨_, rfl, ?_⟩
    have hne : builder.nodeCount ≠ p := hp.ne'
    have hedge : after.Edge p builder.nodeCount := by
      obtain ⟨before, hbefore, -⟩ := hempty.node trivial hnode
      refine ⟨_, by rw [node_connect, hbefore]; rfl, ?_⟩
      unfold connected
      rw [if_pos rfl]
      exact SortedSet.mem_add.mpr (Or.inl rfl)
    have hlast : final.last p = builder.last p := by
      rw [hfinal.last_eq (Or.inl rfl) (fun heq => hne (Option.some.inj heq)) hnode',
        hkeeps.last_eq trivial (by simp) hnode]
    have hstatement : (final.block builder.nodeCount)[0]? = some statement :=
      hfinal.getElem?_block (Or.inr le_rfl) (by rw [hblock]; rfl)
    rw [← hlast]
    refine Run.edge (hfinal.edge (Or.inl rfl) hedge) ?_
    unfold Builder.last
    rw [hblock]
    exact Run.single hstatement

/-- One more statement in a block. -/
theorem created_grown (hwf : builder.WellFormed) (hp : p < builder.nodeCount)
    (statement : Statement X) {statements : List (Statement X)}
    (hkind : builder.kind? p = some (.block statements)) :
    let after := builder.modify p fun node => { node with kind := .block (statement :: statements) }
    Created (jump statement .next) jumps builder p after (some p) (some (after.last p)) := by
  intro after
  obtain ⟨node, hnode⟩ := hwf.exists_node hp
  have hnodeKind : node.kind = .block statements := by
    unfold Builder.kind? at hkind
    rw [hnode] at hkind
    exact Option.some.inj hkind
  have hblock : builder.block p = statements.reverse := by
    unfold Builder.block
    rw [hkind]
  have hblock' : after.block p = statements.reverse ++ [statement] := by
    unfold Builder.block Builder.kind?
    rw [node_modify, if_pos rfl, hnode]
    exact List.reverse_cons
  constructor
  case wf => exact hwf.setKind _ _
  case count => exact le_rfl
  case keeps =>
    refine ⟨fun {x other} _ hother => ?_⟩
    by_cases hx : x = p
    · subst hx
      rw [hnode] at hother
      cases hother
      exact ⟨{ node with kind := .block (statement :: statements) },
        by rw [node_modify, if_pos rfl, hnode]; rfl, fun _ hy => hy,
        Or.inr ⟨rfl, statements, [statement], hnodeKind, rfl⟩⟩
    · exact ⟨other, by rw [node_modify, if_neg hx, hother], fun _ hy => hy, Or.inl rfl⟩
  case fresh =>
    intro x hx
    obtain rfl := Option.some.inj hx
    exact ⟨hp, Or.inl rfl⟩
  case run =>
    intro final hfinal trace flow htrace
    obtain ⟨rfl, rfl⟩ := htrace
    refine ⟨_, rfl, ?_⟩
    have hstatement : (final.block p)[statements.reverse.length]? = some statement :=
      hfinal.getElem?_block (Or.inl rfl) (by rw [hblock']; simp)
    unfold Builder.last
    rw [hblock, hblock', List.length_append]
    exact Run.single hstatement

theorem append_created (hwf : builder.WellFormed) (hp : p < builder.nodeCount)
    (statement : Statement X) :
    let result := builder.append statement p
    Created (jump statement .next) jumps builder p result.2 (some result.1)
      (some (result.2.last result.1)) := by
  intro result
  show Created _ jumps builder p (builder.append statement p).2 (some (builder.append statement p).1)
    (some ((builder.append statement p).2.last (builder.append statement p).1))
  unfold Builder.append
  split
  case h_1 statements hkind => exact created_grown hwf hp statement hkind
  case h_2 => exact created_block hwf hp statement

theorem appendAll_created (hwf : builder.WellFormed) (hp : p < builder.nodeCount)
    (statements : List X) :
    let result := builder.appendAll statements p
    Created (preamble statements) jumps builder p result.2 (some result.1)
      (some (result.2.last result.1)) := by
  induction statements generalizing builder p with
  | nil => exact .skip hwf hp
  | cons statement rest ih =>
    have hfirst : Created (jump (.simple statement) .next) jumps builder p _ _ _ :=
      append_created hwf hp (.simple statement)
    exact hfirst.seq (ih hfirst.wf (hfirst.fresh rfl).1) hwf

end Single

/-- A statement that jumps to `q`. -/
theorem jump_created {jumps : Jumps} {builder after : Builder X} {n p q : ℕ}
    {statement : Statement X} {flow : Flow}
    (h : Created (jump statement .next) jumps builder p after (some n) (some (after.last n)))
    (hwf : builder.WellFormed) (hq : q < after.nodeCount)
    (harrives : ∀ {final : Builder X} {start trace}, final.Run start trace (q, 0) →
      Arrives final jumps none start trace flow) :
    Created (jump statement flow) jumps builder p (after.connect n q) none none where
  wf := h.wf.connect (h.fresh rfl).1 hq
  count := h.count
  keeps := h.keeps.thenConnectOption hwf (some n) q
  fresh hx := by cases hx
  run {final} hfinal {trace flow'} htrace := by
    obtain ⟨rfl, rfl⟩ := htrace
    exact harrives (h.arrive hfinal ⟨rfl, rfl⟩)

/-- All targets of jumps exist. -/
structure Jumps.Within (jumps : Jumps) (count : ℕ) : Prop where
  breakTo : jumps.breakTo < count
  continueTo : jumps.continueTo < count
  error : jumps.error < count
  normal : jumps.normal < count

theorem Jumps.Within.mono {jumps : Jumps} {count count' : ℕ} (h : jumps.Within count)
    (hcount : count ≤ count') : jumps.Within count' :=
  ⟨h.breakTo.trans_le hcount, h.continueTo.trans_le hcount, h.error.trans_le hcount,
    h.normal.trans_le hcount⟩

/-- The statements that `createSimple` is for. -/
def simpleBehavior (constant : Expression X → Bool) : Statement X → Option (Behavior X)
  | .simple statement => some (jump (.simple statement) .next)
  | .assert test origin => some (assertBehavior constant test origin)
  | .breakLoop => some (jump .breakLoop .breakLoop)
  | .continueLoop => some (jump .continueLoop .continueLoop)
  | .raise expression => some (jump (.raise expression) .raise)
  | .returnValue expression => some (jump (.returnValue expression) .returnValue)
  | _ => none

theorem createAssert_created {jumps : Jumps} {builder : Builder X} {p : ℕ}
    {test : Expression X} {origin : Option AssertOrigin}
    (h : Created (jump (.assert test origin) .next) jumps builder p
      (builder.append (.assert test origin) p).2 (some (builder.append (.assert test origin) p).1)
      (some ((builder.append (.assert test origin) p).2.last
        (builder.append (.assert test origin) p).1)))
    (hwf : builder.WellFormed)
    (hjumps : jumps.Within (builder.append (.assert test origin) p).2.nodeCount) :
    CreatedNext (assertBehavior Expression.isFalse test origin) jumps builder p
      (createSimple (.assert test origin) jumps p builder) := by
  unfold createSimple assertBehavior
  cases origin with
  | none =>
    dsimp only
    split
    case isTrue hfalse => exact jump_created h hwf hjumps.error (fun hrun => hrun)
    case isFalse hfalse => exact h
  | some origin =>
    cases origin with
    | ifThen branch => exact h
    | matchCase branch => exact h
    | whileLoop branch =>
      dsimp only
      split
      case isTrue hfalse =>
        -- no execution gets past the assumption
        exact h.never fun htrace => by
          rw [hfalse] at htrace
          cases htrace.1
      case isFalse hfalse =>
        exact h.weaken (fun htrace => htrace.2) (fun _ harrives => harrives)

theorem createSimple_created {jumps : Jumps} {builder : Builder X} {p : ℕ}
    (hwf : builder.WellFormed) (hp : p < builder.nodeCount) (hjumps : jumps.Within builder.nodeCount)
    (statement : Statement X) {behavior : Behavior X}
    (hbehavior : simpleBehavior Expression.isFalse statement = some behavior) :
    CreatedNext behavior jumps builder p (createSimple statement jumps p builder) := by
  have h : Created (jump statement .next) jumps builder p _ _ _ :=
    append_created hwf hp statement
  have hjumps := hjumps.mono h.count
  cases statement with
  | simple statement =>
    cases hbehavior
    exact h
  | assert test origin =>
    cases hbehavior
    exact createAssert_created h hwf hjumps
  | breakLoop =>
    cases hbehavior
    exact jump_created h hwf hjumps.breakTo (fun hrun => hrun)
  | continueLoop =>
    cases hbehavior
    exact jump_created h hwf hjumps.continueTo (fun hrun => hrun)
  | raise expression =>
    cases hbehavior
    exact jump_created h hwf hjumps.error (fun hrun => hrun)
  | returnValue expression =>
    cases hbehavior
    exact jump_created h hwf hjumps.normal (fun hrun => hrun)
  | _ => cases hbehavior

/-! ## 4. Lists -/

theorem createdNext_of_list {behavior : Behavior X} {jumps : Jumps} {builder : Builder X} {p : ℕ}
    {result : Option ℕ × Builder X} (h : CreatedList behavior jumps builder p result) :
    CreatedNext behavior jumps builder p (.ofOption result.1, result.2) := by
  obtain ⟨last, after⟩ := result
  cases last with
  | none => exact h
  | some node => exact h

theorem andThen_created {first second : Behavior X} {jumps : Jumps} {builder : Builder X} {p : ℕ}
    {result : Next × Builder X} {statements : ℕ → Builder X → Option ℕ × Builder X}
    (hwf : builder.WellFormed) (h : CreatedNext first jumps builder p result)
    (hstatements : ∀ n, n < result.2.nodeCount → result.2.WellFormed →
      builder.nodeCount ≤ result.2.nodeCount →
      CreatedList second jumps result.2 n (statements n result.2)) :
    CreatedList (Behavior.seq first second) jumps builder p (andThen result statements) := by
  obtain ⟨next, after⟩ := result
  cases next with
  | goOn n =>
    have h : Created first jumps builder p after (some n) (some (after.last n)) := h
    exact h.seq (hstatements n (h.fresh rfl).1 h.wf h.count) hwf
  | stop n =>
    have h : Created first jumps builder p after n none := h
    refine ⟨h.wf, h.count, h.keeps, h.fresh, fun {final} hfinal {trace flow} htrace => ?_⟩
    rcases htrace with ⟨_, _, _, htrace, _⟩ | ⟨hne, htrace⟩
    · obtain ⟨_, hnext, _⟩ := h.run hfinal htrace
      cases hnext
    · exact (h.run hfinal htrace).of_ne hne

/-- What `create` does for statements, wherever they stand. -/
def Builds (behavior : Behavior X) (jumps : Jumps)
    (create : ℕ → Builder X → Option ℕ × Builder X) : Prop :=
  ∀ {p : ℕ} {builder : Builder X}, builder.WellFormed → p < builder.nodeCount →
    jumps.Within builder.nodeCount → CreatedList behavior jumps builder p (create p builder)

/-- What extends the graph of two lists extends that of the first. -/
theorem extends_of_andThen {first second : Behavior X} {jumps jumps' : Jumps}
    {before middle final : Builder X} {p : ℕ} {opened : Option ℕ} {next : Option Position}
    {region : ℕ → Prop} {create : ℕ → Builder X → Option ℕ × Builder X}
    (h : Created first jumps before p middle opened next) (hjumps : jumps'.Within middle.nodeCount)
    (hcreate : Builds second jumps' create)
    (hfinal : Extends region (andThen (.ofOption opened, middle) create).1
      (andThen (.ofOption opened, middle) create).2 final) :
    Extends region opened middle final := by
  cases opened with
  | none => exact hfinal
  | some n =>
    have hsecond := hcreate h.wf (h.fresh rfl).1 hjumps
    refine (hsecond.keeps.mono (fun _ _ => trivial) (fun _ _ hx => hx)).trans hfinal
      (fun x _ hlt hx => ?_) h.wf
    rcases (hsecond.fresh hx).2 with rfl | hle
    · rfl
    · exact absurd hlt hle.not_gt

/-! ## 5. Branches -/

/-- A kind of node without statements. -/
def Bare (kind : NodeKind (Statement X)) : Prop := ∀ statements, kind ≠ .block statements

theorem kind?_of_extends {opened : Option ℕ} {before after : Builder X}
    (h : Extends Everywhere opened before after) {x : ℕ} {kind : NodeKind (Statement X)}
    (hkind : before.kind? x = some kind) (hopened : opened ≠ some x ∨ Bare kind) :
    after.kind? x = some kind := by
  obtain ⟨node, hnode, rfl⟩ := Option.map_eq_some_iff.mp hkind
  obtain ⟨node', hnode', -, hkind'⟩ := h.node trivial hnode
  unfold Builder.kind?
  rw [hnode', Option.map_some, hkind'.resolve_right]
  intro ⟨hopen, statements, _, hstatements, _⟩
  rcases hopened with hopened | hopened
  · exact hopened hopen
  · exact hopened statements hstatements

theorem kind?_connect {builder : Builder X} (p q : ℕ) {x : ℕ} {kind : NodeKind (Statement X)}
    (h : builder.kind? x = some kind) : (builder.connect p q).kind? x = some kind := by
  have hkeeps : Extends Everywhere none builder (builder.connect p q) := .connect p q
  exact kind?_of_extends hkeeps h (Or.inl (by simp))

/-- An open node without statements stays as it is. -/
theorem Builder.Extends.close_bare {region : ℕ → Prop} {x : ℕ} {before after : Builder X}
    (h : Extends region (some x) before after) {kind : NodeKind (Statement X)}
    (hkind : before.kind? x = some kind) (hbare : Bare kind) :
    Extends region none before after := by
  refine h.close fun y node statements hy hnode => ?_
  obtain rfl := Option.some.inj hy
  unfold Builder.kind? at hkind
  rw [hnode] at hkind
  obtain rfl := Option.some.inj hkind
  exact hbare statements

/-- Two new nodes, the first one behind `p`. -/
structure Opening (before after : Builder X) (p : ℕ) (first second : NodeKind (Statement X)) :
    Prop where
  wf : after.WellFormed
  keeps : Extends Everywhere none before after
  count : after.nodeCount = before.nodeCount + 2
  edge : after.Edge p before.nodeCount
  split : after.kind? before.nodeCount = some first
  join : after.kind? (before.nodeCount + 1) = some second

namespace Opening

variable {before after : Builder X} {p : ℕ} {first second : NodeKind (Statement X)}

theorem le (h : Opening before after p first second) : before.nodeCount ≤ after.nodeCount := by
  rw [h.count]
  omega

theorem split_lt (h : Opening before after p first second) :
    before.nodeCount < after.nodeCount := by
  rw [h.count]
  omega

theorem join_lt (h : Opening before after p first second) :
    before.nodeCount + 1 < after.nodeCount := by
  rw [h.count]
  omega

end Opening

theorem edge_connect {builder : Builder X} {p q : ℕ} (hwf : builder.WellFormed)
    (hp : p < builder.nodeCount) : (builder.connect p q).Edge p q := by
  obtain ⟨node, hnode⟩ := hwf.exists_node hp
  refine ⟨_, by rw [node_connect, hnode]; rfl, ?_⟩
  unfold connected
  rw [if_pos rfl]
  exact SortedSet.mem_add.mpr (Or.inl rfl)

theorem kind?_emptyNode (kind : NodeKind (Statement X)) (builder : Builder X) :
    (builder.emptyNode kind).2.kind? builder.nodeCount = some kind := by
  unfold Builder.kind?
  rw [node_emptyNode, if_pos rfl]
  rfl

theorem opening {builder : Builder X} (hwf : builder.WellFormed) {p : ℕ}
    (hp : p < builder.nodeCount) (first second : NodeKind (Statement X)) :
    Opening builder
      (((builder.emptyNode first).2.emptyNode second).2.connect p builder.nodeCount) p first
      second := by
  have hwf₁ := hwf.emptyNode first
  have hwf₂ := hwf₁.emptyNode second
  have hp₂ : p < ((builder.emptyNode first).2.emptyNode second).2.nodeCount := by
    simp
    omega
  have hfirst : Extends Everywhere none builder (builder.emptyNode first).2 := .emptyNode hwf _
  have hsecond : Extends Everywhere none (builder.emptyNode first).2
    ((builder.emptyNode first).2.emptyNode second).2 := .emptyNode hwf₁ _
  have hthird : Extends Everywhere none ((builder.emptyNode first).2.emptyNode second).2
    (((builder.emptyNode first).2.emptyNode second).2.connect p builder.nodeCount) := .connect _ _
  constructor
  case wf => exact hwf₂.connect hp₂ (by simp)
  case keeps =>
    exact (hfirst.trans hsecond (fun _ _ _ hx => hx) hwf).trans hthird (fun _ _ _ hx => hx) hwf
  case count => rfl
  case edge => exact edge_connect hwf₂ hp₂
  case split =>
    exact kind?_of_extends hthird (kind?_of_extends hsecond (kind?_emptyNode first builder)
      (Or.inl (by simp))) (Or.inl (by simp))
  case join =>
    exact kind?_of_extends hthird (kind?_emptyNode second (builder.emptyNode first).2)
      (Or.inl (by simp))

/-- What was created behind the first of the two, up to the second. -/
theorem Opening.behind {behavior : Behavior X} {jumps : Jumps} {before start after : Builder X}
    {p : ℕ} {first second : NodeKind (Statement X)} (hopening : Opening before start p first second)
    (hwf : before.WellFormed) (hp : p < before.nodeCount) (hfirst : Bare first)
    (hsecond : Bare second)
    (h : Created behavior jumps start before.nodeCount after none
      (some (before.nodeCount + 1, 0))) :
    CreatedNext behavior jumps before p (.goOn (before.nodeCount + 1), after) := by
  have hcount := hopening.count
  have hjoin : after.kind? (before.nodeCount + 1) = some second :=
    kind?_of_extends h.keeps hopening.join (Or.inr hsecond)
  show Created behavior jumps before p after (some (before.nodeCount + 1))
    (some (after.last (before.nodeCount + 1)))
  rw [last_of_kind hjoin hsecond]
  refine h.behind hwf hp le_rfl (by omega) hopening.keeps hopening.edge
    (last_of_kind hopening.split hfirst) fun {x} hx => ?_
  obtain rfl := Option.some.inj hx
  have hle := h.count
  refine ⟨by omega, by omega, Or.inr ⟨by omega, by omega⟩⟩

/-- A node without statements can be open. -/
theorem Created.reopen {behavior : Behavior X} {jumps : Jumps} {before after : Builder X} {p x : ℕ}
    {next : Option Position} {kind : NodeKind (Statement X)}
    (h : Created behavior jumps before p after none next) (hkind : after.kind? x = some kind)
    (hbare : Bare kind) (hx : x < after.nodeCount) (hregion : Region p before.nodeCount x) :
    Created behavior jumps before p after (some x) next where
  wf := h.wf
  count := h.count
  keeps := h.keeps
  fresh hy := Option.some.inj hy ▸ ⟨hx, hregion⟩
  run hfinal _ _ htrace := h.run (hfinal.close_bare hkind hbare) htrace

/-- The same, unless nothing leads to the second node. -/
theorem Opening.behind_or {behavior : Behavior X} {jumps : Jumps} {before start after : Builder X}
    {p : ℕ} {first second : NodeKind (Statement X)} (hopening : Opening before start p first second)
    (hwf : before.WellFormed) (hp : p < before.nodeCount) (hfirst : Bare first)
    (hsecond : Bare second)
    (h : Created behavior jumps start before.nodeCount after none
      (some (before.nodeCount + 1, 0))) :
    CreatedNext behavior jumps before p
      (if after.hasPredecessors (before.nodeCount + 1) then (.goOn (before.nodeCount + 1), after)
        else (.stop (some before.nodeCount), after)) := by
  split
  case isTrue => exact hopening.behind hwf hp hfirst hsecond h
  case isFalse hnone =>
    have hlast := last_of_kind hopening.split hfirst
    have hne : start.last before.nodeCount ≠ (before.nodeCount + 1, 0) := by
      rw [hlast]
      intro heq
      have := (Prod.mk.inj heq).1
      omega
    have hnever := h.no_next hne (Bool.not_eq_true _ ▸ hnone)
    have hsplit := kind?_of_extends h.keeps hopening.split (Or.inr hfirst)
    -- the first node stays open, and has no statements
    have hreopened := (h.reopen hsplit hfirst (hopening.split_lt.trans_le h.count)
      (Or.inl rfl)).drop_next hnever
    refine hreopened.behind hwf hp le_rfl hopening.le hopening.keeps hopening.edge hlast
      fun {x} hx => ?_
    obtain rfl := Option.some.inj hx
    exact ⟨hopening.split_lt.trans_le h.count, le_rfl, Or.inl rfl⟩

/-- A branch: an assumption and statements behind the node `p`, up to `q`. -/
theorem branch_created {behavior : Behavior X} {jumps : Jumps} {builder : Builder X} {p q : ℕ}
    {origin : AssertOrigin} {test : Expression X} {create : ℕ → Builder X → Option ℕ × Builder X}
    (hwf : builder.WellFormed) (hp : p < builder.nodeCount) (hq : q < builder.nodeCount)
    (hjumps : jumps.Within builder.nodeCount) (hcreate : Builds behavior jumps create) :
    let result := andThen (createSimple (.assume origin test) jumps p builder) create
    Created (Behavior.seq (assertBehavior Expression.isFalse test (some origin)) behavior) jumps
      builder p (result.2.connectOption result.1 q) none (some (q, 0)) := by
  intro result
  have h : CreatedList (Behavior.seq (assertBehavior Expression.isFalse test (some origin)) behavior)
      jumps builder p result :=
    andThen_created hwf (createSimple_created hwf hp hjumps (.assume origin test) rfl)
      fun n hn hwf' hcount => hcreate hwf' hn (hjumps.mono hcount)
  exact Created.joined h hwf (hq.trans_le h.count)

/-- Branches that were put behind a bare node one after the other. -/
theorem either_created {first second : Behavior X} {jumps : Jumps} {before middle after : Builder X}
    {p : ℕ} {next : Option Position} {kind : NodeKind (Statement X)}
    (hwf : before.WellFormed) (hkind : before.kind? p = some kind) (hbare : Bare kind)
    (h : Created first jumps before p middle none next)
    (h' : Created second jumps middle p after none next) :
    Created (Behavior.either first second) jumps before p after none next := by
  have hkind' : middle.kind? p = some kind := kind?_of_extends h.keeps hkind (Or.inr hbare)
  refine h.either h' hwf (h'.keeps.close_bare hkind' hbare) ?_
  rw [last_of_kind hkind hbare, last_of_kind hkind' hbare]

section Compound

variable {normalizeAsserts : Bool} {jumps : Jumps} {builder : Builder X} {p : ℕ}
  {body orelse : List (Statement X)} {bodyBehavior orelseBehavior : Behavior X}

theorem ifThen_created (hwf : builder.WellFormed) (hp : p < builder.nodeCount)
    (hjumps : jumps.Within builder.nodeCount) (test : Expression X)
    (hbody : Builds bodyBehavior jumps (createStatements normalizeAsserts body jumps))
    (horelse : Builds orelseBehavior jumps (createStatements normalizeAsserts orelse jumps)) :
    CreatedNext
      (Behavior.either
        (Behavior.seq (taken Expression.isFalse normalizeAsserts .ifThen test) bodyBehavior)
        (Behavior.seq (notTaken Expression.isFalse normalizeAsserts .ifThen test) orelseBehavior))
      jumps builder p (createStatement normalizeAsserts (.ifThen test body orelse) jumps p builder) := by
  have hopening := opening hwf hp .ifThen .join
  have hjumps := hjumps.mono hopening.le
  have hthen : Created (Behavior.seq (taken _ normalizeAsserts .ifThen test) bodyBehavior) jumps _
      builder.nodeCount _ none _ :=
    branch_created hopening.wf hopening.split_lt hopening.join_lt hjumps hbody
  have helse : Created (Behavior.seq (notTaken _ normalizeAsserts .ifThen test) orelseBehavior)
      jumps _ builder.nodeCount _ none _ :=
    branch_created hthen.wf (hopening.split_lt.trans_le hthen.count)
      (hopening.join_lt.trans_le hthen.count) (hjumps.mono hthen.count) horelse
  exact hopening.behind hwf hp (fun _ => by simp) (fun _ => by simp)
    (either_created hopening.wf hopening.split (fun _ => by simp) hthen helse)

theorem whileLoop_created (hwf : builder.WellFormed) (hp : p < builder.nodeCount)
    (hjumps : jumps.Within builder.nodeCount) (test : Expression X)
    (hbody : ∀ jumps, Builds bodyBehavior jumps (createStatements normalizeAsserts body jumps))
    (horelse : Builds orelseBehavior jumps (createStatements normalizeAsserts orelse jumps)) :
    CreatedNext
      (Loop (Behavior.seq (taken Expression.isFalse normalizeAsserts .whileLoop test) bodyBehavior)
        (Behavior.seq (notTaken Expression.isFalse normalizeAsserts .whileLoop test) orelseBehavior))
      jumps builder p
      (createStatement normalizeAsserts (.whileLoop test body orelse) jumps p builder) := by
  have hopening := opening hwf hp .whileLoop .join
  have hjumps := hjumps.mono hopening.le
  have hloopJumps : Jumps.Within { jumps with
      breakTo := builder.nodeCount + 1, continueTo := builder.nodeCount } _ :=
    ⟨hopening.join_lt, hopening.split_lt, hjumps.error, hjumps.normal⟩
  have hround : Created (Behavior.seq (taken _ normalizeAsserts .whileLoop test) bodyBehavior) _ _
      builder.nodeCount _ none _ :=
    branch_created hopening.wf hopening.split_lt hopening.split_lt hloopJumps (hbody _)
  have hleave : Created (Behavior.seq (notTaken _ normalizeAsserts .whileLoop test) orelseBehavior)
      jumps _ builder.nodeCount _ none _ :=
    branch_created hround.wf (hopening.split_lt.trans_le hround.count)
      (hopening.join_lt.trans_le hround.count) (hjumps.mono hround.count) horelse
  have hkind := kind?_of_extends hround.keeps hopening.split (Or.inr fun _ => by simp)
  have hloop := hround.loop hleave hopening.wf (hleave.keeps.close_bare hkind fun _ => by simp)
    (last_of_kind hopening.split fun _ => by simp) (last_of_kind hkind fun _ => by simp)
  exact hopening.behind_or hwf hp (fun _ => by simp) (fun _ => by simp) hloop

theorem forLoop_created (hwf : builder.WellFormed) (hp : p < builder.nodeCount)
    (hjumps : jumps.Within builder.nodeCount) (first : X)
    (hbody : ∀ jumps, Builds bodyBehavior jumps (createStatements normalizeAsserts body jumps))
    (horelse : Builds orelseBehavior jumps (createStatements normalizeAsserts orelse jumps)) :
    CreatedNext (Loop (Behavior.seq (jump (.simple first) .next) bodyBehavior) orelseBehavior)
      jumps builder p
      (createStatement normalizeAsserts (.forLoop first body orelse) jumps p builder) := by
  have hopening := opening hwf hp .forLoop .join
  have hjumps := hjumps.mono hopening.le
  have hloopJumps : Jumps.Within { jumps with
      breakTo := builder.nodeCount + 1, continueTo := builder.nodeCount } _ :=
    ⟨hopening.join_lt, hopening.split_lt, hjumps.error, hjumps.normal⟩
  have hfirst : Created (jump (.simple first) .next) { jumps with
      breakTo := builder.nodeCount + 1, continueTo := builder.nodeCount } _ builder.nodeCount _ _ _ :=
    append_created hopening.wf hopening.split_lt (.simple first)
  have hbody : CreatedList (Behavior.seq (jump (.simple first) .next) bodyBehavior) _ _
      builder.nodeCount _ :=
    hfirst.seq (hbody _ hfirst.wf (hfirst.fresh rfl).1 (hloopJumps.mono hfirst.count)) hopening.wf
  have hround := Created.joined hbody hopening.wf (hopening.split_lt.trans_le hbody.count)
  have horelse := horelse hround.wf (hopening.split_lt.trans_le hround.count)
    (hjumps.mono hround.count)
  have hleave := Created.joined horelse hround.wf
    ((hopening.join_lt.trans_le hround.count).trans_le horelse.count)
  have hkind := kind?_of_extends hround.keeps hopening.split (Or.inr fun _ => by simp)
  have hloop := hround.loop hleave hopening.wf (hleave.keeps.close_bare hkind fun _ => by simp)
    (last_of_kind hopening.split fun _ => by simp) (last_of_kind hkind fun _ => by simp)
  -- the edge past the loop
  have hend := hloop.extended hopening.wf
    (hloop.wf.connect (hopening.split_lt.trans_le hloop.count)
      (hopening.join_lt.trans_le hloop.count)) le_rfl (.connect _ _)
  exact hopening.behind hwf hp (fun _ => by simp) (fun _ => by simp) hend

theorem withBlock_created (hwf : builder.WellFormed) (hp : p < builder.nodeCount)
    (hjumps : jumps.Within builder.nodeCount) (first : List X)
    (hbody : Builds bodyBehavior jumps (createStatements normalizeAsserts body jumps)) :
    CreatedNext (Behavior.seq (preamble first) bodyBehavior) jumps builder p
      (createStatement normalizeAsserts (.withBlock first body) jumps p builder) := by
  have hwf' := hwf.emptyNode .withBlock
  have hstart := hwf'.connect (Nat.lt_succ_of_lt hp) (Nat.lt_succ_self _)
  have hkeeps := new_keeps hwf .withBlock p
  have hkind := kind?_connect p builder.nodeCount (kind?_emptyNode .withBlock builder)
  have hpreamble : Created (preamble first) jumps _ builder.nodeCount _ _ _ :=
    appendAll_created hstart (Nat.lt_succ_self _) first
  have hbody := hbody hpreamble.wf (hpreamble.fresh rfl).1
    (hjumps.mono ((Nat.le_succ _).trans hpreamble.count))
  have hlist : CreatedList (Behavior.seq (preamble first) bodyBehavior) jumps builder p _ :=
    (hpreamble.seq hbody hstart).behind hwf hp le_rfl (Nat.le_succ _) hkeeps (edge_connect hwf' (Nat.lt_succ_of_lt hp)) (last_of_kind hkind fun _ => by simp)
    fun {x} hx => by
      obtain ⟨hlt, hregion⟩ := (hpreamble.seq hbody hstart).fresh hx
      refine ⟨hlt, ?_, Or.inl hx⟩
      rcases hregion with rfl | hle
      · exact le_rfl
      · exact (Nat.le_succ _).trans hle
  exact createdNext_of_list hlist

/-! ## 6. A match -/

/-- Cases behind `p`, each joined at `q`. -/
structure CreatedCases (behavior skipped : Behavior X) (jumps : Jumps) (before : Builder X)
    (p q : ℕ) (result : ℕ × Builder X) : Prop where
  keeps : Extends Everywhere none before result.2
  taken : Created behavior jumps before p result.2 none (some (q, 0))
  skipped : Created skipped jumps before p result.2 (some result.1)
    (some (result.2.last result.1))

theorem createCases_nil {q : ℕ} (hwf : builder.WellFormed) (hp : p < builder.nodeCount) :
    CreatedCases (fun _ _ => False) Behavior.skip jumps builder p q
      (createCases normalizeAsserts [] q jumps p builder) := by
  have hskip : Created Behavior.skip jumps builder p builder _ _ := .skip hwf hp
  exact ⟨.refl _, hskip.never (fun htrace => htrace), hskip⟩

theorem case_created {q : ℕ} (hwf : builder.WellFormed) (hp : p < builder.nodeCount)
    (hq : q < builder.nodeCount) (hjumps : jumps.Within builder.nodeCount) (test : Expression X)
    (hbody : Builds bodyBehavior jumps (createStatements normalizeAsserts body jumps)) :
    let start := (builder.emptyNode
      (.block [.assume (.matchCase true) (positiveTest normalizeAsserts test)])).2.connect p
        builder.nodeCount
    let result := createStatements normalizeAsserts body jumps builder.nodeCount start
    Created
        (Behavior.seq (taken Expression.isFalse normalizeAsserts .matchCase test) bodyBehavior)
        jumps builder p (result.2.connectOption result.1 q) none (some (q, 0)) ∧
      Extends Everywhere none builder (result.2.connectOption result.1 q) := by
  intro start result
  have hcase : Created (taken Expression.isFalse normalizeAsserts .matchCase test) jumps builder p
      start (some builder.nodeCount) _ := created_block hwf hp _
  have hbody : CreatedList bodyBehavior jumps start builder.nodeCount result :=
    hbody hcase.wf (hcase.fresh rfl).1 (hjumps.mono hcase.count)
  have hlist : CreatedList (Behavior.seq (taken Expression.isFalse normalizeAsserts .matchCase test)
      bodyBehavior) jumps builder p result := hcase.seq hbody hwf
  refine ⟨Created.joined hlist hwf (hq.trans_le hlist.count), ?_⟩
  have hkeeps : Extends Everywhere none builder result.2 :=
    (new_keeps hwf _ p).trans hbody.keeps (fun x _ hlt hx => by
      obtain rfl := Option.some.inj hx
      exact absurd hlt (lt_irrefl _)) hwf
  exact hkeeps.thenConnectOption hwf result.1 q

theorem createCases_cons {q : ℕ} {cases : List (MatchCase X)} {rest restSkipped : Behavior X}
    (hwf : builder.WellFormed) (hp : p < builder.nodeCount) (hq : q < builder.nodeCount)
    (hjumps : jumps.Within builder.nodeCount) (test : Expression X) (refutable : Bool)
    (hbody : Builds bodyBehavior jumps (createStatements normalizeAsserts body jumps))
    (hrest : ∀ {p : ℕ} {builder : Builder X}, builder.WellFormed → p < builder.nodeCount →
      q < builder.nodeCount → jumps.Within builder.nodeCount →
      CreatedCases rest restSkipped jumps builder p q
        (createCases normalizeAsserts cases q jumps p builder)) :
    CreatedCases
      (Behavior.either
        (Behavior.seq (taken Expression.isFalse normalizeAsserts .matchCase test) bodyBehavior)
        (Behavior.seq (notTaken Expression.isFalse normalizeAsserts .matchCase test) rest))
      (Behavior.seq (notTaken Expression.isFalse normalizeAsserts .matchCase test) restSkipped)
      jumps builder p q
      (createCases normalizeAsserts (.mk test refutable body :: cases) q jumps p builder) := by
  obtain ⟨htaken, hkeeps⟩ := case_created hwf hp hq hjumps test hbody
  -- the other cases
  have hp' := hp.trans_le htaken.count
  have helse : Created (notTaken Expression.isFalse normalizeAsserts .matchCase test) jumps _ p _
      (some _) _ := created_block htaken.wf hp' _
  have helseKeeps := new_keeps htaken.wf
    (.block [.assume (.matchCase false) (negativeTest normalizeAsserts test)]) p
  have hrest := hrest helse.wf (helse.fresh rfl).1 (hq.trans_le (htaken.count.trans helse.count))
    (hjumps.mono (htaken.count.trans helse.count))
  have hrestKeeps := helseKeeps.trans hrest.keeps (fun _ _ _ hx => hx) htaken.wf
  obtain ⟨node, hnode⟩ := hwf.exists_node hp
  have hlast := hkeeps.last_eq trivial (by simp) hnode
  exact ⟨hkeeps.trans hrestKeeps (fun _ _ _ hx => hx) hwf,
    htaken.either (helse.seq hrest.taken htaken.wf) hwf hrestKeeps hlast,
    (helse.seq hrest.skipped htaken.wf).earlier hwf htaken.count hkeeps hlast⟩

/-- What was created behind `p` up to a node `join` that was made before. -/
theorem join_created {behavior : Behavior X} {after : Builder X} (hwf : builder.WellFormed)
    (hp : p < builder.nodeCount) (hkind : after.kind? builder.nodeCount = some .join)
    (h : Created behavior jumps (builder.emptyNode .join).2 p after none
      (some (builder.nodeCount, 0))) :
    CreatedNext behavior jumps builder p (.goOn builder.nodeCount, after) := by
  have hempty : Extends Everywhere none builder (builder.emptyNode .join).2 := .emptyNode hwf _
  obtain ⟨node, hnode⟩ := hwf.exists_node hp
  have hlast := hempty.last_eq trivial (by simp) hnode
  have hreopened := (h.earlier hwf (Nat.le_succ _) hempty hlast).reopen hkind (fun _ => by simp)
    ((Nat.lt_succ_self builder.nodeCount).trans_le h.count) (Or.inr le_rfl)
  show Created behavior jumps builder p after (some _) (some (after.last builder.nodeCount))
  rwa [last_of_kind hkind fun _ => by simp]

theorem matchCases_created {cases : List (MatchCase X)} {casesBehavior skipped : Behavior X}
    (hwf : builder.WellFormed) (hp : p < builder.nodeCount)
    (hjumps : jumps.Within builder.nodeCount)
    (hcases : ∀ {p q : ℕ} {builder : Builder X}, builder.WellFormed → p < builder.nodeCount →
      q < builder.nodeCount → jumps.Within builder.nodeCount →
      CreatedCases casesBehavior skipped jumps builder p q
        (createCases normalizeAsserts cases q jumps p builder)) :
    CreatedNext
      (Behavior.either casesBehavior fun trace flow =>
        matchCasesRefutable cases = true ∧ skipped trace flow) jumps builder p
      (createStatement normalizeAsserts (.matchCases cases) jumps p builder) := by
  have hwf' := hwf.emptyNode .join
  have hcases := hcases hwf' (Nat.lt_succ_of_lt hp) (Nat.lt_succ_self builder.nodeCount)
    (hjumps.mono (Nat.le_succ _))
  have hkind := kind?_of_extends hcases.keeps (kind?_emptyNode .join builder) (Or.inl (by simp))
  -- with or without an edge from the last else
  by_cases hrefutable : matchCasesRefutable cases = true
  · have hlist : CreatedList skipped jumps (builder.emptyNode .join).2 p (some _, _) :=
      hcases.skipped
    have hskipped := Created.joined hlist hwf'
      ((Nat.lt_succ_self builder.nodeCount).trans_le hcases.taken.count)
    have htaken := hcases.taken.extended hwf' hskipped.wf le_rfl (.connect _ _)
    have hboth : Created (Behavior.either casesBehavior fun trace flow =>
        matchCasesRefutable cases = true ∧ skipped trace flow) jumps _ p _ none _ :=
      ⟨htaken.wf, htaken.count, htaken.keeps, htaken.fresh, fun hfinal _ _ htrace =>
        Or.elim htrace (htaken.run hfinal) fun htrace => hskipped.run hfinal htrace.2⟩
    have hgoal := join_created hwf hp
      (kind?_connect _ _ hkind) hboth
    show CreatedNext _ jumps builder p (.goOn builder.nodeCount,
      if matchCasesRefutable cases = true then _ else _)
    rw [if_pos hrefutable]
    exact hgoal
  · have htaken : Created (Behavior.either casesBehavior fun trace flow =>
        matchCasesRefutable cases = true ∧ skipped trace flow) jumps _ p _ none _ :=
      hcases.taken.weaken
        (fun htrace => Or.resolve_right htrace fun htrace => hrefutable htrace.1)
        (fun _ harrives => harrives)
    have hgoal := join_created hwf hp hkind htaken
    show CreatedNext _ jumps builder p (.goOn builder.nodeCount,
      if matchCasesRefutable cases = true then _ else _)
    rw [if_neg hrefutable]
    exact hgoal

/-! ## 7. A try without a finally clause -/

theorem createHandlers_nil {dispatch finallyEntry : ℕ} (hwf : builder.WellFormed)
    (hdispatch : dispatch < builder.nodeCount) :
    Created (fun _ _ => False) jumps builder dispatch
      (createHandlers normalizeAsserts [] jumps dispatch finallyEntry builder) none
      (some (finallyEntry, 0)) := by
  exact (Created.skip hwf hdispatch).never fun htrace => htrace

theorem createHandlers_cons {dispatch finallyEntry : ℕ} {handlers : List (Handler X)}
    {rest : Behavior X} (hwf : builder.WellFormed) (hdispatch : dispatch < builder.nodeCount)
    (hfinally : finallyEntry < builder.nodeCount) (hjumps : jumps.Within builder.nodeCount)
    {kind : NodeKind (Statement X)} (hkind : builder.kind? dispatch = some kind)
    (hbare : Bare kind) (first : List X)
    (hbody : Builds bodyBehavior jumps (createStatements normalizeAsserts body jumps))
    (hrest : ∀ {builder : Builder X}, builder.WellFormed → dispatch < builder.nodeCount →
      finallyEntry < builder.nodeCount → jumps.Within builder.nodeCount →
      builder.kind? dispatch = some kind →
      Created rest jumps builder dispatch
        (createHandlers normalizeAsserts handlers jumps dispatch finallyEntry builder) none
        (some (finallyEntry, 0))) :
    Created (Behavior.either (Behavior.seq (preamble first) bodyBehavior) rest) jumps builder
      dispatch
      (createHandlers normalizeAsserts (.mk first body :: handlers) jumps dispatch finallyEntry
        builder) none (some (finallyEntry, 0)) := by
  have hpreamble : Created (preamble first) jumps builder dispatch _ _ _ :=
    appendAll_created hwf hdispatch first
  have hbody : CreatedList (Behavior.seq (preamble first) bodyBehavior) jumps builder dispatch _ :=
    hpreamble.seq (hbody hpreamble.wf (hpreamble.fresh rfl).1 (hjumps.mono hpreamble.count)) hwf
  have hhandler := Created.joined hbody hwf (hfinally.trans_le hbody.count)
  have hrest := hrest hhandler.wf (hdispatch.trans_le hhandler.count)
    (hfinally.trans_le hhandler.count) (hjumps.mono hhandler.count)
    (kind?_of_extends hhandler.keeps hkind (Or.inr hbare))
  exact either_created hwf hkind hbare hhandler hrest

/-- The nodes that a try starts with: the one for the try itself, `dispatch`, and the empty block
    of the finally clause. -/
structure TryOpening (before start : Builder X) (error : ℕ) : Prop where
  wf : start.WellFormed
  count : start.nodeCount = before.nodeCount + 2
  keeps : Extends Everywhere none before start
  edge : start.Edge before.nodeCount error
  dispatch : start.kind? before.nodeCount = some .dispatch
  finallyEntry : start.kind? (before.nodeCount + 1) = some (.block [])

theorem tryOpening {split error : ℕ} (hwf : builder.WellFormed) (hsplit : split < builder.nodeCount)
    (herror : error < builder.nodeCount) :
    TryOpening builder
      ((((builder.emptyNode .dispatch).2.connect split builder.nodeCount).connect builder.nodeCount
        error).emptyNode (.block [])).2 error := by
  have hwf₁ := hwf.emptyNode .dispatch
  have hwf₂ := hwf₁.connect (Nat.lt_succ_of_lt hsplit) (Nat.lt_succ_self builder.nodeCount)
  have hwf₃ := hwf₂.connect (Nat.lt_succ_self builder.nodeCount) (Nat.lt_succ_of_lt herror)
  have hempty : Extends Everywhere none
      (((builder.emptyNode .dispatch).2.connect split builder.nodeCount).connect builder.nodeCount
        error) _ := .emptyNode hwf₃ (.block [])
  constructor
  case wf => exact hwf₃.emptyNode _
  case count => rfl
  case keeps =>
    exact ((new_keeps hwf .dispatch split).thenConnectOption hwf (some _) error).trans hempty
      (fun _ _ _ hx => hx) hwf
  case edge => exact hempty.edge trivial (edge_connect hwf₂ (Nat.lt_succ_self builder.nodeCount))
  case dispatch =>
    exact kind?_of_extends hempty (kind?_connect _ _ (kind?_connect _ _ (kind?_emptyNode _ _)))
      (Or.inl (by simp))
  case finallyEntry =>
    exact kind?_emptyNode (.block [])
      (((builder.emptyNode .dispatch).2.connect split builder.nodeCount).connect builder.nodeCount
        error)

/-- What `createHandlers` does, wherever the handlers stand. -/
def BuildsHandlers (behavior : Behavior X) (normalizeAsserts : Bool) (handlers : List (Handler X))
    (jumps : Jumps) : Prop :=
  ∀ {dispatch finallyEntry : ℕ} {builder : Builder X}, builder.WellFormed →
    dispatch < builder.nodeCount → finallyEntry < builder.nodeCount →
    jumps.Within builder.nodeCount → builder.kind? dispatch = some .dispatch →
    Created behavior jumps builder dispatch
      (createHandlers normalizeAsserts handlers jumps dispatch finallyEntry builder) none
      (some (finallyEntry, 0))

/-- The body, the else clause and the handlers, up to the empty finally clause. -/
theorem clauses_created {before start : Builder X} {split : ℕ} {kind : NodeKind (Statement X)}
    {handlers : List (Handler X)} {handlersBehavior : Behavior X}
    (hopening : TryOpening before start jumps.error) (hwf : before.WellFormed)
    (hsplit : split < before.nodeCount) (hkind : before.kind? split = some kind)
    (hbare : Bare kind) (hjumps : jumps.Within before.nodeCount)
    (hbody : ∀ jumps, Builds bodyBehavior jumps (createStatements normalizeAsserts body jumps))
    (horelse : Builds orelseBehavior jumps (createStatements normalizeAsserts orelse jumps))
    (hhandlers : BuildsHandlers handlersBehavior normalizeAsserts handlers jumps) :
    let bodyResult := createStatements normalizeAsserts body
      { jumps with error := before.nodeCount } split start
    let result := andThen (.ofOption bodyResult.1, bodyResult.2)
      (createStatements normalizeAsserts orelse jumps)
    let after := createHandlers normalizeAsserts handlers jumps before.nodeCount
      (before.nodeCount + 1) (result.2.connectOption result.1 (before.nodeCount + 1))
    Created (Behavior.either (Behavior.seq bodyBehavior orelseBehavior)
        (handled bodyBehavior handlersBehavior)) jumps before split after
        (some (before.nodeCount + 1)) (some (before.nodeCount + 1, 0)) ∧
      after.kind? (before.nodeCount + 1) = some (.block []) := by
  intro bodyResult result after
  have hcount := hopening.count
  have hle : before.nodeCount ≤ start.nodeCount := by omega
  have hjumps := hjumps.mono hle
  have hbodyJumps : Jumps.Within { jumps with error := before.nodeCount } start.nodeCount :=
    ⟨hjumps.breakTo, hjumps.continueTo, by dsimp only; omega, hjumps.normal⟩
  have hbody : CreatedList bodyBehavior { jumps with error := before.nodeCount } start split
      bodyResult := hbody _ hopening.wf (by omega) hbodyJumps
  -- without an exception: the jumps of the body are those of the whole
  have hquiet : CreatedList (fun trace flow => flow ≠ .raise ∧ bodyBehavior trace flow) jumps start
      split bodyResult := by
    refine hbody.weaken (fun htrace => htrace.2) fun {_ _ _ flow} htrace harrives => ?_
    cases flow with
    | raise => exact absurd rfl htrace.1
    | _ => exact harrives
  have hnormal : CreatedList (Behavior.seq
      (fun trace flow => flow ≠ .raise ∧ bodyBehavior trace flow) orelseBehavior) jumps start split
      result :=
    andThen_created hopening.wf (createdNext_of_list hquiet) fun n hn hwf' hcount' =>
      horelse hwf' hn (hjumps.mono hcount')
  have hjoined := Created.joined hnormal hopening.wf
    (show before.nodeCount + 1 < result.2.nodeCount from lt_of_lt_of_le (by omega) hnormal.count)
  have hcount' := hjoined.count
  have hsplitKind := kind?_of_extends hjoined.keeps
    (kind?_of_extends hopening.keeps hkind (Or.inr hbare)) (Or.inr hbare)
  have hdispatch := kind?_of_extends hjoined.keeps hopening.dispatch (Or.inr fun _ => by simp)
  have hhandlers : Created handlersBehavior jumps _ before.nodeCount after none _ :=
    hhandlers hjoined.wf (by omega) (show before.nodeCount + 1 < _ by omega)
      (hjumps.mono hjoined.count) hdispatch
  have hcount'' := hhandlers.count
  have hkeeps := hhandlers.keeps.close_bare hdispatch fun _ => by simp
  have hstart := hjoined.keeps.close_bare
    (kind?_of_extends hopening.keeps hkind (Or.inr hbare)) hbare
  have hall := hstart.trans hkeeps (fun _ _ _ hx => hx) hopening.wf
  refine ⟨⟨hhandlers.wf, by omega, ?_, fun {x} hx => ?_, fun {final} hfinal {trace flow} htrace => ?_⟩,
    kind?_of_extends hall hopening.finallyEntry (Or.inl (by simp))⟩
  · exact (hopening.keeps.trans hall (fun _ _ _ hx => hx) hwf).mono (fun _ hx => hx)
      (fun _ _ hx => by cases hx)
  · obtain rfl := Option.some.inj hx
    exact ⟨by omega, Or.inr (Nat.le_succ _)⟩
  -- the empty block of the finally clause may be extended, but it is not among the nodes behind it
  have hmiddle : Extends (Region split start.nodeCount) none _ final :=
    (hkeeps.mono (fun _ _ => trivial) (fun _ _ hx => hx)).trans (hfinal.mono
      (fun x hx => hx.imp_right fun hle => by omega) (fun x hx heq => by
        obtain rfl := Option.some.inj heq
        rcases hx with heq | hle <;> omega)) (fun _ _ _ hx => hx) hjoined.wf
  have hraise {trace : List (Statement X)} (htrace : bodyBehavior trace .raise) :
      final.Run (start.last split) trace (before.nodeCount, 0) :=
    hbody.run (extends_of_andThen hbody (hjumps.mono hbody.count) horelse
      ((Extends.connectOption result.1 (before.nodeCount + 1)).trans hmiddle
        (fun _ _ _ hx => by cases hx) hnormal.wf)) htrace
  have hlast : start.last split = before.last split := by
    rw [last_of_kind hkind hbare,
      last_of_kind (kind?_of_extends hopening.keeps hkind (Or.inr hbare)) hbare]
  rw [← hlast]
  rcases htrace with htrace | ⟨trace₁, trace₂, rfl, htrace₁, htrace₂⟩
  · by_cases hflow : flow = .raise ∧ bodyBehavior trace .raise
    · obtain ⟨rfl, hraised⟩ := hflow
      -- no handler matches
      have hdispatch' := kind?_of_extends hkeeps hdispatch (Or.inl (by simp))
      obtain ⟨node, hnode, -⟩ := Option.map_eq_some_iff.mp hdispatch'
      have hend : final.last before.nodeCount = (before.nodeCount, 0) := by
        rw [hfinal.last_eq (Or.inr le_rfl) (by simp) hnode,
          last_of_kind hdispatch' fun _ => by simp]
      have hescape := Run.along (hfinal.edge (Or.inr le_rfl) (hall.edge trivial hopening.edge))
      rw [hend] at hescape
      have hrun := (hraise hraised).trans hescape
      rwa [List.append_nil] at hrun
    · refine hjoined.run hmiddle ?_
      rcases htrace with ⟨trace₁, trace₂, rfl, htrace₁, htrace₂⟩ | ⟨hne, htrace⟩
      · exact Or.inl ⟨trace₁, trace₂, rfl, ⟨by simp, htrace₁⟩, htrace₂⟩
      · exact Or.inr ⟨hne, fun heq => hflow ⟨heq, heq ▸ htrace⟩, htrace⟩
  · have hcaught := hhandlers.run (hfinal.mono
      (fun x hx => Or.inr (by rcases hx with rfl | hle <;> omega))
      (fun x hx heq => by
        obtain rfl := Option.some.inj heq
        rcases hx with heq | hle <;> omega)) htrace₂
    rw [last_of_kind hdispatch fun _ => by simp] at hcaught
    exact hcaught.behind (hraise htrace₁)

theorem finally_skip {behavior : Behavior X} {trace : List (Statement X)} {flow : Flow}
    (h : finally_ behavior Behavior.skip trace flow) : behavior trace flow := by
  obtain ⟨before, after, flow₁, flow₂, rfl, hbefore, ⟨rfl, rfl⟩, rfl⟩ := h
  rwa [List.append_nil]

/-- How a try ends whose finally clause is the empty block `finallyEntry`. -/
theorem finally_created {behavior : Behavior X} {after : Builder X}
    {dispatch finallyEntry error : ℕ}
    (h : Created behavior jumps builder p after (some finallyEntry) (some (finallyEntry, 0)))
    (hwf : builder.WellFormed) (hp : p < builder.nodeCount) (hnew : builder.nodeCount ≤ finallyEntry)
    (hdispatch : dispatch < after.nodeCount) (herror : error < after.nodeCount)
    (hkind : after.kind? finallyEntry = some (.block [])) :
    CreatedNext behavior jumps builder p
      (if after.hasPredecessors finallyEntry then (.ofOption (some finallyEntry), after)
        else (.stop none,
          (after.connect dispatch finallyEntry).connectOption (some finallyEntry) error)) := by
  have hlt := (h.fresh rfl).1
  split
  case isTrue =>
    have hlast : after.last finallyEntry = (finallyEntry, 0) := by
      unfold Builder.last Builder.block
      rw [hkind]
      rfl
    show Created behavior jumps builder p after (some finallyEntry)
      (some (after.last finallyEntry))
    rwa [hlast]
  case isFalse hnone =>
    have hne : builder.last p ≠ (finallyEntry, 0) := by
      intro heq
      have := (Prod.mk.inj heq).1
      omega
    have hnever := h.drop_next (h.no_next hne (Bool.not_eq_true _ ▸ hnone))
    have hclosed : Created behavior jumps builder p after none none :=
      ⟨hnever.wf, hnever.count, hnever.keeps, (fun hx => by cases hx), fun hfinal =>
        hnever.run (hfinal.mono (fun _ hx => hx) (fun _ _ hx => by cases hx))⟩
    have hwf' := (h.wf.connect hdispatch hlt).connect (p := finallyEntry) (q := error) hlt herror
    exact hclosed.extended hwf hwf' le_rfl
      (Extends.thenConnectOption (.connect _ _) h.wf (some finallyEntry) error)

theorem tryBlock_created {handlers : List (Handler X)} {handlersBehavior : Behavior X}
    (hwf : builder.WellFormed) (hp : p < builder.nodeCount)
    (hjumps : jumps.Within builder.nodeCount)
    (hbody : ∀ jumps, Builds bodyBehavior jumps (createStatements normalizeAsserts body jumps))
    (horelse : Builds orelseBehavior jumps (createStatements normalizeAsserts orelse jumps))
    (hhandlers : BuildsHandlers handlersBehavior normalizeAsserts handlers jumps) :
    CreatedNext
      (finally_ (Behavior.either (Behavior.seq bodyBehavior orelseBehavior)
        (handled bodyBehavior handlersBehavior)) Behavior.skip) jumps builder p
      (createStatement normalizeAsserts (.tryBlock body orelse [] handlers) jumps p builder) := by
  have hwf' := hwf.emptyNode (.tryBlock (.tryBlock body orelse [] handlers))
  have hstart := hwf'.connect (Nat.lt_succ_of_lt hp) (Nat.lt_succ_self builder.nodeCount)
  have hsplit := kind?_connect p builder.nodeCount
    (kind?_emptyNode (.tryBlock (.tryBlock body orelse [] handlers)) builder)
  have hjumps' := hjumps.mono (Nat.le_succ builder.nodeCount)
  obtain ⟨hclauses, hfinally⟩ := clauses_created
    (tryOpening hstart (Nat.lt_succ_self builder.nodeCount) hjumps'.error) hstart
    (Nat.lt_succ_self builder.nodeCount) hsplit (fun _ => by simp) hjumps' hbody horelse hhandlers
  have hbehind := hclauses.behind hwf hp le_rfl (Nat.le_succ _) (new_keeps hwf _ p)
    (edge_connect hwf' (Nat.lt_succ_of_lt hp)) (last_of_kind hsplit fun _ => by simp)
    fun {x} hx => ⟨(hclauses.fresh hx).1, by
      obtain rfl := Option.some.inj hx
      show builder.nodeCount ≤ builder.nodeCount + 1 + 1
      omega, Or.inl hx⟩
  have hfinish := finally_created (hbehind.weaken finally_skip fun _ harrives => harrives) hwf hp
    (show builder.nodeCount ≤ _ by show builder.nodeCount ≤ builder.nodeCount + 1 + 1; omega)
    ((Nat.lt_succ_self _).trans (hclauses.fresh rfl).1) (hjumps.mono hbehind.count).error hfinally
  exact hfinish

end Compound

/-! ## 8. All statements -/

mutual

/-- No try in it has a finally clause. -/
def EmptyFinally : Statement X → Prop
  | .forLoop _ body orelse => EmptyFinallyList body ∧ EmptyFinallyList orelse
  | .ifThen _ body orelse => EmptyFinallyList body ∧ EmptyFinallyList orelse
  | .matchCases cases => EmptyFinallyCases cases
  | .tryBlock body orelse last handlers => EmptyFinallyList body ∧ EmptyFinallyList orelse ∧
    last = [] ∧ EmptyFinallyHandlers handlers
  | .withBlock _ body => EmptyFinallyList body
  | .whileLoop _ body orelse => EmptyFinallyList body ∧ EmptyFinallyList orelse
  | _ => True

def EmptyFinallyList : List (Statement X) → Prop
  | [] => True
  | statement :: statements => EmptyFinally statement ∧ EmptyFinallyList statements

def EmptyFinallyCases : List (MatchCase X) → Prop
  | [] => True
  | .mk _ _ body :: cases => EmptyFinallyList body ∧ EmptyFinallyCases cases

def EmptyFinallyHandlers : List (Handler X) → Prop
  | [] => True
  | .mk _ body :: handlers => EmptyFinallyList body ∧ EmptyFinallyHandlers handlers

end

section All

variable (normalizeAsserts : Bool)

mutual

theorem createStatement_created : ∀ (statement : Statement X), EmptyFinally statement →
    ∀ (jumps : Jumps) {p : ℕ} {builder : Builder X}, builder.WellFormed → p < builder.nodeCount →
      jumps.Within builder.nodeCount →
      CreatedNext (behavior Expression.isFalse normalizeAsserts statement) jumps builder p
        (createStatement normalizeAsserts statement jumps p builder)
  | .forLoop first body orelse, h, jumps, _, _, hwf, hp, hjumps => by
      exact forLoop_created hwf hp hjumps first (createStatements_created body h.1)
        (createStatements_created orelse h.2 jumps)
  | .ifThen test body orelse, h, jumps, _, _, hwf, hp, hjumps => by
      exact ifThen_created hwf hp hjumps test (createStatements_created body h.1 jumps)
        (createStatements_created orelse h.2 jumps)
  | .matchCases cases, h, jumps, _, _, hwf, hp, hjumps => by
      exact matchCases_created hwf hp hjumps (createCases_created cases h jumps)
  | .tryBlock body orelse last handlers, h, jumps, _, _, hwf, hp, hjumps => by
      obtain ⟨hbody, horelse, rfl, hhandlers⟩ := h
      exact tryBlock_created hwf hp hjumps (createStatements_created body hbody)
        (createStatements_created orelse horelse jumps)
        (createHandlers_created handlers hhandlers jumps)
  | .withBlock first body, h, jumps, _, _, hwf, hp, hjumps => by
      exact withBlock_created hwf hp hjumps first (createStatements_created body h jumps)
  | .whileLoop test body orelse, h, jumps, _, _, hwf, hp, hjumps => by
      exact whileLoop_created hwf hp hjumps test (createStatements_created body h.1)
        (createStatements_created orelse h.2 jumps)
  | .simple statement, _, jumps, _, _, hwf, hp, hjumps => by
      exact createSimple_created hwf hp hjumps (.simple statement) rfl
  | .assert test origin, _, jumps, _, _, hwf, hp, hjumps => by
      exact createSimple_created hwf hp hjumps (.assert test origin) rfl
  | .breakLoop, _, jumps, _, _, hwf, hp, hjumps => by
      exact createSimple_created hwf hp hjumps .breakLoop rfl
  | .continueLoop, _, jumps, _, _, hwf, hp, hjumps => by
      exact createSimple_created hwf hp hjumps .continueLoop rfl
  | .raise expression, _, jumps, _, _, hwf, hp, hjumps => by
      exact createSimple_created hwf hp hjumps (.raise expression) rfl
  | .returnValue expression, _, jumps, _, _, hwf, hp, hjumps => by
      exact createSimple_created hwf hp hjumps (.returnValue expression) rfl

theorem createStatements_created : ∀ (statements : List (Statement X)),
    EmptyFinallyList statements → ∀ (jumps : Jumps),
      Builds (behaviors Expression.isFalse normalizeAsserts statements) jumps
        (createStatements normalizeAsserts statements jumps)
  | [], _, jumps, p, builder, hwf, hp, _ => by
      exact Created.skip hwf hp
  | statement :: statements, h, jumps, p, builder, hwf, hp, hjumps => by
      exact andThen_created hwf (createStatement_created statement h.1 jumps hwf hp hjumps)
        fun n hn hwf' hcount =>
          createStatements_created statements h.2 jumps hwf' hn (hjumps.mono hcount)

theorem createCases_created : ∀ (cases : List (MatchCase X)), EmptyFinallyCases cases →
    ∀ (jumps : Jumps) {p q : ℕ} {builder : Builder X}, builder.WellFormed →
      p < builder.nodeCount → q < builder.nodeCount → jumps.Within builder.nodeCount →
      CreatedCases (caseBehaviors Expression.isFalse normalizeAsserts cases)
        (skipCases Expression.isFalse normalizeAsserts cases) jumps builder p q
        (createCases normalizeAsserts cases q jumps p builder)
  | [], _, jumps, p, q, builder, hwf, hp, _, _ => by
      exact createCases_nil hwf hp
  | .mk test refutable body :: cases, h, jumps, p, q, builder, hwf, hp, hq, hjumps => by
      exact createCases_cons hwf hp hq hjumps test refutable
        (createStatements_created body h.1 jumps)
        fun hwf' hp' hq' hjumps' => createCases_created cases h.2 jumps hwf' hp' hq' hjumps'

theorem createHandlers_created : ∀ (handlers : List (Handler X)), EmptyFinallyHandlers handlers →
    ∀ jumps : Jumps, BuildsHandlers (handlerBehaviors Expression.isFalse normalizeAsserts handlers)
      normalizeAsserts handlers jumps
  | [], _, jumps, _, _, builder, hwf, hdispatch, _, _, _ => by
      exact createHandlers_nil hwf hdispatch
  | .mk first body :: handlers, h, jumps, _, _, builder, hwf, hdispatch, hfinally, hjumps, hkind => by
      exact createHandlers_cons hwf hdispatch hfinally hjumps hkind (fun _ => by simp) first
        (createStatements_created body h.1 jumps)
        fun hwf' hdispatch' hfinally' hjumps' hkind' =>
          createHandlers_created handlers h.2 jumps hwf' hdispatch' hfinally' hjumps' hkind'

end

end All

/-! ## 9. A function body -/

theorem Builder.wellFormed_empty : (⟨.empty, 0⟩ : Builder X).WellFormed := by
  have hnone (id : ℕ) : (⟨.empty, 0⟩ : Builder X).node id = none := SortedMap.find?_empty id
  have hnever {id : ℕ} {node : CfgNode (Statement X)} {P : Prop}
      (h : (⟨.empty, 0⟩ : Builder X).node id = some node) : P := by
    rw [hnone] at h
    cases h
  refine ⟨⟨fun h => hnever h, fun h => hnever h, fun h => hnever h⟩, fun id => ?_⟩
  rw [hnone]
  simp

namespace Cfg

theorem scaffold_wellFormed : (scaffold : Builder X).WellFormed := by
  have hnodes := (((wellFormed_empty (X := X).emptyNode .entry).emptyNode .normal).emptyNode
    .error).emptyNode .final
  exact (hnodes.connect (show normalIndex < 4 by decide) (show exitIndex < 4 by decide)).connect
    (show errorIndex < 4 by decide) (show exitIndex < 4 by decide)

theorem initialJumps_within : initialJumps.Within (scaffold : Builder X).nodeCount :=
  ⟨show 1 < 4 by decide, show 1 < 4 by decide, show 2 < 4 by decide, show 1 < 4 by decide⟩

theorem kind?_scaffold :
    (scaffold : Builder X).kind? entryIndex = some .entry ∧
      (scaffold : Builder X).kind? normalIndex = some .normal ∧
      (scaffold : Builder X).kind? errorIndex = some .error := by
  unfold scaffold Builder.kind?
  simp only [node_connect, node_emptyNode, emptyNode_fst, nodeCount_emptyNode]
  exact ⟨rfl, rfl, rfl⟩

/-- The node with this id in the finished graph. -/
theorem node_create (normalizeAsserts : Bool) (body : List (Statement X)) (id : ℕ) :
    (create normalizeAsserts body).node id =
      ((build normalizeAsserts body).node id).map CfgNode.reverseStatements := by
  unfold create Cfg.node Builder.node
  rw [SortedMap.find?_filterMap]
  cases SortedMap.find? id (build normalizeAsserts body).graph <;> rfl

theorem blockStatements_reverseStatements {builder : Builder X} {id : ℕ}
    {node : CfgNode (Statement X)} (h : builder.node id = some node) :
    node.reverseStatements.blockStatements = builder.block id := by
  unfold Builder.block Builder.kind? CfgNode.reverseStatements CfgNode.blockStatements
  rw [h, Option.map_some]
  cases hkind : node.kind <;> simp [hkind]

/-- A run of the nodes is a path in the finished graph. -/
theorem path_of_run {normalizeAsserts : Bool} {body : List (Statement X)} {start finish : Position}
    {trace : List (Statement X)} (h : (build normalizeAsserts body).Run start trace finish)
    (hfinish : finish.2 = 0)
    (hempty : ((build normalizeAsserts body).block finish.1) = [])
    (hnode : ∃ node, (build normalizeAsserts body).node finish.1 = some node) :
    (create normalizeAsserts body).Path start.1
      (((build normalizeAsserts body).block start.1).take start.2 ++ trace) finish.1 := by
  have hfinished {id : ℕ} {node : CfgNode (Statement X)}
      (h : (build normalizeAsserts body).node id = some node) :
      (create normalizeAsserts body).node id = some node.reverseStatements := by
    rw [node_create, h]
    rfl
  induction h with
  | refl position =>
    obtain ⟨node, hnode⟩ := hnode
    have hpath := Path.last (hfinished hnode)
    rw [blockStatements_reverseStatements hnode, hempty] at hpath
    rw [hempty, List.take_nil, List.append_nil]
    exact hpath
  | @step id offset statement trace position hstatement _ ih =>
    have hpath := ih hfinish hempty hnode
    rwa [List.take_add_one, hstatement, Option.toList_some, List.append_assoc,
      List.singleton_append] at hpath
  | @edge id target trace position hedge _ ih =>
    obtain ⟨node, hsource, hmem⟩ := hedge
    have hmem' : target ∈ node.reverseStatements.successors := by
      unfold CfgNode.reverseStatements
      split <;> exact hmem
    have hpath := Path.next (hfinished hsource) hmem' (ih hfinish hempty hnode)
    rw [blockStatements_reverseStatements hsource, List.take_zero, List.nil_append] at hpath
    unfold Builder.last
    rwa [List.take_length]

/-- **Every execution of a function body is a path from the entry**, to the error node if an
    exception escapes and to the normal node otherwise. A loop does not branch on an assumption that
    is known to be false, and an assertion of `False` raises. -/
theorem create_path (normalizeAsserts : Bool) (body : List (Statement X))
    (h : EmptyFinallyList body) (trace : List (Statement X)) (flow : Flow)
    (hexecution : behaviors Expression.isFalse normalizeAsserts body trace flow) :
    (create normalizeAsserts body).Path entryIndex trace
      (if flow = .raise then errorIndex else normalIndex) := by
  have hwf := scaffold_wellFormed (X := X)
  have hlist := createStatements_created normalizeAsserts body h initialJumps hwf
    (show entryIndex < 4 by decide) initialJumps_within
  have hbuilt : Created (behaviors Expression.isFalse normalizeAsserts body) initialJumps scaffold
      entryIndex (build normalizeAsserts body) none _ :=
    Created.joined hlist hwf (lt_of_lt_of_le (show normalIndex < 4 by decide) hlist.count)
  have hentry : (scaffold : Builder X).last entryIndex = (entryIndex, 0) :=
    last_of_kind kind?_scaffold.1 fun _ => by simp
  have hrun := hbuilt.run (.refl _) hexecution
  rw [hentry] at hrun
  -- nothing was added to the nodes for the exits
  have hkind {id : ℕ} {kind : NodeKind (Statement X)} (hne : id ≠ entryIndex)
      (h : (scaffold : Builder X).kind? id = some kind) :
      (build normalizeAsserts body).kind? id = some kind :=
    kind?_of_extends hbuilt.keeps h (Or.inl fun heq => hne (Option.some.inj heq).symm)
  have hpath {id : ℕ} {kind : NodeKind (Statement X)} (hkind : (build normalizeAsserts body).kind? id
      = some kind) (hbare : Bare kind)
      (hrun : (build normalizeAsserts body).Run (entryIndex, 0) trace (id, 0)) :
      (create normalizeAsserts body).Path entryIndex trace id := by
    obtain ⟨node, hnode, -⟩ := Option.map_eq_some_iff.mp hkind
    have hempty : (build normalizeAsserts body).block id = [] := by
      unfold Builder.block
      rw [hkind]
      cases kind with
      | block statements => exact absurd rfl (hbare statements)
      | _ => rfl
    exact path_of_run hrun rfl hempty ⟨node, hnode⟩
  have hnormal := @hpath normalIndex .normal (hkind (by decide) kind?_scaffold.2.1) fun _ => by simp
  have herror := @hpath errorIndex .error (hkind (by decide) kind?_scaffold.2.2) fun _ => by simp
  cases flow with
  | next =>
    obtain ⟨position, hposition, hrun⟩ := hrun
    cases hposition
    exact hnormal hrun
  | breakLoop => exact hnormal hrun
  | continueLoop => exact hnormal hrun
  | raise => exact herror hrun
  | returnValue => exact hnormal hrun

/-- An exception that is caught. -/
theorem create_path_caught :
    (create true [.tryBlock [.raise 1] [] [] [.mk [2] [.simple 3]]]).Path entryIndex
      [.raise 1, .simple 2, .simple 3] normalIndex := by
  have hbody : (behaviors Expression.isFalse true [.raise 1]) [.raise 1] .raise :=
    Or.inr ⟨by decide, rfl, rfl⟩
  have hhandler : (handlerBehaviors Expression.isFalse true [.mk [2] [.simple 3]])
      [.simple 2, .simple 3] .next :=
    Or.inl (Or.inl ⟨[.simple 2], [.simple 3], rfl,
      Or.inl ⟨[.simple 2], [], rfl, ⟨rfl, rfl⟩, rfl, rfl⟩,
      Or.inl ⟨[.simple 3], [], rfl, ⟨rfl, rfl⟩, rfl, rfl⟩⟩)
  have htry : (behavior Expression.isFalse true
      (.tryBlock [.raise 1] [] [] [.mk [2] [.simple 3]])) [.raise 1, .simple 2, .simple 3] .next :=
    ⟨[.raise 1, .simple 2, .simple 3], [], .next, .next, rfl,
      Or.inr ⟨[.raise 1], [.simple 2, .simple 3], rfl, hbody, hhandler⟩, ⟨rfl, rfl⟩, rfl⟩
  exact create_path true [.tryBlock [.raise 1] [] [] [.mk [2] [.simple 3]]]
    ⟨⟨⟨trivial, trivial⟩, trivial, rfl, ⟨trivial, trivial⟩, trivial⟩, trivial⟩ _ .next
    (Or.inl ⟨_, [], rfl, htry, rfl, rfl⟩)

/-- With every branch taken to be possible this fails: the body of `while False` is not reached. -/
theorem create_path_constantTest :
    ¬ ∀ (normalizeAsserts : Bool) (body : List (Statement ℕ)) (trace : List (Statement ℕ))
      (flow : Flow), EmptyFinallyList body →
      behaviors (fun _ => false) normalizeAsserts body trace flow →
      (create normalizeAsserts body).Path entryIndex trace
        (if flow = .raise then errorIndex else normalIndex) := by
  intro h
  let test (branch : Bool) (expression : Expression ℕ) : Statement ℕ :=
    .assume (.whileLoop branch) expression
  have hround : Behavior.seq (taken (fun _ => false) false .whileLoop .constantFalse)
      (behaviors (fun _ => false) false [.simple 0])
      [test true .constantFalse, .simple 0] .next :=
    Or.inl ⟨[test true .constantFalse], [.simple 0], rfl, ⟨rfl, rfl, rfl⟩,
      Or.inl ⟨[.simple 0], [], rfl, ⟨rfl, rfl⟩, rfl, rfl⟩⟩
  have hleave : Behavior.seq (notTaken (fun _ => false) false .whileLoop .constantFalse)
      (behaviors (fun _ => false) false []) [test false (.not .constantFalse)] .next :=
    Or.inl ⟨[test false (.not .constantFalse)], [], rfl, ⟨rfl, rfl, rfl⟩, rfl, rfl⟩
  have hpath := h false [.whileLoop .constantFalse [.simple 0] []] _ .next
    ⟨⟨⟨trivial, trivial⟩, trivial⟩, trivial⟩
    (Or.inl ⟨_, [], rfl, .again hround (Or.inl rfl) (.leave hleave), rfl, rfl⟩)
  obtain ⟨id, node, hnode, hmem⟩ := hpath.mem
    (show Statement.simple 0 ∈ _ from List.mem_cons_of_mem _ List.mem_cons_self)
  let found : Statement ℕ → Bool
    | .simple 0 => true
    | _ => false
  have hnone : ∀ id ∈ (create false [.whileLoop .constantFalse [.simple 0] []]).keys,
      ∀ node ∈ (create false [.whileLoop (X := ℕ) .constantFalse [.simple 0] []]).node id,
        node.blockStatements.any found = false := by
    decide +kernel
  have hany := hnone id (SortedMap.mem_of_find? hnode) node hnode
  rw [List.any_eq_false] at hany
  exact hany _ hmem rfl

end Cfg

end Pysa
