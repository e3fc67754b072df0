/-
  Subject: WHAT ONE STEP OF THE CONSTRUCTION DOES to the nodes.

  * `Builder.WellFormed` -- ids are counted, and the two directions of an edge agree;
  * `Extends` -- nodes keep their edges, and all but one open node keep their statements;
  * `Run` -- a run through a graph under construction, statement by statement.
-/
import Pysa.Analysis.CfgCreate

namespace Pysa

variable {X : Type}

namespace Builder

/-! ## 1. Nodes after a step -/

theorem node_emptyNode (kind : NodeKind (Statement X)) (builder : Builder X) (x : ℕ) :
    (builder.emptyNode kind).2.node x =
      if x = builder.nodeCount then some ⟨x, kind, .empty, .empty⟩ else builder.node x := by
  show (builder.graph.add _ _).find? x = _
  rw [SortedMap.find?_add]
  by_cases h : x = builder.nodeCount
  · rw [if_pos h, if_pos h, h]
  · rw [if_neg h, if_neg h]
    rfl

@[simp] theorem emptyNode_fst (kind : NodeKind (Statement X)) (builder : Builder X) :
    (builder.emptyNode kind).1 = builder.nodeCount := rfl

@[simp] theorem nodeCount_emptyNode (kind : NodeKind (Statement X)) (builder : Builder X) :
    (builder.emptyNode kind).2.nodeCount = builder.nodeCount + 1 := rfl

theorem node_modify (id : ℕ) (f : CfgNode (Statement X) → CfgNode (Statement X))
    (builder : Builder X) (x : ℕ) :
    (builder.modify id f).node x = if x = id then (builder.node x).map f else builder.node x := by
  show (builder.graph.update id _).find? x = _
  rw [SortedMap.find?_update]
  by_cases h : x = id
  · rw [if_pos h, if_pos h, h]
    rfl
  · rw [if_neg h, if_neg h]
    rfl

@[simp] theorem nodeCount_modify (id : ℕ) (f : CfgNode (Statement X) → CfgNode (Statement X))
    (builder : Builder X) : (builder.modify id f).nodeCount = builder.nodeCount := rfl

@[simp] theorem nodeCount_connect (p q : ℕ) (builder : Builder X) :
    (builder.connect p q).nodeCount = builder.nodeCount := rfl

@[simp] theorem nodeCount_connectOption (p : Option ℕ) (q : ℕ) (builder : Builder X) :
    (builder.connectOption p q).nodeCount = builder.nodeCount := by
  cases p <;> rfl

/-- What an edge from `p` to `q` makes of the node `x`. -/
def connected (p q x : ℕ) (node : CfgNode (Statement X)) : CfgNode (Statement X) :=
  { node with
    successors := if x = p then node.successors.add q else node.successors
    predecessors := if x = q then node.predecessors.add p else node.predecessors }

theorem node_connect (p q : ℕ) (builder : Builder X) (x : ℕ) :
    (builder.connect p q).node x = (builder.node x).map (connected p q x) := by
  unfold connect
  rw [node_modify, node_modify]
  cases builder.node x with
  | none => split <;> split <;> rfl
  | some node =>
    unfold connected
    by_cases hp : x = p
    · by_cases hq : x = q
      · simp only [if_pos hp, if_pos hq, Option.map_some]
      · simp only [if_pos hp, if_neg hq, Option.map_some]
    · by_cases hq : x = q
      · simp only [if_neg hp, if_pos hq, Option.map_some]
      · simp only [if_neg hp, if_neg hq, Option.map_some]

/-! ## 2. Well-formed builders -/

structure WellFormed (builder : Builder X) : Prop where
  cfg : builder.graph.WellFormed
  bound : ∀ id, (builder.node id).isSome ↔ id < builder.nodeCount

namespace WellFormed

variable {builder : Builder X}

theorem exists_node (h : builder.WellFormed) {id : ℕ} (hid : id < builder.nodeCount) :
    ∃ node, builder.node id = some node :=
  Option.isSome_iff_exists.mp ((h.bound id).mpr hid)

theorem lt_of_node (h : builder.WellFormed) {id : ℕ} {node : CfgNode (Statement X)}
    (hnode : builder.node id = some node) : id < builder.nodeCount :=
  (h.bound id).mp (Option.isSome_iff_exists.mpr ⟨node, hnode⟩)

theorem emptyNode (h : builder.WellFormed) (kind : NodeKind (Statement X)) :
    (builder.emptyNode kind).2.WellFormed := by
  have hold {x : ℕ} {node : CfgNode (Statement X)}
      (hnode : (builder.emptyNode kind).2.node x = some node) :
      node = ⟨x, kind, .empty, .empty⟩ ∨ builder.node x = some node := by
    rw [node_emptyNode] at hnode
    split at hnode
    case isTrue => exact Or.inl (Option.some.inj hnode).symm
    case isFalse => exact Or.inr hnode
  have hkeep {x : ℕ} {node : CfgNode (Statement X)} (hnode : builder.node x = some node) :
      (builder.emptyNode kind).2.node x = some node := by
    rw [node_emptyNode, if_neg (h.lt_of_node hnode).ne, hnode]
  constructor
  case cfg =>
    constructor
    · intro id node hnode
      rcases hold hnode with rfl | hnode
      · rfl
      · exact h.cfg.id hnode
    · intro id node target hnode hmem
      rcases hold hnode with rfl | hnode
      · exact absurd hmem (SortedSet.notMem_empty _)
      · obtain ⟨next, hnext, hmem⟩ := h.cfg.target hnode hmem
        exact ⟨next, hkeep hnext, hmem⟩
    · intro id node source hnode hmem
      rcases hold hnode with rfl | hnode
      · exact absurd hmem (SortedSet.notMem_empty _)
      · obtain ⟨previous, hprevious, hmem⟩ := h.cfg.source hnode hmem
        exact ⟨previous, hkeep hprevious, hmem⟩
  case bound =>
    intro id
    rw [node_emptyNode, nodeCount_emptyNode]
    split
    case isTrue heq => simp [heq]
    case isFalse hne =>
      rw [h.bound]
      omega

theorem connect (h : builder.WellFormed) {p q : ℕ} (hp : p < builder.nodeCount)
    (hq : q < builder.nodeCount) : (builder.connect p q).WellFormed := by
  have hold {x : ℕ} {node : CfgNode (Statement X)} (hnode : (builder.connect p q).node x = some node) :
      ∃ before, builder.node x = some before ∧ connected p q x before = node := by
    rw [node_connect] at hnode
    exact Option.map_eq_some_iff.mp hnode
  have hkeep {x : ℕ} {node : CfgNode (Statement X)} (hnode : builder.node x = some node) :
      (builder.connect p q).node x = some (connected p q x node) := by
    rw [node_connect, hnode]
    rfl
  constructor
  case cfg =>
    constructor
    · intro id node hnode
      obtain ⟨before, hbefore, rfl⟩ := hold hnode
      show before.id = id
      exact h.cfg.id hbefore
    · intro id node target hnode hmem
      obtain ⟨before, hbefore, rfl⟩ := hold hnode
      -- the target of the new edge, or of an old one
      have htarget : id = p ∧ target = q ∨ target ∈ before.successors := by
        unfold connected at hmem
        dsimp only at hmem
        split at hmem
        case isTrue heq => exact (SortedSet.mem_add.mp hmem).imp_left fun htarget => ⟨heq, htarget⟩
        case isFalse => exact Or.inr hmem
      rcases htarget with ⟨rfl, rfl⟩ | htarget
      · obtain ⟨next, hnext⟩ := h.exists_node hq
        refine ⟨_, hkeep hnext, ?_⟩
        unfold connected
        rw [if_pos rfl]
        exact SortedSet.mem_add.mpr (Or.inl rfl)
      · obtain ⟨next, hnext, hmem⟩ := h.cfg.target hbefore htarget
        refine ⟨_, hkeep hnext, ?_⟩
        unfold connected
        dsimp only
        split
        case isTrue => exact SortedSet.mem_add.mpr (Or.inr hmem)
        case isFalse => exact hmem
    · intro id node source hnode hmem
      obtain ⟨before, hbefore, rfl⟩ := hold hnode
      have hsource : id = q ∧ source = p ∨ source ∈ before.predecessors := by
        unfold connected at hmem
        dsimp only at hmem
        split at hmem
        case isTrue heq => exact (SortedSet.mem_add.mp hmem).imp_left fun hsource => ⟨heq, hsource⟩
        case isFalse => exact Or.inr hmem
      rcases hsource with ⟨rfl, rfl⟩ | hsource
      · obtain ⟨previous, hprevious⟩ := h.exists_node hp
        refine ⟨_, hkeep hprevious, ?_⟩
        unfold connected
        rw [if_pos rfl]
        exact SortedSet.mem_add.mpr (Or.inl rfl)
      · obtain ⟨previous, hprevious, hmem⟩ := h.cfg.source hbefore hsource
        refine ⟨_, hkeep hprevious, ?_⟩
        unfold connected
        dsimp only
        split
        case isTrue => exact SortedSet.mem_add.mpr (Or.inr hmem)
        case isFalse => exact hmem
  case bound =>
    intro id
    rw [node_connect, Option.isSome_map, h.bound]
    rfl

theorem connectOption (h : builder.WellFormed) {p : Option ℕ} {q : ℕ}
    (hp : ∀ n, p = some n → n < builder.nodeCount) (hq : q < builder.nodeCount) :
    (builder.connectOption p q).WellFormed := by
  cases p with
  | none => exact h
  | some p => exact h.connect (hp p rfl) hq

/-- Statements have no part in it. -/
theorem setKind (h : builder.WellFormed) (id : ℕ) (kind : NodeKind (Statement X)) :
    (builder.modify id fun node => { node with kind := kind }).WellFormed := by
  have hmap (x : ℕ) : (builder.modify id fun node => { node with kind := kind }).node x =
      (builder.node x).map fun node => if x = id then { node with kind := kind } else node := by
    rw [node_modify]
    cases builder.node x <;> split <;> rfl
  have hold {x : ℕ} {node : CfgNode (Statement X)}
      (hnode : (builder.modify id fun node => { node with kind := kind }).node x = some node) :
      ∃ before, builder.node x = some before ∧ node.id = before.id ∧
        node.successors = before.successors ∧ node.predecessors = before.predecessors := by
    rw [hmap] at hnode
    obtain ⟨before, hbefore, rfl⟩ := Option.map_eq_some_iff.mp hnode
    refine ⟨before, hbefore, ?_⟩
    split <;> exact ⟨rfl, rfl, rfl⟩
  have hkeep {x : ℕ} {node : CfgNode (Statement X)} (hnode : builder.node x = some node) :
      ∃ after, (builder.modify id fun node => { node with kind := kind }).node x = some after ∧
        after.successors = node.successors ∧ after.predecessors = node.predecessors := by
    rw [hmap, hnode]
    refine ⟨_, rfl, ?_⟩
    split <;> exact ⟨rfl, rfl⟩
  constructor
  case cfg =>
    constructor
    · intro x node hnode
      obtain ⟨before, hbefore, hid, -, -⟩ := hold hnode
      exact hid.trans (h.cfg.id hbefore)
    · intro x node target hnode hmem
      obtain ⟨before, hbefore, -, hsuccessors, -⟩ := hold hnode
      obtain ⟨next, hnext, hmem⟩ := h.cfg.target hbefore (hsuccessors ▸ hmem)
      obtain ⟨after, hafter, -, hpredecessors⟩ := hkeep hnext
      exact ⟨after, hafter, hpredecessors ▸ hmem⟩
    · intro x node source hnode hmem
      obtain ⟨before, hbefore, -, -, hpredecessors⟩ := hold hnode
      obtain ⟨previous, hprevious, hmem⟩ := h.cfg.source hbefore (hpredecessors ▸ hmem)
      obtain ⟨after, hafter, hsuccessors, -⟩ := hkeep hprevious
      exact ⟨after, hafter, hsuccessors ▸ hmem⟩
  case bound =>
    intro x
    rw [hmap, Option.isSome_map, h.bound]
    rfl

end WellFormed

/-- A node that has predecessors has an edge to it. -/
theorem WellFormed.hasPredecessors {builder : Builder X} (h : builder.WellFormed) {source id : ℕ}
    {node : CfgNode (Statement X)} (hnode : builder.node source = some node)
    (hmem : id ∈ node.successors) : builder.hasPredecessors id = true := by
  obtain ⟨next, hnext, hmem⟩ := h.cfg.target hnode hmem
  unfold Builder.hasPredecessors
  rw [show builder.node id = some next from hnext]
  dsimp only
  rw [← SortedSet.mem_elements] at hmem
  cases heq : next.predecessors.elements with
  | nil =>
    rw [heq] at hmem
    exact absurd hmem List.not_mem_nil
  | cons => rfl

/-! ## 3. Extension -/

/-- A block with more statements. They are in reverse here. -/
def Grown (before after : NodeKind (Statement X)) : Prop :=
  ∃ statements new, before = .block statements ∧ after = .block (new ++ statements)

/-- Nodes in `region` are still there with their edges, and all but the node `opened` with their
    statements. -/
structure Extends (region : ℕ → Prop) (opened : Option ℕ) (before after : Builder X) : Prop where
  node : ∀ {x node}, region x → before.node x = some node → ∃ node', after.node x = some node' ∧
    (∀ y ∈ node.successors, y ∈ node'.successors) ∧
    (node'.kind = node.kind ∨ opened = some x ∧ Grown node.kind node'.kind)

/-- The nodes that a step behind `p` may change: `p` itself, and those from `low` on. -/
def Region (p low : ℕ) (x : ℕ) : Prop := x = p ∨ low ≤ x

abbrev Everywhere : ℕ → Prop := fun _ => True

namespace Extends

variable {region region' : ℕ → Prop} {opened opened' : Option ℕ} {before after last : Builder X}

theorem refl (builder : Builder X) : Extends region opened builder builder :=
  ⟨fun _ hnode => ⟨_, hnode, fun _ hy => hy, Or.inl rfl⟩⟩

theorem mono (h : Extends region opened before after) (hregion : ∀ x, region' x → region x)
    (hopened : ∀ x, region' x → opened = some x → opened' = some x) :
    Extends region' opened' before after := by
  refine ⟨fun {x node} hx hnode => ?_⟩
  obtain ⟨node', hnode', hsuccessors, hkind⟩ := h.node (hregion x hx) hnode
  exact ⟨node', hnode', hsuccessors, hkind.imp_right fun hgrown => ⟨hopened x hx hgrown.1, hgrown.2⟩⟩

theorem trans (h : Extends region opened before after) (h' : Extends region opened' after last)
    (hopened : ∀ x, region x → x < before.nodeCount → opened' = some x → opened = some x)
    (hwf : before.WellFormed) : Extends region opened before last := by
  refine ⟨fun {x node} hx hnode => ?_⟩
  obtain ⟨node', hnode', hsuccessors, hkind⟩ := h.node hx hnode
  obtain ⟨node'', hnode'', hsuccessors', hkind'⟩ := h'.node hx hnode'
  refine ⟨node'', hnode'', fun y hy => hsuccessors' y (hsuccessors y hy), ?_⟩
  rcases hkind' with hkind' | ⟨hlast, statements', new', hstatements', hnew'⟩
  · rw [hkind']
    exact hkind
  · refine Or.inr ⟨hopened x hx (hwf.lt_of_node hnode) hlast, ?_⟩
    rcases hkind with hkind | ⟨-, statements, new, hstatements, hnew⟩
    · exact ⟨statements', new', by rw [← hkind, hstatements'], hnew'⟩
    · rw [hnew] at hstatements'
      cases hstatements'
      exact ⟨statements, new' ++ new, hstatements, by rw [hnew', List.append_assoc]⟩

/-- The open node is no block, so that nothing was added to it. -/
theorem close (h : Extends region opened before after)
    (hblock : ∀ x node statements, opened = some x → before.node x = some node →
      node.kind ≠ .block statements) : Extends region none before after := by
  refine ⟨fun {x node} hx hnode => ?_⟩
  obtain ⟨node', hnode', hsuccessors, hkind⟩ := h.node hx hnode
  refine ⟨node', hnode', hsuccessors, Or.inl ?_⟩
  rcases hkind with hkind | ⟨hopen, statements, _, hstatements, _⟩
  · exact hkind
  · exact absurd hstatements (hblock x node statements hopen hnode)

theorem emptyNode (hwf : before.WellFormed) (kind : NodeKind (Statement X)) :
    Extends region opened before (before.emptyNode kind).2 := by
  refine ⟨fun {x node} _ hnode => ?_⟩
  refine ⟨node, ?_, fun _ hy => hy, Or.inl rfl⟩
  rw [node_emptyNode, if_neg (hwf.lt_of_node hnode).ne, hnode]

theorem connect (p q : ℕ) : Extends region opened before (before.connect p q) := by
  refine ⟨fun {x node} _ hnode => ?_⟩
  refine ⟨connected p q x node, by rw [node_connect, hnode]; rfl, fun y hy => ?_, Or.inl rfl⟩
  unfold connected
  dsimp only
  split
  case isTrue => exact SortedSet.mem_add.mpr (Or.inr hy)
  case isFalse => exact hy

theorem connectOption (p : Option ℕ) (q : ℕ) :
    Extends region opened before (before.connectOption p q) := by
  cases p with
  | none => exact refl before
  | some p => exact connect p q

theorem thenConnectOption (h : Extends region opened before after) (hwf : before.WellFormed)
    (p : Option ℕ) (q : ℕ) : Extends region opened before (after.connectOption p q) := by
  have hconnect : Extends region none after (after.connectOption p q) := connectOption p q
  exact h.trans hconnect (fun _ _ _ hx => by cases hx) hwf

end Extends

/-! ## 4. Runs -/

/-- The statements of a block, in order. -/
def block (builder : Builder X) (id : ℕ) : List (Statement X) :=
  match builder.kind? id with
  | some (.block statements) => statements.reverse
  | _ => []

def Edge (builder : Builder X) (source target : ℕ) : Prop :=
  ∃ node, builder.node source = some node ∧ target ∈ node.successors

/-- A node, and how many of its statements were executed. -/
abbrev Position := ℕ × ℕ

/-- The end of a node, as far as it was built. -/
def last (builder : Builder X) (id : ℕ) : Position := (id, (builder.block id).length)

/-- A run from one position to another, with the statements that it executes. -/
inductive Run (builder : Builder X) : Position → List (Statement X) → Position → Prop where
  | refl (position : Position) : Run builder position [] position
  | step {id offset statement trace position} : (builder.block id)[offset]? = some statement →
      Run builder (id, offset + 1) trace position →
      Run builder (id, offset) (statement :: trace) position
  | edge {id target trace position} : builder.Edge id target →
      Run builder (target, 0) trace position →
      Run builder (builder.last id) trace position

namespace Run

variable {builder : Builder X} {start middle finish : Position}
  {trace trace' : List (Statement X)}

theorem trans (h : Run builder start trace middle) (h' : Run builder middle trace' finish) :
    Run builder start (trace ++ trace') finish := by
  induction h with
  | refl => exact h'
  | step hstatement _ ih => exact .step hstatement (ih h')
  | edge hedge _ ih => exact .edge hedge (ih h')

theorem single {id offset : ℕ} {statement : Statement X}
    (h : (builder.block id)[offset]? = some statement) :
    Run builder (id, offset) [statement] (id, offset + 1) :=
  .step h (.refl _)

theorem along {id target : ℕ} (h : builder.Edge id target) :
    Run builder (builder.last id) [] (target, 0) :=
  .edge h (.refl _)

end Run

/-! ## 5. What an extension keeps -/

namespace Extends

variable {region : ℕ → Prop} {opened : Option ℕ} {before after : Builder X}

theorem edge (h : Extends region opened before after) {source target : ℕ} (hregion : region source)
    (hedge : before.Edge source target) : after.Edge source target := by
  obtain ⟨node, hnode, hmem⟩ := hedge
  obtain ⟨node', hnode', hsuccessors, -⟩ := h.node hregion hnode
  exact ⟨node', hnode', hsuccessors target hmem⟩

theorem block_eq (h : Extends region opened before after) {x : ℕ} (hregion : region x)
    (hopened : opened ≠ some x) {node : CfgNode (Statement X)} (hnode : before.node x = some node) :
    after.block x = before.block x := by
  obtain ⟨node', hnode', -, hkind⟩ := h.node hregion hnode
  unfold Builder.block Builder.kind?
  rw [hnode, hnode', Option.map_some, Option.map_some,
    hkind.resolve_right fun hgrown => hopened hgrown.1]

theorem last_eq (h : Extends region opened before after) {x : ℕ} (hregion : region x)
    (hopened : opened ≠ some x) {node : CfgNode (Statement X)} (hnode : before.node x = some node) :
    after.last x = before.last x := by
  unfold Builder.last
  rw [h.block_eq hregion hopened hnode]

/-- The statements of a block stay where they are. -/
theorem getElem?_block (h : Extends region opened before after) {x offset : ℕ} (hregion : region x)
    {statement : Statement X} (hstatement : (before.block x)[offset]? = some statement) :
    (after.block x)[offset]? = some statement := by
  cases hnode : before.node x with
  | none =>
    unfold Builder.block Builder.kind? at hstatement
    rw [hnode] at hstatement
    cases hstatement
  | some node =>
    obtain ⟨node', hnode', -, hkind⟩ := h.node hregion hnode
    unfold Builder.block Builder.kind? at hstatement ⊢
    rw [hnode, Option.map_some] at hstatement
    rw [hnode', Option.map_some]
    rcases hkind with hkind | ⟨-, statements, new, hbefore, hafter⟩
    · rwa [hkind]
    · rw [hbefore] at hstatement
      rw [hafter]
      dsimp only at hstatement ⊢
      rw [List.reverse_append]
      exact (List.getElem?_append_left (List.getElem?_eq_some_iff.mp hstatement).1).trans
        hstatement

end Extends

end Builder

end Pysa
