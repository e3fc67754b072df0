/-
  Subject: AN UPDATE LEAVES ONLY VALID VALUES.

  * `Updates` -- what the update of one layer does: the other values stay, the new ones are valid,
    and **what has read a value that is lost or changed is triggered**;
  * `UpTo` -- the invariant of the update of all layers: each cached value is valid, or its key is
    triggered and in a layer to come;
  * `upTo_updateLayers` -- **after the update of all layers each cached value is valid**.
-/
import Mathlib.Data.List.Dedup
import Pysa.Environment.LookUp

namespace Pysa.Incremental.Environment

variable {Key V S : Type} [DecidableEq Key] {stack : Stack Key V} {up : Upstream Key V S}

variable (laws : up.Laws stack)

/-! ## 1. The update of one layer -/

/-- Production of the values of some keys, one after the other. -/
theorem foldl_produce_spec {layer : ℕ} (keys : List Key) {e : Environment Key V S}
    (hkeys : ∀ key ∈ keys, stack.layer key = layer ∧ up.owns e.upstream key = true ∧
      e.dependencies.Registered stack.encoding key) :
    Extends laws (layer + 1) e (keys.foldl (fun e key =>
        (e.produceValue stack up key).2.add key (e.produceValue stack up key).1) e) ∧
      SameProcess e (keys.foldl (fun e key =>
        (e.produceValue stack up key).2.add key (e.produceValue stack up key).1) e) ∧
      ∀ key ∈ keys, ((keys.foldl (fun e key =>
        (e.produceValue stack up key).2.add key (e.produceValue stack up key).1) e).table
          key).isSome := by
  induction keys generalizing e with
  | nil => exact ⟨.refl e, rfl, fun _ h => absurd h List.not_mem_nil⟩
  | cons key rest ih =>
    obtain ⟨rfl, howns, hregistered⟩ := hkeys key List.mem_cons_self
    obtain ⟨hextends, hprocess, hvalid⟩ := produceValue_spec laws e hregistered
    have hadd : Extends laws (stack.layer key + 1) (e.produceValue stack up key).2
        ((e.produceValue stack up key).2.add key (e.produceValue stack up key).1) := by
      cases hentry : (e.produceValue stack up key).2.table key with
      | none => exact extends_add ((congrFun hextends.owns key).trans howns) hentry hvalid
      | some value =>
        rw [show (e.produceValue stack up key).2.add key (e.produceValue stack up key).1 =
          (e.produceValue stack up key).2 by unfold add; rw [hentry]]
        exact .refl _
    have hnext := (hextends.mono (Nat.le_succ _)).trans hadd
    have hsame : SameProcess e
        ((e.produceValue stack up key).2.add key (e.produceValue stack up key).1) := by
      unfold SameProcess
      rw [add_dependencies]
      exact hprocess
    obtain ⟨hrest, hrestProcess, hall⟩ := ih fun key' hkey' => by
      obtain ⟨hlayer, howns', hregistered'⟩ := hkeys key' (List.mem_cons_of_mem _ hkey')
      exact ⟨hlayer, (congrFun hnext.owns key').trans howns',
        hnext.grows.registered key' hregistered'⟩
    refine ⟨hnext.trans hrest, hrestProcess.trans hsame, fun key' hkey' => ?_⟩
    rcases List.mem_cons.mp hkey' with rfl | hkey'
    · obtain ⟨value, hvalue⟩ := Option.isSome_iff_exists.mp (add_table key' _ _).1
      exact Option.isSome_iff_exists.mpr ⟨value, hrest.table key' value hvalue⟩
    · exact hall key' hkey'

variable (stack) in
omit [DecidableEq Key] in
/-- A worker starts with an empty list, beside what the master has registered. -/
theorem grows_startWorker {d : Dependencies Key} (hmaster : d.worker = none) :
    d.Grows stack.encoding { d with worker := some [] } := by
  refine ⟨List.Subset.refl _, fun dependency h => ?_, id⟩
  rcases h with h | ⟨keys, hkeys, -⟩
  · exact Or.inl h
  · cases hmaster.symm.trans hkeys

/-- Work in a worker, merged by the master, extends the environment as work in the master does. -/
theorem extends_worker {bound : ℕ} {e worked : Environment Key V S}
    (hmaster : e.dependencies.worker = none)
    (h : Extends laws bound
      { e with dependencies := { e.dependencies with worker := some [] } } worked) :
    Extends laws bound e
      { worked with dependencies := worked.dependencies.merge stack.encoding } := by
  have hstart : Extends laws bound e
      { e with dependencies := { e.dependencies with worker := some [] } } :=
    extends_of_table_eq rfl rfl rfl (fun _ => id) (grows_startWorker stack hmaster)
  have hmerge : Extends laws bound worked
      { worked with dependencies := worked.dependencies.merge stack.encoding } :=
    extends_of_table_eq rfl rfl rfl (fun _ => id) (Dependencies.merge_grows _ _).1
  exact (hstart.trans h).trans hmerge

theorem collectedMapReduce_spec {bound : ℕ} {e : Environment Key V S}
    (hmaster : e.dependencies.worker = none) (parallel : Bool)
    (f : Environment Key V S → Environment Key V S)
    (hf : ∀ start : Environment Key V S, start.table = e.table → start.upstream = e.upstream →
      e.dependencies.Grows stack.encoding start.dependencies →
      Extends laws bound start (f start) ∧ SameProcess start (f start)) :
    Extends laws bound e (e.collectedMapReduce stack parallel f) ∧
      (e.collectedMapReduce stack parallel f).dependencies.worker = none ∧
      ∃ start : Environment Key V S, start.table = e.table ∧ start.upstream = e.upstream ∧
        e.dependencies.Grows stack.encoding start.dependencies ∧
        (e.collectedMapReduce stack parallel f).table = (f start).table := by
  unfold collectedMapReduce
  cases parallel with
  | false =>
    obtain ⟨hextends, hprocess⟩ := hf e rfl rfl (.refl _)
    refine ⟨hextends, ?_, e, rfl, rfl, .refl _, rfl⟩
    rw [if_neg Bool.false_ne_true, ← Option.isNone_iff_eq_none, ← Option.not_isSome]
    rw [hprocess, hmaster]
    rfl
  | true =>
    rw [if_pos rfl]
    have hstart := grows_startWorker stack hmaster
    have hworked := (hf { e with dependencies := { e.dependencies with worker := some [] } }
      rfl rfl hstart).1
    exact ⟨extends_worker laws hmaster hworked, (Dependencies.merge_grows _ _).2,
      { e with dependencies := { e.dependencies with worker := some [] } }, rfl, rfl, hstart, rfl⟩

variable [DecidableEq V]

/-- What the update of one layer does. -/
structure Updates (layer : ℕ) (triggers : List Key) (e : Environment Key V S)
    (result : List Key × Environment Key V S) : Prop where
  upstream : laws.peek result.2.upstream = laws.peek e.upstream
  owns : up.owns result.2.upstream = up.owns e.upstream
  known : ∀ key, laws.known e.upstream key → laws.known result.2.upstream key
  grows : e.dependencies.Grows stack.encoding result.2.dependencies
  master : result.2.dependencies.worker = none
  kept : ∀ key value, e.table key = some value → key ∉ triggers →
    result.2.table key = some value
  fresh : ∀ key value, result.2.table key = some value → e.table key = none ∨ key ∈ triggers →
    stack.layer key ≤ layer ∧ up.owns e.upstream key = true ∧ result.2.Valid laws key value
  registered : ∀ dependency ∈ result.1,
    result.2.dependencies.Registered stack.encoding dependency
  triggered : ∀ key ∈ triggers,
    (∃ value, e.table key = some value ∧ result.2.table key = some value) ∨
      ∀ dependency, e.dependencies.Depends stack.encoding key dependency → dependency ∈ result.1

theorem updateOnlyThisEnvironment_spec {parallel : Bool} {layer : ℕ} {triggers : List Key}
    {e : Environment Key V S} (hmaster : e.dependencies.worker = none)
    (hcoded : e.dependencies.Coded stack.encoding)
    (htriggers : ∀ key ∈ triggers, stack.layer key = layer ∧ up.owns e.upstream key = true ∧
      e.dependencies.Registered stack.encoding key) :
    Updates laws layer triggers e
      (e.updateOnlyThisEnvironment stack up parallel layer triggers) := by
  have hkept : ∀ key value, e.table key = some value → key ∉ triggers →
      (e.remove triggers).table key = some value := by
    intro key value hvalue hnotin
    unfold remove
    dsimp only
    rw [if_neg hnotin]
    exact hvalue
  have hnone : ∀ key, e.table key = none ∨ key ∈ triggers →
      (e.remove triggers).table key = none := by
    intro key h
    unfold remove
    dsimp only
    split
    · rfl
    · rename_i hnotin
      exact h.resolve_right hnotin
  unfold updateOnlyThisEnvironment
  dsimp only
  split
  · refine ⟨rfl, rfl, fun _ => id, .refl _, hmaster, hkept, fun key value hsome h => ?_, ?_, ?_⟩
    · cases (hnone key h).symm.trans hsome
    · intro dependency hdependency
      obtain ⟨key, -, hmem⟩ := List.mem_flatMap.mp hdependency
      exact Dependencies.registered_of_mem_getDependents hcoded hmem
    · intro key hkey
      right
      intro dependency hdepends
      exact List.mem_flatMap.mpr ⟨key, hkey, Dependencies.mem_getDependents hmaster hdepends⟩
  · have hproduce : ∀ start : Environment Key V S, start.table = (e.remove triggers).table →
        start.upstream = (e.remove triggers).upstream →
        (e.remove triggers).dependencies.Grows stack.encoding start.dependencies →
        ∀ key ∈ triggers, stack.layer key = layer ∧ up.owns start.upstream key = true ∧
          start.dependencies.Registered stack.encoding key := by
      intro start _ hupstream hgrows key hkey
      obtain ⟨hlayer, howns, hregistered⟩ := htriggers key hkey
      refine ⟨hlayer, ?_, hgrows.registered key hregistered⟩
      rw [hupstream]
      exact howns
    have hremoved : (e.remove triggers).dependencies.worker = none := hmaster
    obtain ⟨hextends, hworker, start, htable, hupstream, hgrows, hsame⟩ :=
      collectedMapReduce_spec laws hremoved parallel
        (fun e => triggers.foldl (fun e key =>
          (e.produceValue stack up key).2.add key (e.produceValue stack up key).1) e)
        fun start htable hupstream hgrows =>
          ⟨(foldl_produce_spec laws triggers (hproduce start htable hupstream hgrows)).1,
            (foldl_produce_spec laws triggers (hproduce start htable hupstream hgrows)).2.1⟩
    refine ⟨hextends.upstream, hextends.owns, hextends.known, hextends.grows, hworker,
      fun key value hvalue hnotin => hextends.table key value (hkept key value hvalue hnotin),
      fun key value hsome h => ?_, ?_, ?_⟩
    · obtain ⟨hlayer, howns, hvalid⟩ := hextends.fresh key value (hnone key h) hsome
      exact ⟨Nat.lt_succ_iff.mp hlayer, howns, hvalid⟩
    · intro dependency hdependency
      obtain ⟨key, -, hmem⟩ := List.mem_flatMap.mp hdependency
      split at hmem
      · cases hmem
      · exact Dependencies.registered_of_mem_getDependents (hextends.grows.coded hcoded) hmem
    · intro key hkey
      obtain ⟨-, -, hall⟩ := foldl_produce_spec laws triggers
        (hproduce start htable hupstream hgrows)
      have hsome := hall key hkey
      rw [← hsame] at hsome
      obtain ⟨value, hvalue⟩ := Option.isSome_iff_exists.mp hsome
      by_cases heq : e.table key = ((e.remove triggers).collectedMapReduce stack parallel fun e =>
          triggers.foldl (fun e key =>
            (e.produceValue stack up key).2.add key (e.produceValue stack up key).1) e).table key
      · exact Or.inl ⟨value, heq.trans hvalue, hvalue⟩
      · right
        intro dependency hdepends
        refine List.mem_flatMap.mpr ⟨key, hkey, ?_⟩
        rw [if_neg heq]
        exact Dependencies.mem_getDependents hworker (hdepends.grows hextends.grows)

/-! ## 2. The update of all layers -/

/-- The invariant after the update of the layers up to `layer`. -/
structure UpTo (layer : ℕ) (triggered : List Key) (e : Environment Key V S) : Prop where
  master : e.dependencies.worker = none
  coded : e.dependencies.Coded stack.encoding
  registered : ∀ dependency ∈ triggered, e.dependencies.Registered stack.encoding dependency
  owned : ∀ key value, e.table key = some value → up.owns e.upstream key = true
  valid : ∀ key value, e.table key = some value →
    e.Valid laws key value ∨ key ∈ triggered ∧ layer < stack.layer key

variable {laws} {layer : ℕ} {triggered : List Key} {e : Environment Key V S}

omit [DecidableEq Key] [DecidableEq V] in
/-- A valid value stays valid while the keys that it asks for keep their values. -/
theorem valid_of_asked {e' : Environment Key V S} {key : Key} {value : V}
    (hvalid : e.Valid laws key value) (hgrows : e.dependencies.Grows stack.encoding e'.dependencies)
    (hkeeps : ∀ upstream ∈ e.asked laws key, e'.Known laws upstream.1 ∧
      e'.peek laws upstream.1 = e.peek laws upstream.1) :
    e'.Valid laws key value := by
  have hsame : e'.produced laws key = e.produced laws key ∧
      e'.asked laws key = e.asked laws key :=
    Query.eval_congr fun upstream hupstream => (hkeeps upstream hupstream).2
  refine ⟨hvalid.value.trans hsame.1.symm, fun upstream hupstream => ?_⟩
  rw [hsame.2] at hupstream
  exact ⟨(hkeeps upstream hupstream).1, (hvalid.asked upstream hupstream).2.grows hgrows⟩

omit [DecidableEq V] in
theorem mem_triggerMap {key : Key} :
    key ∈ e.triggerMap stack up layer triggered ↔
      key ∈ triggered ∧ stack.layer key = layer ∧ up.owns e.upstream key = true := by
  rw [triggerMap, List.mem_dedup, List.mem_filter, Bool.and_eq_true, decide_eq_true_eq]

omit [DecidableEq V] in
/-- A key that is not triggered keeps its value, and so does one that does not trigger what has
    read it. -/
theorem Updates.keeps {triggers : List Key} {result : List Key × Environment Key V S}
    (h : Updates laws layer triggers e result) {key dependency : Key} (hknown : e.Known laws key)
    (hdepends : e.dependencies.Depends stack.encoding key dependency)
    (hsilent : key ∈ triggers → dependency ∉ result.1) :
    result.2.Known laws key ∧ result.2.peek laws key = e.peek laws key := by
  have howns' : up.owns result.2.upstream key = up.owns e.upstream key := congrFun h.owns key
  cases howns : up.owns e.upstream key with
  | false =>
    rw [howns] at howns'
    rw [peek_of_upstream howns, peek_of_upstream howns', h.upstream,
      known_iff_of_upstream howns']
    exact ⟨h.known key ((known_iff_of_upstream howns).mp hknown), rfl⟩
  | true =>
    rw [howns] at howns'
    obtain ⟨value, hvalue⟩ := Option.isSome_iff_exists.mp ((known_iff_of_owns howns).mp hknown)
    have hkept : result.2.table key = some value := by
      by_cases hkey : key ∈ triggers
      · rcases h.triggered key hkey with ⟨value', hold, hnew⟩ | hall
        · exact hnew.trans (hold.symm.trans hvalue)
        · exact absurd (hall dependency hdepends) (hsilent hkey)
      · exact h.kept key value hvalue hkey
    rw [peek_of_hit howns hvalue, peek_of_hit howns' hkept, known_iff_of_owns howns', hkept]
    exact ⟨rfl, rfl⟩

omit [DecidableEq V] in
/-- **The step lemma**: the update of the next layer. A key that has read a value which is lost or
    changed is triggered, and it is in a higher layer. -/
theorem UpTo.next (h : UpTo laws layer triggered e) {parent : List Key}
    (hparent : ∀ dependency ∈ parent, e.dependencies.Registered stack.encoding dependency)
    {result : List Key × Environment Key V S}
    (hupdates : Updates laws (layer + 1) (e.triggerMap stack up (layer + 1) triggered) e result) :
    UpTo laws (layer + 1) (parent ++ result.1 ++ triggered) result.2 where
  master := hupdates.master
  coded := hupdates.grows.coded h.coded
  registered dependency hdependency := by
    simp only [List.mem_append] at hdependency
    rcases hdependency with (hmem | hmem) | hmem
    · exact hupdates.grows.registered _ (hparent dependency hmem)
    · exact hupdates.registered dependency hmem
    · exact hupdates.grows.registered _ (h.registered dependency hmem)
  owned key value hvalue := by
    rw [hupdates.owns]
    cases hentry : e.table key with
    | none => exact (hupdates.fresh key value hvalue (Or.inl hentry)).2.1
    | some old => exact h.owned key old hentry
  valid key value hvalue := by
    by_cases hfresh : e.table key = none ∨ key ∈ e.triggerMap stack up (layer + 1) triggered
    · exact Or.inl (hupdates.fresh key value hvalue hfresh).2.2
    rw [not_or] at hfresh
    obtain ⟨old, hold⟩ := Option.ne_none_iff_exists'.mp hfresh.1
    obtain rfl := Option.some.inj ((hupdates.kept key old hold hfresh.2).symm.trans hvalue)
    rcases h.valid key old hold with hvalid | ⟨htriggered, hlayer⟩
    · by_cases hreached : key ∈ result.1 ∧ layer + 1 < stack.layer key
      · exact Or.inr ⟨by simp [hreached.1], hreached.2⟩
      · refine Or.inl (valid_of_asked hvalid hupdates.grows fun upstream hupstream => ?_)
        obtain ⟨hknown, hdepends⟩ := hvalid.asked upstream hupstream
        refine hupdates.keeps hknown hdepends fun htrigger hmem => hreached ⟨hmem, ?_⟩
        rw [← (mem_triggerMap.mp htrigger).2.1]
        exact upstream.2
    · refine Or.inr ⟨List.mem_append_right _ htriggered, lt_of_le_of_ne hlayer fun heq => ?_⟩
      exact hfresh.2 (mem_triggerMap.mpr ⟨htriggered, heq.symm, h.owned key old hold⟩)

/-- **The run lemma**: the update of all layers, by induction on the layers. -/
theorem upTo_updateLayers (parallel : Bool) {bottom : List Key} (parents : List (List Key))
    (h : UpTo laws 0 bottom e)
    (hparents : ∀ parent ∈ parents, ∀ dependency ∈ parent,
      e.dependencies.Registered stack.encoding dependency) :
    UpTo laws parents.length (e.updateLayers stack up parallel bottom parents).1.flatten
        (e.updateLayers stack up parallel bottom parents).2 ∧
      e.dependencies.Grows stack.encoding
        (e.updateLayers stack up parallel bottom parents).2.dependencies ∧
      laws.peek (e.updateLayers stack up parallel bottom parents).2.upstream =
        laws.peek e.upstream := by
  induction parents with
  | nil =>
    refine ⟨?_, .refl _, rfl⟩
    rw [updateLayers, List.flatten_singleton]
    exact h
  | cons parent rest ih =>
    rw [List.forall_mem_cons] at hparents
    obtain ⟨hbelow, hgrows, hpeek⟩ := ih hparents.2
    rw [updateLayers]
    generalize e.updateLayers stack up parallel bottom rest = below at hbelow hgrows hpeek ⊢
    have hupdates : Updates laws (rest.length + 1)
        (below.2.triggerMap stack up (rest.length + 1) below.1.flatten) below.2
        (below.2.updateOnlyThisEnvironment stack up parallel (rest.length + 1)
          (below.2.triggerMap stack up (rest.length + 1) below.1.flatten)) := by
      refine updateOnlyThisEnvironment_spec laws hbelow.master hbelow.coded fun key hkey => ?_
      obtain ⟨htriggered, hlayer, howns⟩ := mem_triggerMap.mp hkey
      exact ⟨hlayer, howns, hbelow.registered key htriggered⟩
    rw [List.flatten_cons]
    exact ⟨hbelow.next (fun dependency hmem => hgrows.registered _ (hparents.1 dependency hmem))
      hupdates, hgrows.trans hupdates.grows, hupdates.upstream.trans hpeek⟩

end Pysa.Incremental.Environment
