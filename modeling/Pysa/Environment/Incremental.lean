/-
  Subject: LOOK-UPS AND UPDATES OF AN ENVIRONMENT, in any order (`environment.ml`, `Base`).

  * `Environment.Works` -- look-ups in one process; what they are recorded for is registered before;
  * `reachable_upTo` -- the invariant of every run;
  * `table_eq_produced` -- **incremental update equals recomputation**.
-/
import Mathlib.Logic.Relation
import Pysa.Environment.LayerUpdate

namespace Pysa.Incremental

variable {Key V : Type} (stack : Stack Key V)

/-! ## 1. The base environment -/

/-- The source code is layer 0; reading it records the dependency. -/
def sourceCode : Upstream Key V (Key → V) where
  owns _ key := decide (stack.layer key ≠ 0)
  get key dependency state :=
    (state.2 key, state.1.addDependency stack.encoding key dependency, state.2)

def sourceCodeLaws : (sourceCode stack).Laws stack where
  peek source := source
  known _ _ := True
  get_spec key dependency d source _ := by
    refine ⟨rfl, rfl, rfl, fun _ => id, trivial, Dependencies.addDependency_grows key dependency d,
      congrArg Option.isSome (Dependencies.addDependency_worker key dependency d), ?_⟩
    intro dependency' hdependency hregistered
    subst hdependency
    exact Dependencies.addDependency_depends hregistered

variable {stack}

theorem owns_sourceCode (source : Key → V) (key : Key) :
    (sourceCode stack).owns source key = true ↔ stack.layer key ≠ 0 := decide_eq_true_iff

namespace Environment

/-- `create`: nothing is cached. -/
def create (source : Key → V) : Environment Key V (Key → V) := ⟨.empty, source, fun _ => none⟩

variable [DecidableEq Key] [DecidableEq V] (stack)

/-- `update_this_and_all_preceding_environments`; `bottom` is what the update of the source code
    triggers. -/
def updateThisAndAllPrecedingEnvironments (parallel : Bool) (source : Key → V) (bottom : List Key)
    (e : Environment Key V (Key → V)) : Environment Key V (Key → V) :=
  ({ e with upstream := source }.updateLayers stack (sourceCode stack) parallel bottom
    (List.replicate stack.height [])).2

/-! ## 2. Runs -/

/-- Look-ups in one process, each for a registered dependency or for none. -/
inductive Works : Environment Key V (Key → V) → Environment Key V (Key → V) → Prop
  | done (e) : Works e e
  | register {e e'} (key : Key) (h : Works (e.register stack key) e') : Works e e'
  | lookUp {e e'} (key : Key) (dependency : Option Key)
      (hregistered : ∀ dependency', dependency = some dependency' →
        e.dependencies.Registered stack.encoding dependency')
      (h : Works (e.get stack (sourceCode stack) key dependency).2 e') : Works e e'

/-- A step of a run. The registries of several workers are one list: nothing reads them before
    they are merged. -/
inductive Step : Environment Key V (Key → V) → Environment Key V (Key → V) → Prop
  | master {e e'} (h : Works stack e e') : Step e e'
  | workers {e e'}
      (h : Works stack { e with dependencies := { e.dependencies with worker := some [] } } e') :
      Step e { e' with dependencies := e'.dependencies.merge stack.encoding }
  | update {e} (parallel : Bool) (source : Key → V) (bottom : List Key)
      (hreports : ∀ key, stack.layer key = 0 → source key ≠ e.upstream key →
        ∀ dependency ∈ e.getDependents stack key, dependency ∈ bottom)
      (hregistered : ∀ dependency ∈ bottom,
        e.dependencies.Registered stack.encoding dependency) :
      Step e (e.updateThisAndAllPrecedingEnvironments stack parallel source bottom)

/-- What can be reached from an environment in which nothing is cached. -/
def Reachable (source : Key → V) : Environment Key V (Key → V) → Prop :=
  Relation.ReflTransGen (Step stack) (create source)

variable {stack}

/-! ## 3. The invariant -/

omit [DecidableEq V] in
theorem works_extends {e e' : Environment Key V (Key → V)} (h : Works stack e e') :
    Extends (sourceCodeLaws stack) (stack.height + 1) e e' ∧ SameProcess e e' := by
  induction h with
  | done e => exact ⟨.refl e, rfl⟩
  | @register e e' key _ ih =>
    exact ⟨(extends_register _ _ key e).trans ih.1,
      ih.2.trans (Dependencies.register_worker key e.dependencies)⟩
  | @lookUp e e' key dependency _ _ ih =>
    have hget : LooksUp (sourceCodeLaws stack) key dependency e _ :=
      get_spec (sourceCodeLaws stack) key dependency e
    exact ⟨(hget.extends_.mono (Nat.succ_le_succ (stack.layer_le key))).trans ih.1,
      ih.2.trans hget.process⟩

/-- Between the steps of a run each cached value is valid. -/
abbrev Settled (stack : Stack Key V) (e : Environment Key V (Key → V)) : Prop :=
  UpTo (sourceCodeLaws stack) stack.height [] e

omit [DecidableEq Key] [DecidableEq V] in
theorem settled_create (source : Key → V) : Settled stack (create source) where
  master := rfl
  coded code dependency h := absurd h List.not_mem_nil
  registered dependency h := absurd h List.not_mem_nil
  owned key value h := by cases h
  valid key value h := by cases h

omit [DecidableEq Key] [DecidableEq V] in
/-- Look-ups add valid values, and lose none. -/
theorem Settled.extends_ {e e' : Environment Key V (Key → V)} {bound : ℕ} (h : Settled stack e)
    (hextends : Extends (sourceCodeLaws stack) bound e e') (hmaster : e'.dependencies.worker = none) :
    Settled stack e' where
  master := hmaster
  coded := hextends.grows.coded h.coded
  registered dependency hdependency := absurd hdependency List.not_mem_nil
  owned key value hvalue := by
    rw [hextends.owns]
    cases hentry : e.table key with
    | none => exact (hextends.fresh key value hentry hvalue).2.1
    | some old => exact h.owned key old hentry
  valid key value hvalue := by
    left
    cases hentry : e.table key with
    | none => exact (hextends.fresh key value hentry hvalue).2.2
    | some old =>
      obtain rfl := Option.some.inj ((hextends.table key old hentry).symm.trans hvalue)
      refine hextends.valid ((h.valid key old hentry).resolve_right fun htriggered => ?_)
      exact List.not_mem_nil htriggered.1

omit [DecidableEq Key] [DecidableEq V] in
/-- New source code changes no value above it that is cached, and none of the same source code. -/
theorem keeps_source {e : Environment Key V (Key → V)} {source : Key → V} {key : Key}
    (hknown : e.Known (sourceCodeLaws stack) key)
    (hsame : stack.layer key = 0 → source key = e.upstream key) :
    { e with upstream := source }.Known (sourceCodeLaws stack) key ∧
      { e with upstream := source }.peek (sourceCodeLaws stack) key =
        e.peek (sourceCodeLaws stack) key := by
  cases howns : (sourceCode stack).owns e.upstream key with
  | true =>
    have howns' : (sourceCode stack).owns source key = true := howns
    obtain ⟨value, hvalue⟩ := Option.isSome_iff_exists.mp ((known_iff_of_owns howns).mp hknown)
    rw [peek_of_hit howns hvalue]
    exact ⟨(known_iff_of_owns howns').mpr ((known_iff_of_owns howns).mp hknown),
      peek_of_hit howns' hvalue⟩
  | false =>
    have howns' : (sourceCode stack).owns source key = false := howns
    have hlayer : stack.layer key = 0 := by
      by_contra hne
      rw [(owns_sourceCode e.upstream key).mpr hne] at howns
      cases howns
    refine ⟨(known_iff_of_upstream howns').mpr trivial, ?_⟩
    calc { e with upstream := source }.peek (sourceCodeLaws stack) key
        = source key := peek_of_upstream howns'
      _ = e.upstream key := hsame hlayer
      _ = e.peek (sourceCodeLaws stack) key := by rw [peek_of_upstream howns]; rfl

omit [DecidableEq V] in
/-- After the update of the source code each value is valid, or its key is reported. -/
theorem Settled.upTo_source {e : Environment Key V (Key → V)} (h : Settled stack e)
    {source : Key → V} {bottom : List Key}
    (hreports : ∀ key, stack.layer key = 0 → source key ≠ e.upstream key →
      ∀ dependency ∈ e.getDependents stack key, dependency ∈ bottom)
    (hregistered : ∀ dependency ∈ bottom, e.dependencies.Registered stack.encoding dependency) :
    UpTo (sourceCodeLaws stack) 0 bottom { e with upstream := source } where
  master := h.master
  coded := h.coded
  registered := hregistered
  owned := h.owned
  valid key value hvalue := by
    have hlayer := (owns_sourceCode _ key).mp (h.owned key value hvalue)
    have hvalid := (h.valid key value hvalue).resolve_right fun htriggered =>
      List.not_mem_nil htriggered.1
    by_cases hmem : key ∈ bottom
    · exact Or.inr ⟨hmem, Nat.pos_of_ne_zero hlayer⟩
    · refine Or.inl (valid_of_asked hvalid (.refl _) fun upstream hupstream => ?_)
      obtain ⟨hknown, hdepends⟩ := hvalid.asked upstream hupstream
      refine keeps_source hknown fun hzero => ?_
      by_contra hne
      exact hmem (hreports _ hzero hne key (Dependencies.mem_getDependents h.master hdepends))

/-- **The step lemma.** -/
theorem Settled.step {e e' : Environment Key V (Key → V)} (h : Settled stack e)
    (hstep : Step stack e e') : Settled stack e' := by
  cases hstep with
  | master hworks =>
    obtain ⟨hextends, hprocess⟩ := works_extends hworks
    refine h.extends_ hextends ?_
    rw [← Option.isNone_iff_eq_none, ← Option.not_isSome, hprocess, h.master]
    rfl
  | workers hworks =>
    exact h.extends_ (extends_worker _ h.master (works_extends hworks).1)
      (Dependencies.merge_grows _ _).2
  | update parallel source bottom hreports hregistered =>
    have hupdated := (upTo_updateLayers parallel (List.replicate stack.height [])
      (h.upTo_source hreports hregistered) fun parent hparent dependency hdependency => by
        rw [List.eq_of_mem_replicate hparent] at hdependency
        exact absurd hdependency List.not_mem_nil).1
    rw [List.length_replicate] at hupdated
    refine ⟨hupdated.master, hupdated.coded, fun _ h => absurd h List.not_mem_nil,
      hupdated.owned, fun key value hvalue => Or.inl ?_⟩
    refine (hupdated.valid key value hvalue).resolve_right fun htriggered => ?_
    exact absurd htriggered.2 (not_lt_of_ge (stack.layer_le key))

/-- **The run lemma.** -/
theorem Reachable.settled {source : Key → V} {e : Environment Key V (Key → V)}
    (h : Reachable stack source e) : Settled stack e := by
  induction h with
  | refl => exact settled_create source
  | tail _ hstep ih => exact ih.step hstep

omit [DecidableEq Key] [DecidableEq V] in
/-- Where each cached value is valid, look-ups give what they give when nothing is cached. -/
theorem Settled.peek_eq {e : Environment Key V (Key → V)} (h : Settled stack e) :
    e.peek (sourceCodeLaws stack) = (create e.upstream).peek (sourceCodeLaws stack) := by
  funext key
  induction key using (measure stack.layer).wf.induction with
  | _ key ih =>
    have hproduced : e.produced (sourceCodeLaws stack) key =
        (create e.upstream).produced (sourceCodeLaws stack) key :=
      (Query.eval_congr fun upstream _ => ih upstream.1 upstream.2).1
    cases howns : (sourceCode stack).owns e.upstream key with
    | false =>
      have hcreate : (create e.upstream).peek (sourceCodeLaws stack) key = e.upstream key :=
        peek_of_upstream howns
      rw [hcreate]
      exact peek_of_upstream howns
    | true =>
      have hcreate : (create e.upstream).peek (sourceCodeLaws stack) key =
          (create e.upstream).produced (sourceCodeLaws stack) key := peek_of_miss howns rfl
      rw [hcreate, ← hproduced]
      cases hentry : e.table key with
      | none => exact peek_of_miss howns hentry
      | some value =>
        rw [peek_of_hit howns hentry]
        refine ((h.valid key value hentry).resolve_right fun htriggered => ?_).value
        exact List.not_mem_nil htriggered.1

/-! ## 4. Incremental update equals recomputation -/

/-- **What is cached is what is produced now** on what the layer above gives, in every state that
    look-ups and updates can reach; and each look-up gives what it gives in an environment that is
    built anew on the source code. -/
theorem table_eq_produced {source : Key → V} {e : Environment Key V (Key → V)}
    (h : Reachable stack source e) :
    (∀ key value, e.table key = some value →
      value = (stack.produceValue key).eval fun upstream =>
        (e.get stack (sourceCode stack) upstream.1 (some key)).1) ∧
    ∀ key dependency, (e.get stack (sourceCode stack) key dependency).1 =
      ((create e.upstream).get stack (sourceCode stack) key dependency).1 := by
  have hsettled := h.settled
  have hget : ∀ (e : Environment Key V (Key → V)) key dependency,
      (e.get stack (sourceCode stack) key dependency).1 = e.peek (sourceCodeLaws stack) key :=
    fun e key dependency => (get_spec (sourceCodeLaws stack) key dependency e).value
  refine ⟨fun key value hvalue => ?_, fun key dependency => ?_⟩
  · simp only [hget]
    refine ((hsettled.valid key value hvalue).resolve_right fun htriggered => ?_).value
    exact List.not_mem_nil htriggered.1
  · rw [hget, hget, hsettled.peek_eq]

/-- A value of layer 1 that is one more than the source code, all of whose codes collide, looked up
    and then updated. -/
theorem table_eq_produced_collidingCodes :
    let stack : Stack Bool ℕ :=
      { layer := Bool.toNat
        height := 1
        layer_le := Bool.toNat_le
        produceValue := fun
          | true => .ask ⟨false, Nat.zero_lt_one⟩ fun source => .answer (source + 1)
          | false => .answer 0
        lazyIncremental := fun _ => false
        encoding := ⟨fun _ => 0, fun _ => 0⟩ }
    let read := ((create fun _ => 5).get stack (sourceCode stack) true none).2
    let e := read.updateThisAndAllPrecedingEnvironments stack false (fun _ => 7)
      (read.getDependents stack false)
    e.table true = some 8 ∧
    (∀ key value, e.table key = some value →
      value = (stack.produceValue key).eval fun upstream =>
        (e.get stack (sourceCode stack) upstream.1 (some key)).1) ∧
    ∀ key dependency, (e.get stack (sourceCode stack) key dependency).1 =
      ((create e.upstream).get stack (sourceCode stack) key dependency).1 := by
  intro stack read e
  have hread : Step stack (create fun _ => 5) read :=
    .master (.lookUp true none (fun _ h => by cases h) (.done _))
  have hcoded := ((settled_create fun _ => 5).step hread).coded
  have hupdate : Step stack read e := by
    refine .update false _ _ (fun key hlayer _ dependency hmem => ?_) fun dependency hmem =>
      Dependencies.registered_of_mem_getDependents hcoded hmem
    cases key with
    | false => exact hmem
    | true => cases hlayer
  exact ⟨by decide +kernel, table_eq_produced ((Relation.ReflTransGen.single hread).tail hupdate)⟩

end Environment

end Pysa.Incremental
