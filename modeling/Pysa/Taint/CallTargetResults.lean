/-
  Subject: JOINING THE RESULTS OF THE TARGETS OF A CALL, BACKWARD (`backwardAnalysis.ml`,
    `join_call_target_results` and `apply_callees_and_return_arguments_taint`).

  * `CallTargetResult` -- what the call of one target gives to the arguments, the callee, the captured
    variables and the state;
  * `foldTrees` -- the join of a list of trees; `readRoot_foldTrees_eq` -- if no join drops an index,
    a read is the same in any order;
  * `applyCallees_eq` -- a call folds the results of its targets, of the obscure call and of the
    constructors;
  * `applyCallees_covers` -- **the result is above each of them, except for the captured variables,
    and where no join drops an index their order makes no difference to a read**.
-/
import Pysa.Taint.CallState

namespace Pysa

open Pysa.Tree
open Pysa.CallState (Regular)

universe u

namespace CallTargetResults

variable {R : Type} {α : Type u} [DecidableEq α] (w : Finset α → Finset α)
  (phys : PhysEq (Tree (Finset α))) {n : ℕ}

/-! ## 1. Results -/

/-- `CallModel.ImplicitArgument.Backward`. -/
structure ImplicitArgument (α : Type u) where
  calleeBase : Tree (Finset α)
  callee : Tree (Finset α)

namespace ImplicitArgument

def empty : ImplicitArgument α := ⟨emptyTree (plainSet w), emptyTree (plainSet w)⟩

def forCallee (taint : Tree (Finset α)) : ImplicitArgument α := ⟨emptyTree (plainSet w), taint⟩

def forCalleeBase (taint : Tree (Finset α)) : ImplicitArgument α := ⟨taint, emptyTree (plainSet w)⟩

def join (left right : ImplicitArgument α) : ImplicitArgument α :=
  ⟨Pysa.join (plainSet w) phys left.calleeBase right.calleeBase,
    Pysa.join (plainSet w) phys left.callee right.callee⟩

end ImplicitArgument

/-- `call_target_result` for a call with `n` arguments; a capture is the root of its variable. -/
structure CallTargetResult (n : ℕ) (R : Type) (α : Type u) where
  argumentsTaint : Fin n → Tree (Finset α)
  implicitArgumentTaint : ImplicitArgument α
  capturesTaint : List (Tree (Finset α))
  captures : List R
  state : R → Tree (Finset α)

def bottomState : R → Tree (Finset α) := fun _ => emptyTree (plainSet w)

def noArguments : Fin n → Tree (Finset α) := fun _ => emptyTree (plainSet w)

def joinCallTargetResults (left right : CallTargetResult n R α) : CallTargetResult n R α where
  argumentsTaint i := join (plainSet w) phys (left.argumentsTaint i) (right.argumentsTaint i)
  implicitArgumentTaint :=
    left.implicitArgumentTaint.join w phys right.implicitArgumentTaint
  capturesTaint :=
    if left.capturesTaint.length > right.capturesTaint.length then left.capturesTaint
    else right.capturesTaint
  captures := if left.captures.length > right.captures.length then left.captures else right.captures
  state root := join (plainSet w) phys (left.state root) (right.state root)

/-- The start of each fold. -/
def noResult : CallTargetResult n R α :=
  ⟨noArguments w, .empty w, [], [], bottomState w⟩

def foldResults (results : List (CallTargetResult n R α)) : CallTargetResult n R α :=
  results.foldl (joinCallTargetResults w phys) (noResult w)

/-! ## 2. Callees -/

/-- What the call of a target does with a state and the taint of the call. -/
structure CallTarget (n : ℕ) (R : Type) (α : Type u) where
  target : Regular
  isDecorated : Bool
  apply : (isImplicitNew implicitReturnsSelf : Bool) → (state : R → Tree (Finset α)) →
    (callTaint : Tree (Finset α)) → CallTargetResult n R α

/-- `is_object_new` and `is_object_init`; an unresolved call is taken for it. -/
def isObjectDunder (dunder : String) : List (CallTarget n R α) → Bool
  | [] => true
  | [callTarget] =>
    match callTarget.target with
    | .method className methodName =>
      !callTarget.isDecorated && (className == "object" || className == "builtins.object") &&
        methodName == dunder
    | .function _ => false
  | _ => false

structure Callees (n : ℕ) (R : Type) (α : Type u) where
  callTargets : List (CallTarget n R α)
  newTargets : List (CallTarget n R α)
  initTargets : List (CallTarget n R α)
  unresolved : Bool
  /-- What an obscure call gives to the arguments and the callee. -/
  obscureArguments : Fin n → Tree (Finset α)
  obscureTaint : Tree (Finset α)

section Apply

variable (callees : Callees n R α) (initialState : R → Tree (Finset α))
  (callTaint : Tree (Finset α))

/-- The results of a list of targets. -/
def resultsOf (isImplicitNew implicitReturnsSelf : Bool) (targets : List (CallTarget n R α))
    (state : R → Tree (Finset α)) (callTaint : Tree (Finset α)) : List (CallTargetResult n R α) :=
  targets.map fun target => target.apply isImplicitNew implicitReturnsSelf state callTaint

/-- `apply_obscure_call`. -/
def applyObscureCall : CallTargetResult n R α :=
  ⟨callees.obscureArguments, .forCallee w callees.obscureTaint, [], [], initialState⟩

/-- The calls of `__init__`; their captures are dropped. -/
def applyInitTargets : CallTargetResult n R α :=
  if isObjectDunder "__init__" callees.initTargets &&
      !isObjectDunder "__new__" callees.newTargets then
    ⟨noArguments w, .forCalleeBase w callTaint, [], [], initialState⟩
  else
    { foldResults w phys (resultsOf false true callees.initTargets initialState callTaint) with
      capturesTaint := []
      captures := [] }

/-- The calls of `__new__`, with the taint of `self` and the state that `__init__` leaves. -/
def applyNewTargets : CallTargetResult n R α :=
  let init := applyInitTargets w phys callees initialState callTaint
  foldResults w phys
    (resultsOf true false callees.newTargets init.state init.implicitArgumentTaint.calleeBase)

def applyConstructorTargets : CallTargetResult n R α :=
  let init := applyInitTargets w phys callees initialState callTaint
  if isObjectDunder "__new__" callees.newTargets then
    ⟨init.argumentsTaint, .empty w, [], [], init.state⟩
  else
    let new := applyNewTargets w phys callees initialState callTaint
    ⟨fun i => join (plainSet w) phys (init.argumentsTaint i) (new.argumentsTaint i),
      .forCallee w new.implicitArgumentTaint.calleeBase, [], [], new.state⟩

/-- `apply_callees_and_return_arguments_taint`, with the index breadcrumb in the taint of the call. -/
def applyCallees : CallTargetResult n R α :=
  let result :=
    foldResults w phys (resultsOf false false callees.callTargets initialState callTaint)
  let result :=
    if callees.unresolved then
      joinCallTargetResults w phys result (applyObscureCall w callees initialState)
    else result
  if callees.newTargets.isEmpty && callees.initTargets.isEmpty then result
  else
    joinCallTargetResults w phys result
      (applyConstructorTargets w phys callees initialState callTaint)

/-- The results that a call folds, in their order. -/
def ownResults : List (CallTargetResult n R α) :=
  resultsOf false false callees.callTargets initialState callTaint ++
    (if callees.unresolved then [applyObscureCall w callees initialState] else []) ++
    if callees.newTargets.isEmpty && callees.initTargets.isEmpty then []
    else [applyConstructorTargets w phys callees initialState callTaint]

theorem applyCallees_eq :
    applyCallees w phys callees initialState callTaint =
      foldResults w phys (ownResults w phys callees initialState callTaint) := by
  unfold applyCallees ownResults foldResults
  split_ifs <;> simp [List.foldl_append]

end Apply

/-! ## 3. Joins of trees -/

def foldTrees (trees : List (Tree (Finset α))) : Tree (Finset α) :=
  trees.foldl (join (plainSet w) phys) (emptyTree (plainSet w))

/-- The join reads the union of the two sides on every path. -/
def DropsNoIndex (left right : Tree (Finset α)) : Prop :=
  ∀ p : List Label, (∀ k ∈ p, k.Concrete) →
    Shortcut w phys left right ∨ Redirect w ∅ left right p p

/-- No join of the fold drops an index. -/
def FoldDropsNoIndex : Tree (Finset α) → List (Tree (Finset α)) → Prop
  | _, [] => True
  | sofar, tree :: rest =>
    DropsNoIndex w phys sofar tree ∧ FoldDropsNoIndex (join (plainSet w) phys sofar tree) rest

variable {w}

theorem below_trans {a b c : Tree (Finset α)} (hab : lessOrEqual (plainSet w) a b)
    (hbc : lessOrEqual (plainSet w) b c) : lessOrEqual (plainSet w) a c := by
  rw [lessOrEqual_iff_taintAt] at hab hbc ⊢
  exact fun p hp => (hab p hp).trans (hbc p hp)

theorem lessOrEqual_foldl_join {trees : List (Tree (Finset α))} {sofar tree : Tree (Finset α)}
    (h : lessOrEqual (plainSet w) tree sofar ∨ tree ∈ trees) :
    lessOrEqual (plainSet w) tree (trees.foldl (join (plainSet w) phys) sofar) := by
  have hjoin := fun l r => join_upper_bound (setElement_lawful (α := α) w .identity id)
    (setElement_lawfulSink (α := α) w .identity id) phys l r
  induction trees generalizing sofar with
  | nil => exact h.resolve_right List.not_mem_nil
  | cons first rest ih =>
    rw [List.foldl_cons]
    refine ih ?_
    rcases h with h | h
    · exact Or.inl (below_trans h (hjoin sofar first).1)
    · rcases List.mem_cons.mp h with rfl | h
      · exact Or.inl (hjoin sofar tree).2
      · exact Or.inr h

theorem mem_taintAt_foldl_iff {trees : List (Tree (Finset α))} {sofar : Tree (Finset α)}
    (hdrops : FoldDropsNoIndex w phys sofar trees) {p : List Label} (hp : ∀ k ∈ p, k.Concrete)
    (x : α) :
    x ∈ taintAt p (trees.foldl (join (plainSet w) phys) sofar) ↔
      x ∈ taintAt p sofar ∨ ∃ tree ∈ trees, x ∈ taintAt p tree := by
  induction trees generalizing sofar with
  | nil => simp
  | cons first rest ih =>
    have hunion : taintAt p (join (plainSet w) phys sofar first) =
        taintAt p sofar ∪ taintAt p first := by
      rcases hdrops.1 p hp with hshortcut | hredirect
      · exact taintAt_join_of_shortcut hshortcut p
      · by_cases hshortcut : Shortcut w phys sofar first
        · exact taintAt_join_of_shortcut hshortcut p
        · exact taintAt_join_of_redirect hshortcut hredirect
    rw [List.foldl_cons, ih hdrops.2, hunion, Finset.mem_union, or_assoc, List.exists_mem_cons_iff]

/-- **If no join drops an index, a read of the fold is the union**, whatever the order. -/
theorem readRoot_foldTrees_eq {trees order : List (Tree (Finset α))} (hperm : order.Perm trees)
    (hdrops : FoldDropsNoIndex w phys (emptyTree (plainSet w)) trees)
    (hdrops' : FoldDropsNoIndex w phys (emptyTree (plainSet w)) order) {p : List Label}
    (hp : ∀ k ∈ p, k.Concrete) :
    readRoot w p (foldTrees w phys order) = readRoot w p (foldTrees w phys trees) := by
  rw [readRoot_eq hp, readRoot_eq hp]
  ext x
  rw [foldTrees, foldTrees, mem_taintAt_foldl_iff phys hdrops' hp,
    mem_taintAt_foldl_iff phys hdrops hp]
  simp only [hperm.mem_iff]

/-! ## 4. The components of a result -/

/-- A component that the join of results joins. -/
inductive Component (n : ℕ) (R : Type) where
  | argument (i : Fin n)
  | calleeBase
  | callee
  | state (root : R)

def CallTargetResult.component (result : CallTargetResult n R α) :
    Component n R → Tree (Finset α)
  | .argument i => result.argumentsTaint i
  | .calleeBase => result.implicitArgumentTaint.calleeBase
  | .callee => result.implicitArgumentTaint.callee
  | .state root => result.state root

theorem component_foldResults (results : List (CallTargetResult n R α)) (c : Component n R) :
    (foldResults w phys results).component c =
      foldTrees w phys (results.map fun result => result.component c) := by
  have hstep : ∀ sofar : CallTargetResult n R α,
      (results.foldl (joinCallTargetResults w phys) sofar).component c =
        (results.map fun result => result.component c).foldl (join (plainSet w) phys)
          (sofar.component c) := by
    induction results with
    | nil => exact fun _ => rfl
    | cons first rest ih =>
      intro sofar
      rw [List.foldl_cons, ih, List.map_cons, List.foldl_cons]
      cases c <;> rfl
  have hstart : (noResult w : CallTargetResult n R α).component c = emptyTree (plainSet w) := by
    cases c <;> rfl
  rw [foldResults, hstep, hstart, foldTrees]

variable (w) in
/-- The second result is above the first in every component but the captures. -/
def Below (result total : CallTargetResult n R α) : Prop :=
  ∀ c, lessOrEqual (plainSet w) (result.component c) (total.component c)

theorem below_foldResults {results : List (CallTargetResult n R α)}
    {result : CallTargetResult n R α} (h : result ∈ results) :
    Below w result (foldResults w phys results) := by
  intro c
  rw [component_foldResults]
  exact lessOrEqual_foldl_join phys (Or.inr (List.mem_map_of_mem h))

/-! ## 5. The order of the results -/

variable (w) in
/-- In any other order, a component whose joins drop no index reads the same. -/
def OrderFree (results : List (CallTargetResult n R α)) : Prop :=
  ∀ order : List (CallTargetResult n R α), order.Perm results → ∀ c : Component n R,
    FoldDropsNoIndex w phys (emptyTree (plainSet w))
      (results.map fun result => result.component c) →
    FoldDropsNoIndex w phys (emptyTree (plainSet w)) (order.map fun result => result.component c) →
    ∀ p : List Label, (∀ k ∈ p, k.Concrete) →
      readRoot w p ((foldResults w phys order).component c) =
        readRoot w p ((foldResults w phys results).component c)

theorem orderFree (results : List (CallTargetResult n R α)) : OrderFree w phys results := by
  intro order hperm c hdrops hdrops' p hp
  rw [component_foldResults, component_foldResults]
  exact readRoot_foldTrees_eq phys (hperm.map _) hdrops hdrops' hp

/-! ## 6. The whole call -/

section Cover

variable (callees : Callees n R α) (initialState : R → Tree (Finset α))
  (callTaint : Tree (Finset α))

/-- The results of the `__init__` targets of a constructor call. -/
def initResults : List (CallTargetResult n R α) :=
  resultsOf false true callees.initTargets initialState callTaint

variable (w) in
/-- The results of its `__new__` targets, from the state and the taint of `self` that `__init__`
    leaves. -/
def newResults : List (CallTargetResult n R α) :=
  let init := applyInitTargets w phys callees initialState callTaint
  resultsOf true false callees.newTargets init.state init.implicitArgumentTaint.calleeBase

/-- `object.__init__` is not called, unless the whole class is a stub. -/
def CallsInit : Prop :=
  (isObjectDunder "__init__" callees.initTargets &&
    !isObjectDunder "__new__" callees.newTargets) = false

variable (w) in
/-- What a constructor call keeps of the results of its targets. -/
structure ConstructorCovers : Prop where
  /-- The arguments, and what the calls of `__new__` start from. -/
  init : CallsInit callees → ∀ result ∈ initResults callees initialState callTaint,
    (∀ i, lessOrEqual (plainSet w) (result.argumentsTaint i)
      ((applyConstructorTargets w phys callees initialState callTaint).argumentsTaint i)) ∧
    lessOrEqual (plainSet w) result.implicitArgumentTaint.calleeBase
      (applyInitTargets w phys callees initialState callTaint).implicitArgumentTaint.calleeBase ∧
    ∀ root, lessOrEqual (plainSet w) (result.state root)
      ((applyInitTargets w phys callees initialState callTaint).state root)
  /-- Without a `__new__` of the class, the state that `__init__` leaves is the state of the call. -/
  objectNew : isObjectDunder "__new__" callees.newTargets = true →
    (applyConstructorTargets w phys callees initialState callTaint).state =
      (applyInitTargets w phys callees initialState callTaint).state
  /-- The arguments, the state, and the taint of `cls`, which goes to the callee. -/
  new : isObjectDunder "__new__" callees.newTargets = false →
    ∀ result ∈ newResults w phys callees initialState callTaint,
    (∀ i, lessOrEqual (plainSet w) (result.argumentsTaint i)
      ((applyConstructorTargets w phys callees initialState callTaint).argumentsTaint i)) ∧
    lessOrEqual (plainSet w) result.implicitArgumentTaint.calleeBase
      (applyConstructorTargets w phys callees initialState
        callTaint).implicitArgumentTaint.callee ∧
    ∀ root, lessOrEqual (plainSet w) (result.state root)
      ((applyConstructorTargets w phys callees initialState callTaint).state root)

/-- The arguments of a constructor call are above those of `__init__`. -/
theorem initArguments_lessOrEqual (i : Fin n) :
    lessOrEqual (plainSet w)
      ((applyInitTargets w phys callees initialState callTaint).argumentsTaint i)
      ((applyConstructorTargets w phys callees initialState callTaint).argumentsTaint i) := by
  unfold applyConstructorTargets
  split_ifs
  · rw [lessOrEqual_iff_taintAt]
    exact fun _ _ => Finset.Subset.refl _
  · exact (join_upper_bound (setElement_lawful w .identity id)
      (setElement_lawfulSink w .identity id) phys _ _).1

theorem constructorCovers : ConstructorCovers w phys callees initialState callTaint where
  init hcalls result hresult := by
    have hinit : applyInitTargets w phys callees initialState callTaint =
        { foldResults w phys (initResults callees initialState callTaint) with
          capturesTaint := []
          captures := [] } := by
      rw [applyInitTargets, hcalls, if_neg Bool.false_ne_true, initResults]
    have hbelow := below_foldResults (w := w) phys hresult
    have hargument : ∀ i, lessOrEqual (plainSet w) (result.argumentsTaint i)
        ((applyInitTargets w phys callees initialState callTaint).argumentsTaint i) := by
      rw [hinit]
      exact fun i => hbelow (.argument i)
    refine ⟨fun i => ?_, ?_, ?_⟩
    · exact below_trans (hargument i)
        (initArguments_lessOrEqual phys callees initialState callTaint i)
    · rw [hinit]
      exact hbelow .calleeBase
    · rw [hinit]
      exact fun root => hbelow (.state root)
  objectNew hnew := by rw [applyConstructorTargets, hnew, if_pos rfl]
  new hnew result hresult := by
    have hbelow := below_foldResults (w := w) phys hresult
    rw [applyConstructorTargets, hnew, if_neg Bool.false_ne_true]
    refine ⟨fun i => ?_, hbelow .calleeBase, fun root => hbelow (.state root)⟩
    exact below_trans (hbelow (.argument i))
      (join_upper_bound (setElement_lawful w .identity id)
        (setElement_lawfulSink w .identity id) phys _ _).2

/-- **A call covers its targets**: it is above the result of each one, of the obscure call and of the
    constructors in every component but the captures; `__init__` and `__new__` are one call after
    the other; and where no join drops an index, the order of the targets makes no difference to
    what is read. -/
theorem applyCallees_covers :
    (∀ result ∈ ownResults w phys callees initialState callTaint,
      Below w result (applyCallees w phys callees initialState callTaint)) ∧
    ConstructorCovers w phys callees initialState callTaint ∧
    OrderFree w phys (initResults callees initialState callTaint) ∧
    OrderFree w phys (newResults w phys callees initialState callTaint) ∧
    ∀ order : List (CallTarget n R α), order.Perm callees.callTargets → ∀ c : Component n R,
      FoldDropsNoIndex w phys (emptyTree (plainSet w))
        ((ownResults w phys callees initialState callTaint).map fun result =>
          result.component c) →
      FoldDropsNoIndex w phys (emptyTree (plainSet w))
        ((ownResults w phys { callees with callTargets := order } initialState callTaint).map
          fun result => result.component c) →
      ∀ p : List Label, (∀ k ∈ p, k.Concrete) →
        readRoot w p ((applyCallees w phys { callees with callTargets := order } initialState
          callTaint).component c) =
        readRoot w p ((applyCallees w phys callees initialState callTaint).component c) := by
  refine ⟨fun result hresult => ?_, constructorCovers phys callees initialState callTaint,
    orderFree phys _, orderFree phys _, fun order hperm c hdrops hdrops' p hp => ?_⟩
  · rw [applyCallees_eq]
    exact below_foldResults phys hresult
  · have hresults : (ownResults w phys { callees with callTargets := order } initialState
        callTaint).Perm (ownResults w phys callees initialState callTaint) :=
      ((hperm.map _).append_right _).append_right _
    rw [applyCallees_eq, applyCallees_eq]
    exact orderFree phys _ _ hresults c hdrops hdrops' p hp

end Cover

/-- A target that gives a taint to the only argument, whatever it is called with. -/
def argumentTarget (taint : Tree (Finset ℕ)) : CallTarget 1 String ℕ :=
  ⟨.function "f", false, fun _ _ _ _ => ⟨fun _ => taint, .empty id, [], [], bottomState id⟩⟩

/-- A target that captures a variable. -/
def capturingTarget (variableName : String) : CallTarget 1 String ℕ :=
  ⟨.function "f", false, fun _ _ _ _ =>
    ⟨noArguments id, .empty id, [createLeaf {0}], [variableName], bottomState id⟩⟩

def resolved (callTargets : List (CallTarget 1 String ℕ)) : Callees 1 String ℕ :=
  ⟨callTargets, [], [], false, noArguments id, emptyTree (plainSet id)⟩

/-- Indices beside a `[*]` make the order of the targets visible, and of two targets that capture one
    variable each, the second keeps its own. -/
theorem not_applyCallees_covers :
    let anyIndex := argumentTarget (.node ∅ ((SortedMap.empty.add (.index "i") (createLeaf {1})).add
      Label.anyIndex (createLeaf {0})))
    let everything := argumentTarget (createLeaf {1})
    let index := argumentTarget (.node ∅ (.singleton (.index "i") (createLeaf {2})))
    let call := fun targets =>
      applyCallees id (.never _) (resolved targets) (bottomState id) (createLeaf {0})
    readRoot id [.index "i"] ((call [anyIndex, everything, index]).argumentsTaint 0) ≠
        readRoot id [.index "i"] ((call [anyIndex, index, everything]).argumentsTaint 0) ∧
      "x" ∉ (call [capturingTarget "x", capturingTarget "y"]).captures := by
  decide +kernel

end CallTargetResults

end Pysa
