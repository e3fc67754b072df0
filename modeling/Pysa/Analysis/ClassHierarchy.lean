/-
  Subject: THE CLASS HIERARCHY (`classHierarchy.ml`): its cycle check and the C3 linearization.

  * `Parents` -- the parents of a class, for finitely many classes;
  * `merge`, `linearize` -- the method resolution order;
  * `visit`, `checkIntegrity` -- the search for cycles over a handler.

  Every recursion lengthens a path of distinct classes with parents, or takes a class out of the
  lists that are merged; it needs no fuel. The type arguments of a parent are left out, and so is
  the log.
-/
import Mathlib.Data.Finset.Card
import Mathlib.Data.Finset.SDiff
import Mathlib.Logic.Relation

namespace Pysa.ClassHierarchy

structure Target where
  target : String
  deriving DecidableEq

/-- `get_parents`, with the classes it knows. -/
structure Parents where
  get : String → Option (List Target)
  names : Finset String
  finite : ∀ name, (get name).isSome → name ∈ names

/-- `immediate_parents`. -/
def immediateParents (parents : Parents) (className : String) : List String :=
  ((parents.get className).getD []).map Target.target

theorem mem_names_of_mem {parents : Parents} {className parent : String}
    (h : parent ∈ immediateParents parents className) : className ∈ parents.names := by
  refine parents.finite className ?_
  by_contra hnone
  rw [Option.not_isSome_iff_eq_none] at hnone
  unfold immediateParents at h
  rw [hnone] at h
  exact List.not_mem_nil h

/-- The classes with parents that are not on the path become fewer. -/
theorem card_sdiff_insert_lt {parents : Parents} {className parent : String}
    {visited : Finset String} (hnew : className ∉ visited)
    (h : parent ∈ immediateParents parents className) :
    (parents.names \ insert className visited).card < (parents.names \ visited).card := by
  refine Finset.card_lt_card ⟨Finset.sdiff_subset_sdiff (Finset.Subset.refl _)
    (Finset.subset_insert _ _), fun hsub => ?_⟩
  have hmem := hsub (Finset.mem_sdiff.mpr ⟨mem_names_of_mem h, hnew⟩)
  exact (Finset.mem_sdiff.mp hmem).2 (Finset.mem_insert_self _ _)

/-! ## 1. The method resolution order -/

inductive MethodResolutionOrderError where
  | cyclic (name : String)
  | inconsistent (name : String)
  deriving DecidableEq

def notInTail (target : String) : List String → Bool
  | [] => true
  | _ :: tail => !tail.contains target

def isValidHead (linearizedSuccessors : List (List String)) (head : String) : Bool :=
  linearizedSuccessors.all (notInTail head)

def findHead (linearizedSuccessors : List (List String)) : Option String :=
  (linearizedSuccessors.filterMap List.head?).find? (isValidHead linearizedSuccessors)

def stripHead (head : String) : List String → Option (List String)
  | [] => none
  | [successorHead] => if successorHead = head then none else some [successorHead]
  | successorHead :: tail => if successorHead = head then some tail else some (successorHead :: tail)

def withoutHead (head : String) (linearizedSuccessors : List (List String)) :
    List (List String) := linearizedSuccessors.filterMap (stripHead head)

theorem stripHead_length_le {head : String} {l l' : List String} (h : stripHead head l = some l') :
    l'.length ≤ l.length := by
  unfold stripHead at h
  split at h
  · cases h
  · split at h <;> cases h
    exact le_rfl
  · split at h <;> cases h
    · exact Nat.le_succ _
    · exact le_rfl

theorem withoutHead_length_le (head : String) (lists : List (List String)) :
    (withoutHead head lists).flatten.length ≤ lists.flatten.length := by
  unfold withoutHead
  induction lists with
  | nil => exact le_rfl
  | cons l lists ih =>
    rw [List.filterMap_cons, List.flatten_cons, List.length_append]
    cases hstrip : stripHead head l with
    | none => exact ih.trans (Nat.le_add_left _ _)
    | some l' =>
      have hle := stripHead_length_le hstrip
      dsimp only
      rw [List.flatten_cons, List.length_append]
      omega

/-- A list with this head gets shorter. -/
theorem withoutHead_length_lt {head : String} {lists : List (List String)}
    (h : head ∈ lists.filterMap List.head?) :
    (withoutHead head lists).flatten.length < lists.flatten.length := by
  obtain ⟨l, hl, hhead⟩ := List.mem_filterMap.mp h
  obtain ⟨tail, rfl⟩ := List.head?_eq_some_iff.mp hhead
  obtain ⟨before, after, rfl⟩ := List.append_of_mem hl
  have hbefore := withoutHead_length_le head before
  have hafter := withoutHead_length_le head after
  have htail : withoutHead head [head :: tail] = [tail] ∨
      withoutHead head [head :: tail] = [] := by
    unfold withoutHead
    cases tail with
    | nil => exact Or.inr (by simp [stripHead])
    | cons next tail => exact Or.inl (by simp [stripHead])
  have happend : withoutHead head (before ++ (head :: tail) :: after) =
      withoutHead head before ++ (withoutHead head [head :: tail] ++ withoutHead head after) := by
    unfold withoutHead
    rw [← List.filterMap_append, ← List.filterMap_append]
    rfl
  rw [happend]
  rcases htail with htail | htail <;> rw [htail] <;>
    simp only [List.flatten_append, List.flatten_cons, List.flatten_nil, List.length_append,
      List.length_cons, List.length_nil] <;> omega

def merge (className : String) :
    List (List String) → Except MethodResolutionOrderError (List String)
  | [] => .ok []
  | [singleLinearizedParent] => .ok singleLinearizedParent
  | linearizedSuccessors =>
    match _h : findHead linearizedSuccessors with
    | none => .error (.inconsistent className)
    | some head => do
      let rest ← merge className (withoutHead head linearizedSuccessors)
      return head :: rest
termination_by lists => lists.flatten.length
decreasing_by exact withoutHead_length_lt (List.mem_of_find?_eq_some _h)

def linearize (parents : Parents) (visited : Finset String) (className : String) :
    Except MethodResolutionOrderError (List String) :=
  if _hnew : className ∈ visited then .error (.cyclic className)
  else do
    let linearizedSuccessors ← (immediateParents parents className).attach.mapM fun parent =>
      linearize parents (insert className visited) parent.1
    let rest ← merge className (linearizedSuccessors ++ [immediateParents parents className])
    return className :: rest
termination_by (parents.names \ visited).card
decreasing_by exact card_sdiff_insert_lt _hnew parent.2

def methodResolutionOrderLinearize (parents : Parents) (className : String) :
    Except MethodResolutionOrderError (List String) := linearize parents ∅ className

/-! ## 2. The search for cycles -/

structure Edges where
  parents : List Target
  deriving DecidableEq

/-- A handler that knows finitely many classes. -/
structure Handler where
  edges : String → Option Edges
  names : Finset String
  finite : ∀ name, (edges name).isSome → name ∈ names

/-- `parents_of`. -/
def Handler.parentsOf (handler : Handler) : Parents where
  get name := (handler.edges name).map (·.parents)
  names := handler.names
  finite name h := handler.finite name (by rwa [Option.isSome_map] at h)

inductive CheckIntegrityError where
  | cyclic (name : String)
  | incomplete (name : String)
  deriving DecidableEq

/-- The inner `visit`, over the path that leads to the class and the classes `started_from`. -/
def visit (parents : Parents) (reverseVisited : List String) (startedFrom : Finset String)
    (className : String) : Except CheckIntegrityError (Finset String) :=
  if _hnew : className ∈ reverseVisited then .error (.cyclic className)
  else if className ∈ startedFrom then .ok startedFrom
  else
    (immediateParents parents className).attach.foldlM
      (fun startedFrom parent =>
        visit parents (className :: reverseVisited) startedFrom parent.1)
      (insert className startedFrom)
termination_by (parents.names \ reverseVisited.toFinset).card
decreasing_by
  rw [List.toFinset_cons]
  exact card_sdiff_insert_lt (fun hmem => _hnew (List.mem_toFinset.mp hmem)) parent.2

def findCycle (parents : Parents) (startedFrom : Finset String) (start : String) :
    Except CheckIntegrityError (Finset String) :=
  if start ∈ startedFrom then .ok startedFrom else visit parents [] startedFrom start

def checkForCycles (handler : Handler) (classNames : List String) :
    Except CheckIntegrityError Unit := do
  let _ ← classNames.foldlM (findCycle handler.parentsOf) ∅
  return ()

def checkIntegrity (handler : Handler) (classNames : List String) :
    Except CheckIntegrityError Unit :=
  match classNames.find? fun name => (handler.edges name).isNone with
  | some name => .error (.incomplete name)
  | none => checkForCycles handler classNames

/-! ## 3. The recursions without the proofs of membership -/

theorem linearize_eq (parents : Parents) (visited : Finset String) (className : String) :
    linearize parents visited className =
      if className ∈ visited then .error (.cyclic className)
      else do
        let linearizedSuccessors ← (immediateParents parents className).mapM
          (linearize parents (insert className visited))
        let rest ← merge className (linearizedSuccessors ++ [immediateParents parents className])
        return className :: rest := by
  rw [linearize]
  split
  · rfl
  · rw [show (immediateParents parents className).mapM
        (linearize parents (insert className visited)) =
        (((immediateParents parents className).attach.map Subtype.val).mapM
          (linearize parents (insert className visited))) by rw [List.attach_map_subtype_val],
      List.mapM_map]
    rfl

theorem visit_eq (parents : Parents) (reverseVisited : List String) (startedFrom : Finset String)
    (className : String) :
    visit parents reverseVisited startedFrom className =
      if className ∈ reverseVisited then .error (.cyclic className)
      else if className ∈ startedFrom then .ok startedFrom
      else (immediateParents parents className).foldlM
        (visit parents (className :: reverseVisited)) (insert className startedFrom) := by
  rw [visit]
  split
  · rfl
  · split
    · rfl
    · rw [show (immediateParents parents className).foldlM
          (visit parents (className :: reverseVisited)) (insert className startedFrom) =
          ((immediateParents parents className).attach.map Subtype.val).foldlM
            (visit parents (className :: reverseVisited)) (insert className startedFrom) by
          rw [List.attach_map_subtype_val], List.foldlM_map]

end Pysa.ClassHierarchy
