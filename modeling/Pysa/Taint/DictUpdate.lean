/-
  Subject: UPDATING A DICTIONARY, BACKWARD (`backwardAnalysis.ml`, `analyze_call` on `d.update`).

  The taint of the dictionary is read once. Each value gets what the dictionary has at its key; then
  the dictionary, without these keys, is stored over what the values added to it.

  * `Value`, `analyzeValue` -- variables, attributes and subscripts: each adds to its variable;
  * `updateDisplay`, `updateMapping` -- the two calls;
  * `includes_analyzeValue` -- what a value is given is read on its access path;
  * `EntryKept`, `MappingKept` -- what a value that reads the dictionary asks of its taint;
  * `updates_include_iff` -- **on this, both calls give each value its taint; and only on this, where
    the taint of the dictionary is minimal**.
-/
import Pysa.Taint.CallState

namespace Pysa

open Pysa.Tree
open Pysa.CallState (ForwardState addLocalBreadcrumbs keeps_iff storeTaint)

universe u

namespace DictUpdate

variable {R : Type} [DecidableEq R] {α : Type u} [DecidableEq α] (w : Finset α → Finset α)

/-! ## 1. The calls -/

/-- A state of the backward analysis has the same operations as one of the forward analysis. -/
abbrev BackwardState (R : Type) (α : Type u) := ForwardState R α

/-- A variable, an attribute, or a subscript; `none` is an index that is no literal. -/
inductive Value (R : Type) where
  | identifier (root : R)
  | attributeAccess (base : Value R) (name : String)
  | subscript (base : Value R) (index : Option String)

namespace Value

def root : Value R → R
  | identifier root => root
  | attributeAccess base _ => base.root
  | subscript base _ => base.root

/-- `get_index`. -/
def getIndex : Option String → Label
  | some name => .index name
  | none => .anyIndex

/-- The access path below the variable; an attribute is an index. -/
def path : Value R → List Label
  | identifier _ => []
  | attributeAccess base name => base.path ++ [.index name]
  | subscript base index => base.path ++ [getIndex index]

end Value

def prepend (path : List Label) (taint : Tree (Finset α)) : Tree (Finset α) :=
  createTree (plainSet w) path taint

/-- `analyze_expression` of a value. A subscript is that of a receiver that is not resolved; its
    index is analyzed with no taint. -/
def analyzeValue : Value R → Tree (Finset α) → BackwardState R α → BackwardState R α
  | .identifier root, taint, state =>
    storeTaint w true ⟨root, []⟩ (addLocalBreadcrumbs w taint) state
  | .attributeAccess base name, taint, state =>
    analyzeValue base (prepend w [.index name] (addLocalBreadcrumbs w taint)) state
  | .subscript base index, taint, state =>
    analyzeValue base (addLocalBreadcrumbs w (prepend w [Value.getIndex index] taint)) state

def readTree (path : List Label) (taint : Tree (Finset α)) : Tree (Finset α) :=
  read (plainSet w) (fun _ e => e) path taint

/-- What the dictionary has after the call. -/
def dictTaint (phys : PhysEq (Tree (Finset α))) (globalTaint : Tree (Finset α)) (baseRoot : R)
    (state : BackwardState R α) : Tree (Finset α) :=
  join (plainSet w) phys globalTaint (readTree w [] (state baseRoot))

/-- The taint of the dictionary without a key. -/
def clearKey (taint : Tree (Finset α)) (key : String) : Tree (Finset α) :=
  assign (plainSet w) false taint [.index key] (emptyTree (plainSet w))

/-- The value of an entry; the position that is added to its taint is no kind. -/
def analyzeEntry (dictTaint : Tree (Finset α)) (state : BackwardState R α)
    (entry : String × Value R) : BackwardState R α :=
  analyzeValue w entry.2 (addLocalBreadcrumbs w (readTree w [.index entry.1] dictTaint)) state

def overrideTaintFromUpdate (dictTaint : Tree (Finset α))
    (result : Tree (Finset α) × BackwardState R α) (entry : String × Value R) :
    Tree (Finset α) × BackwardState R α :=
  (clearKey w result.1 entry.1, analyzeEntry w dictTaint result.2 entry)

section Calls

variable (phys : PhysEq (Tree (Finset α))) (globalTaint : Tree (Finset α)) (baseRoot : R)
  (state : BackwardState R α)

/-- `d.update({"k": e, …})`. -/
def updateDisplay (entries : List (String × Value R)) : BackwardState R α :=
  let dictTaint := dictTaint w phys globalTaint baseRoot state
  let result := entries.foldl (overrideTaintFromUpdate w dictTaint) (dictTaint, state)
  storeTaint w false ⟨baseRoot, []⟩ result.1 result.2

/-- `d.update(e)`. -/
def updateMapping (argument : Value R) : BackwardState R α :=
  let dictTaint := dictTaint w phys globalTaint baseRoot state
  let state := analyzeValue w argument (addLocalBreadcrumbs w dictTaint) state
  storeTaint w false ⟨baseRoot, []⟩ dictTaint state

/-! ## 2. What the claim of a value is -/

/-- The access path of the value reads in `tree` all that the dictionary has below `prefix_`. -/
def Includes (value : Value R) (prefix_ : List Label) (dict tree : Tree (Finset α)) : Prop :=
  ∀ p, Instance (Label.Refined.toRefinedPath value.path) p →
    ∀ q : List Label, (∀ k ∈ q, k.Concrete) →
      readRoot w (prefix_ ++ q) dict ⊆ readRoot w (p ++ q) tree

/-- Each value of the display gets what the dictionary has at its key. -/
def DisplayIncludes (entries : List (String × Value R)) : Prop :=
  ∀ entry ∈ entries, Includes w entry.2 [.index entry.1] (dictTaint w phys globalTaint baseRoot state)
    (updateDisplay w phys globalTaint baseRoot state entries entry.2.root)

/-- The mapping gets all that the dictionary has. -/
def MappingIncludes (argument : Value R) : Prop :=
  Includes w argument [] (dictTaint w phys globalTaint baseRoot state)
    (updateMapping w phys globalTaint baseRoot state argument argument.root)

/-- What the dictionary has on a path apart from the keys: below a key, only what its root and its
    `[*]` have. -/
def taintWithout (keys : List String) (dict : Tree (Finset α)) : List Label → Finset α
  | .index key :: rest =>
    if key ∈ keys then taintAt (.anyIndex :: rest) dict else taintAt (.index key :: rest) dict
  | path => taintAt path dict

/-- A value for the key, if it reads the dictionary, finds on its path, apart from the keys of the
    display, all that the dictionary has below the key. -/
def EntryKept (keys : List String) (dict : Tree (Finset α)) (entry : String × Value R) : Prop :=
  ∀ p, Instance (Label.Refined.toRefinedPath entry.2.path) p →
    ∀ q : List Label, (∀ k ∈ q, k.Concrete) →
      taintAt (.index entry.1 :: q) dict ⊆ taintWithout keys dict (p ++ q)

/-- A mapping that reads the dictionary finds on its path all that the dictionary has. -/
def MappingKept (dict : Tree (Finset α)) (argument : Value R) : Prop :=
  ∀ p, Instance (Label.Refined.toRefinedPath argument.path) p →
    ∀ q : List Label, (∀ k ∈ q, k.Concrete) → taintAt q dict ⊆ taintAt (p ++ q) dict

end Calls

/-! ## 3. Values -/

variable {w}

theorem keeps_analyzeValue (value : Value R) (taint : Tree (Finset α)) (state : BackwardState R α) :
    CallState.Keeps w state (analyzeValue w value taint state) := by
  induction value generalizing taint with
  | identifier root =>
    have hcreates : (CallState.Write.effect ⟨root, []⟩
        (addLocalBreadcrumbs w taint)).CreatesNoIndex w state := Or.inr trivial
    have hkeeps := CallState.Write.keeps _ hcreates
    rwa [CallState.Write.apply] at hkeeps
  | attributeAccess base name ih => exact ih _
  | subscript base index ih => exact ih _

/-- An instance of a longer path ends in an instance of the last label. -/
theorem instance_concat {path : List Label} {l : Label} {p : List Label}
    (hp : Instance (Label.Refined.toRefinedPath (path ++ [l])) p) :
    ∃ p' k, Instance (Label.Refined.toRefinedPath path) p' ∧
      (Label.Refined.toRefined l).Matches k ∧ p = p' ++ [k] := by
  induction path generalizing p with
  | nil =>
    obtain ⟨k, rest, hk, hrest, rfl⟩ := List.forall₂_cons_left_iff.mp hp
    cases hrest
    exact ⟨[], k, .nil, hk, rfl⟩
  | cons first path ih =>
    obtain ⟨k, rest, hk, hrest, rfl⟩ := List.forall₂_cons_left_iff.mp hp
    obtain ⟨p', last, hp', hlast, rfl⟩ := ih hrest
    exact ⟨k :: p', last, .cons hk hp', hlast, rfl⟩

/-- **A value is read where its access path leads.** By induction on the value: the last label is put
    in front of the taint, and the rest of the path is that of the base. -/
theorem includes_analyzeValue (value : Value R) (taint : Tree (Finset α))
    (state : BackwardState R α) {p : List Label}
    (hp : Instance (Label.Refined.toRefinedPath value.path) p) {q : List Label}
    (hq : ∀ k ∈ q, k.Concrete) :
    taintAt q taint ⊆ taintAt (p ++ q) (analyzeValue w value taint state value.root) := by
  induction value generalizing taint p q with
  | identifier root =>
    cases hp
    rw [List.nil_append, Value.root, analyzeValue, storeTaint, Function.update_self]
    exact (CallState.taintAt_subset_addLocalBreadcrumbs taint hq).trans
      (taintAt_subset_assign_weak_nil _ _ hq)
  | attributeAccess base name ih =>
    obtain ⟨p', k, hp', hk, rfl⟩ := instance_concat hp
    have hkq : ∀ k' ∈ k :: q, k'.Concrete := List.forall_mem_cons.mpr ⟨hk.concrete, hq⟩
    rw [List.append_assoc, List.singleton_append, Value.root, analyzeValue]
    exact ((CallState.taintAt_subset_addLocalBreadcrumbs taint hq).trans
      (taintAt_subset_createTree_of_matches hk q _)).trans (ih _ hp' hkq)
  | subscript base index ih =>
    obtain ⟨p', k, hp', hk, rfl⟩ := instance_concat hp
    have hkq : ∀ k' ∈ k :: q, k'.Concrete := List.forall_mem_cons.mpr ⟨hk.concrete, hq⟩
    rw [List.append_assoc, List.singleton_append, Value.root, analyzeValue]
    exact ((taintAt_subset_createTree_of_matches hk q taint).trans
      (CallState.taintAt_subset_addLocalBreadcrumbs _ hkq)).trans (ih _ hp' hkq)

/-! ## 4. The calls -/

section Calls

variable (phys : PhysEq (Tree (Finset α))) (globalTaint : Tree (Finset α)) (baseRoot : R)
  (state : BackwardState R α)

/-- The fold over the entries: the keys go from the dictionary, the values are analyzed. -/
theorem foldl_overrideTaint (entries : List (String × Value R)) (dict taint : Tree (Finset α))
    (state : BackwardState R α) :
    entries.foldl (overrideTaintFromUpdate w dict) (taint, state) =
      ((entries.map Prod.fst).foldl (clearKey w) taint,
        entries.foldl (analyzeEntry w dict) state) := by
  induction entries generalizing taint state with
  | nil => rfl
  | cons entry rest ih => exact ih _ _

theorem updateDisplay_eq (entries : List (String × Value R)) :
    updateDisplay w phys globalTaint baseRoot state entries =
      storeTaint w false ⟨baseRoot, []⟩
        ((entries.map Prod.fst).foldl (clearKey w) (dictTaint w phys globalTaint baseRoot state))
        (entries.foldl (analyzeEntry w (dictTaint w phys globalTaint baseRoot state)) state) := by
  rw [updateDisplay, foldl_overrideTaint]

/-- A minimal tree is stored as it is. -/
theorem taintAt_assign_nil {subtree : Tree (Finset α)}
    (hminimal : BottomOrMinimal (plainSet w) ∅ subtree) (tree : Tree (Finset α)) (q : List Label) :
    taintAt q (assign (plainSet w) false tree [] subtree) = taintAt q subtree := by
  have hprune := assignAt_nil (w := w) subtree (plainSet w).bottom tree
  rw [assignAt] at hprune
  rw [assign, if_neg Bool.false_ne_true, assignTreePath, hprune]
  have hread := taintAt_pruneTree (w := w) (PruneRedirect.of_minimal hminimal q)
  rwa [Finset.empty_union, Finset.empty_union] at hread

/-- Without a key, the dictionary has its other children and what stands at its root. -/
theorem clearKey_spec (dict : Tree (Finset α)) (key : String) :
    (clearKey w dict key).element = dict.element ∧ ∀ k, (clearKey w dict key).children.find? k =
      if k = .index key then none else dict.children.find? k := by
  have hlevel : clearKey w dict key = optionNodeTree (plainSet w) (createNodeOption (plainSet w)
      dict.element (dict.children.setOrRemove (.index key) none)) := by
    have hcons := assignAt_cons (w := w) (k := .index key) trivial (emptyTree (plainSet w)) []
      (plainSet w).bottom dict
    rw [assignAt_nil, pruneTree_eq_none (covered_emptyTree _)] at hcons
    rw [clearKey, assign, if_neg Bool.false_ne_true, assignTreePath]
    exact congrArg (optionNodeTree (plainSet w)) hcons
  have hfind : ∀ k, (dict.children.setOrRemove (.index key) none).find? k =
      if k = .index key then none else dict.children.find? k :=
    fun k => by convert SortedMap.find?_setOrRemove (.index key) k none dict.children
  rw [hlevel]
  obtain ⟨h, hc, he⟩ | ⟨h, -⟩ := createNodeOption_cases (plainSet w) dict.element
    (dict.children.setOrRemove (.index key) none)
  · rw [setElement_isBottom, decide_eq_true_eq] at he
    rw [h, he]
    refine ⟨rfl, fun k => ?_⟩
    rw [← hfind, hc]
    rfl
  · rw [h]
    exact ⟨rfl, hfind⟩

theorem foldl_clearKey_spec (keys : List String) (dict : Tree (Finset α)) :
    (keys.foldl (clearKey w) dict).element = dict.element ∧
      ∀ k, (keys.foldl (clearKey w) dict).children.find? k =
        if ∃ key ∈ keys, k = .index key then none else dict.children.find? k := by
  induction keys generalizing dict with
  | nil => exact ⟨rfl, fun k => (if_neg (by simp)).symm⟩
  | cons key rest ih =>
    obtain ⟨helement, hfind⟩ := ih (clearKey w dict key)
    obtain ⟨helement', hfind'⟩ := clearKey_spec (w := w) dict key
    refine ⟨helement.trans helement', fun k => ?_⟩
    rw [List.foldl_cons, hfind, hfind']
    simp only [List.exists_mem_cons_iff]
    by_cases hrest : ∃ key' ∈ rest, k = .index key'
    · rw [if_pos hrest, if_pos (Or.inr hrest)]
    · rw [if_neg hrest]
      simp only [hrest, or_false]

/-- What is read of the dictionary without the keys. -/
theorem taintAt_foldl_clearKey (keys : List String) (dict : Tree (Finset α)) {path : List Label}
    (hpath : ∀ k ∈ path, k.Concrete) :
    taintAt path (keys.foldl (clearKey w) dict) = taintWithout keys dict path := by
  obtain ⟨helement, hfind⟩ := foldl_clearKey_spec (w := w) keys dict
  cases path with
  | nil => exact helement
  | cons k rest =>
    rw [taintAt, helement]
    cases k with
    | anyIndex => exact (hpath _ List.mem_cons_self).elim
    | field f =>
      rw [taintWithout, taintAt, lookup_field, lookup_field, hfind, if_neg (by simp)]
      simp
    | index i =>
      have hstar := hfind .anyIndex
      rw [if_neg (by simp)] at hstar
      have hown := hfind (.index i)
      rw [taintWithout]
      by_cases hi : i ∈ keys
      · rw [if_pos ⟨i, hi, rfl⟩] at hown
        rw [if_pos hi, lookup_index_of_none hown, hstar, taintAt, lookup_anyIndex]
      · rw [if_neg (by simpa using hi)] at hown
        rw [if_neg hi, taintAt]
        cases hdict : dict.children.find? (.index i) with
        | some s => rw [lookup_of_find? (hown.trans hdict), lookup_of_find? hdict]
        | none => rw [lookup_index_of_none (hown.trans hdict), lookup_index_of_none hdict, hstar]

theorem updateDisplay_base (entries : List (String × Value R)) :
    ∃ tree, updateDisplay w phys globalTaint baseRoot state entries baseRoot =
      assign (plainSet w) false tree [] ((entries.map Prod.fst).foldl (clearKey w)
        (dictTaint w phys globalTaint baseRoot state)) := by
  rw [updateDisplay_eq, storeTaint, Function.update_self]
  exact ⟨_, rfl⟩

theorem updateMapping_base (argument : Value R) :
    ∃ tree, updateMapping w phys globalTaint baseRoot state argument baseRoot =
      assign (plainSet w) false tree [] (dictTaint w phys globalTaint baseRoot state) := by
  rw [updateMapping, storeTaint, Function.update_self]
  exact ⟨_, rfl⟩

theorem keeps_entries (entries : List (String × Value R)) (dict : Tree (Finset α))
    (state : BackwardState R α) :
    CallState.Keeps w state (entries.foldl (analyzeEntry w dict) state) := by
  induction entries generalizing state with
  | nil => exact CallState.Keeps.refl state
  | cons entry rest ih => exact (keeps_analyzeValue entry.2 _ state).trans (ih _)

/-- What an entry gives to a variable, the later ones keep. -/
theorem subset_taintAt_entries {entries : List (String × Value R)} {entry : String × Value R}
    (hentry : entry ∈ entries) {dict : Tree (Finset α)} {given : Finset α} {root : R}
    {path : List Label} (hpath : ∀ k ∈ path, k.Concrete)
    (hgiven : ∀ state : BackwardState R α,
      given ⊆ taintAt path (analyzeEntry w dict state entry root)) (state : BackwardState R α) :
    given ⊆ taintAt path (entries.foldl (analyzeEntry w dict) state root) := by
  obtain ⟨before, after, rfl⟩ := List.append_of_mem hentry
  rw [List.foldl_append, List.foldl_cons]
  exact (hgiven _).trans (keeps_iff.mp (keeps_entries after dict _) root path hpath)

theorem readRoot_subset_readKey (key : String) {q : List Label} (hq : ∀ k ∈ q, k.Concrete)
    (dict : Tree (Finset α)) :
    readRoot w ([.index key] ++ q) dict ⊆
      taintAt q (addLocalBreadcrumbs w (readTree w [.index key] dict)) := by
  refine Finset.Subset.trans ?_ (CallState.taintAt_subset_addLocalBreadcrumbs _ hq)
  rw [← readRoot_eq (w := w) hq]
  exact readRoot_subset_read (l := .index key) (.index key) hq dict

/-- A value that does not read the dictionary keeps what it was given. -/
theorem includes_of_entry {entries : List (String × Value R)} {entry : String × Value R}
    (hentry : entry ∈ entries) (hroot : entry.2.root ≠ baseRoot) :
    Includes w entry.2 [.index entry.1] (dictTaint w phys globalTaint baseRoot state)
      (updateDisplay w phys globalTaint baseRoot state entries entry.2.root) := by
  intro p hp q hq
  have hpq : ∀ k ∈ p ++ q, k.Concrete :=
    List.forall_mem_append.mpr ⟨Instance.concrete hp, hq⟩
  rw [updateDisplay_eq, storeTaint, Function.update_of_ne hroot, readRoot_eq (w := w) hpq]
  exact subset_taintAt_entries hentry hpq (fun state => (readRoot_subset_readKey entry.1 hq _).trans
    (includes_analyzeValue entry.2 _ state hp hq)) state

theorem includes_of_argument {argument : Value R} (hroot : argument.root ≠ baseRoot) :
    Includes w argument [] (dictTaint w phys globalTaint baseRoot state)
      (updateMapping w phys globalTaint baseRoot state argument argument.root) := by
  intro p hp q hq
  have hpq : ∀ k ∈ p ++ q, k.Concrete :=
    List.forall_mem_append.mpr ⟨Instance.concrete hp, hq⟩
  rw [updateMapping, storeTaint, Function.update_of_ne hroot, readRoot_eq hpq, List.nil_append,
    readRoot_eq hq]
  exact (CallState.taintAt_subset_addLocalBreadcrumbs _ hq).trans
    (includes_analyzeValue argument _ state hp hq)

theorem minimal_foldl_clearKey {dict : Tree (Finset α)} (h : BottomOrMinimal (plainSet w) ∅ dict)
    (keys : List String) : BottomOrMinimal (plainSet w) ∅ (keys.foldl (clearKey w) dict) := by
  induction keys generalizing dict with
  | nil => exact h
  | cons key rest ih => exact ih (assign_minimal false _ _ h)

/-- What is stored over the dictionary by a display. -/
theorem updateDisplay_read (entries : List (String × Value R)) {path : List Label}
    (hpath : ∀ k ∈ path, k.Concrete) :
    taintWithout (entries.map Prod.fst) (dictTaint w phys globalTaint baseRoot state) path ⊆
        readRoot w path (updateDisplay w phys globalTaint baseRoot state entries baseRoot) ∧
      (BottomOrMinimal (plainSet w) ∅ (dictTaint w phys globalTaint baseRoot state) →
        readRoot w path (updateDisplay w phys globalTaint baseRoot state entries baseRoot) =
          taintWithout (entries.map Prod.fst) (dictTaint w phys globalTaint baseRoot state) path) := by
  obtain ⟨tree, htree⟩ := updateDisplay_base (w := w) phys globalTaint baseRoot state entries
  rw [htree, readRoot_eq hpath, ← taintAt_foldl_clearKey (w := w) _ _ hpath]
  exact ⟨taintAt_subset_assign_nil _ _ hpath,
    fun h => taintAt_assign_nil (minimal_foldl_clearKey h _) _ _⟩

theorem updateMapping_read (argument : Value R) {path : List Label}
    (hpath : ∀ k ∈ path, k.Concrete) :
    taintAt path (dictTaint w phys globalTaint baseRoot state) ⊆
        readRoot w path (updateMapping w phys globalTaint baseRoot state argument baseRoot) ∧
      (BottomOrMinimal (plainSet w) ∅ (dictTaint w phys globalTaint baseRoot state) →
        readRoot w path (updateMapping w phys globalTaint baseRoot state argument baseRoot) =
          taintAt path (dictTaint w phys globalTaint baseRoot state)) := by
  obtain ⟨tree, htree⟩ := updateMapping_base (w := w) phys globalTaint baseRoot state argument
  rw [htree, readRoot_eq hpath]
  exact ⟨taintAt_subset_assign_nil _ _ hpath, fun h => taintAt_assign_nil h _ _⟩

/-- **Both calls give each value its taint if every value that reads the dictionary finds it in what
    the dictionary has on its path**, for a display apart from its keys; and only then, if the taint
    of the dictionary is minimal, as all trees of the domain are. -/
theorem updates_include_iff (entries : List (String × Value R)) (argument : Value R) :
    let dict := dictTaint w phys globalTaint baseRoot state
    let kept := (∀ entry ∈ entries, entry.2.root = baseRoot →
        EntryKept (entries.map Prod.fst) dict entry) ∧
      (argument.root = baseRoot → MappingKept dict argument)
    let included := DisplayIncludes w phys globalTaint baseRoot state entries ∧
      MappingIncludes w phys globalTaint baseRoot state argument
    (kept → included) ∧ (BottomOrMinimal (plainSet w) ∅ dict → included → kept) := by
  intro dict kept included
  have hconcrete : ∀ {path p q : List Label}, Instance (Label.Refined.toRefinedPath path) p →
      (∀ k ∈ q, k.Concrete) → ∀ k ∈ p ++ q, k.Concrete := fun hp hq =>
    List.forall_mem_append.mpr ⟨Instance.concrete hp, hq⟩
  have hkey : ∀ (key : String) {q : List Label}, (∀ k ∈ q, k.Concrete) →
      readRoot w ([.index key] ++ q) dict = taintAt (.index key :: q) dict := fun key q hq =>
    readRoot_eq (List.forall_mem_cons.mpr ⟨show (Label.index key).Concrete from trivial, hq⟩) dict
  refine ⟨fun h => ⟨fun entry hentry => ?_, ?_⟩, fun hminimal h =>
    ⟨fun entry hentry hroot p hp q hq => ?_, fun hroot p hp q hq => ?_⟩⟩
  · by_cases hroot : entry.2.root = baseRoot
    · intro p hp q hq
      rw [hkey entry.1 hq, hroot]
      exact (h.1 entry hentry hroot p hp q hq).trans
        (updateDisplay_read phys globalTaint baseRoot state entries (hconcrete hp hq)).1
    · exact includes_of_entry phys globalTaint baseRoot state hentry hroot
  · by_cases hroot : argument.root = baseRoot
    · intro p hp q hq
      rw [List.nil_append, readRoot_eq hq, hroot]
      exact (h.2 hroot p hp q hq).trans
        (updateMapping_read phys globalTaint baseRoot state argument (hconcrete hp hq)).1
    · exact includes_of_argument phys globalTaint baseRoot state hroot
  · have hread := h.1 entry hentry p hp q hq
    rwa [hkey entry.1 hq, hroot, (updateDisplay_read phys globalTaint baseRoot state entries
      (hconcrete hp hq)).2 hminimal] at hread
  · have hread := h.2 p hp q hq
    rwa [List.nil_append, readRoot_eq hq, hroot, (updateMapping_read phys globalTaint baseRoot state
      argument (hconcrete hp hq)).2 hminimal] at hread

end Calls

/-- `d["a"]` has taint after the call. -/
def taintedKey : BackwardState Unit ℕ :=
  fun _ => .node ∅ (.singleton (.index "a") (createLeaf {0}))

/-- `d.update({"a": d["b"]})` and `d.update(d["b"])`: what `d["b"]` was given is stored over. -/
theorem not_updates_include :
    ¬ DisplayIncludes id (.never _) (emptyTree (plainSet id)) () taintedKey
        [("a", .subscript (.identifier ()) (some "b"))] ∧
      ¬ MappingIncludes id (.never _) (emptyTree (plainSet id)) () taintedKey
        (.subscript (.identifier ()) (some "b")) := by
  have hinstance : Instance (Label.Refined.toRefinedPath [.index "b"]) [.index "b"] :=
    .cons (.index "b") .nil
  constructor
  · intro h
    have hread := h _ (List.mem_singleton_self _) _ hinstance [] (by simp)
    exact absurd hread (by decide +kernel)
  · intro h
    have hread := h _ hinstance [.index "a"] (by simp [Label.Concrete])
    exact absurd hread (by decide +kernel)

end DictUpdate

end Pysa
