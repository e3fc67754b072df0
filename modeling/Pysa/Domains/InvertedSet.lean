/-
  Subject: SETS THAT JOINS CAUSE TO SHRINK (`abstractInvertedSetDomain.ml`). Bottom is the universe,
    and the order is reversed.

  * `join`, `lessOrEqual`, `subtract`, `meet` and the transforms -- as in the source;
  * `represents` -- the elements of an inverted set;
  * `filterMap_eq` -- the result of a transform that adds element by element, from bottom: what is
    left, or the universe if nothing is left;
  * `invertedSet_laws` -- **the laws of the transforms and of the order**, save for what is left of
    nothing;
  * `not_invertedSet_laws` -- an empty set becomes the universe, and `meet` is not the union.
-/
import Mathlib.Data.Set.Basic
import Pysa.Domains.AbstractDomain

namespace Pysa

universe u v

/-- `inverted`; `Universe` is `univ`. -/
inductive InvertedSet (α : Type u) [LinearOrder α] where
  | univ
  | invertedSet (set : SortedSet α)
  deriving DecidableEq

namespace InvertedSet

variable {α : Type u} [LinearOrder α] {κ : Type v} [LinearOrder κ]

/-! ## 1. Operations -/

def singleton (element : α) : InvertedSet α := invertedSet (.singleton element)

def add (element : α) : InvertedSet α → InvertedSet α
  | univ => singleton element
  | invertedSet set => invertedSet (set.add element)

/-- `join`, logically the intersection. -/
def join : InvertedSet α → InvertedSet α → InvertedSet α
  | univ, right => right
  | left, univ => left
  | invertedSet left, invertedSet right => invertedSet (left.inter right)

def lessOrEqual : InvertedSet α → InvertedSet α → Bool
  | univ, _ => true
  | _, univ => false
  | invertedSet left, invertedSet right => right.subset left

def subtract (_toRemove source : InvertedSet α) : InvertedSet α := source

def domain : AbstractDomain (InvertedSet α) where
  bottom := univ
  isBottom := fun set => decide (set = univ)
  join := join
  meet := AbstractDomain.baseMeet lessOrEqual
  lessOrEqual := lessOrEqual
  widen := fun _ => join
  subtract := subtract

/-- The transform `Element, Map`. -/
def map (f : α → α) : InvertedSet α → InvertedSet α
  | univ => univ
  | invertedSet set => set.elements.foldl (fun result element => add (f element) result) univ

/-- The transform `Element, Filter`. -/
def filter (f : α → Bool) : InvertedSet α → InvertedSet α
  | univ => univ
  | invertedSet set => invertedSet (set.filter f)

/-- One step of the transform `Element, FilterMap`. -/
def addMapped (f : α → Option α) (result : InvertedSet α) (element : α) : InvertedSet α :=
  match f element with
  | some element => add element result
  | none => result

/-- The transform `Element, FilterMap`. -/
def filterMap (f : α → Option α) : InvertedSet α → InvertedSet α
  | univ => univ
  | invertedSet set => set.elements.foldl (addMapped f) univ

/-! ## 2. What a set represents -/

def represents : InvertedSet α → Set α
  | univ => Set.univ
  | invertedSet set => {x | x ∈ set}

variable {left right : InvertedSet α} {set : SortedSet α}

theorem represents_join (left right : InvertedSet α) :
    represents (join left right) = represents left ∩ represents right := by
  cases left with
  | univ => exact (Set.univ_inter _).symm
  | invertedSet left =>
    cases right with
    | univ => exact (Set.inter_univ _).symm
    | invertedSet right => exact Set.ext fun x => SortedSet.mem_inter

/-- The universe is below a set only if it stands as the universe: the domain does not see that a
    set has all elements. -/
theorem lessOrEqual_iff : lessOrEqual left right = true ↔
    represents right ⊆ represents left ∧ (right = univ → left = univ) := by
  cases left with
  | univ => exact iff_of_true rfl ⟨Set.subset_univ _, fun _ => rfl⟩
  | invertedSet left =>
    cases right with
    | univ => exact iff_of_false Bool.false_ne_true fun h => nomatch h.2 rfl
    | invertedSet right => exact SortedSet.subset_iff.trans (and_iff_left nofun).symm

theorem represents_meet (h : lessOrEqual left right = true ∨ lessOrEqual right left = true) :
    represents (domain.meet left right) = represents left ∪ represents right := by
  show represents (if lessOrEqual right left = true then right else left) = _
  by_cases hle : lessOrEqual right left = true
  · rw [if_pos hle, Set.union_eq_self_of_subset_left (lessOrEqual_iff.mp hle).1]
  · rw [if_neg hle, Set.union_eq_self_of_subset_right (lessOrEqual_iff.mp (h.resolve_right hle)).1]

/-! ## 3. Transforms -/

theorem foldl_addMapped (f : α → Option α) (list : List α) (set : SortedSet α) :
    list.foldl (addMapped f) (invertedSet set) =
      invertedSet (.addAll (list.filterMap f) set) := by
  induction list generalizing set with
  | nil => rfl
  | cons element rest ih =>
    rw [List.foldl_cons]
    cases hf : f element with
    | none => rw [List.filterMap_cons_none hf, ← ih, addMapped, hf]
    | some image =>
      rw [List.filterMap_cons_some hf, addMapped, hf]
      exact ih (set.add image)

/-- What a transform leaves, or the universe if it leaves nothing. -/
theorem foldl_addMapped_univ (f : α → Option α) (list : List α) :
    list.foldl (addMapped f) univ =
      if list.filterMap f = [] then univ else invertedSet (.ofList (list.filterMap f)) := by
  induction list with
  | nil => rfl
  | cons element rest ih =>
    rw [List.foldl_cons]
    cases hf : f element with
    | none => rw [List.filterMap_cons_none hf, ← ih, addMapped, hf]
    | some image =>
      rw [List.filterMap_cons_some hf, if_neg (List.cons_ne_nil _ _), addMapped, hf]
      exact foldl_addMapped f rest (.singleton image)

/-- Some element is left. -/
def Leaves (p : α → Bool) : InvertedSet α → Prop
  | univ => True
  | invertedSet set => ∃ element ∈ set, p element = true

/-- Filters by a predicate that leaves something agree. -/
theorem filterMap_eq_filter {p : α → Bool} {set : InvertedSet α} (h : set.Leaves p) :
    filterMap (fun element => if p element then some element else none) set = filter p set := by
  cases set with
  | univ => rfl
  | invertedSet set =>
    obtain ⟨element, hmem, hp⟩ := h
    have hne : set.elements.filterMap (fun element => if p element then some element else none) ≠
        [] := List.ne_nil_of_mem
      (List.mem_filterMap.mpr ⟨element, SortedSet.mem_elements.mpr hmem, if_pos hp⟩)
    rw [filterMap, foldl_addMapped_univ, if_neg hne, filter]
    refine congrArg invertedSet (SortedSet.ext fun x => ?_)
    simp [SortedSet.mem_elements, and_comm]

theorem map_eq_filterMap (f : α → α) (set : InvertedSet α) :
    map f set = filterMap (fun element => some (f element)) set := by
  cases set <;> rfl

/-- A map and a filter that leave something are one transform. -/
theorem filter_map {p : α → Bool} {g : α → α} {set : InvertedSet α}
    (h : set.Leaves (fun element => p (g element)) ∨ set = invertedSet .empty) :
    filter p (map g set) =
      filterMap (fun element => if p (g element) then some (g element) else none) set := by
  rcases h with h | rfl
  · cases set with
    | univ => rfl
    | invertedSet set =>
      obtain ⟨element, hmem, hp⟩ := h
      have helement : element ∈ set.elements := SortedSet.mem_elements.mpr hmem
      have hmapped : set.elements.filterMap (fun element => some (g element)) ≠ [] :=
        List.ne_nil_of_mem (List.mem_filterMap.mpr ⟨element, helement, rfl⟩)
      have hleft : set.elements.filterMap
          (fun element => if p (g element) then some (g element) else none) ≠ [] :=
        List.ne_nil_of_mem (List.mem_filterMap.mpr ⟨element, helement, if_pos hp⟩)
      rw [map_eq_filterMap, filterMap, foldl_addMapped_univ, if_neg hmapped, filter, filterMap,
        foldl_addMapped_univ, if_neg hleft]
      refine congrArg invertedSet (SortedSet.ext fun x => ?_)
      simp only [SortedSet.mem_filter, SortedSet.mem_ofList, List.mem_filterMap]
      constructor
      · rintro ⟨⟨y, hy, heq⟩, hx⟩
        cases heq
        exact ⟨y, hy, if_pos hx⟩
      · rintro ⟨y, hy, heq⟩
        split at heq
        · cases heq
          exact ⟨⟨y, hy, rfl⟩, ‹_›⟩
        · cases heq
  · rfl

/-! ## 4. The laws -/

/-- **The laws of the transforms and of the order.** -/
theorem invertedSet_laws (p : α → Bool) (g : α → α) (set left right : InvertedSet α) :
    (set.Leaves p →
      filterMap (fun element => if p element then some element else none) set = filter p set) ∧
    (set.Leaves (fun element => p (g element)) ∨ set = invertedSet .empty →
      filter p (map g set) =
        filterMap (fun element => if p (g element) then some (g element) else none) set) ∧
    represents (join left right) = represents left ∩ represents right ∧
    (lessOrEqual left right = true ↔
      represents right ⊆ represents left ∧ (right = univ → left = univ)) ∧
    (lessOrEqual left right = true ∨ lessOrEqual right left = true →
      represents (domain.meet left right) = represents left ∪ represents right) ∧
    (¬ lessOrEqual right left = true → domain.meet left right = left) ∧
    subtract left right = right :=
  ⟨filterMap_eq_filter, filter_map, represents_join left right, lessOrEqual_iff,
    represents_meet, fun hle => if_neg hle, rfl⟩

/-- Odd numbers of three, and their doubles. -/
theorem invertedSet_laws_numbers :
    let set : InvertedSet ℕ := invertedSet (.ofList [1, 2, 3])
    let odd : ℕ → Bool := fun n => n % 2 == 1
    filterMap (fun n => if odd n then some n else none) set = filter odd set ∧
      represents (domain.meet set (invertedSet (.ofList [1]))) =
        represents set ∪ represents (invertedSet (.ofList [1])) := by
  intro set odd
  obtain ⟨hfilter, -, -, -, hmeet, -⟩ :=
    invertedSet_laws odd id set set (invertedSet (.ofList [1]))
  exact ⟨hfilter ⟨1, by decide, rfl⟩, hmeet (Or.inl (by decide))⟩

/-- `FilterMap` and `Filter` differ where nothing is left, an empty set is mapped to the universe,
    and `meet` of two sets that are not comparable is the first. -/
theorem not_invertedSet_laws :
    let one : InvertedSet ℕ := singleton 1
    let p : ℕ → Bool := fun _ => false
    filterMap (fun n => if p n then some n else none) one ≠ filter p one ∧
      map id (invertedSet .empty) ≠ (invertedSet .empty : InvertedSet ℕ) ∧
      represents (domain.meet one (singleton 2)) ≠ represents one ∪ represents (singleton 2) := by
  intro one p
  refine ⟨nofun, nofun, fun heq => ?_⟩
  have hmem : 2 ∈ represents (domain.meet one (singleton 2)) :=
    heq ▸ Or.inr (SortedSet.mem_singleton.mpr rfl)
  exact absurd (SortedSet.mem_singleton.mp hmem) (by decide)

end InvertedSet

end Pysa
