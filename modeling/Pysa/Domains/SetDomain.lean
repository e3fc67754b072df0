/-
  Subject: SETS AS A DOMAIN (`abstractSetDomain.ml`).

  * `SetDomain.domain` -- union, intersection and difference, with the shortcuts of the source;
  * `SetDomain.lawful` -- it keeps the promises of `AbstractDomain.Lawful`, by the membership
    lemma of each operation;
  * `SetDomain.partition` -- the members by a key, each in the class of its key.
-/
import Pysa.Lib.AssocMap
import Pysa.Lib.Basic
import Pysa.Domains.AbstractDomain

namespace Pysa

universe u

namespace SetDomain

variable {α : Type u} [LinearOrder α] (phys : PhysEq (SortedSet α))

/-- `join`. The test `left == right` is physical equality. -/
def join (left right : SortedSet α) : SortedSet α :=
  if phys.test left right then left else left.union right

def meet (left right : SortedSet α) : SortedSet α :=
  if phys.test left right then left else left.inter right

def lessOrEqual (left right : SortedSet α) : Bool :=
  if phys.test left right || left.isEmpty then true
  else if right.isEmpty then false
  else left.subset right

def subtract (toRemove source : SortedSet α) : SortedSet α :=
  if phys.test toRemove source || source.isEmpty then .empty
  else if toRemove.isEmpty then source
  else source.diff toRemove

def domain : AbstractDomain (SortedSet α) where
  bottom := .empty
  isBottom := SortedSet.isEmpty
  join := join phys
  meet := meet phys
  lessOrEqual := lessOrEqual phys
  widen := fun _ => join phys
  subtract := subtract phys

variable {phys} {s t : SortedSet α} {x : α}

theorem mem_join : x ∈ join phys s t ↔ x ∈ s ∨ x ∈ t := by
  unfold join
  split
  · rename_i h
    rw [phys.sound h, or_self]
  · exact SortedSet.mem_union

theorem lessOrEqual_iff : lessOrEqual phys s t = true ↔ ∀ x ∈ s, x ∈ t := by
  unfold lessOrEqual
  split
  · rename_i h
    refine iff_of_true rfl fun x hx => ?_
    rcases Bool.or_eq_true_iff.mp h with hphys | hempty
    · exact phys.sound hphys ▸ hx
    · exact absurd hx (SortedSet.isEmpty_iff.mp hempty x)
  · rename_i h
    rw [Bool.or_eq_true, not_or] at h
    split
    · rename_i hempty
      refine iff_of_false Bool.false_ne_true fun hsub => h.2 (SortedSet.isEmpty_iff.mpr ?_)
      exact fun x hx => SortedSet.isEmpty_iff.mp hempty x (hsub x hx)
    · exact SortedSet.subset_iff

theorem mem_subtract : x ∈ subtract phys t s ↔ x ∈ s ∧ x ∉ t := by
  unfold subtract
  split
  · rename_i h
    refine iff_of_false (SortedSet.notMem_empty x) fun hx => ?_
    rcases Bool.or_eq_true_iff.mp h with hphys | hempty
    · exact hx.2 (phys.sound hphys ▸ hx.1)
    · exact SortedSet.isEmpty_iff.mp hempty x hx.1
  · split
    · rename_i hempty
      exact (and_iff_left (SortedSet.isEmpty_iff.mp hempty x)).symm
    · exact SortedSet.mem_diff

theorem isBottom_iff : (domain phys).isBottom s = true ↔ ∀ x, x ∉ s := SortedSet.isEmpty_iff

theorem lawful (phys : PhysEq (SortedSet α)) : (domain phys).Lawful where
  refl := fun _ => lessOrEqual_iff.mpr fun _ => id
  trans := fun h h' => lessOrEqual_iff.mpr fun x hx =>
    lessOrEqual_iff.mp h' x (lessOrEqual_iff.mp h x hx)
  bottom_le := fun _ => lessOrEqual_iff.mpr fun x hx => absurd hx (SortedSet.notMem_empty x)
  isBottom_iff := fun _ => isBottom_iff.trans
    ⟨fun h => lessOrEqual_iff.mpr fun x hx => absurd hx (h x),
      fun h x hx => SortedSet.notMem_empty x (lessOrEqual_iff.mp h x hx)⟩
  le_join_left := fun _ _ => lessOrEqual_iff.mpr fun _ hx => mem_join.mpr (Or.inl hx)
  le_join_right := fun _ _ => lessOrEqual_iff.mpr fun _ hx => mem_join.mpr (Or.inr hx)
  join_le := fun h h' => lessOrEqual_iff.mpr fun x hx =>
    (mem_join.mp hx).elim (lessOrEqual_iff.mp h x) (lessOrEqual_iff.mp h' x)
  le_widen_left := fun _ _ _ => lessOrEqual_iff.mpr fun _ hx => mem_join.mpr (Or.inl hx)
  le_widen_right := fun _ _ _ => lessOrEqual_iff.mpr fun _ hx => mem_join.mpr (Or.inr hx)
  widen_bottom := fun _ _ _ h h' => isBottom_iff.mpr fun x hx =>
    (mem_join.mp hx).elim (isBottom_iff.mp h x) (isBottom_iff.mp h' x)
  subtract_le := fun _ _ => lessOrEqual_iff.mpr fun _ hx => (mem_subtract.mp hx).1
  le_join_subtract := fun toRemove _ => lessOrEqual_iff.mpr fun x hx => by
    by_cases hmem : x ∈ toRemove
    · exact mem_join.mpr (Or.inr hmem)
    · exact mem_join.mpr (Or.inl (mem_subtract.mpr ⟨hx, hmem⟩))

/-! ## Partition -/

/-- `update` of `partition`. -/
def updateClass (element : α) : Option (SortedSet α) → SortedSet α
  | none => .singleton element
  | some set => set.add element

variable {κ : Type u} [DecidableEq κ]

/-- `partition` on `Element, By`. -/
def partition (f : α → κ) (set : SortedSet α) : AssocMap κ (SortedSet α) :=
  set.fold (fun element result => result.update (f element) (updateClass element)) ∅

theorem mem_updateClass {element : α} {cls : Option (SortedSet α)} :
    x ∈ updateClass element cls ↔ x = element ∨ x ∈ cls.getD .empty := by
  cases cls with
  | none => simp [updateClass]
  | some set => exact SortedSet.mem_add

/-- A class has the members with its key. -/
theorem mem_partition {f : α → κ} {set : SortedSet α} {key : κ} :
    x ∈ ((partition f set).lookup key).getD .empty ↔ x ∈ set ∧ f x = key := by
  have hfold (list : List α) (map : AssocMap κ (SortedSet α)) :
      x ∈ ((list.foldl (fun result element =>
        AssocMap.update (f element) (updateClass element) result) map).lookup key).getD .empty ↔
        (x ∈ list ∧ f x = key) ∨ x ∈ (map.lookup key).getD .empty := by
    induction list generalizing map with
    | nil => simp
    | cons first rest ih =>
      rw [List.foldl_cons, ih, AssocMap.lookup_update, List.mem_cons]
      by_cases hkey : key = f first
      · subst hkey
        rw [if_pos rfl, Option.getD_some, mem_updateClass]
        constructor
        · rintro (⟨hx, hf⟩ | rfl | hx)
          · exact Or.inl ⟨Or.inr hx, hf⟩
          · exact Or.inl ⟨Or.inl rfl, rfl⟩
          · exact Or.inr hx
        · rintro (⟨rfl | hx, hf⟩ | hx)
          · exact Or.inr (Or.inl rfl)
          · exact Or.inl ⟨hx, hf⟩
          · exact Or.inr (Or.inr hx)
      · rw [if_neg hkey]
        refine or_congr (and_congr_left fun hf => (or_iff_right fun hx => hkey ?_).symm) Iff.rfl
        rw [← hf, hx]
  exact (hfold set.elements ∅).trans (or_iff_left (SortedSet.notMem_empty x))

end SetDomain

end Pysa
