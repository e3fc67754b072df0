/-
  Subject: WHAT SEVERAL MODULES SHARE. Nothing here names the analyser.

  * `mem_of_mapM` -- the elements of a list computed by `mapM` in `Option`;
  * `countP_lt_of_mem` -- a strict comparison of counts;
  * `PhysEq` -- a physical-equality test. Two values at one address are equal; equal values need
    not share an address. A shortcut taken on `test a b` may be taken or missed at any pair of
    equal values, so a statement about a function with such shortcuts quantifies over `PhysEq`.
-/
import Mathlib.Data.List.Basic
import Mathlib.Tactic.TypeStar

namespace Pysa

universe u

theorem mem_of_mapM {α β : Type*} {f : α → Option β} {xs : List α} {ys : List β}
    (h : xs.mapM f = some ys) :
    (∀ y ∈ ys, ∃ x ∈ xs, f x = some y) ∧ ∀ x ∈ xs, ∃ y ∈ ys, f x = some y := by
  induction xs generalizing ys with
  | nil =>
    obtain rfl : [] = ys := Option.some.inj h
    simp
  | cons x xs ih =>
    rw [List.mapM_cons] at h
    obtain ⟨y, hy, h⟩ := Option.bind_eq_some_iff.mp h
    obtain ⟨zs, hzs, h⟩ := Option.bind_eq_some_iff.mp h
    obtain rfl : y :: zs = ys := Option.some.inj h
    obtain ⟨hleft, hright⟩ := ih hzs
    constructor
    · rintro z (_ | ⟨_, hz⟩)
      · exact ⟨x, List.mem_cons_self, hy⟩
      · obtain ⟨w, hw, hfw⟩ := hleft z hz
        exact ⟨w, List.mem_cons_of_mem _ hw, hfw⟩
    · rintro w (_ | ⟨_, hw⟩)
      · exact ⟨y, List.mem_cons_self, hy⟩
      · obtain ⟨z, hz, hfw⟩ := hright w hw
        exact ⟨z, List.mem_cons_of_mem _ hz, hfw⟩

/-- A narrower test that misses an element of the list counts fewer. -/
theorem countP_lt_of_mem {α : Type*} {p q : α → Bool} {xs : List α} {x : α} (hmem : x ∈ xs)
    (hp : p x = true) (hq : q x = false) (h : ∀ y, q y = true → p y = true) :
    xs.countP q < xs.countP p := by
  obtain ⟨left, right, rfl⟩ := List.append_of_mem hmem
  rw [List.countP_append, List.countP_append, List.countP_cons_of_pos hp,
    List.countP_cons_of_neg (by rw [hq]; exact Bool.false_ne_true)]
  have hleft : left.countP q ≤ left.countP p := List.countP_mono_left fun y _ => h y
  have hright : right.countP q ≤ right.countP p := List.countP_mono_left fun y _ => h y
  omega

/-- A physical-equality test on a heap: sound, and nothing more. -/
structure PhysEq (α : Type u) where
  test : α → α → Bool
  sound : ∀ {a b}, test a b = true → a = b

/-- A shortcut that reuses an equal part changes nothing. -/
theorem PhysEq.ite_eq {α β : Type*} (phys : PhysEq α) (f : α → β) (a b : α) :
    (if phys.test a b = true then f b else f a) = f a := by
  split
  · rename_i h
    rw [phys.sound h]
  · rfl

theorem PhysEq.ite_eq_of_right {α β : Type*} (phys : PhysEq α) (f : α → β) (a b : α) :
    (if phys.test b a = true then f b else f a) = f a := by
  split
  · rename_i h
    rw [phys.sound h]
  · rfl

theorem PhysEq.ite_and_eq {α β : Type*} (phys : PhysEq α) (f : α → α → β) (a b c d : α) {x : β}
    (hx : x = f a c) : (if (phys.test a b && phys.test c d) = true then f b d else x) = f a c := by
  split
  · rename_i h
    rw [Bool.and_eq_true] at h
    rw [phys.sound h.1, phys.sound h.2]
  · exact hx

/-- The test that never finds two addresses equal. -/
def PhysEq.never (α : Type u) : PhysEq α := ⟨fun _ _ => false, fun h => Bool.noConfusion h⟩

end Pysa
