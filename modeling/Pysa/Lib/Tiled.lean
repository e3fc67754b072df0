/-
  Subject: RANGES THAT ARE FILLED BY PIECES WITHOUT GAPS. Nothing here names the analyser.

  * `Tiled` -- the pieces of a list lie one behind the other, and each is as it should be where it
    lies;
  * `Tiled.append`, `Tiled.split` -- two ranges behind each other;
  * `Tiled.mono` -- each piece may be looked at where it lies;
  * `Tiled.at_mem` -- where a given piece lies, and what is on either side of it.
-/
import Mathlib.Algebra.Ring.Nat
import Mathlib.Tactic.Common

namespace Pysa

universe u

variable {B : Type u}

/-- The pieces fill the range from `lo` to `hi`. -/
def Tiled (size : B → ℕ) (holds : ℕ → B → Prop) (lo : ℕ) : List B → ℕ → Prop
  | [], hi => lo = hi
  | piece :: rest, hi => holds lo piece ∧ Tiled size holds (lo + size piece) rest hi

namespace Tiled

variable {size : B → ℕ} {holds holds' : ℕ → B → Prop} {lo mid hi : ℕ} {pieces pieces' : List B}
  {piece : B}

theorem nil : Tiled size holds lo [] lo := rfl

theorem hi_eq (h : Tiled size holds lo pieces hi) : hi = lo + (pieces.map size).sum := by
  induction pieces generalizing lo with
  | nil => exact h.symm
  | cons piece rest ih =>
    have hrest := ih h.2
    rw [List.map_cons, List.sum_cons, hrest, Nat.add_assoc]

theorem le (h : Tiled size holds lo pieces hi) : lo ≤ hi := by
  rw [h.hi_eq]
  exact Nat.le_add_right _ _

theorem length_le (h : Tiled size holds lo pieces hi) (hpos : ∀ piece, 0 < size piece) :
    lo + pieces.length ≤ hi := by
  induction pieces generalizing lo with
  | nil =>
    have heq : lo = hi := h
    exact Nat.le_of_eq heq
  | cons piece rest ih =>
    have hrest := ih h.2
    have hpiece := hpos piece
    rw [List.length_cons]
    omega

theorem append (h : Tiled size holds lo pieces mid) (h' : Tiled size holds mid pieces' hi) :
    Tiled size holds lo (pieces ++ pieces') hi := by
  induction pieces generalizing lo with
  | nil =>
    cases h
    exact h'
  | cons piece rest ih => exact ⟨h.1, ih h.2⟩

theorem split (h : Tiled size holds lo (pieces ++ pieces') hi) :
    ∃ mid, Tiled size holds lo pieces mid ∧ Tiled size holds mid pieces' hi := by
  induction pieces generalizing lo with
  | nil => exact ⟨lo, rfl, h⟩
  | cons piece rest ih =>
    obtain ⟨mid, hrest, hpieces'⟩ := ih h.2
    exact ⟨mid, ⟨h.1, hrest⟩, hpieces'⟩

theorem singleton (h : holds lo piece) : Tiled size holds lo [piece] (lo + size piece) := ⟨h, rfl⟩

/-- What is known of each piece may be exchanged where it lies. -/
theorem mono (h : Tiled size holds lo pieces hi)
    (hholds : ∀ a, ∀ piece ∈ pieces, lo ≤ a → a + size piece ≤ hi → holds a piece →
      holds' a piece) :
    Tiled size holds' lo pieces hi := by
  induction pieces generalizing lo with
  | nil => exact h
  | cons piece rest ih =>
    have hle := Tiled.le h.2
    refine ⟨hholds lo piece List.mem_cons_self (Nat.le_refl lo) hle h.1, ih h.2 ?_⟩
    intro a other hmem ha
    exact hholds a other (List.mem_cons_of_mem _ hmem) (Nat.le_of_add_right_le ha)

/-- Where a piece lies, with the pieces on either side of it. -/
theorem at_mem (h : Tiled size holds lo pieces hi) (hmem : piece ∈ pieces) :
    ∃ before after a, pieces = before ++ piece :: after ∧ Tiled size holds lo before a ∧
      holds a piece ∧ Tiled size holds (a + size piece) after hi := by
  obtain ⟨before, after, rfl⟩ := List.append_of_mem hmem
  obtain ⟨a, hbefore, hpiece, hafter⟩ := h.split
  exact ⟨before, after, a, rfl, hbefore, hpiece, hafter⟩

end Tiled

end Pysa
