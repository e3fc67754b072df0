/-
  Subject: RECURSION WITH FUEL. Nothing here names the analyser.

  A run that returns with some fuel returns the same with more. `Refines f g` says so of two
  functions; the rules carry it through the loops over a list that the recursive calls stand in.
-/
import Mathlib.Data.List.Basic
import Mathlib.Tactic.TypeStar

namespace Pysa.Fuel

/-- What `f` returns, `g` returns. -/
def Refines {α β : Type*} (f g : α → Option β) : Prop := ∀ x y, f x = some y → g x = some y

variable {α β : Type*}

theorem Refines.foldlM {f g : β → α → Option β} (h : ∀ s, Refines (f s) (g s)) {xs : List α}
    {s y : β} (hrun : xs.foldlM f s = some y) : xs.foldlM g s = some y := by
  induction xs generalizing s with
  | nil => exact hrun
  | cons x xs ih =>
    rw [List.foldlM_cons] at hrun ⊢
    obtain ⟨next, hnext, hrun⟩ := Option.bind_eq_some_iff.mp hrun
    rw [h s x next hnext]
    exact ih hrun

/-- What returns with each amount of fuel still returns with a greater one. -/
theorem Refines.of_succ {f : ℕ → α → Option β} (h : ∀ fuel, Refines (f fuel) (f (fuel + 1)))
    {fuel fuel' : ℕ} (hle : fuel ≤ fuel') : Refines (f fuel) (f fuel') := by
  induction hle with
  | refl => exact fun _ _ hrun => hrun
  | step _ ih => exact fun x y hrun => h _ x y (ih x y hrun)

end Pysa.Fuel
