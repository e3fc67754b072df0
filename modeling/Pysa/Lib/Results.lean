/-
  Subject: COMPUTATIONS THAT MAY FAIL. Nothing here names the analyser.

  When a sequence, and a loop over a list, of computations in `Except` succeeds.
-/
import Mathlib.Data.List.Basic
import Mathlib.Tactic.TypeStar

namespace Pysa.Results

variable {ε α β : Type}

theorem bind_eq_ok_iff {x : Except ε α} {f : α → Except ε β} {b : β} :
    x >>= f = .ok b ↔ ∃ a, x = .ok a ∧ f a = .ok b := by
  cases x with
  | error e => exact iff_of_false (fun h => by cases h) (fun ⟨_, h, _⟩ => by cases h)
  | ok a =>
    constructor
    · exact fun h => ⟨a, rfl, h⟩
    · rintro ⟨_, ⟨⟩, h⟩
      exact h

theorem mapM_cons_eq_ok_iff {f : α → Except ε β} {x : α} {xs : List α} {zs : List β} :
    (x :: xs).mapM f = .ok zs ↔ ∃ y ys, f x = .ok y ∧ xs.mapM f = .ok ys ∧ zs = y :: ys := by
  rw [List.mapM_cons, bind_eq_ok_iff]
  constructor
  · rintro ⟨y, hy, h⟩
    obtain ⟨ys, hys, h⟩ := bind_eq_ok_iff.mp h
    cases h
    exact ⟨y, ys, hy, hys, rfl⟩
  · rintro ⟨y, ys, hy, hys, rfl⟩
    exact ⟨y, hy, bind_eq_ok_iff.mpr ⟨ys, hys, rfl⟩⟩

/-- Every element has a result, and every result an element. -/
theorem mapM_mem {f : α → Except ε β} {xs : List α} {ys : List β} (h : xs.mapM f = .ok ys) :
    (∀ x ∈ xs, ∃ y ∈ ys, f x = .ok y) ∧ ∀ y ∈ ys, ∃ x ∈ xs, f x = .ok y := by
  induction xs generalizing ys with
  | nil =>
    rw [List.mapM_nil] at h
    cases h
    exact ⟨fun _ hx => absurd hx List.not_mem_nil, fun _ hy => absurd hy List.not_mem_nil⟩
  | cons x xs ih =>
    obtain ⟨y, ys, hy, hys, rfl⟩ := mapM_cons_eq_ok_iff.mp h
    obtain ⟨hleft, hright⟩ := ih hys
    constructor
    · intro x' hx'
      rcases List.mem_cons.mp hx' with rfl | hx'
      · exact ⟨y, List.mem_cons_self, hy⟩
      · obtain ⟨y', hy', h'⟩ := hleft x' hx'
        exact ⟨y', List.mem_cons_of_mem _ hy', h'⟩
    · intro y' hy'
      rcases List.mem_cons.mp hy' with rfl | hy'
      · exact ⟨x, List.mem_cons_self, hy⟩
      · obtain ⟨x', hx', h'⟩ := hright y' hy'
        exact ⟨x', List.mem_cons_of_mem _ hx', h'⟩

theorem mapM_mono {f g : α → Except ε β} {xs : List α} {ys : List β}
    (hfg : ∀ x ∈ xs, ∀ y, f x = .ok y → g x = .ok y) (h : xs.mapM f = .ok ys) :
    xs.mapM g = .ok ys := by
  induction xs generalizing ys with
  | nil => exact h
  | cons x xs ih =>
    obtain ⟨y, ys, hy, hys, rfl⟩ := mapM_cons_eq_ok_iff.mp h
    exact mapM_cons_eq_ok_iff.mpr ⟨y, ys, hfg x List.mem_cons_self y hy,
      ih (fun x' hx' => hfg x' (List.mem_cons_of_mem _ hx')) hys, rfl⟩

theorem mapM_exists {f : α → Except ε β} {xs : List α} (h : ∀ x ∈ xs, ∃ y, f x = .ok y) :
    ∃ ys, xs.mapM f = .ok ys := by
  induction xs with
  | nil => exact ⟨[], rfl⟩
  | cons x xs ih =>
    obtain ⟨y, hy⟩ := h x List.mem_cons_self
    obtain ⟨ys, hys⟩ := ih fun x' hx' => h x' (List.mem_cons_of_mem _ hx')
    exact ⟨y :: ys, mapM_cons_eq_ok_iff.mpr ⟨y, ys, hy, hys, rfl⟩⟩

end Pysa.Results
