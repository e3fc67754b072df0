/-
  Subject: REMOVING CONSECUTIVE DUPLICATES OF A SORTED LIST. Nothing here names the analyser.

  The duplicates are those of a relation that need not follow the order. Of each run of related
  neighbours the first element is kept.

  * `removeConsecutiveFrom_cover` -- every element is related to one that is kept, at or before it,
    and so is everything between the two;
  * `removeConsecutive_pairwise_iff` -- **no two related elements are kept if and only if no other
    element lies between two related ones**;
  * `removeConsecutive_congr` -- what is kept depends on the elements only.
-/
import Mathlib.Data.Finset.Dedup
import Mathlib.Data.List.Pairwise
import Mathlib.Data.List.Sort

namespace Pysa

universe u

section Consecutive

variable {α : Type u} (related : α → α → Prop) [DecidableRel related]

/-- The loop of `List.remove_consecutive_duplicates`, with the element that is kept. -/
def removeConsecutiveFrom (toKeep : α) : List α → List α
  | [] => [toKeep]
  | hd :: tl =>
    if related hd toKeep then removeConsecutiveFrom toKeep tl
    else toKeep :: removeConsecutiveFrom hd tl

/-- `List.remove_consecutive_duplicates`, where the first of a run is kept. -/
def removeConsecutiveDuplicates : List α → List α
  | [] => []
  | hd :: tl => removeConsecutiveFrom related hd tl

variable {related}

theorem removeConsecutiveFrom_sublist (toKeep : α) (xs : List α) :
    (removeConsecutiveFrom related toKeep xs).Sublist (toKeep :: xs) := by
  induction xs generalizing toKeep with
  | nil => exact List.Sublist.refl _
  | cons hd tl ih =>
    rw [removeConsecutiveFrom]
    split
    · exact (ih toKeep).trans (List.cons_sublist_cons.mpr (List.sublist_cons_self _ _))
    · exact List.cons_sublist_cons.mpr (ih hd)

theorem removeConsecutiveDuplicates_sublist (related : α → α → Prop) [DecidableRel related]
    (xs : List α) :
    (removeConsecutiveDuplicates related xs).Sublist xs := by
  cases xs with
  | nil => exact List.Sublist.refl _
  | cons hd tl => exact removeConsecutiveFrom_sublist hd tl

/-- It starts with what is kept. -/
theorem removeConsecutiveFrom_eq_cons (related : α → α → Prop) [DecidableRel related] (toKeep : α)
    (xs : List α) :
    ∃ rest, removeConsecutiveFrom related toKeep xs = toKeep :: rest := by
  induction xs with
  | nil => exact ⟨[], rfl⟩
  | cons hd tl ih =>
    rw [removeConsecutiveFrom]
    split
    · exact ih
    · exact ⟨_, rfl⟩

/-- Neighbours of the result are not related. -/
theorem removeConsecutiveFrom_isChain (toKeep : α) (xs : List α) :
    (removeConsecutiveFrom related toKeep xs).IsChain fun x y => ¬ related y x := by
  induction xs generalizing toKeep with
  | nil => exact .singleton _
  | cons hd tl ih =>
    rw [removeConsecutiveFrom]
    split
    · exact ih toKeep
    case isFalse hne =>
      obtain ⟨rest, hrest⟩ := removeConsecutiveFrom_eq_cons related hd tl
      have hchain := ih hd
      rw [hrest] at hchain ⊢
      exact .cons_cons hne hchain

/-- Leaving out a repetition first makes no difference. -/
theorem removeConsecutiveFrom_squash [DecidableEq α] (hrefl : ∀ x, related x x) {last toKeep : α}
    (h : related last toKeep) (xs : List α) :
    removeConsecutiveFrom related toKeep (removeConsecutiveFrom (· = ·) last xs).tail =
      removeConsecutiveFrom related toKeep xs := by
  induction xs generalizing last toKeep with
  | nil => rfl
  | cons hd tl ih =>
    rw [removeConsecutiveFrom]
    by_cases heq : hd = last
    · subst heq
      rw [if_pos rfl, removeConsecutiveFrom, if_pos h]
      exact ih h
    · rw [if_neg heq, List.tail_cons]
      obtain ⟨rest, hrest⟩ := removeConsecutiveFrom_eq_cons (· = ·) hd tl
      by_cases hkeep : related hd toKeep
      · have hstep := ih hkeep
        rw [hrest, List.tail_cons] at hstep
        rw [hrest, removeConsecutiveFrom, if_pos hkeep, hstep, removeConsecutiveFrom,
          if_pos hkeep]
      · have hstep := ih (hrefl hd)
        rw [hrest, List.tail_cons] at hstep
        rw [hrest, removeConsecutiveFrom, if_neg hkeep, hstep, removeConsecutiveFrom,
          if_neg hkeep]

end Consecutive

section Sorted

variable {α : Type u} [LinearOrder α] {related : α → α → Prop} [DecidableRel related]

/-- Every element has a related one that is kept, with related elements only in between. -/
theorem removeConsecutiveFrom_cover (hrelated : Equivalence related) (toKeep : α) (xs : List α)
    (hsorted : (toKeep :: xs).Pairwise (· ≤ ·)) {x : α} (hx : x ∈ toKeep :: xs) :
    ∃ y ∈ removeConsecutiveFrom related toKeep xs, y ≤ x ∧ related y x ∧
      ∀ z ∈ toKeep :: xs, y ≤ z → z ≤ x → related y z := by
  induction xs generalizing toKeep x with
  | nil =>
    obtain rfl := List.mem_singleton.mp hx
    refine ⟨x, List.mem_singleton.mpr rfl, le_rfl, hrelated.refl x, fun z hz _ _ => ?_⟩
    rw [List.mem_singleton.mp hz]
    exact hrelated.refl x
  | cons hd tl ih =>
    obtain ⟨hle, hsorted'⟩ := List.pairwise_cons.mp hsorted
    have hhd := (List.pairwise_cons.mp hsorted').1
    have hkeep : toKeep ≤ hd := hle hd List.mem_cons_self
    rw [removeConsecutiveFrom]
    split
    case isTrue hdup =>
      have hsorted'' : (toKeep :: tl).Pairwise (· ≤ ·) :=
        hsorted.sublist (List.cons_sublist_cons.mpr (List.sublist_cons_self _ _))
      -- `hd` is at or below the rest, and related to what is kept
      have hbetween {y : α} (hy : y ∈ removeConsecutiveFrom related toKeep tl) (hyhd : y ≤ hd) :
          related y hd := by
        rcases List.mem_cons.mp ((removeConsecutiveFrom_sublist toKeep tl).subset hy) with rfl | hy
        · exact hrelated.symm hdup
        · rw [le_antisymm hyhd (hhd y hy)]
          exact hrelated.refl hd
      have hold {x : α} (hx : x ∈ toKeep :: tl) :
          ∃ y ∈ removeConsecutiveFrom related toKeep tl, y ≤ x ∧ related y x ∧
            ∀ z ∈ toKeep :: hd :: tl, y ≤ z → z ≤ x → related y z := by
        obtain ⟨y, hy, hyx, hrel, hrun⟩ := ih toKeep hsorted'' hx
        refine ⟨y, hy, hyx, hrel, fun z hz hyz hzx => ?_⟩
        rcases List.mem_cons.mp hz with rfl | hz
        · exact hrun _ List.mem_cons_self hyz hzx
        · rcases List.mem_cons.mp hz with rfl | hz
          · exact hbetween hy hyz
          · exact hrun z (List.mem_cons_of_mem _ hz) hyz hzx
      rcases List.mem_cons.mp hx with rfl | hx
      · exact hold List.mem_cons_self
      · rcases List.mem_cons.mp hx with rfl | hx
        · obtain ⟨rest, hrest⟩ := removeConsecutiveFrom_eq_cons related toKeep tl
          refine ⟨toKeep, by rw [hrest]; exact List.mem_cons_self, hkeep, hrelated.symm hdup,
            fun z hz _ hzx => ?_⟩
          rcases List.mem_cons.mp hz with rfl | hz
          · exact hrelated.refl _
          · rw [le_antisymm hzx ?_]
            · exact hrelated.symm hdup
            · rcases List.mem_cons.mp hz with rfl | hz
              · exact le_rfl
              · exact hhd z hz
        · exact hold (List.mem_cons_of_mem _ hx)
    case isFalse hne =>
      rcases List.mem_cons.mp hx with rfl | hx
      · refine ⟨x, List.mem_cons_self, le_rfl, hrelated.refl x, fun z hz hxz hzx => ?_⟩
        rw [le_antisymm hzx hxz]
        exact hrelated.refl x
      · obtain ⟨y, hy, hyx, hrel, hrun⟩ := ih hd hsorted' hx
        refine ⟨y, List.mem_cons_of_mem _ hy, hyx, hrel, fun z hz hyz hzx => ?_⟩
        rcases List.mem_cons.mp hz with rfl | hz
        · -- an element kept after `z` and at or below it would be `hd`, which is not related
          have hhdy : hd ≤ y := by
            rcases List.mem_cons.mp ((removeConsecutiveFrom_sublist hd tl).subset hy) with rfl | hy
            · exact le_rfl
            · exact hhd y hy
          have heq : hd = z := le_antisymm (hhdy.trans hyz) hkeep
          exact absurd (heq ▸ hrelated.refl hd) hne
        · exact hrun z hz hyz hzx

theorem removeConsecutiveDuplicates_cover (hrelated : Equivalence related) {xs : List α}
    (hsorted : xs.Pairwise (· ≤ ·)) {x : α} (hx : x ∈ xs) :
    ∃ y ∈ removeConsecutiveDuplicates related xs, y ≤ x ∧ related y x ∧
      ∀ z ∈ xs, y ≤ z → z ≤ x → related y z := by
  cases xs with
  | nil => cases hx
  | cons hd tl => exact removeConsecutiveFrom_cover hrelated hd tl hsorted hx

omit [DecidableRel related] in
/-- In a sorted list where related elements have none but related ones between them, a chain of
    unrelated neighbours has no two related elements at all. -/
theorem pairwise_of_isChain {xs : List α} (hsorted : xs.Pairwise (· ≤ ·))
    (hrelated : Equivalence related) (hchain : xs.IsChain fun x y => ¬ related y x)
    (hconvex : ∀ a ∈ xs, ∀ b ∈ xs, ∀ c ∈ xs, a ≤ b → b ≤ c → related a c → related a b) :
    xs.Pairwise fun x y => ¬ related x y := by
  induction xs with
  | nil => exact .nil
  | cons x xs ih =>
    obtain ⟨hle, hsorted'⟩ := List.pairwise_cons.mp hsorted
    refine List.pairwise_cons.mpr ⟨fun y hy hxy => ?_, ih hsorted' hchain.of_cons
      fun a ha b hb c hc => hconvex a (List.mem_cons_of_mem _ ha) b (List.mem_cons_of_mem _ hb)
        c (List.mem_cons_of_mem _ hc)⟩
    cases xs with
    | nil => cases hy
    | cons next rest =>
      have hnext : ¬ related next x := by
        cases hchain with
        | cons_cons hne _ => exact hne
      have hley : next ≤ y := by
        rcases List.mem_cons.mp hy with rfl | hy
        · exact le_rfl
        · exact (List.pairwise_cons.mp hsorted').1 y hy
      exact hnext (hrelated.symm (hconvex x List.mem_cons_self next
        (List.mem_cons_of_mem _ List.mem_cons_self) y (List.mem_cons_of_mem _ hy)
        (hle next List.mem_cons_self) hley hxy))

/-- **No two related elements are kept if and only if nothing else lies between two related
    elements of the list.** -/
theorem removeConsecutive_pairwise_iff (hrelated : Equivalence related) {xs : List α}
    (hsorted : xs.Pairwise (· ≤ ·)) :
    (removeConsecutiveDuplicates related xs).Pairwise (fun x y => ¬ related x y) ↔
      ∀ a ∈ xs, ∀ b ∈ xs, ∀ c ∈ xs, a ≤ b → b ≤ c → related a c → related a b := by
  have hsub := removeConsecutiveDuplicates_sublist related xs
  constructor
  · intro hpairwise a ha b hb c hc hab hbc hac
    obtain ⟨y, hy, hya, hrel, -⟩ := removeConsecutiveDuplicates_cover hrelated hsorted ha
    obtain ⟨y', hy', -, hrel', hrun⟩ := removeConsecutiveDuplicates_cover hrelated hsorted hc
    have heq : y = y' := by
      by_contra hne
      have hsymm : Std.Symm fun x y => ¬ related x y := ⟨fun x y h h' => h (hrelated.symm h')⟩
      exact hpairwise.forall hy hy' hne
        (hrelated.trans hrel (hrelated.trans hac (hrelated.symm hrel')))
    subst heq
    exact hrelated.trans (hrelated.symm hrel) (hrun b hb (hya.trans hab) hbc)
  · intro hconvex
    refine pairwise_of_isChain (hsorted.sublist hsub) hrelated ?_ fun a ha b hb c hc =>
      hconvex a (hsub.subset ha) b (hsub.subset hb) c (hsub.subset hc)
    cases xs with
    | nil => exact .nil
    | cons hd tl => exact removeConsecutiveFrom_isChain hd tl

/-- Without repetitions a sorted list is its set of elements. -/
theorem removeConsecutiveDuplicates_eq_sorted {xs : List α} (hsorted : xs.Pairwise (· ≤ ·)) :
    (removeConsecutiveDuplicates (· = ·) xs).Pairwise (· < ·) ∧
      ∀ x, x ∈ removeConsecutiveDuplicates (· = ·) xs ↔ x ∈ xs := by
  have hsub := removeConsecutiveDuplicates_sublist (· = ·) xs
  constructor
  · have hne := (removeConsecutive_pairwise_iff eq_equivalence hsorted).mpr
      fun a _ b _ c _ hab hbc hac => le_antisymm hab (hbc.trans_eq hac.symm)
    exact (hsorted.sublist hsub).imp₂ (fun _ _ hle hne => lt_of_le_of_ne hle hne) hne
  · refine fun x => ⟨fun hx => hsub.subset hx, fun hx => ?_⟩
    obtain ⟨y, hy, -, rfl, -⟩ := removeConsecutiveDuplicates_cover eq_equivalence hsorted hx
    exact hy

/-- **What is kept of two sorted lists with the same elements is the same.** -/
theorem removeConsecutive_congr (hrefl : ∀ x, related x x) {xs ys : List α}
    (hxs : xs.Pairwise (· ≤ ·)) (hys : ys.Pairwise (· ≤ ·)) (h : ∀ x, x ∈ xs ↔ x ∈ ys) :
    removeConsecutiveDuplicates related xs = removeConsecutiveDuplicates related ys := by
  have hsquash (xs : List α) : removeConsecutiveDuplicates related
      (removeConsecutiveDuplicates (· = ·) xs) = removeConsecutiveDuplicates related xs := by
    cases xs with
    | nil => rfl
    | cons hd tl =>
      obtain ⟨rest, hrest⟩ := removeConsecutiveFrom_eq_cons (· = ·) hd tl
      have hfrom := removeConsecutiveFrom_squash hrefl (hrefl hd) tl
      rw [hrest] at hfrom
      rw [removeConsecutiveDuplicates, hrest]
      exact hfrom
  obtain ⟨hxs', hmem⟩ := removeConsecutiveDuplicates_eq_sorted hxs
  obtain ⟨hys', hmem'⟩ := removeConsecutiveDuplicates_eq_sorted hys
  rw [← hsquash xs, ← hsquash ys]
  congr 1
  exact (List.perm_of_nodup_nodup_toFinset_eq (hxs'.imp ne_of_lt) (hys'.imp ne_of_lt)
    (by ext x; simp [hmem, hmem', h x])).eq_of_pairwise
      (fun _ _ _ _ hab hba => absurd hab (not_lt.mpr hba.le)) hxs' hys'

end Sorted

end Pysa
