/-
  Subject: THE SET-VALUED ELEMENT DOMAIN (`abstractSetDomain.ml`, as the element of a tree).

  * `Sink` -- the two transformations on sink: the identity, and a fixed set that is kept;
  * `setElement` -- finite sets under union; widening is join;
  * `setElement_lawful`, `setElement_lawfulSink` -- it satisfies what the tree domain relies on.
-/
import Mathlib.Data.Finset.SDiff
import Pysa.Domains.TreeDomain

namespace Pysa

universe u

variable {α : Type u} [DecidableEq α]

/-! ## 1. Transformations on sink -/

/-- What happens to a set when it becomes an ancestor. -/
inductive Sink (α : Type u) where
  | identity
  | inter (kept : Finset α)

namespace Sink

def apply : Sink α → Finset α → Finset α
  | identity, s => s
  | inter kept, s => s ∩ kept

/-- The members that survive. -/
def Keeps : Sink α → α → Prop
  | identity, _ => True
  | inter kept, x => x ∈ kept

@[simp] theorem mem_apply (sink : Sink α) (s : Finset α) (x : α) :
    x ∈ sink.apply s ↔ x ∈ s ∧ sink.Keeps x := by
  cases sink <;> simp [apply, Keeps]

@[simp] theorem apply_identity (s : Finset α) : (identity : Sink α).apply s = s := rfl

end Sink

/-! ## 2. The domain -/

/-- Finite sets under union, as an element domain. -/
def setElement (onWideningCollapse : Finset α → Finset α) (sink : Sink α)
    (onHoist : Finset α → Finset α) : Element (Finset α) where
  bottom := ∅
  isBottom s := decide (s = ∅)
  join a b := a ∪ b
  widen _ prev next := prev ∪ next
  lessOrEqual a b := decide (a ⊆ b)
  subtract toRemove from_ := from_ \ toRemove
  transformOnWideningCollapse := onWideningCollapse
  transformOnSink := sink.apply
  transformOnHoist := onHoist

section Operations

variable {onWideningCollapse : Finset α → Finset α} {sink : Sink α}
  {onHoist : Finset α → Finset α} (a b : Finset α)

@[simp] theorem setElement_bottom : (setElement onWideningCollapse sink onHoist).bottom = ∅ := rfl

@[simp] theorem setElement_isBottom :
    (setElement onWideningCollapse sink onHoist).isBottom a = decide (a = ∅) := rfl

@[simp] theorem setElement_join :
    (setElement onWideningCollapse sink onHoist).join a b = a ∪ b := rfl

@[simp] theorem setElement_widen (n : Nat) :
    (setElement onWideningCollapse sink onHoist).widen n a b = a ∪ b := rfl

@[simp] theorem setElement_lessOrEqual :
    (setElement onWideningCollapse sink onHoist).lessOrEqual a b = decide (a ⊆ b) := rfl

@[simp] theorem setElement_subtract :
    (setElement onWideningCollapse sink onHoist).subtract a b = b \ a := rfl

@[simp] theorem setElement_transformOnSink :
    (setElement onWideningCollapse sink onHoist).transformOnSink a = sink.apply a := rfl

/-- What filtering leaves of a set is its part outside the ancestors. -/
@[simp] theorem filterByAncestors_newElement :
    (filterByAncestors (setElement onWideningCollapse sink onHoist) a b).newElement = b \ a := by
  unfold filterByAncestors
  simp only [setElement_subtract, setElement_lessOrEqual, decide_eq_true_eq]
  split
  · rename_i h
    exact (Finset.subset_empty.mp fun x hx => absurd (h hx) (Finset.mem_sdiff.mp hx).2).symm
  · rfl

theorem filterByAncestors_ancestors :
    (filterByAncestors (setElement onWideningCollapse sink onHoist) a b).ancestors =
      if b ⊆ a then a else sink.apply (a ∪ b) := by
  have hiff : b \ a ⊆ a ↔ b ⊆ a := by
    rw [← Finset.sdiff_eq_empty_iff_subset (s := b)]
    refine ⟨fun h => Finset.subset_empty.mp fun x hx =>
      absurd (h hx) (Finset.mem_sdiff.mp hx).2, fun h => by rw [h]; exact Finset.empty_subset a⟩
  unfold filterByAncestors
  simp only [setElement_subtract, setElement_lessOrEqual, decide_eq_true_eq, hiff]
  split <;> rfl

end Operations

variable (onWideningCollapse : Finset α → Finset α) (sink : Sink α)
  (onHoist : Finset α → Finset α)

theorem setElement_lawful : (setElement onWideningCollapse sink onHoist).Lawful where
  refl a := by simp
  trans h₁ h₂ := by
    simp only [setElement_lessOrEqual, decide_eq_true_eq] at *
    exact h₁.trans h₂
  bottom_le a := by simp
  isBottom_iff a := by simp
  le_join_left a b := by simp
  le_join_right a b := by simp
  join_le h₁ h₂ := by
    simp only [setElement_lessOrEqual, setElement_join, decide_eq_true_eq] at *
    exact Finset.union_subset h₁ h₂
  subtract_le a b := by simp
  le_subtract_join a b := by simp

theorem setElement_lawfulSink : (setElement onWideningCollapse sink onHoist).LawfulSink where
  mono h := by
    simp only [setElement_lessOrEqual, setElement_transformOnSink, decide_eq_true_eq] at *
    intro x
    simp only [Sink.mem_apply]
    exact And.imp_left (h ·)
  reductive a := by
    simp only [setElement_lessOrEqual, setElement_transformOnSink, decide_eq_true_eq]
    intro x
    simp only [Sink.mem_apply]
    exact And.left
  idempotent a := by
    simp only [setElement_lessOrEqual, setElement_transformOnSink, decide_eq_true_eq]
    intro x
    simp only [Sink.mem_apply]
    exact fun h => ⟨h, h.2⟩
  join a b := by
    simp only [setElement_lessOrEqual, setElement_transformOnSink, setElement_join,
      decide_eq_true_eq]
    intro x
    simp only [Sink.mem_apply, Finset.mem_union]
    tauto

end Pysa
