/-
  Subject: CALL TARGETS (`callGraph.ml`), SORTED AND WITHOUT DUPLICATES.

  Targets are compared by all their fields, in order; the index of the call stands in the middle.
  Duplicates agree on all fields but the index, and are removed between neighbours.

  * `dedupAndSort` -- from the source;
  * `Deduplicated` -- what it is for: the result depends on the set of targets, has no two equal up
    to the index, and one at or below each target;
  * `deduplicated_iff` -- **this holds if and only if no target stands between two that are equal up
    to the index without being equal to them up to the index**;
  * `not_deduplicated` -- two calls that return integers, and one in between that does not.
-/
import Mathlib.Data.Prod.Lex
import Mathlib.Order.WithBot
import Pysa.Lib.Consecutive

namespace Pysa

@[ext] structure CallTarget (Target ReturnType ClassId : Type) where
  target : Target
  implicitReceiver : Bool
  implicitDunderCall : Bool
  index : ℤ
  returnType : Option ReturnType
  receiverClass : Option ClassId
  isClassMethod : Bool
  isStaticMethod : Bool

namespace CallTarget

variable {Target ReturnType ClassId : Type}

/-- The fields in the order in which they are compared. -/
def fields (t : CallTarget Target ReturnType ClassId) :
    Target ×ₗ Bool ×ₗ Bool ×ₗ ℤ ×ₗ WithBot ReturnType ×ₗ WithBot ClassId ×ₗ Bool ×ₗ Bool :=
  toLex (t.target, toLex (t.implicitReceiver, toLex (t.implicitDunderCall, toLex (t.index,
    toLex ((t.returnType : WithBot ReturnType), toLex ((t.receiverClass : WithBot ClassId),
      toLex (t.isClassMethod, t.isStaticMethod)))))))

theorem fields_injective :
    Function.Injective (fields : CallTarget Target ReturnType ClassId → _) := by
  intro a b h
  obtain ⟨htarget, h⟩ := Prod.mk.inj h
  obtain ⟨hreceiver, h⟩ := Prod.mk.inj h
  obtain ⟨hdunder, h⟩ := Prod.mk.inj h
  obtain ⟨hindex, h⟩ := Prod.mk.inj h
  obtain ⟨hreturn, h⟩ := Prod.mk.inj h
  obtain ⟨hclass, h⟩ := Prod.mk.inj h
  obtain ⟨hclassMethod, hstaticMethod⟩ := Prod.mk.inj h
  exact CallTarget.ext htarget hreceiver hdunder hindex hreturn hclass hclassMethod hstaticMethod

variable [LinearOrder Target] [LinearOrder ReturnType] [LinearOrder ClassId]

/-- The derived `compare`. -/
instance : LinearOrder (CallTarget Target ReturnType ClassId) :=
  LinearOrder.lift' fields fields_injective

def equalIgnoringIndices (left right : CallTarget Target ReturnType ClassId) : Prop :=
  left = { right with index := left.index }

instance (left right : CallTarget Target ReturnType ClassId) :
    Decidable (equalIgnoringIndices left right) :=
  inferInstanceAs (Decidable (left = { right with index := left.index }))

def dedupAndSort (targets : List (CallTarget Target ReturnType ClassId)) :
    List (CallTarget Target ReturnType ClassId) :=
  removeConsecutiveDuplicates equalIgnoringIndices (targets.insertionSort (· ≤ ·))

variable {targets : List (CallTarget Target ReturnType ClassId)}

omit [LinearOrder Target] [LinearOrder ReturnType] [LinearOrder ClassId] in
theorem equalIgnoringIndices_iff {a b : CallTarget Target ReturnType ClassId} :
    equalIgnoringIndices a b ↔ { a with index := 0 } = { b with index := 0 } := by
  unfold equalIgnoringIndices
  simp only [CallTarget.ext_iff, true_and]

omit [LinearOrder Target] [LinearOrder ReturnType] [LinearOrder ClassId] in
theorem equalIgnoringIndices_equivalence :
    Equivalence (equalIgnoringIndices : CallTarget Target ReturnType ClassId → _ → Prop) where
  refl _ := rfl
  symm h := equalIgnoringIndices_iff.mpr (equalIgnoringIndices_iff.mp h).symm
  trans h h' := equalIgnoringIndices_iff.mpr
    ((equalIgnoringIndices_iff.mp h).trans (equalIgnoringIndices_iff.mp h'))

/-- Between targets that are equal up to the index the order is that of the indices. -/
theorem index_le_of_le {a b : CallTarget Target ReturnType ClassId}
    (h : equalIgnoringIndices a b) (hle : a ≤ b) : a.index ≤ b.index := by
  by_contra hlt
  rw [not_le] at hlt
  refine absurd hle (not_le.mpr ?_)
  rw [show a = { b with index := a.index } from h]
  show fields b < fields { b with index := a.index }
  unfold fields
  simp only [Prod.Lex.toLex_lt_toLex, lt_irrefl, true_and, false_or, hlt, true_or]

/-- What sorting and removing duplicates is for. -/
def Deduplicated (targets : List (CallTarget Target ReturnType ClassId)) : Prop :=
  (∀ other : List (CallTarget Target ReturnType ClassId), (∀ t, t ∈ other ↔ t ∈ targets) →
    dedupAndSort other = dedupAndSort targets) ∧
  (dedupAndSort targets).Pairwise (fun a b => ¬ equalIgnoringIndices a b) ∧
  ∀ t ∈ targets, ∃ t' ∈ dedupAndSort targets, equalIgnoringIndices t' t ∧ t'.index ≤ t.index

theorem dedupAndSort_congr {other : List (CallTarget Target ReturnType ClassId)}
    (h : ∀ t, t ∈ other ↔ t ∈ targets) : dedupAndSort other = dedupAndSort targets := by
  refine removeConsecutive_congr equalIgnoringIndices_equivalence.refl (List.pairwise_insertionSort _ other)
    (List.pairwise_insertionSort _ targets) fun t => ?_
  rw [List.mem_insertionSort, List.mem_insertionSort, h]

theorem dedupAndSort_cover {t : CallTarget Target ReturnType ClassId} (ht : t ∈ targets) :
    ∃ t' ∈ dedupAndSort targets, equalIgnoringIndices t' t ∧ t'.index ≤ t.index := by
  obtain ⟨t', ht', hle, hequal, -⟩ := removeConsecutiveDuplicates_cover
    equalIgnoringIndices_equivalence (List.pairwise_insertionSort _ targets)
    ((List.mem_insertionSort _).mpr ht)
  exact ⟨t', ht', hequal, index_le_of_le hequal hle⟩

/-- **Duplicates are removed if and only if nothing else is sorted between them.** -/
theorem deduplicated_iff (targets : List (CallTarget Target ReturnType ClassId)) :
    Deduplicated targets ↔ ∀ a ∈ targets, ∀ b ∈ targets, ∀ c ∈ targets, a ≤ b → b ≤ c →
      equalIgnoringIndices a c → equalIgnoringIndices a b := by
  have hiff := removeConsecutive_pairwise_iff equalIgnoringIndices_equivalence
    (List.pairwise_insertionSort (· ≤ ·) targets)
  simp only [List.mem_insertionSort] at hiff
  constructor
  · exact fun h => hiff.mp h.2.1
  · exact fun h => ⟨fun _ => dedupAndSort_congr, hiff.mpr h, fun _ => dedupAndSort_cover⟩

/-- Two calls that return integers with one in between that does not: both are kept. -/
theorem not_deduplicated :
    let call (index : ℤ) (returnType : Option ℕ) : CallTarget ℕ ℕ ℕ :=
      ⟨0, true, false, index, returnType, none, false, false⟩
    ¬ Deduplicated [call 0 (some 2), call 1 (some 1), call 2 (some 2)] := by
  intro call h
  exact absurd h.2.1 (by decide +kernel)

end CallTarget

end Pysa
