/-
  Subject: INTERVAL SETS DENOTE SETS OF INTEGERS, AND A SET HAS ONE NORMAL FORM.

  * `Separated gap b` -- every interval holds an integer, the first begins above `b + gap`, and
    each next one begins more than `gap` above the end of the one before. Gap 0 is disjointness,
    gap 1 leaves an integer between any two intervals;
  * `Separated.ext` -- **two lists with gap 1 and the same integers are equal**;
  * `lessOrEqual_spec` -- the structural test is inclusion;
  * `operations_spec` -- **the operations are those on sets of integers**.
-/
import Pysa.Interprocedural.ClassIntervalSet

namespace Pysa.ClassIntervalSet

open ClassInterval

/-! ## 1. Denotation and separation -/

/-- The integers of a list of intervals. -/
def denote (intervals : ClassIntervalSet) : Set Int := {x | ∃ i ∈ intervals, x ∈ i.denote}

@[simp] theorem denote_nil : denote [] = ∅ := by
  ext x
  simp [denote]

@[simp] theorem denote_cons (i : ClassInterval) (l : ClassIntervalSet) :
    denote (i :: l) = i.denote ∪ denote l := by
  ext x
  simp [denote]

def Separated (gap b : Int) : ClassIntervalSet → Prop
  | [] => True
  | .empty :: _ => False
  | .interval lower upper _ :: rest => b + gap < lower ∧ Separated gap upper rest

/-- The normal form: sorted non-empty intervals, no two of them overlapping or adjacent. -/
def Normal (intervals : ClassIntervalSet) : Prop := ∃ b, Separated 1 b intervals

variable {gap b b' : Int} {left right : ClassIntervalSet}

theorem Separated.mono (h : Separated gap b left) (hb : b' ≤ b) : Separated gap b' left := by
  cases left with
  | nil => trivial
  | cons i rest =>
    cases i with
    | empty => exact h
    | interval lower upper _ => exact ⟨by have := h.1; omega, h.2⟩

/-- What leaves room for a wide gap leaves room for a narrow one. -/
theorem Separated.weaken {gap' : Int} (h : Separated gap b left) (hgap : gap' ≤ gap) :
    Separated gap' b left := by
  induction left generalizing b with
  | nil => trivial
  | cons i rest ih =>
    cases i with
    | empty => exact h
    | interval lower upper _ => exact ⟨by have := h.1; omega, ih h.2⟩

/-- A list is empty or begins with an interval of two bounds. -/
theorem Separated.cases (h : Separated gap b left) :
    left = [] ∨ ∃ lower upper hle rest, left = .interval lower upper hle :: rest ∧
      b + gap < lower ∧ Separated gap upper rest := by
  cases left with
  | nil => exact Or.inl rfl
  | cons i rest =>
    cases i with
    | empty => cases h
    | interval lower upper hle => exact Or.inr ⟨lower, upper, hle, rest, rfl, h⟩

theorem mem_denote_cons {lower upper x : Int} {hle : lower ≤ upper} {rest : ClassIntervalSet} :
    x ∈ denote (.interval lower upper hle :: rest) ↔ lower ≤ x ∧ x ≤ upper ∨ x ∈ denote rest := by
  rw [denote_cons]
  exact Iff.rfl

theorem Separated.lt_of_mem (hgap : 0 ≤ gap) (h : Separated gap b left) {x : Int}
    (hx : x ∈ denote left) : b + gap < x := by
  induction left generalizing b with
  | nil =>
    rw [denote_nil] at hx
    cases hx
  | cons i rest ih =>
    cases i with
    | empty => cases h
    | interval lower upper hle =>
      obtain ⟨hb, hrest⟩ := h
      rcases mem_denote_cons.mp hx with hx | hx
      · exact hb.trans_le hx.1
      · have := ih hrest hx
        omega

theorem Normal.isEmpty_iff (h : Normal left) : isEmpty left = true ↔ denote left = ∅ := by
  obtain ⟨b, h⟩ := h
  rcases h.cases with rfl | ⟨lower, upper, hle, rest, rfl, -, -⟩
  · simp [isEmpty]
  · refine iff_of_false Bool.false_ne_true fun hempty => ?_
    have hlower : lower ∈ denote (.interval lower upper hle :: rest) :=
      mem_denote_cons.mpr (Or.inl ⟨le_rfl, hle⟩)
    rw [hempty] at hlower
    exact hlower

theorem Normal.isEmpty_eq_false_iff (h : Normal left) :
    isEmpty left = false ↔ (denote left).Nonempty := by
  rw [← Bool.not_eq_true, h.isEmpty_iff, Set.nonempty_iff_ne_empty]

/-! ## 2. Uniqueness of the normal form -/

section First

variable {lower upper lower' upper' : Int} {hle : lower ≤ upper} {hle' : lower' ≤ upper'}
  {rest rest' : ClassIntervalSet}

/-- The first interval begins at the least integer and ends before the first missing one. -/
theorem Separated.first_le (h' : Separated 1 upper' rest')
    (hsub : denote (.interval lower upper hle :: rest) ⊆
      denote (.interval lower' upper' hle' :: rest')) :
    lower' ≤ lower ∧ (lower = lower' → upper ≤ upper') := by
  have hlower := mem_denote_cons.mp (hsub (mem_denote_cons.mpr (Or.inl ⟨le_rfl, hle⟩)))
  refine ⟨?_, fun heq => ?_⟩
  · rcases hlower with hlower | hlower
    · exact hlower.1
    · have := h'.lt_of_mem (by omega) hlower
      omega
  · by_contra hlt
    have hnext : upper' + 1 ∈ denote (.interval lower upper hle :: rest) :=
      mem_denote_cons.mpr (Or.inl ⟨by omega, by omega⟩)
    rcases mem_denote_cons.mp (hsub hnext) with hin | hin
    · omega
    · have := h'.lt_of_mem (by omega) hin
      omega

theorem denote_rest (hle : lower ≤ upper) (h : Separated 1 upper rest) :
    denote rest = {x ∈ denote (.interval lower upper hle :: rest) | upper < x} := by
  ext x
  rw [Set.mem_ofPred_eq, mem_denote_cons]
  constructor
  · intro hx
    have := h.lt_of_mem (by omega) hx
    exact ⟨Or.inr hx, by omega⟩
  · rintro ⟨hx | hx, hlt⟩
    · omega
    · exact hx

end First

/-- **A set of integers has one normal form.** -/
theorem Separated.ext (hleft : Separated 1 b left) (hright : Separated 1 b' right)
    (heq : denote left = denote right) : left = right := by
  induction left generalizing b b' right with
  | nil =>
    have hempty := (Normal.isEmpty_iff ⟨_, hright⟩).mpr (heq.symm.trans denote_nil)
    exact (List.isEmpty_iff.mp hempty).symm
  | cons i rest ih =>
    rcases hleft.cases with h | ⟨lower, upper, hle, tail, h, hb, hrest⟩
    · cases h
    · cases h
      rcases hright.cases with rfl | ⟨lower', upper', hle', rest', rfl, hb', hrest'⟩
      · have hempty := (Normal.isEmpty_iff ⟨_, hleft⟩).mpr (heq.trans denote_nil)
        exact List.isEmpty_iff.mp hempty
      · have h₁ := Separated.first_le hrest' heq.subset
        have h₂ := Separated.first_le hrest heq.symm.subset
        have hlower : lower = lower' := le_antisymm h₂.1 h₁.1
        have hupper : upper = upper' := le_antisymm (h₁.2 hlower) (h₂.2 hlower.symm)
        subst hlower hupper
        have htail : rest = rest' := ih hrest hrest' (by
          rw [denote_rest hle hrest, denote_rest hle hrest', heq])
        rw [htail]

theorem Normal.ext (hleft : Normal left) (hright : Normal right)
    (heq : denote left = denote right) : left = right := by
  obtain ⟨b, hleft⟩ := hleft
  obtain ⟨b', hright⟩ := hright
  exact hleft.ext hright heq

@[simp] theorem equal_iff : equal left right = true ↔ left = right := by
  induction left generalizing right with
  | nil => cases right <;> simp [equal]
  | cons i rest ih => cases right <;> simp [equal, ih]

/-! ## 3. Building a set -/

/-- `r` is `result` with a separated list of `integers` added in reverse. -/
def Emits (gap b : Int) (integers : Set Int) (result : ClassIntervalSet)
    (r : Except String ClassIntervalSet) : Prop :=
  ∃ out, r = .ok (out.reverse ++ result) ∧ Separated gap b out ∧ denote out = integers

section Emits

variable {c lower upper : Int} {hle : lower ≤ upper} {integers integers' : Set Int}
  {result : ClassIntervalSet} {r : Except String ClassIntervalSet}

theorem emits_nil : Emits gap b ∅ result (.ok result) := ⟨[], rfl, trivial, denote_nil⟩

theorem emits_last (hb : b + gap < lower) :
    Emits gap b (Set.Icc lower upper ∪ denote []) result
      (.ok (.interval lower upper hle :: result)) :=
  ⟨[.interval lower upper hle], rfl, ⟨hb, trivial⟩, denote_cons _ _⟩

theorem Emits.skip (h : Emits gap c integers' result r) (hb : b ≤ c)
    (heq : integers = integers') : Emits gap b integers result r := by
  obtain ⟨out, hout, hsep, hdenote⟩ := h
  exact ⟨out, hout, hsep.mono hb, hdenote.trans heq.symm⟩

theorem Emits.emit (h : Emits gap c integers' (.interval lower upper hle :: result) r)
    (hb : b + gap < lower) (hc : upper ≤ c) (heq : integers = Set.Icc lower upper ∪ integers') :
    Emits gap b integers result r := by
  obtain ⟨out, hout, hsep, hdenote⟩ := h
  refine ⟨.interval lower upper hle :: out, ?_, ⟨hb, hsep.mono hc⟩, ?_⟩
  · rw [hout]
    simp
  · rw [denote_cons, hdenote, heq]
    rfl

theorem Emits.reversed (h : Emits gap b integers [] r) :
    ∃ out, List.reverse <$> r = .ok out ∧ Separated gap b out ∧ denote out = integers := by
  obtain ⟨out, rfl, hsep, hdenote⟩ := h
  refine ⟨out, ?_, hsep, hdenote⟩
  rw [List.append_nil]
  exact congrArg Except.ok out.reverse_reverse

end Emits

/-- Two intervals that meet or touch are one. -/
theorem Icc_union_of_touch {lower upper lower' upper' top : Int}
    (hlower : lower ≤ lower') (htouch : lower' ≤ upper + 1) (htop : top = max upper upper') :
    Set.Icc lower upper ∪ Set.Icc lower' upper' = Set.Icc lower top := by
  ext x
  simp only [Set.mem_union, Set.mem_Icc]
  omega

theorem Icc_union_denote {lower upper lower' upper' top : Int} {hle' : lower' ≤ upper'}
    (hlower : lower ≤ lower') (htouch : lower' ≤ upper + 1) (htop : top = max upper upper')
    (list : ClassIntervalSet) :
    Set.Icc lower upper ∪ denote (.interval lower' upper' hle' :: list) =
      Set.Icc lower top ∪ denote list := by
  rw [denote_cons, ← Set.union_assoc]
  exact congrArg (· ∪ denote list) (Icc_union_of_touch hlower htouch htop)

/-- The gaps of width zero go, and nothing else changes. -/
theorem removeGaps_spec {lower upper : Int} (hle : lower ≤ upper) {list : ClassIntervalSet}
    (result : ClassIntervalSet) (hb : b + 1 < lower) (h : Separated 0 upper list) :
    Emits 1 b (Set.Icc lower upper ∪ denote list) result
      (removeGaps (.interval lower upper hle) list result) := by
  induction list generalizing b lower upper hle result with
  | nil => exact emits_last hb
  | cons i tail ih =>
    rcases h.cases with hnil | ⟨lower', upper', hle', tail', hcons, hlt, htail⟩
    · cases hnil
    · cases hcons
      have hstep : removeGaps (.interval lower upper hle) (.interval lower' upper' hle' :: tail)
          result =
          if upper + 1 = lower' then removeGaps (create lower upper') tail result
          else removeGaps (.interval lower' upper' hle') tail
            (.interval lower upper hle :: result) := rfl
      rw [hstep]
      split
      · rename_i hadjacent
        rw [create_of_le (by omega)]
        exact (ih _ _ hb htail).skip le_rfl (Icc_union_denote (by omega) (by omega) (by omega) tail)
      · rename_i hgap
        refine (ih _ _ (b := upper) (by omega) htail).emit hb le_rfl ?_
        rw [denote_cons]
        rfl

theorem removeGapsBetweenNonoverlappingIntervals_spec {list : ClassIntervalSet}
    (h : Separated 0 b list) :
    ∃ out, removeGapsBetweenNonoverlappingIntervals list = .ok out ∧ Separated 1 (b - 1) out ∧
      denote out = denote list := by
  rcases h.cases with rfl | ⟨lower, upper, hle, tail, rfl, hb, htail⟩
  · exact ⟨[], rfl, trivial, rfl⟩
  · obtain ⟨out, hout, hsep, hdenote⟩ :=
      (removeGaps_spec (b := b - 1) hle [] (by omega) htail).reversed
    exact ⟨out, hout, hsep, by rw [hdenote, denote_cons]; rfl⟩

/-- Non-empty intervals from `lower` on, sorted by their lower bounds. -/
def SortedFrom (lower : Int) : ClassIntervalSet → Prop
  | [] => True
  | .empty :: _ => False
  | .interval lower' _ _ :: rest => lower ≤ lower' ∧ SortedFrom lower' rest

theorem SortedFrom.mono {lower lower' : Int} {list : ClassIntervalSet} (h : SortedFrom lower list)
    (hle : lower' ≤ lower) : SortedFrom lower' list := by
  cases list with
  | nil => trivial
  | cons i rest =>
    cases i with
    | empty => exact h
    | interval _ _ _ => exact ⟨hle.trans h.1, h.2⟩

/-- What overlaps is merged. -/
theorem mergeOverlapping_spec {lower upper : Int} (hle : lower ≤ upper)
    {list : ClassIntervalSet} (result : ClassIntervalSet) (hb : b < lower)
    (h : SortedFrom lower list) :
    Emits 0 b (Set.Icc lower upper ∪ denote list) result
      (mergeOverlapping (.interval lower upper hle) list result) := by
  induction list generalizing b lower upper hle result with
  | nil => exact emits_last (by omega)
  | cons i tail ih =>
    cases i with
    | empty => cases h
    | interval lower' upper' hle' =>
      obtain ⟨hlower, htail⟩ := h
      have hstep : mergeOverlapping (.interval lower upper hle)
          (.interval lower' upper' hle' :: tail) result =
          if lower' > upper then
            mergeOverlapping (.interval lower' upper' hle') tail
              (.interval lower upper hle :: result)
          else if upper' ≤ upper then mergeOverlapping (.interval lower upper hle) tail result
          else mergeOverlapping (create lower upper') tail result := rfl
      rw [hstep]
      split
      · rename_i hapart
        refine (ih _ _ (b := upper) hapart htail).emit (by omega) le_rfl ?_
        rw [denote_cons]
        rfl
      · split
        · rename_i hoverlap hcovered
          exact (ih _ _ hb (htail.mono hlower)).skip le_rfl
            (Icc_union_denote hlower (by omega) (by omega) tail)
        · rename_i hoverlap hlater
          rw [create_of_le (by omega)]
          exact (ih _ _ hb (htail.mono hlower)).skip le_rfl
            (Icc_union_denote hlower (by omega) (by omega) tail)

theorem mergeOverlappingIntervals_spec {list : ClassIntervalSet} {lower : Int}
    (h : SortedFrom lower list) :
    ∃ out, mergeOverlappingIntervals list = .ok out.reverse ∧ Separated 0 (lower - 1) out ∧
      denote out = denote list := by
  cases list with
  | nil => exact ⟨[], rfl, trivial, rfl⟩
  | cons i tail =>
    cases i with
    | empty => cases h
    | interval lower' upper' hle =>
      obtain ⟨out, hout, hsep, hdenote⟩ :=
        mergeOverlapping_spec (b := lower - 1) hle []
          (by have := h.1; omega) h.2
      refine ⟨out, ?_, hsep, hdenote.trans (denote_cons (.interval lower' upper' hle) tail).symm⟩
      rw [List.append_nil] at hout
      exact hout

instance : Std.Total lowerBoundLe where
  total left right := by
    cases left with
    | empty => exact Or.inl trivial
    | interval leftLower _ _ =>
      cases right with
      | empty => exact Or.inr trivial
      | interval rightLower _ _ => exact le_total leftLower rightLower

instance : IsTrans ClassInterval lowerBoundLe where
  trans left middle right hleft hright := by
    cases left with
    | empty => trivial
    | interval _ _ _ =>
      cases middle with
      | empty => cases hleft
      | interval _ _ _ =>
        cases right with
        | empty => cases hright
        | interval _ _ _ => exact le_trans hleft hright

theorem sortedFrom_of_pairwise {list : ClassIntervalSet} (h : list.Pairwise lowerBoundLe)
    (hne : ∀ i ∈ list, i.isEmpty = false) : ∃ lower, SortedFrom lower list := by
  induction list with
  | nil => exact ⟨0, trivial⟩
  | cons i tail ih =>
    rw [List.pairwise_cons] at h
    obtain ⟨lower, htail⟩ := ih h.2 fun j hj => hne j (List.mem_cons_of_mem _ hj)
    cases i with
    | empty => cases hne .empty List.mem_cons_self
    | interval lower' upper' _ =>
      refine ⟨lower', le_rfl, ?_⟩
      cases tail with
      | nil => trivial
      | cons j rest =>
        cases j with
        | empty => exact htail
        | interval _ _ _ => exact ⟨h.1 _ List.mem_cons_self, htail.2⟩

theorem denote_filter_sort (list : List ClassInterval) :
    denote ((list.filter fun i => !i.isEmpty).insertionSort lowerBoundLe) = denote list := by
  ext x
  simp only [denote, List.mem_insertionSort, List.mem_filter, Bool.not_eq_true',
    Set.mem_ofPred_eq]
  constructor
  · rintro ⟨i, ⟨hi, -⟩, hx⟩
    exact ⟨i, hi, hx⟩
  · rintro ⟨i, hi, hx⟩
    refine ⟨i, ⟨hi, ?_⟩, hx⟩
    cases i with
    | empty => cases hx
    | interval _ _ _ => rfl

/-- **`ofList` returns the normal form of the union of the list.** -/
theorem ofList_spec (list : List ClassInterval) :
    ∃ out, ofList list = .ok out ∧ Normal out ∧ denote out = denote list := by
  have hnonempty : ∀ i ∈ (list.filter fun i => !i.isEmpty).insertionSort lowerBoundLe,
      i.isEmpty = false := by
    intro i hi
    rw [List.mem_insertionSort, List.mem_filter] at hi
    simpa using hi.2
  obtain ⟨lower, hsorted⟩ := sortedFrom_of_pairwise (List.pairwise_insertionSort _ _) hnonempty
  obtain ⟨merged, hmerge, hmerged, hdenote⟩ := mergeOverlappingIntervals_spec hsorted
  obtain ⟨out, hout, hsep, hdenote'⟩ := removeGapsBetweenNonoverlappingIntervals_spec hmerged
  refine ⟨out, ?_, ⟨_, hsep⟩, by rw [hdenote', hdenote, denote_filter_sort]⟩
  calc ofList list
      = mergeOverlappingIntervals _ >>= fun result =>
          removeGapsBetweenNonoverlappingIntervals result.reverse := rfl
    _ = removeGapsBetweenNonoverlappingIntervals merged.reverse.reverse := by rw [hmerge]; rfl
    _ = .ok out := by rw [List.reverse_reverse, hout]

/-! ## 4. Meet and order -/

section Heads

variable {leftLower leftUpper rightLower rightUpper : Int} {hleft : leftLower ≤ leftUpper}
  {hright : rightLower ≤ rightUpper} {leftTail rightTail : ClassIntervalSet}

/-- An interval that ends before the other list begins does not count for the meet. -/
theorem inter_of_before (h : leftUpper < rightLower) (hr : Separated 1 rightUpper rightTail) :
    denote (.interval leftLower leftUpper hleft :: leftTail) ∩
        denote (.interval rightLower rightUpper hright :: rightTail) =
      denote leftTail ∩ denote (.interval rightLower rightUpper hright :: rightTail) := by
  ext x
  simp only [Set.mem_inter_iff, mem_denote_cons]
  constructor
  · rintro ⟨hx | hx, hx' | hx'⟩
    · omega
    · have := hr.lt_of_mem (by omega) hx'
      omega
    · exact ⟨hx, Or.inl hx'⟩
    · exact ⟨hx, Or.inr hx'⟩
  · rintro ⟨hx, hx'⟩
    exact ⟨Or.inr hx, hx'⟩

/-- The head that ends first gives its meet with the other head, and is done. -/
theorem inter_of_ends_first (h : leftUpper ≤ rightUpper) (hr : Separated 1 rightUpper rightTail) :
    denote (.interval leftLower leftUpper hleft :: leftTail) ∩
        denote (.interval rightLower rightUpper hright :: rightTail) =
      Set.Icc (max leftLower rightLower) leftUpper ∪
        denote leftTail ∩ denote (.interval rightLower rightUpper hright :: rightTail) := by
  ext x
  simp only [Set.mem_inter_iff, Set.mem_union, mem_denote_cons, Set.mem_Icc]
  constructor
  · rintro ⟨hx | hx, hx' | hx'⟩
    · exact Or.inl (by omega)
    · have := hr.lt_of_mem (by omega) hx'
      omega
    · exact Or.inr ⟨hx, Or.inl hx'⟩
    · exact Or.inr ⟨hx, Or.inr hx'⟩
  · rintro (hx | ⟨hx, hx'⟩)
    · exact ⟨Or.inl (by omega), Or.inl (by omega)⟩
    · exact ⟨Or.inr hx, hx'⟩

end Heads

theorem intersectIntervalLists_nil_left (right result : ClassIntervalSet) :
    intersectIntervalLists [] right result = .ok result := by
  rw [intersectIntervalLists]
  simp

theorem intersectIntervalLists_nil_right (left result : ClassIntervalSet) :
    intersectIntervalLists left [] result = .ok result := by
  rw [intersectIntervalLists]
  simp

theorem intersectIntervalLists_cons {leftLower leftUpper rightLower rightUpper : Int}
    {hleft : leftLower ≤ leftUpper} {hright : rightLower ≤ rightUpper}
    {leftTail rightTail result : ClassIntervalSet} :
    intersectIntervalLists (.interval leftLower leftUpper hleft :: leftTail)
        (.interval rightLower rightUpper hright :: rightTail) result =
      if leftLower ≤ rightLower then
        if leftUpper ≥ rightUpper then
          intersectIntervalLists (.interval leftLower leftUpper hleft :: leftTail) rightTail
            (.interval rightLower rightUpper hright :: result)
        else if leftUpper < rightLower then
          intersectIntervalLists leftTail (.interval rightLower rightUpper hright :: rightTail)
            result
        else
          intersectIntervalLists leftTail (.interval rightLower rightUpper hright :: rightTail)
            (create (max leftLower rightLower) (min leftUpper rightUpper) :: result)
      else if leftUpper ≤ rightUpper then
        intersectIntervalLists leftTail (.interval rightLower rightUpper hright :: rightTail)
          (.interval leftLower leftUpper hleft :: result)
      else if rightUpper < leftLower then
        intersectIntervalLists (.interval leftLower leftUpper hleft :: leftTail) rightTail result
      else
        intersectIntervalLists (.interval leftLower leftUpper hleft :: leftTail) rightTail
          (create (max leftLower rightLower) (min leftUpper rightUpper) :: result) := by
  rw [intersectIntervalLists]
  rfl

/-- The walk over both lists adds the normal form of the intersection to the result. -/
theorem intersectIntervalLists_spec (size : ℕ) (hsize : left.length + right.length ≤ size)
    (hleft : Separated 1 b left) (hright : Separated 1 b' right) (result : ClassIntervalSet) :
    Emits 1 (max b b') (denote left ∩ denote right) result
      (intersectIntervalLists left right result) := by
  induction size generalizing b b' left right result with
  | zero =>
    obtain rfl := List.eq_nil_of_length_eq_zero (show left.length = 0 by omega)
    rw [intersectIntervalLists_nil_left, denote_nil, Set.empty_inter]
    exact emits_nil
  | succ size ih =>
    rcases hleft.cases with rfl | ⟨leftLower, leftUpper, hl, leftTail, rfl, hbl, hlt⟩
    · rw [intersectIntervalLists_nil_left, denote_nil, Set.empty_inter]
      exact emits_nil
    rcases hright.cases with rfl | ⟨rightLower, rightUpper, hr, rightTail, rfl, hbr, hrt⟩
    · rw [intersectIntervalLists_nil_right, denote_nil, Set.inter_empty]
      exact emits_nil
    simp only [List.length_cons] at hsize
    have dropLeft (result : ClassIntervalSet) : Emits 1 (max leftUpper b')
        (denote leftTail ∩ denote (.interval rightLower rightUpper hr :: rightTail)) result
        (intersectIntervalLists leftTail (.interval rightLower rightUpper hr :: rightTail)
          result) := ih (by rw [List.length_cons]; omega) hlt hright result
    have dropRight (result : ClassIntervalSet) : Emits 1 (max b rightUpper)
        (denote (.interval leftLower leftUpper hl :: leftTail) ∩ denote rightTail) result
        (intersectIntervalLists (.interval leftLower leftUpper hl :: leftTail) rightTail
          result) := ih (by rw [List.length_cons]; omega) hleft hrt result
    rw [intersectIntervalLists_cons]
    split
    · split
      · -- the left interval covers the right one
        refine (dropRight _).emit (by omega) (by omega) ?_
        rw [Set.inter_comm, inter_of_ends_first (by omega) hlt, max_eq_left (by omega),
          Set.inter_comm (denote rightTail)]
      · split
        · exact (dropLeft _).skip (by omega) (inter_of_before (by omega) hrt)
        · rw [create_of_le (by omega)]
          refine (dropLeft _).emit (by omega) (by omega) ?_
          rw [inter_of_ends_first (by omega) hrt, min_eq_left (by omega)]
    · split
      · -- the right interval covers the left one
        refine (dropLeft _).emit (by omega) (by omega) ?_
        rw [inter_of_ends_first (by omega) hrt, max_eq_left (by omega)]
      · split
        · refine (dropRight _).skip (by omega) ?_
          rw [Set.inter_comm, inter_of_before (by omega) hlt, Set.inter_comm]
        · rw [create_of_le (by omega)]
          refine (dropRight _).emit (by omega) (by omega) ?_
          rw [Set.inter_comm, inter_of_ends_first (by omega) hlt, min_eq_right (by omega),
            max_comm, Set.inter_comm (denote rightTail)]

/-- **`meet` returns the normal form of the intersection.** -/
theorem meet_spec (hleft : Normal left) (hright : Normal right) :
    ∃ out, meet left right = .ok out ∧ Normal out ∧ denote out = denote left ∩ denote right := by
  obtain ⟨b, hleft⟩ := hleft
  obtain ⟨b', hright⟩ := hright
  obtain ⟨out, hout, hsep, hdenote⟩ :=
    (intersectIntervalLists_spec _ le_rfl hleft hright []).reversed
  exact ⟨out, hout, ⟨_, hsep⟩, hdenote⟩

/-- **The structural test is inclusion.** -/
theorem lessOrEqual_spec (hleft : Normal left) (hright : Normal right) :
    ∃ answer, lessOrEqual left right = .ok answer ∧
      (answer = true ↔ denote left ⊆ denote right) := by
  obtain ⟨out, hout, hnormal, hdenote⟩ := meet_spec hleft hright
  refine ⟨equal out left, ?_, ?_⟩
  · unfold lessOrEqual
    rw [hout]
    rfl
  · rw [equal_iff, ← Set.inter_eq_left, ← hdenote]
    exact ⟨fun h => h ▸ rfl, hnormal.ext hleft⟩

/-! ## 5. Join -/

theorem mergeIntervalLists_nil_left (right result : ClassIntervalSet) :
    mergeIntervalLists [] right result = .ok (result.reverse ++ right) := by
  rw [mergeIntervalLists]

theorem mergeIntervalLists_nil_right (left result : ClassIntervalSet) :
    mergeIntervalLists left [] result = .ok (result.reverse ++ left) := by
  cases left with
  | nil => exact mergeIntervalLists_nil_left [] result
  | cons i rest => rw [mergeIntervalLists]; simp

theorem mergeIntervalLists_cons {leftLower leftUpper rightLower rightUpper : Int}
    {hleft : leftLower ≤ leftUpper} {hright : rightLower ≤ rightUpper}
    {leftTail rightTail result : ClassIntervalSet} :
    mergeIntervalLists (.interval leftLower leftUpper hleft :: leftTail)
        (.interval rightLower rightUpper hright :: rightTail) result =
      if leftLower ≤ rightLower then
        if leftUpper ≥ rightUpper then
          mergeIntervalLists (.interval leftLower leftUpper hleft :: leftTail) rightTail result
        else if leftUpper < rightLower then
          mergeIntervalLists leftTail (.interval rightLower rightUpper hright :: rightTail)
            (.interval leftLower leftUpper hleft :: result)
        else
          mergeIntervalLists leftTail (create leftLower rightUpper :: rightTail) result
      else if leftUpper ≤ rightUpper then
        mergeIntervalLists leftTail (.interval rightLower rightUpper hright :: rightTail) result
      else if rightUpper < leftLower then
        mergeIntervalLists (.interval leftLower leftUpper hleft :: leftTail) rightTail
          (.interval rightLower rightUpper hright :: result)
      else
        mergeIntervalLists (create rightLower leftUpper :: leftTail) rightTail result := by
  rw [mergeIntervalLists]
  rfl

theorem emits_remaining {remaining result : ClassIntervalSet} (h : Separated gap b remaining) :
    Emits gap b (denote remaining) result
      (List.reverse <$> .ok (result.reverse ++ remaining)) := by
  refine ⟨remaining, ?_, h, rfl⟩
  exact congrArg Except.ok (by rw [List.reverse_append, List.reverse_reverse])

/-- When the heads meet or touch, the tails and one interval remain. -/
theorem union_of_touch {leftLower leftUpper rightLower rightUpper : Int} (top : Int)
    {hl : leftLower ≤ leftUpper} {hr : rightLower ≤ rightUpper} {leftTail rightTail : ClassIntervalSet}
    (hlower : leftLower ≤ rightLower) (htouch : rightLower ≤ leftUpper + 1)
    (htop : top = max leftUpper rightUpper) :
    denote (.interval leftLower leftUpper hl :: leftTail) ∪
        denote (.interval rightLower rightUpper hr :: rightTail) =
      Set.Icc leftLower top ∪ (denote leftTail ∪ denote rightTail) := by
  rw [denote_cons, denote_cons, Set.union_union_union_comm]
  exact congrArg (· ∪ _) (Icc_union_of_touch hlower htouch htop)

/-- The walk over both lists keeps every integer; what it returns may still hold gaps of width
    zero. -/
theorem mergeIntervalLists_spec (size : ℕ) (hsize : left.length + right.length ≤ size)
    (hleft : Separated 0 b left) (hright : Separated 0 b right) (result : ClassIntervalSet) :
    Emits 0 b (denote left ∪ denote right) result
      (List.reverse <$> mergeIntervalLists left right result) := by
  induction size generalizing b left right result with
  | zero =>
    obtain rfl := List.eq_nil_of_length_eq_zero (show left.length = 0 by omega)
    rw [mergeIntervalLists_nil_left, denote_nil, Set.empty_union]
    exact emits_remaining hright
  | succ size ih =>
    rcases hleft.cases with rfl | ⟨leftLower, leftUpper, hl, leftTail, rfl, hbl, hlt⟩
    · rw [mergeIntervalLists_nil_left, denote_nil, Set.empty_union]
      exact emits_remaining hright
    rcases hright.cases with rfl | ⟨rightLower, rightUpper, hr, rightTail, rfl, hbr, hrt⟩
    · rw [mergeIntervalLists_nil_right, denote_nil, Set.union_empty]
      exact emits_remaining hleft
    simp only [List.length_cons] at hsize
    rw [mergeIntervalLists_cons]
    split
    · split
      · -- the left interval covers the right one
        refine (ih (by rw [List.length_cons]; omega) hleft (hrt.mono (by omega)) _).skip le_rfl ?_
        rw [union_of_touch leftUpper (by omega) (by omega) (by omega), denote_cons,
          Set.union_assoc]
        rfl
      · split
        · have hright' : Separated 0 leftUpper (.interval rightLower rightUpper hr :: rightTail) :=
            ⟨by omega, hrt⟩
          refine (ih (by rw [List.length_cons]; omega) hlt hright' _).emit (by omega) le_rfl ?_
          rw [denote_cons, Set.union_assoc]
          rfl
        · have hle : leftLower ≤ rightUpper := by omega
          have hnew : Separated 0 b (.interval leftLower rightUpper hle :: rightTail) :=
            ⟨hbl, hrt⟩
          rw [create_of_le hle]
          refine (ih (by rw [List.length_cons]; omega) (hlt.mono (by omega)) hnew _).skip le_rfl ?_
          rw [union_of_touch rightUpper (by omega) (by omega) (by omega),
            denote_cons (.interval leftLower rightUpper _), Set.union_left_comm]
          rfl
    · split
      · -- the right interval covers the left one
        refine (ih (by rw [List.length_cons]; omega) (hlt.mono (by omega)) hright _).skip le_rfl ?_
        rw [Set.union_comm, union_of_touch rightUpper (by omega) (by omega) (by omega),
          denote_cons, Set.union_comm (denote rightTail), Set.union_left_comm]
        rfl
      · split
        · have hleft' : Separated 0 rightUpper (.interval leftLower leftUpper hl :: leftTail) :=
            ⟨by omega, hlt⟩
          refine (ih (by rw [List.length_cons]; omega) hleft' hrt _).emit (by omega) le_rfl ?_
          rw [Set.union_comm, denote_cons, Set.union_assoc, Set.union_comm (denote rightTail)]
          rfl
        · have hle : rightLower ≤ leftUpper := by omega
          have hnew : Separated 0 b (.interval rightLower leftUpper hle :: leftTail) :=
            ⟨hbr, hlt⟩
          rw [create_of_le hle]
          refine (ih (by rw [List.length_cons]; omega) hnew (hrt.mono (by omega)) _).skip le_rfl ?_
          rw [Set.union_comm, union_of_touch leftUpper (by omega) (by omega) (by omega),
            denote_cons (.interval rightLower leftUpper _), Set.union_assoc,
            Set.union_comm (denote rightTail)]
          rfl

/-- **`join` returns the normal form of the union.** -/
theorem join_spec (hleft : Normal left) (hright : Normal right) :
    ∃ out, join left right = .ok out ∧ Normal out ∧ denote out = denote left ∪ denote right := by
  obtain ⟨b, hleft⟩ := hleft
  obtain ⟨b', hright⟩ := hright
  obtain ⟨merged, hmerge, hsep, hdenote⟩ := mergeIntervalLists_spec (b := min b b') _ le_rfl
    ((hleft.mono (min_le_left _ _)).weaken (by omega))
    ((hright.mono (min_le_right _ _)).weaken (by omega)) []
  obtain ⟨out, hout, hsep', hdenote'⟩ := removeGapsBetweenNonoverlappingIntervals_spec hsep
  refine ⟨out, ?_, ⟨_, hsep'⟩, hdenote'.trans hdenote⟩
  have hwalk : mergeIntervalLists left right [] = .ok merged := by
    rw [List.append_nil] at hmerge
    cases hcase : mergeIntervalLists left right [] with
    | error e =>
      rw [hcase] at hmerge
      cases hmerge
    | ok list =>
      rw [hcase] at hmerge
      rw [List.reverse_injective (Except.ok.inj hmerge)]
  unfold join
  rw [hwalk]
  exact hout

/-! ## 6. All operations together -/

/-- **Interval sets are the sets of integers they denote.** Every list of intervals has a normal
    form; on normal forms no operation fails, each computes the operation on sets, and `equal`
    is equality of sets. -/
theorem operations_spec :
    (∀ list : List ClassInterval,
      ∃ out, ofList list = .ok out ∧ Normal out ∧ denote out = denote list) ∧
    ∀ left right : ClassIntervalSet, Normal left → Normal right →
      (∃ out, meet left right = .ok out ∧ Normal out ∧ denote out = denote left ∩ denote right) ∧
      (∃ out, join left right = .ok out ∧ Normal out ∧ denote out = denote left ∪ denote right) ∧
      (∃ answer, lessOrEqual left right = .ok answer ∧
        (answer = true ↔ denote left ⊆ denote right)) ∧
      (equal left right = true ↔ denote left = denote right) := by
  refine ⟨ofList_spec, fun left right hleft hright => ?_⟩
  have hequal : equal left right = true ↔ denote left = denote right := by
    rw [equal_iff]
    exact ⟨congrArg denote, hleft.ext hright⟩
  exact ⟨meet_spec hleft hright, join_spec hleft hright, lessOrEqual_spec hleft hright, hequal⟩

/-- The join of [1, 2] and [3, 5] is one interval. -/
theorem operations_spec_adjacent :
    ∃ out, join [create 1 2] [create 3 5] = .ok out ∧ Normal out ∧
      denote out = denote [create 1 2] ∪ denote [create 3 5] :=
  (operations_spec.2 [create 1 2] [create 3 5]
    ⟨-5, show (-5 : Int) + 1 < 1 by decide, trivial⟩
    ⟨-5, show (-5 : Int) + 1 < 3 by decide, trivial⟩).2.1

end Pysa.ClassIntervalSet
