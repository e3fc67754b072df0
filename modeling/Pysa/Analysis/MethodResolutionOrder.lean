/-
  Subject: THE C3 LINEARIZATION.

  * `Precedes`, `Consistent` -- the order that a list of lists asks for, and that it has no cycle;
  * `Marked` -- a class that stands twice in one of the lists stands just once in another; so what
    is left alone at the end repeats nothing;
  * `merge_sound`, `merge_complete` -- a merged list repeats nothing and keeps every list; there is
    one as soon as the lists are consistent, since what comes first in their order can be picked;
  * `methodResolutionOrderLinearize_spec` -- **soundness and completeness**.
-/
import Mathlib.Data.Fintype.Card
import Mathlib.Data.Set.Finite.Basic
import Mathlib.Order.WellFounded
import Pysa.Analysis.ClassHierarchyCycles
import Pysa.Lib.Results

namespace Pysa.ClassHierarchy

open Results

/-! ## 1. Taking off a head -/

/-- What `stripHead` leaves of a list in whose tail the head does not occur. -/
theorem stripHead_cases {head : String} {l l' : List String} (h : stripHead head l = some l') :
    l = head :: l' ∨ l = l' ∧ l.head? ≠ some head := by
  match l with
  | [] => cases h
  | [x] =>
    by_cases heq : x = head
    · rw [stripHead, if_pos heq] at h
      cases h
    · rw [stripHead, if_neg heq] at h
      cases h
      exact Or.inr ⟨rfl, fun h => heq (Option.some.inj h)⟩
  | x :: y :: tail =>
    by_cases heq : x = head
    · rw [stripHead, if_pos heq] at h
      · cases h
        exact Or.inl (by rw [heq])
      · exact fun h => by cases h
    · rw [stripHead, if_neg heq] at h
      · cases h
        exact Or.inr ⟨rfl, fun h => heq (Option.some.inj h)⟩
      · exact fun h => by cases h

/-- Which lists leave nothing. -/
theorem stripHead_eq_none {head : String} {l : List String} (h : stripHead head l = none) :
    l = [] ∨ l = [head] := by
  match l with
  | [] => exact Or.inl rfl
  | [x] =>
    by_cases heq : x = head
    · exact Or.inr (by rw [heq])
    · rw [stripHead, if_neg heq] at h
      cases h
  | x :: y :: tail =>
    by_cases heq : x = head
    · rw [stripHead, if_pos heq] at h
      · cases h
      · exact fun h => by cases h
    · rw [stripHead, if_neg heq] at h
      · cases h
      · exact fun h => by cases h

theorem notInTail_iff {target : String} {l : List String} :
    notInTail target l = true ↔ target ∉ l.tail := by
  cases l with
  | nil => exact iff_of_true rfl List.not_mem_nil
  | cons x tail => simp [notInTail]

theorem isValidHead_iff {lists : List (List String)} {head : String} :
    isValidHead lists head = true ↔ ∀ l ∈ lists, head ∉ l.tail := by
  unfold isValidHead
  rw [List.all_eq_true]
  exact forall₂_congr fun l _ => notInTail_iff

/-- A head is the head of a list and in no tail. -/
theorem findHead_spec {lists : List (List String)} {head : String}
    (h : findHead lists = some head) :
    (∃ l ∈ lists, l.head? = some head) ∧ ∀ l ∈ lists, head ∉ l.tail := by
  unfold findHead at h
  exact ⟨List.mem_filterMap.mp (List.mem_of_find?_eq_some h),
    isValidHead_iff.mp (List.find?_some h)⟩

/-- The lists after a valid head was taken off: each comes from a list that is the same but for the
    head, in front or nowhere. -/
theorem mem_withoutHead {head : String} {lists : List (List String)}
    (hvalid : ∀ l ∈ lists, head ∉ l.tail) {l' : List String} (h : l' ∈ withoutHead head lists) :
    l' ≠ [] ∧ head ∉ l' ∧ (head :: l' ∈ lists ∨ l' ∈ lists) := by
  obtain ⟨l, hl, hstrip⟩ := List.mem_filterMap.mp h
  have hnot := hvalid l hl
  rcases stripHead_cases hstrip with heq | ⟨heq, hhead⟩
  · subst heq
    refine ⟨?_, hnot, Or.inl hl⟩
    rintro rfl
    simp [stripHead] at hstrip
  · subst heq
    cases l with
    | nil => cases hstrip
    | cons x tail =>
      refine ⟨List.cons_ne_nil _ _, fun hmem => ?_, Or.inr hl⟩
      rcases List.mem_cons.mp hmem with rfl | hmem
      · exact hhead rfl
      · exact hnot hmem

/-- Each list is kept but for the head, unless nothing is left of it. -/
theorem exists_withoutHead (head : String) {lists : List (List String)} {l : List String}
    (h : l ∈ lists) :
    l = [] ∨ l = [head] ∨ ∃ l' ∈ withoutHead head lists, l = head :: l' ∨ l = l' := by
  cases hstrip : stripHead head l with
  | none => exact (stripHead_eq_none hstrip).imp_right Or.inl
  | some l' =>
    refine Or.inr (Or.inr ⟨l', List.mem_filterMap.mpr ⟨l, h, hstrip⟩, ?_⟩)
    exact (stripHead_cases hstrip).imp_right And.left

/-! ## 2. Merging -/

/-- Two lists or more: a head is picked, or the lists are inconsistent. -/
theorem merge_of_two {className : String} {lists : List (List String)} (h : 2 ≤ lists.length) :
    merge className lists =
      match findHead lists with
      | none => .error (.inconsistent className)
      | some head => (merge className (withoutHead head lists)).map (head :: ·) := by
  rw [merge]
  · split
    case h_1 hhead => rw [hhead]
    case h_2 head hhead =>
      rw [hhead]
      dsimp only
      cases merge className (withoutHead head lists) <;> rfl
  · rintro rfl
    simp at h
  · rintro l rfl
    simp at h

/-- The recursion of `merge`. -/
theorem merge_induction (className : String)
    {P : List (List String) → Except MethodResolutionOrderError (List String) → Prop}
    (nil : P [] (.ok [])) (single : ∀ l, P [l] (.ok l))
    (stuck : ∀ lists, 2 ≤ lists.length → findHead lists = none →
      P lists (.error (.inconsistent className)))
    (step : ∀ lists head, 2 ≤ lists.length → findHead lists = some head →
      P (withoutHead head lists) (merge className (withoutHead head lists)) →
      P lists ((merge className (withoutHead head lists)).map (head :: ·)))
    (lists : List (List String)) : P lists (merge className lists) := by
  induction hlength : lists.flatten.length using Nat.strong_induction_on generalizing lists with
  | _ length ih =>
    match lists with
    | [] => simpa only [merge] using nil
    | [l] => simpa only [merge] using single l
    | l :: l' :: rest =>
      have htwo : 2 ≤ (l :: l' :: rest).length := by simp
      rw [merge_of_two htwo]
      cases hhead : findHead (l :: l' :: rest) with
      | none => exact stuck _ htwo hhead
      | some head =>
        have hlt := withoutHead_length_lt (List.mem_of_find?_eq_some hhead)
        exact step _ head htwo hhead (ih _ (hlength ▸ hlt) _ rfl)

/-- A class that stands twice in one list stands just once in another. -/
def Marked (lists : List (List String)) : Prop :=
  ∀ x, (∃ l ∈ lists, 2 ≤ l.count x) → ∃ l ∈ lists, l.count x = 1

theorem Marked.withoutHead {head : String} {lists : List (List String)} (h : Marked lists)
    (hvalid : ∀ l ∈ lists, head ∉ l.tail) : Marked (withoutHead head lists) := by
  intro x ⟨l', hl', hcount⟩
  obtain ⟨-, hnot, hmem⟩ := mem_withoutHead hvalid hl'
  have hne : head ≠ x := by
    rintro rfl
    rw [List.count_eq_zero_of_not_mem hnot] at hcount
    omega
  have hold : ∃ l ∈ lists, 2 ≤ l.count x := by
    rcases hmem with hmem | hmem
    · exact ⟨_, hmem, by rwa [List.count_cons_of_ne hne]⟩
    · exact ⟨_, hmem, hcount⟩
  obtain ⟨l, hl, hone⟩ := h x hold
  rcases exists_withoutHead head hl with rfl | rfl | ⟨l'', hl'', rfl | rfl⟩
  · simp at hone
  · rw [List.count_singleton, if_neg (by simpa using hne)] at hone
    cases hone
  · exact ⟨l'', hl'', by rwa [List.count_cons_of_ne hne] at hone⟩
  · exact ⟨l, hl'', hone⟩

/-- **What merging returns**: every class once, in the order of every list. -/
theorem merge_sound {className : String} {lists : List (List String)} {merged : List String}
    (hmarked : Marked lists) (hrun : merge className lists = .ok merged) :
    merged.Nodup ∧ (∀ x, x ∈ merged ↔ ∃ l ∈ lists, x ∈ l) ∧ ∀ l ∈ lists, l.Sublist merged := by
  revert merged
  refine merge_induction className (P := fun lists result => Marked lists → ∀ {merged},
    result = .ok merged → merged.Nodup ∧ (∀ x, x ∈ merged ↔ ∃ l ∈ lists, x ∈ l) ∧
      ∀ l ∈ lists, l.Sublist merged) ?_ ?_ ?_ ?_ lists hmarked
  case refine_1 =>
    intro _ merged hrun
    cases hrun
    exact ⟨.nil, by simp, by simp⟩
  case refine_2 =>
    intro l hmarked merged hrun
    cases hrun
    refine ⟨List.nodup_iff_count_le_one.mpr fun x => ?_, by simp, by simp⟩
    by_contra hcount
    obtain ⟨l', hl', hone⟩ := hmarked x ⟨l, List.mem_singleton.mpr rfl, by omega⟩
    rw [List.mem_singleton.mp hl'] at hone
    omega
  case refine_3 =>
    intro lists _ _ _ merged hrun
    cases hrun
  case refine_4 =>
    intro lists head _ hhead ih hmarked merged hrun
    obtain ⟨⟨first, hfirst, hfirst'⟩, hvalid⟩ := findHead_spec hhead
    cases hrest : merge className (withoutHead head lists) with
    | error e => rw [hrest] at hrun; cases hrun
    | ok rest =>
      rw [hrest] at hrun
      cases hrun
      obtain ⟨hnodup, hmem, hsub⟩ := ih (hmarked.withoutHead hvalid) hrest
      refine ⟨List.nodup_cons.mpr ⟨fun h => ?_, hnodup⟩, fun x => ⟨fun hx => ?_, ?_⟩, ?_⟩
      · obtain ⟨l, hl, hin⟩ := (hmem head).mp h
        exact (mem_withoutHead hvalid hl).2.1 hin
      · rcases List.mem_cons.mp hx with rfl | hx
        · exact ⟨first, hfirst, List.mem_of_mem_head? (Option.mem_def.mpr hfirst')⟩
        · obtain ⟨l, hl, hin⟩ := (hmem x).mp hx
          rcases (mem_withoutHead hvalid hl).2.2 with hold | hold
          · exact ⟨_, hold, List.mem_cons_of_mem _ hin⟩
          · exact ⟨_, hold, hin⟩
      · rintro ⟨l, hl, hin⟩
        rcases exists_withoutHead head hl with rfl | rfl | ⟨l', hl', rfl | rfl⟩
        · exact absurd hin List.not_mem_nil
        · rw [List.mem_singleton.mp hin]
          exact List.mem_cons_self
        · rcases List.mem_cons.mp hin with rfl | hin
          · exact List.mem_cons_self
          · exact List.mem_cons_of_mem _ ((hmem x).mpr ⟨l', hl', hin⟩)
        · exact List.mem_cons_of_mem _ ((hmem x).mpr ⟨l, hl', hin⟩)
      · intro l hl
        rcases exists_withoutHead head hl with rfl | rfl | ⟨l', hl', rfl | rfl⟩
        · exact List.nil_sublist _
        · exact List.cons_sublist_cons.mpr (List.nil_sublist _)
        · exact List.cons_sublist_cons.mpr (hsub l' hl')
        · exact (hsub l hl').cons _

/-- `x` stands before `y` in one of the lists. -/
def Precedes (lists : List (List String)) (x y : String) : Prop := ∃ l ∈ lists, [x, y].Sublist l

/-- The orders of the lists make up an acyclic order. -/
def Consistent (lists : List (List String)) : Prop :=
  ∀ x, ¬ Relation.TransGen (Precedes lists) x x

theorem Consistent.withoutHead {head : String} {lists : List (List String)} (h : Consistent lists)
    (hvalid : ∀ l ∈ lists, head ∉ l.tail) : Consistent (withoutHead head lists) := by
  intro x hcycle
  refine h x (Relation.TransGen.mono (fun a b hab => ?_) _ _ hcycle)
  obtain ⟨l, hl, hsub⟩ := hab
  rcases (mem_withoutHead hvalid hl).2.2 with hmem | hmem
  · exact ⟨_, hmem, hsub.cons _⟩
  · exact ⟨_, hmem, hsub⟩

/-- Something comes first in an acyclic order of finitely many classes. -/
theorem Consistent.exists_first {lists : List (List String)} (h : Consistent lists)
    {l : List String} (hl : l ∈ lists) (hne : l ≠ []) :
    ∃ x, (∃ l ∈ lists, x ∈ l) ∧ ∀ y, ¬ Precedes lists y x := by
  obtain ⟨start, hstart⟩ := List.exists_mem_of_ne_nil l hne
  let before : {x // x ∈ lists.flatten.toFinset} → {x // x ∈ lists.flatten.toFinset} → Prop :=
    fun a b => Relation.TransGen (Precedes lists) a b
  have : IsTrans _ before := ⟨fun _ _ _ hab hbc => hab.trans hbc⟩
  have : Std.Irrefl before := ⟨fun a => h a⟩
  have hmem {x : String} (h : ∃ l ∈ lists, x ∈ l) : x ∈ lists.flatten.toFinset :=
    List.mem_toFinset.mpr (List.mem_flatten.mpr h)
  obtain ⟨⟨x, hx⟩, -, hfirst⟩ := (Finite.wellFounded_of_trans_of_irrefl before).has_min Set.univ
    ⟨⟨start, hmem ⟨l, hl, hstart⟩⟩, trivial⟩
  refine ⟨x, List.mem_flatten.mp (List.mem_toFinset.mp hx), fun y hyx => ?_⟩
  have ⟨m, hm, hsub⟩ := hyx
  exact hfirst ⟨y, hmem ⟨m, hm, hsub.subset List.mem_cons_self⟩⟩ trivial (.single hyx)

theorem findHead_ne_none {lists : List (List String)} (h : Consistent lists) (hne : lists ≠ [])
    (hlists : ∀ l ∈ lists, l ≠ []) : findHead lists ≠ none := by
  obtain ⟨l, hl⟩ := List.exists_mem_of_ne_nil lists hne
  obtain ⟨x, ⟨l', hl', hx⟩, hfirst⟩ := h.exists_first hl (hlists l hl)
  -- nothing stands before `x`, so it is in no tail and at the head of its list
  have htail : ∀ m ∈ lists, x ∉ m.tail := by
    intro m hm hmem
    cases m with
    | nil => cases hmem
    | cons y tail =>
      exact hfirst y ⟨_, hm, List.cons_sublist_cons.mpr (List.singleton_sublist.mpr hmem)⟩
  have hhead : x ∈ lists.filterMap List.head? := by
    refine List.mem_filterMap.mpr ⟨l', hl', ?_⟩
    cases l' with
    | nil => cases hx
    | cons y tail =>
      rcases List.mem_cons.mp hx with rfl | hx
      · rfl
      · exact absurd hx (htail _ hl')
  unfold findHead
  intro hnone
  exact List.find?_eq_none.mp hnone x hhead (isValidHead_iff.mpr htail)

/-- **Merging succeeds on consistent lists.** -/
theorem merge_complete {className : String} {lists : List (List String)}
    (h : Consistent lists) (hlists : 2 ≤ lists.length → ∀ l ∈ lists, l ≠ []) :
    ∃ merged, merge className lists = .ok merged := by
  refine merge_induction className (P := fun lists result => Consistent lists →
    (2 ≤ lists.length → ∀ l ∈ lists, l ≠ []) → ∃ merged, result = .ok merged) ?_ ?_ ?_ ?_ lists h
    hlists
  case refine_1 => exact fun _ _ => ⟨_, rfl⟩
  case refine_2 => exact fun _ _ _ => ⟨_, rfl⟩
  case refine_3 =>
    intro lists htwo hnone hconsistent hlists
    have hne : lists ≠ [] := by
      rintro rfl
      simp at htwo
    exact absurd hnone (findHead_ne_none hconsistent hne (hlists htwo))
  case refine_4 =>
    intro lists head _ hhead ih hconsistent _
    have hvalid := (findHead_spec hhead).2
    obtain ⟨rest, hrest⟩ := ih (hconsistent.withoutHead hvalid)
      (fun _ l hl => (mem_withoutHead hvalid hl).1)
    rw [hrest]
    exact ⟨_, rfl⟩

/-! ## 3. Linearizing -/

/-- When a class has a linearization, and which. -/
theorem linearize_eq_ok_iff {parents : Parents} {visited : Finset String} {className : String}
    {order : List String} :
    linearize parents visited className = .ok order ↔
      className ∉ visited ∧ ∃ linearizedSuccessors rest,
        (immediateParents parents className).mapM (linearize parents (insert className visited)) =
          .ok linearizedSuccessors ∧
        merge className (linearizedSuccessors ++ [immediateParents parents className]) = .ok rest ∧
        order = className :: rest := by
  rw [linearize_eq]
  by_cases hmem : className ∈ visited
  · rw [if_pos hmem]
    exact iff_of_false (fun h => by cases h) (fun h => h.1 hmem)
  · rw [if_neg hmem]
    constructor
    · intro h
      obtain ⟨linearizedSuccessors, hmap, h⟩ := bind_eq_ok_iff.mp h
      obtain ⟨rest, hmerge, h⟩ := bind_eq_ok_iff.mp h
      cases h
      exact ⟨hmem, linearizedSuccessors, rest, hmap, hmerge, rfl⟩
    · rintro ⟨-, linearizedSuccessors, rest, hmap, hmerge, rfl⟩
      exact bind_eq_ok_iff.mpr ⟨_, hmap, bind_eq_ok_iff.mpr ⟨_, hmerge, rfl⟩⟩

/-- A linearization does not depend on the classes visited before. -/
theorem linearize_mono {parents : Parents} {visited visited' : Finset String} {className : String}
    {order : List String} (hsub : visited' ⊆ visited)
    (h : linearize parents visited className = .ok order) :
    linearize parents visited' className = .ok order := by
  have ⟨hnew, linearizedSuccessors, rest, hparents, hmerge, horder⟩ := linearize_eq_ok_iff.mp h
  refine linearize_eq_ok_iff.mpr ⟨fun hmem => hnew (hsub hmem), linearizedSuccessors, rest, ?_,
    hmerge, horder⟩
  exact mapM_mono (fun parent hparent l hl => linearize_mono (Finset.insert_subset_insert _ hsub) hl)
    hparents
termination_by (parents.names \ visited).card
decreasing_by exact card_sdiff_insert_lt hnew hparent

theorem linearize_eq_cons {parents : Parents} {visited : Finset String} {className : String}
    {order : List String} (h : linearize parents visited className = .ok order) :
    ∃ rest, order = className :: rest := by
  obtain ⟨-, -, rest, -, -, rfl⟩ := linearize_eq_ok_iff.mp h
  exact ⟨rest, rfl⟩

/-- A class that is linearized reaches no class visited before, and no cycle. -/
theorem linearize_acyclic {parents : Parents} {visited : Finset String} {className : String}
    {order : List String} (h : linearize parents visited className = .ok order) {x : String}
    (hx : Relation.ReflTransGen (Inherits parents) className x) :
    x ∉ visited ∧ ¬ Relation.TransGen (Inherits parents) x x := by
  have ⟨hnew, linearizedSuccessors, rest, hparents, _, _⟩ := linearize_eq_ok_iff.mp h
  have hbelow (parent : String) (hparent : parent ∈ immediateParents parents className) {y : String}
      (hy : Relation.ReflTransGen (Inherits parents) parent y) :
      y ∉ insert className visited ∧ ¬ Relation.TransGen (Inherits parents) y y := by
    obtain ⟨l, -, hl⟩ := (mapM_mem hparents).1 parent hparent
    exact linearize_acyclic hl hy
  rcases Relation.ReflTransGen.cases_head hx with rfl | ⟨parent, hparent, hreach⟩
  · refine ⟨hnew, fun hcycle => ?_⟩
    obtain ⟨parent, hparent, hreach⟩ := Relation.TransGen.head'_iff.mp hcycle
    exact (hbelow parent hparent hreach).1 (Finset.mem_insert_self _ _)
  · obtain ⟨hnot, hacyclic⟩ := hbelow parent hparent hreach
    exact ⟨fun hmem => hnot (Finset.mem_insert_of_mem hmem), hacyclic⟩
termination_by (parents.names \ visited).card
decreasing_by exact card_sdiff_insert_lt hnew hparent

/-- What the linearization of a class is. -/
structure Linearization (parents : Parents) (className : String) (order : List String) : Prop where
  head : order.head? = some className
  nodup : order.Nodup
  mem : ∀ x, x ∈ order ↔ Relation.ReflTransGen (Inherits parents) className x
  ordered : (immediateParents parents className).Sublist order
  inner : ∀ x ∈ order, ∃ inner, linearize parents ∅ x = .ok inner ∧ inner.Sublist order

/-- **A linearization that is returned is one.** -/
theorem linearize_sound {parents : Parents} {visited : Finset String} {className : String}
    {order : List String} (h : linearize parents visited className = .ok order) :
    Linearization parents className order := by
  have ⟨hnew, linearizedSuccessors, rest, hparents, hmerge, horder⟩ := linearize_eq_ok_iff.mp h
  have ⟨hleft, hright⟩ := mapM_mem hparents
  have hsound : ∀ parent ∈ immediateParents parents className, ∀ l,
      linearize parents (insert className visited) parent = .ok l →
      Linearization parents parent l := fun parent hparent l hl => linearize_sound hl
  have hself {parent : String} (hparent : parent ∈ immediateParents parents className) :
      ∃ l ∈ linearizedSuccessors, parent ∈ l ∧ l.Nodup ∧
        linearize parents (insert className visited) parent = .ok l := by
    obtain ⟨l, hl, hrun⟩ := hleft parent hparent
    have hlin := hsound parent hparent l hrun
    exact ⟨l, hl, (hlin.mem parent).mpr .refl, hlin.nodup, hrun⟩
  -- only the list of parents may repeat a class, and the class is alone in its own linearization
  have hmarked : Marked (linearizedSuccessors ++ [immediateParents parents className]) := by
    intro x ⟨l, hl, hcount⟩
    rcases List.mem_append.mp hl with hl | hl
    · obtain ⟨parent, hparent, hrun⟩ := hright l hl
      have hone := List.nodup_iff_count_le_one.mp (hsound parent hparent l hrun).nodup x
      omega
    · rw [List.mem_singleton.mp hl] at hcount
      obtain ⟨l', hl', hmem, hnodup, -⟩ := hself (List.count_pos_iff.mp (Nat.zero_lt_two.trans_le hcount))
      exact ⟨l', List.mem_append_left _ hl', List.count_eq_one_of_mem hnodup hmem⟩
  obtain ⟨hnodup, hmem, hsub⟩ := merge_sound hmarked hmerge
  have hreach (x : String) : x ∈ rest ↔ ∃ parent ∈ immediateParents parents className,
      Relation.ReflTransGen (Inherits parents) parent x := by
    rw [hmem]
    constructor
    · rintro ⟨l, hl, hx⟩
      rcases List.mem_append.mp hl with hl | hl
      · obtain ⟨parent, hparent, hrun⟩ := hright l hl
        exact ⟨parent, hparent, ((hsound parent hparent l hrun).mem x).mp hx⟩
      · rw [List.mem_singleton.mp hl] at hx
        exact ⟨x, hx, .refl⟩
    · rintro ⟨parent, hparent, hx⟩
      obtain ⟨l, hl, hrun⟩ := hleft parent hparent
      exact ⟨l, List.mem_append_left _ hl, ((hsound parent hparent l hrun).mem x).mpr hx⟩
  subst horder
  refine ⟨rfl, List.nodup_cons.mpr ⟨fun hin => ?_, hnodup⟩, fun x => ?_, ?_, fun x hx => ?_⟩
  · obtain ⟨parent, hparent, hx⟩ := (hreach className).mp hin
    exact (linearize_acyclic h .refl).2 (Relation.TransGen.head'_iff.mpr ⟨parent, hparent, hx⟩)
  · rw [List.mem_cons, hreach, Relation.ReflTransGen.cases_head_iff, eq_comm]
    rfl
  · exact (hsub _ (List.mem_append_right _ (List.mem_singleton.mpr rfl))).cons _
  · rcases List.mem_cons.mp hx with rfl | hx
    · exact ⟨_, linearize_mono (Finset.empty_subset _) h, List.Sublist.refl _⟩
    · obtain ⟨parent, hparent, hx⟩ := (hreach x).mp hx
      obtain ⟨l, hl, hrun⟩ := hleft parent hparent
      have hlin := hsound parent hparent l hrun
      obtain ⟨inner, hinner, hsub'⟩ := hlin.inner x ((hlin.mem x).mpr hx)
      exact ⟨inner, hinner, (hsub'.trans (hsub l (List.mem_append_left _ hl))).cons _⟩
termination_by (parents.names \ visited).card
decreasing_by exact card_sdiff_insert_lt hnew hparent

/-- The parents' linearizations and the list of parents agree. -/
def ParentsConsistent (parents : Parents) (className : String) : Prop :=
  ∀ linearizedSuccessors, (immediateParents parents className).mapM
      (methodResolutionOrderLinearize parents) = .ok linearizedSuccessors →
    Consistent (linearizedSuccessors ++ [immediateParents parents className])

/-- **There is a linearization** when no cycle is reached and the constraints agree everywhere. -/
theorem linearize_complete {parents : Parents} {visited : Finset String} {className : String}
    (hcycle : ¬ ReachesCycle parents className)
    (hconsistent : ∀ x, Relation.ReflTransGen (Inherits parents) className x →
      ParentsConsistent parents x)
    (hvisited : ∀ x ∈ visited, Relation.TransGen (Inherits parents) x className) :
    ∃ order, linearize parents visited className = .ok order := by
  have hnew : className ∉ visited := fun hmem =>
    hcycle ⟨className, .refl, hvisited className hmem⟩
  have hbelow : ∀ parent ∈ immediateParents parents className,
      ∃ l, linearize parents (insert className visited) parent = .ok l := by
    intro parent hparent
    have hstep : Inherits parents className parent := hparent
    refine linearize_complete (fun h => hcycle (h.of_inherits hstep))
      (fun x hx => hconsistent x (.head hstep hx)) fun x hx => ?_
    rcases Finset.mem_insert.mp hx with rfl | hx
    · exact .single hstep
    · exact (hvisited x hx).tail hstep
  obtain ⟨linearizedSuccessors, hparents⟩ := mapM_exists hbelow
  have hempty : (immediateParents parents className).mapM (methodResolutionOrderLinearize parents) =
      .ok linearizedSuccessors :=
    mapM_mono (fun _ _ _ => linearize_mono (Finset.empty_subset _)) hparents
  obtain ⟨rest, hrest⟩ : ∃ rest, merge className _ = .ok rest :=
    merge_complete (hconsistent className .refl _ hempty) (by
      intro htwo l hl
      rcases List.mem_append.mp hl with hl | hl
      · obtain ⟨parent, -, hrun⟩ := (mapM_mem hparents).2 l hl
        obtain ⟨rest, rfl⟩ := linearize_eq_cons hrun
        exact List.cons_ne_nil _ _
      · rw [List.mem_singleton.mp hl]
        intro hnil
        rw [hnil, List.mapM_nil] at hparents
        cases hparents
        simp at htwo)
  exact ⟨_, linearize_eq_ok_iff.mpr ⟨hnew, _, rest, hparents, hrest, rfl⟩⟩
termination_by (parents.names \ visited).card
decreasing_by exact card_sdiff_insert_lt hnew hparent

/-- **The C3 linearization**: what is returned starts with the class, holds it and its ancestors
    once each, and keeps the order of the parents and of every linearization within it; and it is
    returned whenever no cycle is reached and the constraints of each class agree. -/
theorem methodResolutionOrderLinearize_spec (parents : Parents) (className : String) :
    (∀ order, methodResolutionOrderLinearize parents className = .ok order →
      ¬ ReachesCycle parents className ∧
      order.head? = some className ∧ order.Nodup ∧
      (∀ x, x ∈ order ↔ Relation.ReflTransGen (Inherits parents) className x) ∧
      ∀ x ∈ order, (immediateParents parents x).Sublist order ∧
        ∃ inner, methodResolutionOrderLinearize parents x = .ok inner ∧ inner.Sublist order) ∧
    (¬ ReachesCycle parents className →
      (∀ x, Relation.ReflTransGen (Inherits parents) className x → ParentsConsistent parents x) →
      ∃ order, methodResolutionOrderLinearize parents className = .ok order) := by
  constructor
  · intro order h
    have hlin := linearize_sound h
    refine ⟨fun ⟨x, hx, hcycle⟩ => (linearize_acyclic h hx).2 hcycle, hlin.head, hlin.nodup,
      hlin.mem, fun x hx => ?_⟩
    obtain ⟨inner, hinner, hsub⟩ := hlin.inner x hx
    exact ⟨(linearize_sound hinner).ordered.trans hsub, inner, hinner, hsub⟩
  · intro hcycle hconsistent
    exact linearize_complete hcycle hconsistent fun x hx => absurd hx (Finset.notMem_empty x)

def diamondParents (name : String) : Option (List Target) :=
  if name = "d" then some [⟨"b"⟩, ⟨"c"⟩]
  else if name = "b" then some [⟨"a"⟩]
  else if name = "c" then some [⟨"a"⟩]
  else none

theorem diamondParents_finite (name : String) (h : (diamondParents name).isSome) :
    name ∈ ({"b", "c", "d"} : Finset String) := by
  unfold diamondParents at h
  simp only [Finset.mem_insert, Finset.mem_singleton]
  split_ifs at h <;> simp_all

/-- A diamond: `d` inherits from `b` and `c`, and both from `a`. -/
def diamond : Parents := ⟨diamondParents, {"b", "c", "d"}, diamondParents_finite⟩

theorem methodResolutionOrderLinearize_spec_diamond :
    methodResolutionOrderLinearize diamond "d" = .ok ["d", "b", "c", "a"] ∧
      ¬ ReachesCycle diamond "d" ∧
      ∀ x ∈ ["d", "b", "c", "a"], (immediateParents diamond x).Sublist ["d", "b", "c", "a"] ∧
        ∃ inner, methodResolutionOrderLinearize diamond x = .ok inner ∧
          inner.Sublist ["d", "b", "c", "a"] := by
  have hrun : methodResolutionOrderLinearize diamond "d" = .ok ["d", "b", "c", "a"] := by
    decide +kernel
  obtain ⟨hacyclic, -, -, -, hinner⟩ :=
    (methodResolutionOrderLinearize_spec diamond "d").1 _ hrun
  exact ⟨hrun, hacyclic, hinner⟩

end Pysa.ClassHierarchy
