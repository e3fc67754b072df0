/-
  Subject: SEQUENCE DISPLAYS AND DESTRUCTURING (`forwardAnalysis.ml`, `analyze_list_element`, the
    case `Starred` of `analyze_expression`, and `analyze_assignment`).

  * `Display`, `Target` -- the two sides of `target = display`, each with its starred parts;
  * `Display.items`, `Target.bind` -- what Python makes of the two sides;
  * `kept_of_mem_items` -- **every element is kept at the position of its display element**;
    the elements of a starred one all share its position;
  * `analyzeAssign_covers` -- **every target covers what Python binds to it where each target reads
    the position at which its element is kept**.
-/
import Pysa.Domains.TreeKeeps

namespace Pysa

open Pysa.Tree

universe u

variable {α : Type u} [DecidableEq α] {w : Finset α → Finset α}

namespace SequenceAssignment

/-! ## 1. Values -/

/-- `Index (string_of_int position)` -/
def positionLabel (position : ℕ) : Label := .index (toString position)

/-- A value and its taint. Each element of a sequence goes with the position at which the analysis
    keeps its taint. -/
inductive Value (α : Type u) : Type u where
  | object (taint : Tree (Finset α))
  | sequence (taint : Finset α) (elements : List (ℕ × Value α))

/-- The reads `reads` include the taint of a value, where `place index position` is read for the
    element of that index kept at that position. -/
inductive CoversAt (place : ℕ → ℕ → ℕ) : (reads : List Label → Finset α) → Value α → Prop where
  | object {reads : List Label → Finset α} {taint : Tree (Finset α)}
      (h : ∀ q : List Label, (∀ k ∈ q, k.Concrete) → taintAt q taint ⊆ reads q) :
      CoversAt place reads (.object taint)
  | sequence {reads : List Label → Finset α} {taint : Finset α} {elements : List (ℕ × Value α)}
      (htaint : taint ⊆ reads [])
      (h : ∀ (index : ℕ) (element : ℕ × Value α), elements[index]? = some element →
        CoversAt place (fun q => reads (positionLabel (place index element.1) :: q)) element.2) :
      CoversAt place reads (.sequence taint elements)

/-- Every element is read at the position where it is kept. -/
abbrev Kept : (List Label → Finset α) → Value α → Prop := CoversAt fun _ position => position

/-- Every element is read at its own index. -/
abbrev Covers : (List Label → Finset α) → Value α → Prop := CoversAt fun index _ => index

/-- Every element is kept at its own index. -/
inductive Value.InPlace : Value α → Prop where
  | object (taint : Tree (Finset α)) : InPlace (.object taint)
  | sequence {taint : Finset α} {elements : List (ℕ × Value α)}
      (hposition : ∀ (index : ℕ) (element : ℕ × Value α),
        elements[index]? = some element → element.1 = index)
      (h : ∀ (index : ℕ) (element : ℕ × Value α),
        elements[index]? = some element → InPlace element.2) :
      InPlace (.sequence taint elements)

theorem CoversAt.mono {place : ℕ → ℕ → ℕ} {reads reads' : List Label → Finset α} {value : Value α}
    (h : CoversAt place reads value)
    (hle : ∀ q : List Label, (∀ k ∈ q, k.Concrete) → reads q ⊆ reads' q) :
    CoversAt place reads' value := by
  induction h generalizing reads' with
  | object h => exact .object fun q hq => (h q hq).trans (hle q hq)
  | sequence htaint _ ih =>
    refine .sequence (htaint.trans (hle [] (by simp))) fun index element hindex => ?_
    exact ih index element hindex fun q hq =>
      hle _ (List.forall_mem_cons.mpr ⟨trivial, hq⟩)

theorem Kept.covers {reads : List Label → Finset α} {value : Value α} (h : Kept reads value)
    (hplace : value.InPlace) : Covers reads value := by
  induction h with
  | object h => exact .object h
  | sequence htaint _ ih =>
    cases hplace with
    | sequence hposition hplace =>
      refine .sequence htaint fun index element hindex => ?_
      have hcovers := ih index element hindex (hplace index element hindex)
      rwa [hposition index element hindex] at hcovers

theorem kept_sequence_iff {reads : List Label → Finset α} {taint : Finset α}
    {elements : List (ℕ × Value α)} :
    Kept reads (.sequence taint elements) ↔ taint ⊆ reads [] ∧
      ∀ element ∈ elements, Kept (fun q => reads (positionLabel element.1 :: q)) element.2 := by
  constructor
  · intro h
    cases h with
    | sequence htaint h =>
      refine ⟨htaint, fun element hmem => ?_⟩
      obtain ⟨index, hindex⟩ := List.mem_iff_getElem?.mp hmem
      exact h index element hindex
  · rintro ⟨htaint, h⟩
    exact .sequence htaint fun index element hindex => h element (List.mem_of_getElem? hindex)

/-! ## 2. Displays -/

/-- The right side of an assignment. The analysis of the expressions in it keeps what their values
    hold; a starred display stands only inside a list. -/
inductive Display (w : Finset α → Finset α) : Type u where
  | expression (taint : Tree (Finset α)) (value : Value α) (kept : Kept (readRoot w · taint) value)
  | list (elements : List (Display w))
  | starred (expression : Display w)

/-- An expression of which only the taint is known. -/
def Display.object (taint : Tree (Finset α)) : Display w :=
  .expression taint (.object taint) (.object fun _ hq => (readRoot_eq hq taint).ge)

/-- `analyze_list_element`, the taint of the element at hand. -/
def analyzeListElement (phys : PhysEq (Tree (Finset α))) (w : Finset α → Finset α) (position : ℕ)
    (taint elementTaint : Tree (Finset α)) : Tree (Finset α) :=
  join (plainSet w) phys taint (createTree (plainSet w) [positionLabel position] elementTaint)

mutual

/-- `analyze_expression` on the displays `List` and `Tuple`, and on `Starred`. -/
def analyzeExpression (phys : PhysEq (Tree (Finset α))) : Display w → Tree (Finset α)
  | .expression taint _ _ => taint
  | .list elements => analyzeListElements phys 0 (emptyTree (plainSet w)) elements
  | .starred expression =>
    read (plainSet w) (fun _ e => e) [.anyIndex] (analyzeExpression phys expression)

def analyzeListElements (phys : PhysEq (Tree (Finset α))) (position : ℕ) (taint : Tree (Finset α)) :
    List (Display w) → Tree (Finset α)
  | [] => taint
  | expression :: rest =>
    analyzeListElements phys (position + 1)
      (analyzeListElement phys w position taint (analyzeExpression phys expression)) rest

end

/-- The elements of a sequence that a star spreads. -/
def spread : List (Value α) → Option (List (Value α))
  | [.sequence _ elements] => some (elements.map Prod.snd)
  | _ => none

omit [DecidableEq α] in
theorem spread_eq_some {values spreads : List (Value α)} (h : spread values = some spreads) :
    ∃ taint elements, values = [.sequence taint elements] ∧ spreads = elements.map Prod.snd := by
  unfold spread at h
  split at h
  · exact ⟨_, _, rfl, (Option.some.inj h).symm⟩
  · cases h

mutual

/-- What a display adds to the list it stands in: its value, or the elements of a starred one;
    `none` where a starred value is no sequence. -/
def Display.items : Display w → Option (List (Value α))
  | .expression _ value _ => some [value]
  | .list elements => (Display.placedItems 0 elements).map fun placed => [.sequence ∅ placed]
  | .starred display => display.items.bind spread

/-- The elements of a display, with the position of the display element they come from. -/
def Display.placedItems (position : ℕ) : List (Display w) → Option (List (ℕ × Value α))
  | [] => some []
  | display :: rest =>
    display.items.bind fun values =>
      (Display.placedItems (position + 1) rest).map fun placed =>
        values.map (position, ·) ++ placed

end

theorem taintAt_subset_analyzeListElement (phys : PhysEq (Tree (Finset α))) (position : ℕ)
    (taint elementTaint : Tree (Finset α)) {q : List Label} (hq : ∀ k ∈ q, k.Concrete) :
    taintAt q taint ⊆ taintAt q (analyzeListElement phys w position taint elementTaint) ∧
      taintAt q elementTaint ⊆ taintAt (positionLabel position :: q)
        (analyzeListElement phys w position taint elementTaint) := by
  obtain ⟨hleft, hright⟩ := join_upper_bound (setElement_lawful (α := α) w .identity id)
    (setElement_lawfulSink (α := α) w .identity id) phys taint
    (createTree (plainSet w) [positionLabel position] elementTaint)
  refine ⟨(lessOrEqual_iff_taintAt _ _).mp hleft q hq, ?_⟩
  refine (taintAt_subset_createTree (w := w) (positionLabel position) q elementTaint).trans ?_
  exact (lessOrEqual_iff_taintAt _ _).mp hright _ (List.forall_mem_cons.mpr ⟨trivial, hq⟩)

theorem taintAt_subset_analyzeListElements (phys : PhysEq (Tree (Finset α))) {q : List Label}
    (hq : ∀ k ∈ q, k.Concrete) (elements : List (Display w)) (position : ℕ)
    (taint : Tree (Finset α)) :
    taintAt q taint ⊆ taintAt q (analyzeListElements phys position taint elements) := by
  induction elements generalizing position taint with
  | nil => exact Finset.Subset.refl _
  | cons expression rest ih =>
    exact (taintAt_subset_analyzeListElement phys position taint _ hq).1.trans (ih _ _)

mutual

/-- **Every element is kept at the position of its display element.** -/
theorem kept_of_mem_items (phys : PhysEq (Tree (Finset α))) :
    ∀ (display : Display w) {values : List (Value α)}, display.items = some values →
      ∀ value ∈ values, Kept (readRoot w · (analyzeExpression phys display)) value
  | .expression taint value kept, values, h, value', hmem => by
      rw [Display.items, Option.some.injEq] at h
      rw [← h, List.mem_singleton] at hmem
      rw [hmem, analyzeExpression]
      exact kept
  | .list elements, values, h, value, hmem => by
      rw [Display.items] at h
      obtain ⟨placed, hplaced, rfl⟩ := Option.map_eq_some_iff.mp h
      rw [List.mem_singleton] at hmem
      rw [hmem, analyzeExpression, kept_sequence_iff]
      exact ⟨Finset.empty_subset _, kept_of_mem_placedItems phys elements hplaced⟩
  | .starred expression, values, h, value, hmem => by
      rw [Display.items] at h
      rw [analyzeExpression]
      obtain ⟨spreads, hitems, hspread⟩ := Option.bind_eq_some_iff.mp h
      obtain ⟨taint, elements, rfl, rfl⟩ := spread_eq_some hspread
      obtain ⟨element, helement, rfl⟩ := List.mem_map.mp hmem
      have hkept := kept_of_mem_items phys expression hitems _ (List.mem_singleton.mpr rfl)
      refine ((kept_sequence_iff.mp hkept).2 element helement).mono fun q hq => ?_
      exact readRoot_subset_read (l := .anyIndex) (.anyIndex (Finset.notMem_empty _)) hq _

theorem kept_of_mem_placedItems (phys : PhysEq (Tree (Finset α))) :
    ∀ (elements : List (Display w)) {position : ℕ} {taint : Tree (Finset α)}
      {placed : List (ℕ × Value α)}, Display.placedItems position elements = some placed →
      ∀ element ∈ placed, Kept (fun q => readRoot w (positionLabel element.1 :: q)
        (analyzeListElements phys position taint elements)) element.2
  | [], _, _, _, h, element, hmem => by
      rw [Display.placedItems, Option.some.injEq] at h
      rw [← h] at hmem
      exact absurd hmem List.not_mem_nil
  | expression :: rest, position, taint, placed, h, element, hmem => by
      rw [Display.placedItems] at h
      rw [analyzeListElements]
      obtain ⟨values, hvalues, h⟩ := Option.bind_eq_some_iff.mp h
      obtain ⟨others, hothers, rfl⟩ := Option.map_eq_some_iff.mp h
      rcases List.mem_append.mp hmem with hmem | hmem
      · obtain ⟨value, hvalue, rfl⟩ := List.mem_map.mp hmem
        refine (kept_of_mem_items phys expression hvalues value hvalue).mono fun q hq => ?_
        have hlabel : (positionLabel position).Concrete := trivial
        have hcons := List.forall_mem_cons.mpr ⟨hlabel, hq⟩
        rw [readRoot_eq hq, readRoot_eq hcons]
        exact (taintAt_subset_analyzeListElement phys position taint _ hq).2.trans
          (taintAt_subset_analyzeListElements phys hcons rest _ _)
      · exact kept_of_mem_placedItems phys rest hothers element hmem

end

/-! ## 3. Targets -/

/-- The left side of an assignment: variables, and lists or tuples of targets. -/
inductive Target where
  | variable (name : String)
  | list (targets : List Target)
  | starred (target : Target)

def Target.isStarred : Target → Bool
  | .starred _ => true
  | _ => false

/-- The taint of each variable. -/
abbrev VariableTaint (α : Type u) := String → Tree (Finset α)

mutual

def analyzeAssignment (w : Finset α → Finset α) :
    Target → (taint surroundingTaint : Tree (Finset α)) → VariableTaint α → VariableTaint α
  | .variable name, taint, _, state =>
    Function.update state name (assign (plainSet w) false (state name) [] taint)
  | .starred target, _, surroundingTaint, state =>
    -- the entire collection, with the positions it has there
    analyzeAssignment w target surroundingTaint surroundingTaint state
  | .list targets, taint, _, state => analyzeTargetElements w 0 targets taint state

/-- `analyze_target_element` on each target of a list. -/
def analyzeTargetElements (w : Finset α → Finset α) (i : ℕ) :
    List Target → (taint : Tree (Finset α)) → VariableTaint α → VariableTaint α
  | [], _, state => state
  | target :: rest, taint, state =>
    let indexedTaint := read (plainSet w) (fun _ e => e) [positionLabel i] taint
    analyzeTargetElements w (i + 1) rest taint
      (analyzeAssignment w target indexedTaint taint state)

end

/-- The statement `target = display`. -/
def analyzeAssign (phys : PhysEq (Tree (Finset α))) (target : Target) (display : Display w)
    (state : VariableTaint α) : VariableTaint α :=
  let taint := analyzeExpression phys display
  analyzeAssignment w target taint taint state

/-- The values of the variables. -/
abbrev Binding (α : Type u) := String → Option (Value α)

/-- The elements that a starred target takes when `rest` stands after it. -/
def starredLength (rest : List Target) (elements : List (ℕ × Value α)) : ℕ :=
  elements.length - rest.length

mutual

/-- What Python binds, from left to right; `none` where it raises an error. -/
def Target.bind : Target → Value α → Binding α → Option (Binding α)
  | .variable name, value, binding => some (Function.update binding name (some value))
  | .starred target, value, binding => target.bind value binding
  | .list targets, .sequence _ elements, binding => Target.bindElements targets elements binding
  | .list _, .object _, _ => none

def Target.bindElements : List Target → List (ℕ × Value α) → Binding α → Option (Binding α)
  | [], elements, binding => if elements.isEmpty then some binding else none
  | target :: rest, elements, binding =>
    if target.isStarred then
      -- one starred target, which takes what the others leave
      if rest.any Target.isStarred || elements.length < rest.length then none
      else
        (target.bind (.sequence ∅ (elements.take (starredLength rest elements))) binding).bind
          (Target.bindElements rest (elements.drop (starredLength rest elements)))
    else
      match elements with
      | [] => none
      | element :: elements =>
        (target.bind element.2 binding).bind (Target.bindElements rest elements)

end

mutual

/-- Each target reads the position at which the element bound to it is kept, and what a variable is
    bound to is kept in place. -/
def Target.ReadsInPlace : Target → Value α → Prop
  | .variable _, value => value.InPlace
  | .starred target, value => target.ReadsInPlace value
  | .list targets, .sequence _ elements => Target.ElementsInPlace 0 targets elements
  | .list _, .object _ => True

def Target.ElementsInPlace (i : ℕ) : List Target → List (ℕ × Value α) → Prop
  | [], _ => True
  | target :: rest, elements =>
    if target.isStarred then
      target.ReadsInPlace (.sequence ∅ (elements.take (starredLength rest elements))) ∧
        Target.ElementsInPlace (i + 1) rest (elements.drop (starredLength rest elements))
    else
      match elements with
      | [] => True
      | element :: elements =>
        element.1 = i ∧ target.ReadsInPlace element.2 ∧
          Target.ElementsInPlace (i + 1) rest elements

end

section Starred

omit [DecidableEq α]

variable {target : Target} (h : target.isStarred = true) (rest : List Target)
  (elements : List (ℕ × Value α))

include h

theorem bindElements_of_isStarred (binding : Binding α) :
    Target.bindElements (target :: rest) elements binding =
      if rest.any Target.isStarred || elements.length < rest.length then none
      else
        (target.bind (.sequence ∅ (elements.take (starredLength rest elements))) binding).bind
          (Target.bindElements rest (elements.drop (starredLength rest elements))) := by
  cases elements <;> rw [Target.bindElements, if_pos h]

theorem elementsInPlace_of_isStarred (i : ℕ) :
    Target.ElementsInPlace i (target :: rest) elements ↔
      target.ReadsInPlace (.sequence ∅ (elements.take (starredLength rest elements))) ∧
        Target.ElementsInPlace (i + 1) rest (elements.drop (starredLength rest elements)) := by
  cases elements <;> rw [Target.ElementsInPlace, if_pos h]

end Starred

/-- Every variable's taint includes that of its value. -/
def StateCovers (w : Finset α → Finset α) (state : VariableTaint α) (binding : Binding α) : Prop :=
  ∀ name value, binding name = some value → Covers (readRoot w · (state name)) value

theorem StateCovers.store {state : VariableTaint α} {binding : Binding α}
    (h : StateCovers w state binding) {taint : Tree (Finset α)} {value : Value α}
    (hcovers : Covers (readRoot w · taint) value) (name : String) :
    StateCovers w (Function.update state name (assign (plainSet w) false (state name) [] taint))
      (Function.update binding name (some value)) := by
  intro other value' hvalue
  by_cases hname : other = name
  · subst hname
    rw [Function.update_self, Option.some.injEq] at hvalue
    rw [Function.update_self, ← hvalue]
    refine hcovers.mono fun q hq => ?_
    rw [readRoot_eq hq, readRoot_eq hq]
    exact taintAt_subset_assign_nil _ taint hq
  · rw [Function.update_of_ne hname] at hvalue ⊢
    exact h other value' hvalue

mutual

theorem analyzeAssignment_covers :
    ∀ (target : Target) {value : Value α} {taint surroundingTaint : Tree (Finset α)}
      {state : VariableTaint α} {binding binding' : Binding α},
      target.bind value binding = some binding' → target.ReadsInPlace value →
      Kept (readRoot w · (if target.isStarred then surroundingTaint else taint)) value →
      StateCovers w state binding →
      StateCovers w (analyzeAssignment w target taint surroundingTaint state) binding'
  | .variable name, value, taint, surroundingTaint, state, binding, binding', hbind, hplace, hkept,
    hstate => by
      rw [Target.bind, Option.some.injEq] at hbind
      rw [Target.ReadsInPlace] at hplace
      rw [analyzeAssignment, ← hbind]
      exact hstate.store (hkept.covers hplace) name
  | .starred target, value, taint, surroundingTaint, state, binding, binding', hbind, hplace, hkept,
    hstate => by
      rw [Target.bind] at hbind
      rw [Target.ReadsInPlace] at hplace
      rw [analyzeAssignment]
      refine analyzeAssignment_covers target hbind hplace ?_ hstate
      rw [ite_self]
      exact hkept
  | .list targets, .object _, _, _, _, _, _, hbind, _, _, _ => by
      rw [Target.bind] at hbind
      exact absurd hbind (Option.some_ne_none _).symm
  | .list targets, .sequence _ elements, taint, _, state, binding, binding', hbind, hplace, hkept,
    hstate => by
      rw [Target.bind] at hbind
      rw [Target.ReadsInPlace] at hplace
      rw [analyzeAssignment]
      exact analyzeTargetElements_covers targets hbind hplace (kept_sequence_iff.mp hkept).2 hstate

theorem analyzeTargetElements_covers :
    ∀ (targets : List Target) {i : ℕ} {elements : List (ℕ × Value α)} {taint : Tree (Finset α)}
      {state : VariableTaint α} {binding binding' : Binding α},
      Target.bindElements targets elements binding = some binding' →
      Target.ElementsInPlace i targets elements →
      (∀ element ∈ elements,
        Kept (fun q => readRoot w (positionLabel element.1 :: q) taint) element.2) →
      StateCovers w state binding →
      StateCovers w (analyzeTargetElements w i targets taint state) binding'
  | [], i, elements, taint, state, binding, binding', hbind, _, _, hstate => by
      rw [Target.bindElements] at hbind
      obtain ⟨-, hbinding⟩ := Option.ite_none_right_eq_some.mp hbind
      rw [analyzeTargetElements, ← Option.some.inj hbinding]
      exact hstate
  | target :: rest, i, elements, taint, state, binding, binding', hbind, hplace, hkept, hstate => by
      rw [analyzeTargetElements]
      cases hstarred : target.isStarred with
      | true =>
        rw [bindElements_of_isStarred hstarred] at hbind
        rw [elementsInPlace_of_isStarred hstarred] at hplace
        obtain ⟨-, hbind⟩ := Option.ite_none_left_eq_some.mp hbind
        obtain ⟨between, hfirst, hrest⟩ := Option.bind_eq_some_iff.mp hbind
        refine analyzeTargetElements_covers rest hrest hplace.2
          (fun element hmem => hkept element (List.mem_of_mem_drop hmem)) ?_
        refine analyzeAssignment_covers target hfirst hplace.1 ?_ hstate
        rw [if_pos hstarred, kept_sequence_iff]
        exact ⟨Finset.empty_subset _,
          fun element hmem => hkept element (List.mem_of_mem_take hmem)⟩
      | false =>
        have hne := Bool.eq_false_iff.mp hstarred
        cases elements with
        | nil =>
          rw [Target.bindElements, if_neg hne] at hbind
          exact absurd hbind (Option.some_ne_none _).symm
        | cons element elements =>
          rw [Target.bindElements, if_neg hne] at hbind
          rw [Target.ElementsInPlace, if_neg hne] at hplace
          obtain ⟨between, hfirst, hrest⟩ := Option.bind_eq_some_iff.mp hbind
          obtain ⟨hposition, hplace, hplaces⟩ := hplace
          rw [List.forall_mem_cons] at hkept
          refine analyzeTargetElements_covers rest hrest hplaces hkept.2 ?_
          refine analyzeAssignment_covers target hfirst hplace ?_ hstate
          rw [if_neg hne, ← hposition]
          exact hkept.1.mono fun q hq => readRoot_subset_read (l := positionLabel _) (.index _) hq taint

end

/-- **Every target covers what Python binds to it** where each target reads the position at which its
    element is kept: the elements of a starred display element share its position, and a target reads
    its own. -/
theorem analyzeAssign_covers (phys : PhysEq (Tree (Finset α))) {target : Target}
    {display : Display w} {value : Value α} {binding : Binding α} (state : VariableTaint α)
    (hvalue : display.items = some [value])
    (hbind : target.bind value (fun _ => none) = some binding)
    (hplace : target.ReadsInPlace value) :
    StateCovers w (analyzeAssign phys target display state) binding := by
  have hkept := kept_of_mem_items phys display hvalue value (List.mem_singleton.mpr rfl)
  refine analyzeAssignment_covers target hbind hplace ?_ fun name value h => nomatch h
  rw [ite_self]
  exact hkept

theorem analyzeAssign_covers_pair :
    StateCovers id (analyzeAssign (w := id) (.never _) (.list [.variable "a", .variable "b"])
        (.list [.object (createLeaf {1}), .starred (.list [.object (createLeaf {2})])])
        fun _ => emptyTree (plainSet id))
      (Function.update (Function.update (fun _ => none) "a" (some (.object (createLeaf {1}))))
        "b" (some (.object (createLeaf ({2} : Finset ℕ))))) :=
  analyzeAssign_covers _ _ rfl rfl ⟨rfl, .object _, rfl, .object _, trivial⟩

/-- The assignment `a, *b = [x, y]`. -/
def restOfPair : Target × Display (α := ℕ) id :=
  (.list [.variable "a", .starred (.variable "b")],
    .list [.object (createLeaf ∅), .object (createLeaf {1})])

/-- Nothing is read at `b[0]`. -/
theorem readRoot_restOfPair :
    readRoot id [positionLabel 0] (analyzeAssign (.never _) restOfPair.1 restOfPair.2
      (fun _ => emptyTree (plainSet id)) "b") = ∅ := by
  have htaint : analyzeExpression (.never _) restOfPair.2 =
      .node ∅ (.singleton (positionLabel 1) (createLeaf {1})) := rfl
  have hassign : analyzeAssign (.never _) restOfPair.1 restOfPair.2
      (fun _ => emptyTree (plainSet id)) "b" = optionNodeTree (plainSet id)
      (assignAt id (analyzeExpression (.never _) restOfPair.2) [] ∅ (emptyTree (plainSet id))) := rfl
  have hnode := fun (e : Finset ℕ) c => optionNodeTree_createNodeOption (w := id) (.node e c)
  simp only [element_node, children_node] at hnode
  rw [readRoot_eq (by simp [positionLabel, Label.Concrete]), hassign, assignAt_nil, pruneTree_plain,
    htaint, element_node, children_node, hnode]
  have hne : Nat.repr 0 ≠ Nat.repr 1 := by decide
  simp [taintAt, lookup, positionLabel, SortedMap.find?_filterMap, SortedMap.find?_singleton, hne]

/-- In `a, *b = [x, y]` the starred target takes the whole collection: `b[0]` reads `x`, where Python
    finds `y`. -/
theorem not_analyzeAssign_covers :
    ¬ ∀ (target : Target) (display : Display (α := ℕ) id) (value : Value ℕ) (binding : Binding ℕ)
      (state : VariableTaint ℕ), display.items = some [value] →
      target.bind value (fun _ => none) = some binding →
      StateCovers id (analyzeAssign (.never _) target display state) binding := by
  intro h
  have hcovers := h restOfPair.1 restOfPair.2 _ _ (fun _ => emptyTree (plainSet id)) rfl rfl "b" _ rfl
  cases hcovers with
  | sequence _ h =>
    cases h 0 _ rfl with
    | object h =>
      have hread := h [] (by simp)
      dsimp only at hread
      rw [readRoot_restOfPair] at hread
      exact absurd (hread (Finset.mem_singleton_self 1)) (Finset.notMem_empty 1)

end SequenceAssignment

end Pysa

