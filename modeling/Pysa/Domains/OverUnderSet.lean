/-
  Subject: SETS WITH AN OVER- AND AN UNDER-APPROXIMATION (`abstractOverUnderSetDomain.ml`).

  * `BiSet` -- bottom, or the two approximations; `UnderInOver` is the comment of the source,
    "implicitly under <= over at all times";
  * the operations of the source, `make` with its reuse of an equal old value included;
  * `lessOrEqual_iff`, `join_eq` -- the order and the join by what they do to the components;
  * `Reachable` -- the values that the operations build: `Reachable.underInOver`;
  * `subtract_lessOrEqual`, `join_subtract` -- what `subtract` leaves and what it may drop.
-/
import Pysa.Lib.Basic
import Pysa.Domains.AbstractDomain

namespace Pysa

universe u v

namespace OverUnderSet

open AbstractDomain

/-- `approximation`. -/
structure Approximation (α : Type u) where
  element : α
  inUnder : Bool

/-- `biset`. Bottom is different from the pair of empty sets. -/
inductive BiSet (α : Type u) [LinearOrder α]
  | bottom
  | biSet (overs unders : SortedSet α)

variable {α : Type u} [LinearOrder α]

namespace BiSet

variable (physSet : PhysEq (SortedSet α)) (phys : PhysEq (BiSet α))

/-! ## 1. Operations -/

def empty : BiSet α := biSet .empty .empty

def isBottom : BiSet α → Bool
  | bottom => true
  | biSet _ _ => false

def elementOf (unders : SortedSet α) (element : α) : Approximation α := ⟨element, element ∈ unders⟩

def toApproximation : BiSet α → List (Approximation α)
  | bottom => []
  | biSet overs unders => overs.elements.map (elementOf unders)

/-- `join`. The test `left == right` is physical equality. -/
def join (left right : BiSet α) : BiSet α :=
  if phys.test left right then left
  else
    match left, right with
    | bottom, _ => right
    | _, bottom => left
    | biSet leftOver leftUnder, biSet rightOver rightUnder =>
      biSet (leftOver.union rightOver) (leftUnder.inter rightUnder)

/-- The pair, or the old value where it has the same components. -/
def make (old : BiSet α) (overs unders : SortedSet α) : BiSet α :=
  match old with
  | biSet oldOver oldUnder =>
    if physSet.test oldOver overs && physSet.test oldUnder unders then old
    else biSet overs unders
  | bottom => biSet overs unders

def addSet (set toAdd : BiSet α) : BiSet α :=
  match set, toAdd with
  | bottom, _ => toAdd
  | _, bottom => set
  | biSet overs unders, biSet toAddOver toAddUnder =>
    make physSet set (overs.union toAddOver) (unders.union toAddUnder)

def addElement (set : BiSet α) (element : Approximation α) : BiSet α :=
  match set with
  | bottom =>
    let singleton := SortedSet.singleton element.element
    biSet singleton (if element.inUnder then singleton else .empty)
  | biSet overs unders =>
    make physSet set (overs.add element.element)
      (if element.inUnder then unders.add element.element else unders)

def add (set : BiSet α) (element : α) : BiSet α := addElement physSet set ⟨element, true⟩

def ofList (elements : List α) : BiSet α := elements.foldl (add physSet) bottom

def ofApproximation (elements : List (Approximation α)) : BiSet α :=
  elements.foldl (addElement physSet) empty

def ofSet (set : SortedSet α) : BiSet α := biSet set set

def overToUnder (set : BiSet α) : BiSet α :=
  match set with
  | bottom => bottom
  | biSet overs _ => make physSet set overs overs

def widen (_iteration : ℕ) (prev next : BiSet α) : BiSet α := join phys prev next

def lessOrEqual (left right : BiSet α) : Bool :=
  if phys.test left right then true
  else
    match left, right with
    | bottom, _ => true
    | _, bottom => false
    | biSet leftOver leftUnder, biSet rightOver rightUnder =>
      if physSet.test leftOver rightOver && physSet.test leftUnder rightUnder then true
      else leftOver.subset rightOver && rightUnder.subset leftUnder

def subtract (toRemove source : BiSet α) : BiSet α :=
  if phys.test toRemove source then bottom
  else
    match source, toRemove with
    | bottom, _ => bottom
    | _, bottom => source
    | biSet overs unders, biSet removeOver removeUnder =>
      let overs := overs.diff removeOver
      if overs.isEmpty && decide (unders = removeUnder) then bottom
      else make physSet source (overs.union unders) unders

def sequenceJoin (left right : BiSet α) : BiSet α :=
  if phys.test left right then left
  else
    match left, right with
    | bottom, _ => right
    | _, bottom => left
    | biSet leftOver leftUnder, biSet rightOver rightUnder =>
      make physSet left (leftOver.union rightOver) (leftUnder.union rightUnder)

def singleton (element : α) : BiSet α := biSet (.singleton element) (.singleton element)

def remove (element : α) : BiSet α → BiSet α
  | bottom => bottom
  | biSet overs unders => biSet (overs.remove element) (unders.remove element)

def domain : AbstractDomain (BiSet α) where
  bottom := bottom
  isBottom := isBottom
  join := join phys
  meet := baseMeet (lessOrEqual physSet phys)
  lessOrEqual := lessOrEqual physSet phys
  widen := widen phys
  subtract := subtract physSet phys

/-- The operations of `transform`: on the elements, on the elements with their membership in the
    under-approximation, and on the whole set. -/
inductive Transform (α : Type u) [LinearOrder α]
  | elementMap (f : α → α)
  | elementExpand (f : α → List α)
  | elementAdd (element : α)
  | elementFilter (f : α → Bool)
  | elementFilterMap (f : α → Option α)
  | approximationMap (f : Approximation α → Approximation α)
  | approximationExpand (f : Approximation α → List (Approximation α))
  | approximationAdd (element : Approximation α)
  | approximationFilter (f : Approximation α → Bool)
  | approximationFilterMap (f : Approximation α → Option (Approximation α))
  | self (op : SelfTransform (BiSet α))

def transform (op : Transform α) (set : BiSet α) : BiSet α :=
  match op, set with
  | .elementMap _, bottom => set
  | .elementMap f, biSet _ _ =>
    ofApproximation physSet (set.toApproximation.map fun e => { e with element := f e.element })
  | .elementExpand _, bottom => set
  | .elementExpand f, biSet _ _ =>
    ofApproximation physSet (set.toApproximation.map fun e =>
      (f e.element).map fun v => { e with element := v }).flatten
  | .elementAdd element, _ => add physSet set element
  | .elementFilter _, bottom => set
  | .elementFilter f, biSet overs unders => make physSet set (overs.filter f) (unders.filter f)
  | .elementFilterMap _, bottom => set
  | .elementFilterMap f, biSet _ _ =>
    ofApproximation physSet (set.toApproximation.filterMap fun e =>
      (f e.element).map fun element => { e with element := element })
  | .approximationMap _, bottom => set
  | .approximationMap f, biSet _ _ => ofApproximation physSet (set.toApproximation.map f)
  | .approximationExpand _, bottom => set
  | .approximationExpand f, biSet _ _ => ofApproximation physSet (set.toApproximation.map f).flatten
  | .approximationAdd element, _ => addElement physSet set element
  | .approximationFilter _, bottom => bottom
  | .approximationFilter f, biSet _ _ => ofApproximation physSet (set.toApproximation.filter f)
  | .approximationFilterMap _, bottom => set
  | .approximationFilterMap f, biSet _ _ =>
    ofApproximation physSet (set.toApproximation.filterMap f)
  -- not the join of the common implementation
  | .self (.add toAdd), _ => addSet physSet set toAdd
  | .self op, _ => (domain physSet phys).selfTransform op set

/-- `update_element`: one element of a partition joins its class. -/
def updateElement (element : Approximation α) : Option (BiSet α) → BiSet α
  | none => addElement physSet bottom element
  | some set => addElement physSet set element

variable {κ : Type v} [LinearOrder κ]

/-- `partition` on `ElementAndUnder, ByFilter`; `By` is the case where the key is never `None`. -/
def partition (f : Approximation α → Option κ) (set : BiSet α) : SortedMap κ (BiSet α) :=
  fileAll (updateElement physSet) f set.toApproximation

inductive Part (α : Type u) [LinearOrder α]
  | elementAndUnder (value : Approximation α)
  | element (value : α)
  | self (value : BiSet α)

def createPart (soFar : BiSet α) : Part α → BiSet α
  | .elementAndUnder value => addElement physSet soFar value
  | .element value => add physSet soFar value
  | .self value => addSet physSet soFar value

def create (parts : List (Part α)) : BiSet α := parts.foldl (createPart physSet) bottom

/-! ## 2. The order -/

variable {physSet phys} {a b c : BiSet α} {overs unders overs' unders' : SortedSet α}

theorem make_eq (old : BiSet α) (overs unders : SortedSet α) :
    make physSet old overs unders = biSet overs unders := by
  cases old with
  | bottom => rfl
  | biSet oldOver oldUnder =>
    unfold make
    dsimp only
    split
    · rename_i h
      obtain ⟨hover, hunder⟩ := Bool.and_eq_true_iff.mp h
      rw [physSet.sound hover, physSet.sound hunder]
    · rfl

/-- The order, without the tests for physical equality. -/
def Le : BiSet α → BiSet α → Prop
  | bottom, _ => True
  | biSet _ _, bottom => False
  | biSet overs unders, biSet overs' unders' =>
    (∀ x ∈ overs, x ∈ overs') ∧ ∀ x ∈ unders', x ∈ unders

theorem Le.refl (a : BiSet α) : Le a a := by
  cases a with
  | bottom => exact trivial
  | biSet overs unders => exact ⟨fun _ => id, fun _ => id⟩

theorem Le.trans (hab : Le a b) (hbc : Le b c) : Le a c := by
  cases a with
  | bottom => exact trivial
  | biSet overs unders =>
    cases b with
    | bottom => exact hab.elim
    | biSet overs' unders' =>
      cases c with
      | bottom => exact hbc.elim
      | biSet overs'' unders'' =>
        exact ⟨fun x hx => hbc.1 x (hab.1 x hx), fun x hx => hab.2 x (hbc.2 x hx)⟩

theorem Le.antisymm (hab : Le a b) (hba : Le b a) : a = b := by
  cases a with
  | bottom =>
    cases b with
    | bottom => rfl
    | biSet overs unders => exact hba.elim
  | biSet overs unders =>
    cases b with
    | bottom => exact hab.elim
    | biSet overs' unders' =>
      rw [show overs = overs' from SortedSet.ext fun x => ⟨hab.1 x, hba.1 x⟩,
        show unders = unders' from SortedSet.ext fun x => ⟨hba.2 x, hab.2 x⟩]

theorem lessOrEqual_iff : lessOrEqual physSet phys a b = true ↔ Le a b := by
  unfold lessOrEqual
  split
  · rename_i h
    exact iff_of_true rfl (phys.sound h ▸ Le.refl a)
  · cases a with
    | bottom => exact iff_of_true rfl trivial
    | biSet overs unders =>
      cases b with
      | bottom => exact iff_of_false Bool.false_ne_true id
      | biSet overs' unders' =>
        dsimp only [Le]
        split
        · rename_i h
          obtain ⟨hover, hunder⟩ := Bool.and_eq_true_iff.mp h
          refine iff_of_true rfl ?_
          rw [physSet.sound hover, physSet.sound hunder]
          exact ⟨fun _ => id, fun _ => id⟩
        · rw [Bool.and_eq_true, SortedSet.subset_iff, SortedSet.subset_iff]

/-- `join`, without the test for physical equality. -/
theorem join_eq : join phys a b =
    match a, b with
    | bottom, b => b
    | a, bottom => a
    | biSet overs unders, biSet overs' unders' =>
      biSet (overs.union overs') (unders.inter unders') := by
  unfold join
  split
  · rename_i h
    obtain rfl := phys.sound h
    cases a with
    | bottom => rfl
    | biSet overs unders =>
      have hover : overs.union overs = overs := SortedSet.ext fun x => by simp
      have hunder : unders.inter unders = unders := SortedSet.ext fun x => by simp
      dsimp only
      rw [hover, hunder]
  · cases a <;> cases b <;> rfl

theorem join_le_iff : Le (join phys a b) c ↔ Le a c ∧ Le b c := by
  rw [join_eq]
  cases a with
  | bottom => exact (and_iff_right trivial).symm
  | biSet overs unders =>
    cases b with
    | bottom => exact (and_iff_left trivial).symm
    | biSet overs' unders' =>
      cases c with
      | bottom => exact (and_self_iff (a := False)).symm
      | biSet overs'' unders'' =>
        simp only [Le, SortedSet.mem_union, SortedSet.mem_inter, or_imp, forall_and]
        tauto

/-! ## 3. The under-approximation is included in the over-approximation -/

/-- "Implicitly under <= over at all times." -/
def UnderInOver : BiSet α → Prop
  | bottom => True
  | biSet overs unders => ∀ x ∈ unders, x ∈ overs

theorem UnderInOver.join (ha : a.UnderInOver) (hb : b.UnderInOver) :
    (join phys a b).UnderInOver := by
  rw [join_eq]
  cases a with
  | bottom => exact hb
  | biSet overs unders =>
    cases b with
    | bottom => exact ha
    | biSet overs' unders' =>
      intro x hx
      exact SortedSet.mem_union.mpr (Or.inl (ha x (SortedSet.mem_inter.mp hx).1))

theorem underInOver_union (h : (biSet overs unders).UnderInOver)
    (h' : (biSet overs' unders').UnderInOver) :
    (biSet (overs.union overs') (unders.union unders')).UnderInOver := fun x hx =>
  SortedSet.mem_union.mpr ((SortedSet.mem_union.mp hx).imp (h x) (h' x))

theorem UnderInOver.addSet (ha : a.UnderInOver) (hb : b.UnderInOver) :
    (addSet physSet a b).UnderInOver := by
  cases a with
  | bottom => exact hb
  | biSet overs unders =>
    cases b with
    | bottom => exact ha
    | biSet overs' unders' =>
      unfold BiSet.addSet
      dsimp only
      rw [make_eq]
      exact underInOver_union ha hb

theorem UnderInOver.sequenceJoin (ha : a.UnderInOver) (hb : b.UnderInOver) :
    (sequenceJoin physSet phys a b).UnderInOver := by
  unfold BiSet.sequenceJoin
  split
  · exact ha
  · cases a with
    | bottom => exact hb
    | biSet overs unders =>
      cases b with
      | bottom => exact ha
      | biSet overs' unders' =>
        dsimp only
        rw [make_eq]
        exact underInOver_union ha hb

theorem UnderInOver.addElement (ha : a.UnderInOver) (element : Approximation α) :
    (addElement physSet a element).UnderInOver := by
  cases a with
  | bottom =>
    unfold BiSet.addElement
    intro x hx
    split at hx
    · exact hx
    · exact absurd hx (SortedSet.notMem_empty x)
  | biSet overs unders =>
    unfold BiSet.addElement
    dsimp only
    rw [make_eq]
    intro x hx
    refine SortedSet.mem_add.mpr ?_
    split at hx
    · exact (SortedSet.mem_add.mp hx).imp id (ha x)
    · exact Or.inr (ha x hx)

theorem UnderInOver.foldl_addElement (ha : a.UnderInOver) (elements : List (Approximation α)) :
    (elements.foldl (BiSet.addElement physSet) a).UnderInOver := by
  induction elements generalizing a with
  | nil => exact ha
  | cons element rest ih => exact ih (ha.addElement element)

theorem underInOver_ofApproximation (elements : List (Approximation α)) :
    (ofApproximation physSet elements).UnderInOver :=
  UnderInOver.foldl_addElement (a := empty) (fun _ => id) elements

theorem underInOver_filter (ha : (biSet overs unders).UnderInOver) (f : α → Bool) :
    (make physSet a (overs.filter f) (unders.filter f)).UnderInOver := by
  rw [make_eq]
  intro x hx
  obtain ⟨hx, hf⟩ := SortedSet.mem_filter.mp hx
  exact SortedSet.mem_filter.mpr ⟨ha x hx, hf⟩

theorem UnderInOver.subtract (ha : a.UnderInOver) : (subtract physSet phys b a).UnderInOver := by
  unfold BiSet.subtract
  split
  · exact trivial
  · cases a with
    | bottom => exact trivial
    | biSet overs unders =>
      cases b with
      | bottom => exact ha
      | biSet overs' unders' =>
        dsimp only
        split
        · exact trivial
        · rw [make_eq]
          exact fun x hx => SortedSet.mem_union.mpr (Or.inr hx)

/-- Every transform keeps the inclusion, if the sets that its argument gives have it. -/
theorem UnderInOver.transform {op : Transform α} (ha : a.UnderInOver)
    (hresults : ∀ self, op = .self self → ∀ value ∈ self.results a, UnderInOver value) :
    (transform physSet phys op a).UnderInOver := by
  have hself (self : SelfTransform (BiSet α)) (hself : op = .self self) :
      ((domain physSet phys).selfTransform self a).UnderInOver :=
    selfTransform_preserves (D := domain physSet phys) (P := UnderInOver) trivial
      (fun _ _ => UnderInOver.join) (hresults self hself) ha
  cases op with
  | elementAdd element => exact ha.addElement ⟨element, true⟩
  | approximationAdd element => exact ha.addElement element
  | self self =>
    cases self with
    | add toAdd => exact ha.addSet (hresults _ rfl toAdd List.mem_cons_self)
    | map f => exact hself _ rfl
    | filter f => exact hself _ rfl
    | filterMap f => exact hself _ rfl
    | expand f => exact hself _ rfl
  | elementFilter f =>
    cases a with
    | bottom => exact trivial
    | biSet overs unders =>
      rw [BiSet.transform]
      exact underInOver_filter ha f
  | elementMap f | elementExpand f | elementFilterMap f | approximationMap f
  | approximationExpand f | approximationFilter f | approximationFilterMap f =>
    cases a with
    | bottom => exact trivial
    | biSet overs unders => exact underInOver_ofApproximation _

theorem underInOver_partition (f : Approximation α → Option κ) {key : κ}
    (ha : (partition physSet f b).find? key = some a) : a.UnderInOver :=
  have hnone (part : Approximation α) : (updateElement physSet part none).UnderInOver :=
    @UnderInOver.addElement _ _ physSet bottom trivial part
  fileAll_preserves (fun part _ => hnone part) (fun part _ _ h => h.addElement part) ha

/-! ## 4. Runs -/

/-- The values that the operations of the domain build. -/
inductive Reachable (physSet : PhysEq (SortedSet α)) (phys : PhysEq (BiSet α)) : BiSet α → Prop
  | bottom : Reachable physSet phys bottom
  | empty : Reachable physSet phys empty
  | singleton (element : α) : Reachable physSet phys (singleton element)
  | ofSet (set : SortedSet α) : Reachable physSet phys (ofSet set)
  | ofList (elements : List α) : Reachable physSet phys (ofList physSet elements)
  | ofApproximation (elements : List (Approximation α)) :
      Reachable physSet phys (ofApproximation physSet elements)
  | add {set : BiSet α} (element : Approximation α) : Reachable physSet phys set →
      Reachable physSet phys (addElement physSet set element)
  | addSet {set toAdd : BiSet α} : Reachable physSet phys set → Reachable physSet phys toAdd →
      Reachable physSet phys (addSet physSet set toAdd)
  | join {left right : BiSet α} : Reachable physSet phys left → Reachable physSet phys right →
      Reachable physSet phys (join phys left right)
  | widen {prev next : BiSet α} (iteration : ℕ) : Reachable physSet phys prev →
      Reachable physSet phys next → Reachable physSet phys (widen phys iteration prev next)
  | sequenceJoin {left right : BiSet α} : Reachable physSet phys left →
      Reachable physSet phys right → Reachable physSet phys (sequenceJoin physSet phys left right)
  | meet {left right : BiSet α} : Reachable physSet phys left → Reachable physSet phys right →
      Reachable physSet phys ((domain physSet phys).meet left right)
  | subtract {toRemove source : BiSet α} : Reachable physSet phys toRemove →
      Reachable physSet phys source → Reachable physSet phys (subtract physSet phys toRemove source)
  | remove {set : BiSet α} (element : α) : Reachable physSet phys set →
      Reachable physSet phys (remove element set)
  | overToUnder {set : BiSet α} : Reachable physSet phys set →
      Reachable physSet phys (overToUnder physSet set)
  | transform {set : BiSet α} (op : Transform α) : Reachable physSet phys set →
      (∀ self, op = .self self → ∀ value ∈ self.results set, Reachable physSet phys value) →
      Reachable physSet phys (transform physSet phys op set)
  | partition {set cls : BiSet α} {κ : Type} [LinearOrder κ] (f : Approximation α → Option κ)
      {key : κ} : Reachable physSet phys set →
      (partition physSet f set).find? key = some cls → Reachable physSet phys cls
  | create (parts : List (Part α)) :
      (∀ value, Part.self value ∈ parts → Reachable physSet phys value) →
      Reachable physSet phys (create physSet parts)

theorem underInOver_create {parts : List (Part α)}
    (h : ∀ value, Part.self value ∈ parts → UnderInOver value) :
    (create physSet parts).UnderInOver := by
  have key (soFar : BiSet α) (hsoFar : soFar.UnderInOver) :
      (parts.foldl (createPart physSet) soFar).UnderInOver := by
    induction parts generalizing soFar with
    | nil => exact hsoFar
    | cons part rest ih =>
      refine ih (fun value hvalue => h value (List.mem_cons_of_mem _ hvalue)) _ ?_
      cases part with
      | elementAndUnder value => exact hsoFar.addElement value
      | element value => exact hsoFar.addElement ⟨value, true⟩
      | self value => exact hsoFar.addSet (h value List.mem_cons_self)
  exact key bottom trivial

theorem Reachable.underInOver {set : BiSet α} (h : Reachable physSet phys set) :
    set.UnderInOver := by
  induction h with
  | bottom => exact trivial
  | empty => exact fun _ => id
  | singleton element => exact fun _ => id
  | ofSet set => exact fun _ => id
  | ofList elements =>
    have hlist : BiSet.ofList physSet elements =
        (elements.map fun e => ⟨e, true⟩).foldl (BiSet.addElement physSet) .bottom := by
      rw [List.foldl_map]
      rfl
    rw [hlist]
    exact UnderInOver.foldl_addElement (a := .bottom) trivial _
  | ofApproximation elements => exact underInOver_ofApproximation elements
  | add element _ ih => exact ih.addElement element
  | addSet _ _ ih ih' => exact ih.addSet ih'
  | join _ _ ih ih' => exact ih.join ih'
  | widen _ _ _ ih ih' => exact ih.join ih'
  | sequenceJoin _ _ ih ih' => exact ih.sequenceJoin ih'
  | meet _ _ ih ih' => exact baseMeet_preserves _ ih ih'
  | subtract _ _ _ ih => exact ih.subtract
  | @remove set element _ ih =>
    cases set with
    | bottom => exact trivial
    | biSet overs unders =>
      intro x hx
      obtain ⟨hx, hne⟩ := SortedSet.mem_remove.mp hx
      exact SortedSet.mem_remove.mpr ⟨ih x hx, hne⟩
  | @overToUnder set _ ih =>
    cases set with
    | bottom => exact trivial
    | biSet overs unders =>
      unfold BiSet.overToUnder
      dsimp only
      rw [make_eq]
      exact fun _ => id
  | transform op _ _ ih ihresults => exact ih.transform ihresults
  | partition f _ hcls _ => exact underInOver_partition f hcls
  | create parts _ ih => exact underInOver_create ih

/-! ## 5. Subtraction -/

theorem subtract_le (ha : a.UnderInOver) : Le (subtract physSet phys b a) a := by
  unfold BiSet.subtract
  split
  · exact trivial
  · cases a with
    | bottom => exact trivial
    | biSet overs unders =>
      cases b with
      | bottom => exact Le.refl _
      | biSet overs' unders' =>
        dsimp only
        split
        · exact trivial
        · rw [make_eq]
          refine ⟨fun x hx => ?_, fun _ => id⟩
          exact (SortedSet.mem_union.mp hx).elim (fun hx => (SortedSet.mem_diff.mp hx).1) (ha x)

theorem join_subtract (ha : a.UnderInOver) :
    join phys b (subtract physSet phys b a) = join phys a b := by
  unfold BiSet.subtract
  split
  · rename_i h
    obtain rfl := phys.sound h
    rw [join_eq, join_eq]
    cases b with
    | bottom => rfl
    | biSet overs unders =>
      have hover : overs.union overs = overs := SortedSet.ext fun x => by simp
      have hunder : unders.inter unders = unders := SortedSet.ext fun x => by simp
      dsimp only
      rw [hover, hunder]
  · cases a with
    | bottom =>
      rw [join_eq, join_eq]
      cases b <;> rfl
    | biSet overs unders =>
      cases b with
      | bottom => rw [join_eq, join_eq]
      | biSet overs' unders' =>
        dsimp only
        split
        · -- nothing is left of the over-approximation, and the unders agree
          rename_i h
          obtain ⟨hempty, hunder⟩ := Bool.and_eq_true_iff.mp h
          obtain rfl := of_decide_eq_true hunder
          have hover : overs.union overs' = overs' := SortedSet.ext fun x => by
            have hx := SortedSet.isEmpty_iff.mp hempty x
            rw [SortedSet.mem_diff, not_and_not_right] at hx
            rw [SortedSet.mem_union, or_iff_right_of_imp hx]
          have hinter : unders.inter unders = unders := SortedSet.ext fun x => by simp
          rw [join_eq, join_eq]
          dsimp only
          rw [hover, hinter]
        · have hover : overs'.union ((overs.diff overs').union unders) = overs.union overs' :=
            SortedSet.ext fun x => by
              have hx := ha x
              simp only [SortedSet.mem_union, SortedSet.mem_diff]
              tauto
          have hunder : unders'.inter unders = unders.inter unders' :=
            SortedSet.ext fun x => by simp only [SortedSet.mem_inter, and_comm]
          rw [make_eq, join_eq, join_eq]
          dsimp only
          rw [hover, hunder]

/-- **The under-approximation stays included in every run, the order is a partial order whose
    joins are least upper bounds, and a subtraction is undone by a join.** -/
theorem overUnderSet_sound (physSet : PhysEq (SortedSet α)) (phys : PhysEq (BiSet α)) :
    let le (left right : BiSet α) : Prop := lessOrEqual physSet phys left right = true
    (∀ set, Reachable physSet phys set → set.UnderInOver) ∧
      (∀ a, le a a) ∧ (∀ a b, le a b → le b a → a = b) ∧ (∀ a b c, le a b → le b c → le a c) ∧
      (∀ a b, le a (join phys a b) ∧ le b (join phys a b) ∧
        ∀ c, le a c → le b c → le (join phys a b) c) ∧
      ∀ a b, Reachable physSet phys a → Reachable physSet phys b →
        le (subtract physSet phys b a) a ∧
          join phys b (subtract physSet phys b a) = join phys a b := by
  simp only [lessOrEqual_iff]
  refine ⟨fun _ h => h.underInOver, Le.refl, fun _ _ => Le.antisymm, fun _ _ _ => Le.trans,
    fun a b => ?_, fun a b ha _ => ⟨subtract_le ha.underInOver, join_subtract ha.underInOver⟩⟩
  obtain ⟨hle, hle'⟩ := join_le_iff.mp (Le.refl (join phys a b))
  exact ⟨hle, hle', fun c h h' => join_le_iff.mpr ⟨h, h'⟩⟩

/-- The element 2, which is not in the under-approximation, is dropped and comes back. -/
theorem overUnderSet_sound_numbers :
    let physSet : PhysEq (SortedSet ℕ) := .never _
    let phys : PhysEq (BiSet ℕ) := .never _
    let a := addElement physSet (addElement physSet bottom ⟨1, true⟩) ⟨2, false⟩
    let b := addElement physSet bottom ⟨2, true⟩
    lessOrEqual physSet phys (subtract physSet phys b a) a = true ∧
      join phys b (subtract physSet phys b a) = join phys a b :=
  (overUnderSet_sound (.never _) (.never _)).2.2.2.2.2 _ _
    (.add ⟨2, false⟩ (.add ⟨1, true⟩ .bottom)) (.add ⟨2, true⟩ .bottom)

end BiSet

end OverUnderSet

end Pysa
