/-
  Subject: SETS OF RELATED ELEMENTS (`abstractElementSetDomain.ml`): antichains.

  * `ElementSet.Element` -- `less_or_equal` and `widen` of the elements; the order of the element
    type is `compare`;
  * `Covered` -- the meaning of a set: what lies below one of its elements. An antichain is
    determined by its meaning (`eq_of_covered`), `add` adds one element to it and `join` is the
    union, which is why the two folds that `join` intersects are one set;
  * `Run` -- the expressions over the operations, with the value of each;
  * `Run.antichain`, `Run.covered` -- **the value is an antichain, and it covers what the run
    keeps.**
-/
import Mathlib.Order.Antichain
import Pysa.Lib.Basic
import Pysa.Domains.AbstractDomain

namespace Pysa

universe u v

namespace ElementSet

/-- `ELEMENT`, save for the names. -/
structure Element (α : Type u) where
  lessOrEqual (left right : α) : Bool
  widen : List α → List α

namespace Element

variable {α : Type u} [LinearOrder α] {κ : Type v} [LinearOrder κ] (E : Element α)

/-! ## 1. Operations -/

def isSubsumed (left : α) (set : SortedSet α) : Bool := set.any fun right => E.lessOrEqual left right

/-- Removes `existing` if the new element subsumes it. -/
def tryRemove (toAdd existing : α) (set : SortedSet α) : SortedSet α :=
  if E.lessOrEqual existing toAdd then set.remove existing else set

def add (toAdd : α) (set : SortedSet α) : SortedSet α :=
  if E.isSubsumed toAdd set then set else (set.fold (E.tryRemove toAdd) set).add toAdd

def ofList (elements : List α) : SortedSet α :=
  elements.foldl (fun set element => E.add element set) .empty

/-- `join`. The test `left == right` is physical equality. -/
def join (phys : PhysEq (SortedSet α)) (left right : SortedSet α) : SortedSet α :=
  if phys.test left right || right.isEmpty then left
  else
    let join₁ := right.fold E.add left
    let join₂ := left.fold E.add right
    join₁.inter join₂

def widenSet (phys : PhysEq (SortedSet α)) (_iteration : ℕ) (prev next : SortedSet α) :
    SortedSet α :=
  E.ofList (E.widen (E.join phys prev next).elements)

def lessOrEqualSet (left right : SortedSet α) : Bool :=
  left.all fun element => E.isSubsumed element right

def subtract (toRemove source : SortedSet α) : SortedSet α :=
  source.filter fun element => !E.isSubsumed element toRemove

/-- The transform `Element, Map`. -/
def map (f : α → α) (set : SortedSet α) : SortedSet α :=
  set.elements.foldl (fun result element => E.add (f element) result) .empty

/-- The transform `Element, FilterMap`. -/
def filterMap (f : α → Option α) (set : SortedSet α) : SortedSet α :=
  set.elements.foldl
    (fun result element =>
      match f element with
      | some element => E.add element result
      | none => result)
    .empty

/-- `update element`: one element of a partition joins its class. -/
def updateClass (element : α) : Option (SortedSet α) → SortedSet α
  | none => .singleton element
  | some set => E.add element set

/-- `partition` on `Element, ByFilter`; `By` is the case where the key is never `None`. -/
def partition (f : α → Option κ) (set : SortedSet α) : SortedMap κ (SortedSet α) :=
  AbstractDomain.fileAll E.updateClass f set.elements

def domain (phys : PhysEq (SortedSet α)) : AbstractDomain (SortedSet α) where
  bottom := .empty
  isBottom := SortedSet.isEmpty
  join := E.join phys
  meet := AbstractDomain.baseMeet E.lessOrEqualSet
  lessOrEqual := E.lessOrEqualSet
  widen := E.widenSet phys
  subtract := E.subtract

/-! ## 2. What a set covers -/

/-- `less_or_equal` is a partial order, whose equality is that of `compare`. -/
structure PartialOrder : Prop where
  refl : ∀ a, E.lessOrEqual a a = true
  trans : ∀ {a b c}, E.lessOrEqual a b = true → E.lessOrEqual b c = true →
    E.lessOrEqual a c = true
  antisymm : ∀ {a b}, E.lessOrEqual a b = true → E.lessOrEqual b a = true → a = b

/-- `x` lies below an element of the set. -/
def Covered (set : SortedSet α) (x : α) : Prop := ∃ y ∈ set, E.lessOrEqual x y = true

/-- No element is below another one. -/
def Antichain (set : SortedSet α) : Prop :=
  IsAntichain (fun a b => E.lessOrEqual a b = true) {x | x ∈ set}

variable {E} {set left right : SortedSet α} {x y : α}

theorem isSubsumed_iff : E.isSubsumed x set = true ↔ E.Covered set x := SortedSet.any_iff

theorem antichain_empty : E.Antichain .empty := fun a ha =>
  absurd (show a ∈ SortedSet.empty from ha) (SortedSet.notMem_empty a)

theorem antichain_singleton : E.Antichain (.singleton x) := by
  intro a ha b hb hne
  exact absurd ((SortedSet.mem_singleton.mp ha).trans (SortedSet.mem_singleton.mp hb).symm) hne

theorem Antichain.subset (h : E.Antichain right) (hsub : ∀ x ∈ left, x ∈ right) :
    E.Antichain left := IsAntichain.subset h hsub

theorem Antichain.filter (h : E.Antichain set) (p : α → Bool) : E.Antichain (set.filter p) :=
  h.subset fun _ hx => (SortedSet.mem_filter.mp hx).1

theorem not_covered_empty : ¬ E.Covered .empty x := fun ⟨y, hy, _⟩ => SortedSet.notMem_empty y hy

theorem not_covered_of_isEmpty (h : set.isEmpty = true) : ¬ E.Covered set x := by
  rw [SortedSet.isEmpty_iff_eq.mp h]
  exact not_covered_empty

theorem covered_of_mem (hE : E.PartialOrder) (hx : x ∈ set) : E.Covered set x := ⟨x, hx, hE.refl x⟩

theorem Covered.le (hE : E.PartialOrder) (hy : E.Covered set y) (hxy : E.lessOrEqual x y = true) :
    E.Covered set x := by
  obtain ⟨z, hz, hyz⟩ := hy
  exact ⟨z, hz, hE.trans hxy hyz⟩

theorem lessOrEqualSet_iff (hE : E.PartialOrder) :
    E.lessOrEqualSet left right = true ↔ ∀ x, E.Covered left x → E.Covered right x := by
  unfold lessOrEqualSet
  rw [SortedSet.all_iff]
  simp only [isSubsumed_iff]
  constructor
  · rintro h x ⟨y, hy, hxy⟩
    exact (h y hy).le hE hxy
  · exact fun h x hx => h x (covered_of_mem hE hx)

/-- An antichain is determined by what it covers. -/
theorem eq_of_covered (hE : E.PartialOrder) (hleft : E.Antichain left) (hright : E.Antichain right)
    (h : ∀ x, E.Covered left x ↔ E.Covered right x) : left = right := by
  have key {s t : SortedSet α} (hs : E.Antichain s)
      (hst : ∀ x, E.Covered s x ↔ E.Covered t x) {x : α} (hx : x ∈ s) : x ∈ t := by
    obtain ⟨y, hy, hxy⟩ := (hst x).mp (covered_of_mem hE hx)
    obtain ⟨z, hz, hyz⟩ := (hst y).mpr (covered_of_mem hE hy)
    -- `x ≤ y ≤ z`, and two elements of an antichain that are related are equal
    obtain rfl : x = z := by
      by_contra hne
      exact hs hx hz hne (hE.trans hxy hyz)
    obtain rfl : x = y := hE.antisymm hxy hyz
    exact hy
  exact SortedSet.ext fun x => ⟨key hleft h, key hright fun x => (h x).symm⟩

theorem mem_subtract {toRemove : SortedSet α} :
    x ∈ E.subtract toRemove set ↔ x ∈ set ∧ ¬ E.Covered toRemove x := by
  unfold subtract
  rw [SortedSet.mem_filter, Bool.not_eq_true', Bool.eq_false_iff, Ne, isSubsumed_iff]

/-! ## 3. Adding one element -/

theorem mem_fold_tryRemove {toAdd : α} :
    y ∈ set.fold (E.tryRemove toAdd) set ↔ y ∈ set ∧ ¬ E.lessOrEqual y toAdd = true := by
  have key (elements : List α) (acc : SortedSet α) :
      y ∈ elements.foldl (fun acc x => E.tryRemove toAdd x acc) acc ↔
        y ∈ acc ∧ ¬ (y ∈ elements ∧ E.lessOrEqual y toAdd = true) := by
    induction elements generalizing acc with
    | nil => simp
    | cons first rest ih =>
      rw [List.foldl_cons, ih, tryRemove, List.mem_cons]
      split
      · rename_i hfirst
        rw [SortedSet.mem_remove, and_assoc]
        refine and_congr_right fun _ => ?_
        constructor
        · rintro ⟨hne, hrest⟩ ⟨rfl | hmem, hle⟩
          · exact hne rfl
          · exact hrest ⟨hmem, hle⟩
        · intro h
          exact ⟨fun heq => h ⟨Or.inl heq, heq ▸ hfirst⟩, fun hrest => h ⟨Or.inr hrest.1, hrest.2⟩⟩
      · rename_i hfirst
        refine and_congr_right fun _ => not_congr (and_congr_left fun hle => ?_)
        exact (or_iff_right fun (heq : y = first) => hfirst (heq ▸ hle)).symm
  refine (key set.elements set).trans (and_congr_right fun hy => not_congr ?_)
  exact and_iff_right hy

theorem mem_add {toAdd : α} (hnew : ¬ E.Covered set toAdd) :
    y ∈ E.add toAdd set ↔ y = toAdd ∨ y ∈ set ∧ ¬ E.lessOrEqual y toAdd = true := by
  unfold add
  rw [if_neg (mt isSubsumed_iff.mp hnew), SortedSet.mem_add, mem_fold_tryRemove]

theorem add_of_covered {toAdd : α} (h : E.Covered set toAdd) : E.add toAdd set = set :=
  if_pos (isSubsumed_iff.mpr h)

theorem Antichain.add (h : E.Antichain set) (toAdd : α) : E.Antichain (E.add toAdd set) := by
  by_cases hnew : E.Covered set toAdd
  · rw [add_of_covered hnew]
    exact h
  · intro a ha b hb hne hle
    rcases (mem_add hnew).mp ha with rfl | ⟨ha, hale⟩
    · obtain ⟨hb, -⟩ := ((mem_add hnew).mp hb).resolve_left hne.symm
      exact hnew ⟨b, hb, hle⟩
    · rcases (mem_add hnew).mp hb with rfl | ⟨hb, -⟩
      · exact hale hle
      · exact h ha hb hne hle

theorem covered_add (hE : E.PartialOrder) {toAdd : α} :
    E.Covered (E.add toAdd set) x ↔ E.Covered set x ∨ E.lessOrEqual x toAdd = true := by
  by_cases hnew : E.Covered set toAdd
  · rw [add_of_covered hnew]
    exact (or_iff_left_of_imp fun hle => hnew.le hE hle).symm
  · constructor
    · rintro ⟨y, hy, hxy⟩
      rcases (mem_add hnew).mp hy with rfl | ⟨hy, -⟩
      · exact Or.inr hxy
      · exact Or.inl ⟨y, hy, hxy⟩
    · rintro (⟨y, hy, hxy⟩ | hle)
      · by_cases hyle : E.lessOrEqual y toAdd = true
        · exact ⟨toAdd, (mem_add hnew).mpr (Or.inl rfl), hE.trans hxy hyle⟩
        · exact ⟨y, (mem_add hnew).mpr (Or.inr ⟨hy, hyle⟩), hxy⟩
      · exact ⟨toAdd, (mem_add hnew).mpr (Or.inl rfl), hle⟩

/-- A fold that adds what `f` gives of each element, if anything. -/
theorem foldl_add {β : Type v} (hE : E.PartialOrder) (f : β → Option α) (list : List β)
    (set : SortedSet α) (hset : E.Antichain set) :
    let result := list.foldl (fun result b =>
      match f b with
      | some element => E.add element result
      | none => result) set
    E.Antichain result ∧ ∀ x, E.Covered result x ↔
      E.Covered set x ∨ ∃ b ∈ list, ∃ element, f b = some element ∧ E.lessOrEqual x element := by
  induction list generalizing set with
  | nil => exact ⟨hset, fun x => by simp⟩
  | cons b rest ih =>
    cases hf : f b with
    | none =>
      obtain ⟨hanti, hcovered⟩ := ih set hset
      refine ⟨by rw [List.foldl_cons, hf]; exact hanti, fun x => ?_⟩
      rw [List.foldl_cons, hf]
      refine (hcovered x).trans (or_congr Iff.rfl ?_)
      simp [hf]
    | some element =>
      obtain ⟨hanti, hcovered⟩ := ih (E.add element set) (hset.add element)
      refine ⟨by rw [List.foldl_cons, hf]; exact hanti, fun x => ?_⟩
      rw [List.foldl_cons, hf]
      refine (hcovered x).trans ?_
      rw [covered_add hE, or_assoc]
      refine or_congr Iff.rfl ?_
      simp [hf]

theorem ofList_spec (hE : E.PartialOrder) (elements : List α) :
    E.Antichain (E.ofList elements) ∧ ∀ x, E.Covered (E.ofList elements) x ↔
      ∃ element ∈ elements, E.lessOrEqual x element = true := by
  obtain ⟨hanti, hcovered⟩ := foldl_add hE some elements .empty antichain_empty
  refine ⟨hanti, fun x => (hcovered x).trans ?_⟩
  simp [not_covered_empty]

theorem fold_add_spec (hE : E.PartialOrder) (hleft : E.Antichain left) (right : SortedSet α) :
    E.Antichain (right.fold E.add left) ∧
      ∀ x, E.Covered (right.fold E.add left) x ↔ E.Covered left x ∨ E.Covered right x := by
  obtain ⟨hanti, hcovered⟩ := foldl_add hE some right.elements left hleft
  refine ⟨hanti, fun x => (hcovered x).trans (or_congr Iff.rfl ?_)⟩
  unfold Covered
  simp [SortedSet.mem_elements]

theorem map_spec (hE : E.PartialOrder) (f : α → α) (set : SortedSet α) :
    E.Antichain (E.map f set) ∧
      ∀ x, E.Covered (E.map f set) x ↔ ∃ y ∈ set, E.lessOrEqual x (f y) = true := by
  obtain ⟨hanti, hcovered⟩ :=
    foldl_add hE (fun element => some (f element)) set.elements .empty antichain_empty
  refine ⟨hanti, fun x => (hcovered x).trans ?_⟩
  simp [not_covered_empty, SortedSet.mem_elements]

theorem filterMap_spec (hE : E.PartialOrder) (f : α → Option α) (set : SortedSet α) :
    E.Antichain (E.filterMap f set) ∧ ∀ x, E.Covered (E.filterMap f set) x ↔
      ∃ y ∈ set, ∃ z, f y = some z ∧ E.lessOrEqual x z = true := by
  obtain ⟨hanti, hcovered⟩ := foldl_add hE f set.elements .empty antichain_empty
  refine ⟨hanti, fun x => (hcovered x).trans ?_⟩
  simp [not_covered_empty, SortedSet.mem_elements]

/-! ## 4. Join -/

/-- `join` of two antichains is the antichain of what either covers. -/
theorem join_spec (hE : E.PartialOrder) (phys : PhysEq (SortedSet α)) (hleft : E.Antichain left)
    (hright : E.Antichain right) :
    E.Antichain (E.join phys left right) ∧
      ∀ x, E.Covered (E.join phys left right) x ↔ E.Covered left x ∨ E.Covered right x := by
  unfold join
  split
  · rename_i hshort
    refine ⟨hleft, fun x => (or_iff_left_of_imp fun hx => ?_).symm⟩
    rcases Bool.or_eq_true_iff.mp hshort with hphys | hempty
    · rw [phys.sound hphys]
      exact hx
    · rw [SortedSet.isEmpty_iff_eq.mp hempty] at hx
      exact absurd hx not_covered_empty
  · obtain ⟨hanti₁, hcovered₁⟩ := fold_add_spec hE hleft right
    obtain ⟨hanti₂, hcovered₂⟩ := fold_add_spec hE hright left
    -- both folds are the antichain of the union, so they are equal
    have heq : right.fold E.add left = left.fold E.add right :=
      eq_of_covered hE hanti₁ hanti₂ fun x =>
        (hcovered₁ x).trans (or_comm.trans (hcovered₂ x).symm)
    have hinter : (right.fold E.add left).inter (left.fold E.add right) =
        right.fold E.add left := by
      rw [← heq]
      exact SortedSet.ext fun x => by rw [SortedSet.mem_inter, and_self]
    dsimp only
    rw [hinter]
    exact ⟨hanti₁, hcovered₁⟩

theorem join_comm (hE : E.PartialOrder) (phys : PhysEq (SortedSet α)) (hleft : E.Antichain left)
    (hright : E.Antichain right) : E.join phys left right = E.join phys right left := by
  obtain ⟨hanti₁, hcovered₁⟩ := join_spec hE phys hleft hright
  obtain ⟨hanti₂, hcovered₂⟩ := join_spec hE phys hright hleft
  exact eq_of_covered hE hanti₁ hanti₂ fun x =>
    (hcovered₁ x).trans (or_comm.trans (hcovered₂ x).symm)

theorem join_lessOrEqual_iff (hE : E.PartialOrder) (phys : PhysEq (SortedSet α))
    (hleft : E.Antichain left) (hright : E.Antichain right) (upper : SortedSet α) :
    E.lessOrEqualSet (E.join phys left right) upper = true ↔
      E.lessOrEqualSet left upper = true ∧ E.lessOrEqualSet right upper = true := by
  obtain ⟨-, hcovered⟩ := join_spec hE phys hleft hright
  simp only [lessOrEqualSet_iff hE, hcovered, or_imp, forall_and]

theorem lessOrEqualSet_refl (hE : E.PartialOrder) (set : SortedSet α) :
    E.lessOrEqualSet set set = true := (lessOrEqualSet_iff hE).mpr fun _ => id

/-- The class of a key is the antichain of the elements that have it. -/
theorem partition_spec (hE : E.PartialOrder) (f : α → Option κ) (set : SortedSet α) (key : κ) :
    (∀ cls, (E.partition f set).find? key = some cls →
      (E.Antichain cls ∧ ∃ x, E.Covered cls x) ∧
      ∀ x, E.Covered cls x ↔ ∃ y ∈ set, f y = some key ∧ E.lessOrEqual x y = true) ∧
    ((E.partition f set).find? key = none → ∀ y ∈ set, f y ≠ some key) := by
  have hsingleton (x y : α) : E.Covered (.singleton y) x ↔ E.lessOrEqual x y = true := by
    simp [Covered]
  exact AbstractDomain.fileAll_spec (f := f)
    (fun y _ => ⟨⟨antichain_singleton, y, (hsingleton y y).mpr (hE.refl y)⟩,
      fun x => hsingleton x y⟩)
    (fun y _ cls hcls => ⟨⟨hcls.1.add y, y, (covered_add hE).mpr (Or.inr (hE.refl y))⟩,
      fun x => covered_add hE⟩) key

end Element

/-! ## 5. Runs -/

/-- An expression over the operations on sets. -/
inductive Run (α : Type u)
  | bottom
  | add (x : α) (run : Run α)
  | join (left right : Run α)
  | widen (iteration : ℕ) (prev next : Run α)
  | meet (left right : Run α)
  | map (f : α → α) (run : Run α)
  | filter (f : α → Bool) (run : Run α)
  | filterMap (f : α → Option α) (run : Run α)

namespace Run

variable {α : Type u} [LinearOrder α] (E : Element α) (phys : PhysEq (SortedSet α))

def eval : Run α → SortedSet α
  | bottom => .empty
  | add x run => E.add x run.eval
  | join left right => E.join phys left.eval right.eval
  | widen iteration prev next => E.widenSet phys iteration prev.eval next.eval
  | meet left right => AbstractDomain.baseMeet E.lessOrEqualSet left.eval right.eval
  | map f run => E.map f run.eval
  | filter f run => run.eval.filter f
  | filterMap f run => E.filterMap f run.eval

/-- `x` was added by some step. -/
def Added : Run α → α → Prop
  | bottom, _ => False
  | add y run, x => x = y ∨ run.Added x
  | join left right, x => left.Added x ∨ right.Added x
  | widen _ prev next, x => prev.Added x ∨ next.Added x
  | meet left right, x => left.Added x ∨ right.Added x
  | map _ run, x => run.Added x
  | filter _ run, x => run.Added x
  | filterMap _ run, x => run.Added x

/-- `x` was added by some step, and no later step gives it up: a `meet` keeps what the side that it
    returns keeps, a transform sends what is above `x` to something above it, and so does
    `Element.widen`. The transforms and `Element.widen` add elements of their own. -/
def Keeps : Run α → α → Prop
  | bottom, _ => False
  | add y run, x => x = y ∨ run.Keeps x
  | join left right, x => left.Keeps x ∨ right.Keeps x
  | widen _ prev next, x =>
    let elements := (E.join phys (prev.eval E phys) (next.eval E phys)).elements
    x ∈ E.widen elements ∨
      (prev.Keeps x ∨ next.Keeps x) ∧
        ∀ y ∈ elements, ∃ z ∈ E.widen elements, E.lessOrEqual y z = true
  | meet left right, x =>
    if E.lessOrEqualSet (right.eval E phys) (left.eval E phys) then right.Keeps x
    else left.Keeps x
  | map f run, x =>
    (∃ y ∈ run.eval E phys, f y = x) ∨
      run.Keeps x ∧ ∀ y, E.lessOrEqual x y = true → E.lessOrEqual x (f y) = true
  | filter f run, x => run.Keeps x ∧ ∀ y, E.lessOrEqual x y = true → f y = true
  | filterMap f run, x =>
    (∃ y ∈ run.eval E phys, f y = some x) ∨
      run.Keeps x ∧ ∀ y, E.lessOrEqual x y = true →
        ∃ z, f y = some z ∧ E.lessOrEqual x z = true

variable {E phys}

theorem antichain (hE : E.PartialOrder) (run : Run α) : E.Antichain (run.eval E phys) := by
  induction run with
  | bottom => exact Element.antichain_empty
  | add x run ih => exact ih.add x
  | join left right ihl ihr => exact (Element.join_spec hE phys ihl ihr).1
  | widen iteration prev next ihp ihn => exact (Element.ofList_spec hE _).1
  | meet left right ihl ihr => exact AbstractDomain.baseMeet_preserves _ ihl ihr
  | map f run ih => exact (Element.map_spec hE f _).1
  | filter f run ih => exact ih.filter f
  | filterMap f run ih => exact (Element.filterMap_spec hE f _).1

theorem covered (hE : E.PartialOrder) (run : Run α) (x : α) (hx : run.Keeps E phys x) :
    E.Covered (run.eval E phys) x := by
  induction run generalizing x with
  | bottom => exact hx.elim
  | add y run ih =>
    refine (Element.covered_add hE).mpr ?_
    rcases hx with rfl | hx
    · exact Or.inr (hE.refl x)
    · exact Or.inl (ih x hx)
  | join left right ihl ihr =>
    exact ((Element.join_spec hE phys (antichain hE left) (antichain hE right)).2 x).mpr
      (hx.imp (ihl x) (ihr x))
  | widen iteration prev next ihp ihn =>
    refine ((Element.ofList_spec hE _).2 x).mpr ?_
    rcases hx with hx | ⟨hx, hwiden⟩
    · exact ⟨x, hx, hE.refl x⟩
    · obtain ⟨y, hy, hxy⟩ :=
        ((Element.join_spec hE phys (antichain hE prev) (antichain hE next)).2 x).mpr
          (hx.imp (ihp x) (ihn x))
      obtain ⟨z, hz, hyz⟩ := hwiden y hy
      exact ⟨z, hz, hE.trans hxy hyz⟩
  | meet left right ihl ihr =>
    rw [eval, AbstractDomain.baseMeet]
    rw [Keeps] at hx
    by_cases hle : E.lessOrEqualSet (right.eval E phys) (left.eval E phys) = true
    · rw [if_pos hle] at hx ⊢
      exact ihr x hx
    · rw [if_neg hle] at hx ⊢
      exact ihl x hx
  | map f run ih =>
    refine ((Element.map_spec hE f _).2 x).mpr ?_
    rcases hx with ⟨y, hy, rfl⟩ | ⟨hx, hf⟩
    · exact ⟨y, hy, hE.refl _⟩
    · obtain ⟨y, hy, hxy⟩ := ih x hx
      exact ⟨y, hy, hf y hxy⟩
  | filter f run ih =>
    obtain ⟨y, hy, hxy⟩ := ih x hx.1
    exact ⟨y, SortedSet.mem_filter.mpr ⟨hy, hx.2 y hxy⟩, hxy⟩
  | filterMap f run ih =>
    refine ((Element.filterMap_spec hE f _).2 x).mpr ?_
    rcases hx with ⟨y, hy, hf⟩ | ⟨hx, hf⟩
    · exact ⟨y, hy, x, hf, hE.refl x⟩
    · obtain ⟨y, hy, hxy⟩ := ih x hx
      exact ⟨y, hy, hf y hxy⟩

/-- Numbers that are related when they are equal. -/
def numbers : Element ℕ := ⟨fun a b => decide (a = b), id⟩

theorem numbers_partialOrder : numbers.PartialOrder where
  refl := fun _ => decide_eq_true rfl
  trans := fun h h' => decide_eq_true ((of_decide_eq_true h).trans (of_decide_eq_true h'))
  antisymm := fun h _ => of_decide_eq_true h

/-- A filter, a map and a `meet` each give up the element 1 that was added. -/
theorem added_not_covered :
    let phys : PhysEq (SortedSet ℕ) := .never _
    let one : Run ℕ := .add 1 .bottom
    let lost (run : Run ℕ) := run.Added 1 ∧ ¬ numbers.Covered (run.eval numbers phys) 1
    numbers.PartialOrder ∧ lost (.filter (fun _ => false) one) ∧ lost (.map (fun _ => 2) one) ∧
      lost (.meet one .bottom) := by
  refine ⟨numbers_partialOrder, ⟨Or.inl rfl, ?_⟩, ⟨Or.inl rfl, ?_⟩, ⟨Or.inl (Or.inl rfl), ?_⟩⟩
  all_goals exact fun h => absurd (Element.isSubsumed_iff.mpr h) (by decide)

/-- **Every run gives an antichain that covers what it keeps, and on the values of runs `join` is
    commutative and the least upper bound.** -/
theorem elementSet_sound {α : Type u} [LinearOrder α] (E : Element α) (hE : E.PartialOrder)
    (phys : PhysEq (SortedSet α)) (run run' : Run α) :
    let left := run.eval E phys
    let right := run'.eval E phys
    E.Antichain left ∧ (∀ x, run.Keeps E phys x → E.Covered left x) ∧
      E.join phys left right = E.join phys right left ∧
      E.lessOrEqualSet left (E.join phys left right) = true ∧
      E.lessOrEqualSet right (E.join phys left right) = true ∧
      ∀ upper, E.lessOrEqualSet left upper = true → E.lessOrEqualSet right upper = true →
        E.lessOrEqualSet (E.join phys left right) upper = true := by
  have hleft : E.Antichain (run.eval E phys) := antichain hE run
  have hright : E.Antichain (run'.eval E phys) := antichain hE run'
  have hjoin := Element.join_lessOrEqual_iff hE phys hleft hright
  obtain ⟨hle, hle'⟩ := (hjoin _).mp (Element.lessOrEqualSet_refl hE _)
  exact ⟨hleft, fun x => covered hE run x, Element.join_comm hE phys hleft hright, hle, hle',
    fun upper h h' => (hjoin upper).mpr ⟨h, h'⟩⟩

/-- The element 1 is kept by a filter that accepts it. -/
theorem elementSet_sound_numbers :
    let phys : PhysEq (SortedSet ℕ) := .never _
    let run : Run ℕ := .filter (fun x => decide (x < 2)) (.add 3 (.add 1 .bottom))
    let left := run.eval numbers phys
    let right := (Run.add 4 .bottom).eval numbers phys
    numbers.Antichain left ∧ (∀ x, run.Keeps numbers phys x → numbers.Covered left x) ∧
      numbers.join phys left right = numbers.join phys right left ∧
      numbers.lessOrEqualSet left (numbers.join phys left right) = true ∧
      numbers.lessOrEqualSet right (numbers.join phys left right) = true ∧
      ∀ upper, numbers.lessOrEqualSet left upper = true →
        numbers.lessOrEqualSet right upper = true →
        numbers.lessOrEqualSet (numbers.join phys left right) upper = true :=
  elementSet_sound numbers numbers_partialOrder _ _ _

end Run

end ElementSet

end Pysa
