/-
  Subject: PRODUCTS WITH STRICT SLOTS (`abstractProductDomain.ml`).

  * `Config` -- the slots, each with its domain and its strictness; a product has one value for
    each slot;
  * the operations of the source over any configuration; an operation of a slot
    (`D.transform`, `D.partition`, `D.create`) is an argument;
  * `StrictSlots` -- when a strict slot is bottom, so is the whole product; `Reachable` -- the
    products that the operations build;
  * `product_sound` -- **strictness is kept, and `subtract` drops no more than it may.**
-/
import Mathlib.Data.List.FinRange
import Pysa.Domains.SetDomain

namespace Pysa

universe u v

namespace ProductDomain

open AbstractDomain

/-- `PRODUCT_CONFIG`, save for the names of the slots. -/
structure Config (n : ℕ) where
  T : Fin n → Type u
  domain : (slot : Fin n) → AbstractDomain (T slot)
  strict : Fin n → Bool

variable {n : ℕ} (C : Config.{u} n)

abbrev Product := (slot : Fin n) → C.T slot

/-- The tests for physical equality, of a whole product and of the values of a slot. -/
structure Phys where
  product : PhysEq (Product C)
  slot : (slot : Fin n) → PhysEq (C.T slot)

variable (phys : Phys C)

/-! ## 1. Operations -/

def slots (n : ℕ) : List (Fin n) := List.finRange n

def strictSlots : List (Fin n) := (slots n).filter C.strict

def bottom : Product C := fun slot => (C.domain slot).bottom

def makeStrict (result : Product C) : Product C :=
  if (strictSlots C).any fun slot => (C.domain slot).isBottom (result slot) then bottom C
  else result

def update (slot : Fin n) (value : C.T slot) (product : Product C) : Product C :=
  if (phys.slot slot).test (product slot) value then product
  else if C.strict slot && (C.domain slot).isBottom value then bottom C
  else makeStrict C (Function.update product slot value)

def isBottom (product : Product C) : Bool :=
  phys.product.test product (bottom C) ||
    (slots n).all fun slot => (C.domain slot).isBottom (product slot)

/-- The merged slots, or the left product where no slot has changed. -/
def ifChanged (left result : Product C) : Product C :=
  if (slots n).any fun slot => !(phys.slot slot).test (result slot) (left slot) then result
  else left

def join (left right : Product C) : Product C :=
  if phys.product.test left right || isBottom C phys right then left
  else if isBottom C phys left then right
  else ifChanged C phys left fun slot => (C.domain slot).join (left slot) (right slot)

def widen (iteration : ℕ) (prev next : Product C) : Product C :=
  if phys.product.test prev next then prev
  else ifChanged C phys prev fun slot => (C.domain slot).widen iteration (prev slot) (next slot)

def lessOrEqual (left right : Product C) : Bool :=
  phys.product.test left right ||
    (slots n).all fun slot => (C.domain slot).lessOrEqual (left slot) (right slot)

/-- `meet`. A strict slot that becomes bottom raises `Strict`. -/
def meet (left right : Product C) : Product C :=
  if phys.product.test left right then left
  else
    let result : Product C := fun slot => (C.domain slot).meet (left slot) (right slot)
    if (slots n).any fun slot => C.strict slot && (C.domain slot).isBottom (result slot) then
      bottom C
    else result

/-- `strict_subtract`. -/
inductive StrictSubtract
  | singleStrict (slot : Fin n) (value : C.T slot)
  | allBottom

/-- The slots of a pointwise subtraction. -/
def difference (toRemove source : Product C) : Product C := fun slot =>
  (C.domain slot).subtract (toRemove slot) (source slot)

/-- One slot of the search; `none` is the exception `Exit`. -/
def findSingleStrictSlot (toRemove source : Product C) (soFar : StrictSubtract C) (slot : Fin n) :
    Option (StrictSubtract C) :=
  let result := difference C toRemove source slot
  if (C.domain slot).isBottom result then some soFar
  else if C.strict slot then
    match soFar with
    | .allBottom => some (.singleStrict slot result)
    | .singleStrict _ _ => none
  else none

def subtract (toRemove source : Product C) : Product C :=
  if phys.product.test toRemove source then bottom C
  else if isBottom C phys toRemove then source
  else if lessOrEqual C phys source toRemove then bottom C
  else if (strictSlots C).length = 0 then
    let result := difference C toRemove source
    let nonbottomSlots := (slots n).countP fun slot => !(C.domain slot).isBottom (result slot)
    if nonbottomSlots = 0 then bottom C else result
  else
    match (slots n).foldlM (findSingleStrictSlot C toRemove source) .allBottom with
    | some (.singleStrict slot newValue) => update C phys slot newValue source
    | some .allBottom => bottom C
    | none => source

def domain : AbstractDomain (Product C) where
  bottom := bottom C
  isBottom := isBottom C phys
  join := join C phys
  meet := meet C phys
  lessOrEqual := lessOrEqual C phys
  widen := widen C phys
  subtract := subtract C phys

/-- The operations of `transform`: on a part of one slot, and on the whole product. -/
inductive Transform
  | slot (slot : Fin n) (f : C.T slot → C.T slot)
  | self (op : SelfTransform (Product C))

def transform (op : Transform C) (product : Product C) : Product C :=
  match op with
  | .slot slot f => update C phys slot (f (product slot)) product
  | .self op => (domain C phys).selfTransform op product

variable {κ : Type v} [LinearOrder κ]

/-- `partition` on a part of one slot, whose own partition of a value is `f`. -/
def partition (slot : Fin n) (f : C.T slot → SortedMap κ (C.T slot)) (product : Product C) :
    SortedMap κ (Product C) :=
  (f (product slot)).filterMap fun value => some (update C phys slot value product)

/-- The parts of one slot, in their order. -/
def partsOf {P : Fin n → Type u} (slot : Fin n) (parts : List ((slot : Fin n) × P slot)) :
    List (P slot) :=
  parts.filterMap fun part => if h : part.1 = slot then some (h ▸ part.2) else none

def create {P : Fin n → Type u} (createSlot : (slot : Fin n) → List (P slot) → C.T slot)
    (parts : List ((slot : Fin n) × P slot)) : Product C :=
  makeStrict C fun slot =>
    match partsOf slot parts with
    | [] => (C.domain slot).bottom
    | slotParts => createSlot slot slotParts

/-! ## 2. The order -/

variable {C phys} {a b product : Product C}

theorem isBottom_iff (hC : ∀ slot, (C.domain slot).Lawful) : isBottom C phys product = true ↔
    ∀ slot, (C.domain slot).isBottom (product slot) = true := by
  unfold isBottom slots
  rw [Bool.or_eq_true, List.all_eq_true]
  constructor
  · rintro (h | h) slot
    · rw [phys.product.sound h]
      exact (hC slot).isBottom_bottom
    · exact h slot (List.mem_finRange slot)
  · exact fun h => Or.inr fun slot _ => h slot

theorem lessOrEqual_iff (hC : ∀ slot, (C.domain slot).Lawful) : lessOrEqual C phys a b = true ↔
    ∀ slot, (C.domain slot).lessOrEqual (a slot) (b slot) = true := by
  unfold lessOrEqual slots
  rw [Bool.or_eq_true, List.all_eq_true]
  constructor
  · rintro (h | h) slot
    · rw [phys.product.sound h]
      exact (hC slot).refl _
    · exact h slot (List.mem_finRange slot)
  · exact fun h => Or.inr fun slot _ => h slot

/-- A product with no changed slot is the left one. -/
theorem ifChanged_eq (left result : Product C) : ifChanged C phys left result = result := by
  unfold ifChanged
  split
  · rfl
  · rename_i h
    funext slot
    have hsame : ¬ (!(phys.slot slot).test (result slot) (left slot)) = true := fun hchanged =>
      h (List.any_eq_true.mpr ⟨slot, List.mem_finRange slot, hchanged⟩)
    rw [Bool.not_eq_true', Bool.not_eq_false] at hsame
    exact ((phys.slot slot).sound hsame).symm

/-- The slot of a join, up to the order of the slot. -/
theorem join_slot (hC : ∀ slot, (C.domain slot).Lawful) (phys : Phys C) (a b : Product C)
    (slot : Fin n) (u : C.T slot) :
    (C.domain slot).lessOrEqual (join C phys a b slot) u = true ↔
      (C.domain slot).lessOrEqual (a slot) u = true ∧
        (C.domain slot).lessOrEqual (b slot) u = true := by
  have hD := hC slot
  unfold join
  split
  · rename_i h
    rcases Bool.or_eq_true_iff.mp h with hphys | hbottom
    · rw [phys.product.sound hphys, and_self]
    · exact (and_iff_left (hD.le_of_isBottom ((isBottom_iff hC).mp hbottom slot))).symm
  · split
    · rename_i hbottom
      exact (and_iff_right (hD.le_of_isBottom ((isBottom_iff hC).mp hbottom slot))).symm
    · rw [ifChanged_eq]
      constructor
      · exact fun h => ⟨hD.trans (hD.le_join_left _ _) h, hD.trans (hD.le_join_right _ _) h⟩
      · exact fun h => hD.join_le h.1 h.2

/-! ## 3. A bottom strict slot makes the product bottom -/

def StrictSlots (product : Product C) : Prop :=
  ∀ slot, C.strict slot = true → (C.domain slot).isBottom (product slot) = true →
    ∀ slot, (C.domain slot).isBottom (product slot) = true

theorem strictSlots_bottom (hC : ∀ slot, (C.domain slot).Lawful) : StrictSlots (bottom C) :=
  fun _ _ _ slot => (hC slot).isBottom_bottom

theorem mem_strictSlots {slot : Fin n} : slot ∈ strictSlots C ↔ C.strict slot = true := by
  unfold strictSlots slots
  rw [List.mem_filter, and_iff_right (List.mem_finRange slot)]

theorem strictSlots_makeStrict (hC : ∀ slot, (C.domain slot).Lawful) (product : Product C) :
    StrictSlots (makeStrict C product) := by
  unfold makeStrict
  split
  · exact strictSlots_bottom hC
  · rename_i h
    intro slot hstrict hbottom
    exact absurd (List.any_eq_true.mpr ⟨slot, mem_strictSlots.mpr hstrict, hbottom⟩) h

theorem StrictSlots.update (hC : ∀ slot, (C.domain slot).Lawful) (h : StrictSlots product)
    (slot : Fin n) (value : C.T slot) : StrictSlots (update C phys slot value product) := by
  unfold ProductDomain.update
  split
  · exact h
  · split
    · exact strictSlots_bottom hC
    · exact strictSlots_makeStrict hC _

theorem StrictSlots.join (hC : ∀ slot, (C.domain slot).Lawful) (ha : StrictSlots a)
    (hb : StrictSlots b) : StrictSlots (join C phys a b) := by
  have hbottom (slot : Fin n) :
      (C.domain slot).isBottom (ProductDomain.join C phys a b slot) = true ↔
      (C.domain slot).isBottom (a slot) = true ∧ (C.domain slot).isBottom (b slot) = true := by
    simp only [(hC slot).isBottom_iff]
    exact join_slot hC phys a b slot _
  intro slot hstrict h
  obtain ⟨hleft, hright⟩ := (hbottom slot).mp h
  exact fun slot' => (hbottom slot').mpr ⟨ha slot hstrict hleft slot', hb slot hstrict hright slot'⟩

theorem StrictSlots.widen (hC : ∀ slot, (C.domain slot).Lawful) (ha : StrictSlots a)
    (hb : StrictSlots b) (iteration : ℕ) : StrictSlots (widen C phys iteration a b) := by
  unfold ProductDomain.widen
  split
  · exact ha
  · rw [ifChanged_eq]
    intro slot hstrict h slot'
    have hprev := (hC slot).isBottom_of_le ((hC slot).le_widen_left iteration _ _) h
    have hnext := (hC slot).isBottom_of_le ((hC slot).le_widen_right iteration _ _) h
    exact (hC slot').widen_bottom iteration _ _ (ha slot hstrict hprev slot')
      (hb slot hstrict hnext slot')

theorem StrictSlots.meet (hC : ∀ slot, (C.domain slot).Lawful) (ha : StrictSlots a) :
    StrictSlots (meet C phys a b) := by
  unfold ProductDomain.meet
  split
  · exact ha
  · dsimp only
    split
    · exact strictSlots_bottom hC
    · rename_i h
      intro slot hstrict hbottom
      refine absurd (List.any_eq_true.mpr ⟨slot, List.mem_finRange slot, ?_⟩) h
      rw [hstrict, Bool.true_and]
      exact hbottom

theorem StrictSlots.subtract (hC : ∀ slot, (C.domain slot).Lawful) (ha : StrictSlots a) :
    StrictSlots (subtract C phys b a) := by
  unfold ProductDomain.subtract
  split
  · exact strictSlots_bottom hC
  · split
    · exact ha
    · split
      · exact strictSlots_bottom hC
      · split
        · rename_i hnone
          -- no slot is strict
          intro slot hstrict
          rw [List.length_eq_zero_iff] at hnone
          have hmem := mem_strictSlots.mpr hstrict
          rw [hnone] at hmem
          cases hmem
        · split
          · exact ha.update hC _ _
          · exact strictSlots_bottom hC
          · exact ha

theorem StrictSlots.transform (hC : ∀ slot, (C.domain slot).Lawful) {op : Transform C}
    (h : StrictSlots product)
    (hresults : ∀ self, op = .self self → ∀ value ∈ self.results product, StrictSlots value) :
    StrictSlots (transform C phys op product) := by
  cases op with
  | slot slot f => exact h.update hC slot _
  | self self =>
    exact selfTransform_preserves (D := domain C phys) (strictSlots_bottom hC)
      (fun _ _ ha hb => ha.join hC hb) (hresults self rfl) h

theorem StrictSlots.partition (hC : ∀ slot, (C.domain slot).Lawful) (h : StrictSlots product)
    {slot : Fin n} {f : C.T slot → SortedMap κ (C.T slot)} {key : κ}
    (hcls : (partition C phys slot f product).find? key = some a) : StrictSlots a := by
  unfold ProductDomain.partition at hcls
  rw [SortedMap.find?_filterMap, Option.bind_eq_some_iff] at hcls
  obtain ⟨value, -, hvalue⟩ := hcls
  cases hvalue
  exact h.update hC slot value

/-! ## 4. Runs -/

/-- The products that the operations build. -/
inductive Reachable (C : Config.{u} n) (phys : Phys C) : Product C → Prop
  | bottom : Reachable C phys (bottom C)
  | create {P : Fin n → Type u} (createSlot : (slot : Fin n) → List (P slot) → C.T slot)
      (parts : List ((slot : Fin n) × P slot)) : Reachable C phys (create C createSlot parts)
  | update {product : Product C} (slot : Fin n) (value : C.T slot) :
      Reachable C phys product → Reachable C phys (update C phys slot value product)
  | join {left right : Product C} : Reachable C phys left → Reachable C phys right →
      Reachable C phys (join C phys left right)
  | widen {prev next : Product C} (iteration : ℕ) : Reachable C phys prev →
      Reachable C phys next → Reachable C phys (widen C phys iteration prev next)
  | meet {left right : Product C} : Reachable C phys left → Reachable C phys right →
      Reachable C phys (meet C phys left right)
  | subtract {toRemove source : Product C} : Reachable C phys toRemove →
      Reachable C phys source → Reachable C phys (subtract C phys toRemove source)
  | transform {product : Product C} (op : Transform C) : Reachable C phys product →
      (∀ self, op = .self self → ∀ value ∈ self.results product, Reachable C phys value) →
      Reachable C phys (transform C phys op product)
  | partition {product cls : Product C} {κ : Type} [LinearOrder κ] (slot : Fin n)
      (f : C.T slot → SortedMap κ (C.T slot)) {key : κ} : Reachable C phys product →
      (partition C phys slot f product).find? key = some cls → Reachable C phys cls

theorem Reachable.strictSlots (hC : ∀ slot, (C.domain slot).Lawful)
    (h : Reachable C phys product) : StrictSlots product := by
  induction h with
  | bottom => exact strictSlots_bottom hC
  | create createSlot parts => exact strictSlots_makeStrict hC _
  | update slot value _ ih => exact ih.update hC slot value
  | join _ _ ih ih' => exact ih.join hC ih'
  | widen iteration _ _ ih ih' => exact ih.widen hC ih' iteration
  | meet _ _ ih _ => exact ih.meet hC
  | subtract _ _ _ ih => exact ih.subtract hC
  | transform op _ _ ih ihresults => exact ih.transform hC ihresults
  | partition slot f _ hcls ih => exact ih.partition hC hcls

/-! ## 5. Subtraction -/

/-- What the search has found in the slots that it has seen. -/
def Found (toRemove source : Product C) (seen : List (Fin n)) : StrictSubtract C → Prop
  | .singleStrict slot value => value = difference C toRemove source slot ∧
      (C.domain slot).isBottom value = false
  | .allBottom => ∀ slot ∈ seen, (C.domain slot).isBottom (difference C toRemove source slot) = true

theorem found_foldlM {toRemove source : Product C} {found : StrictSubtract C}
    (h : (slots n).foldlM (findSingleStrictSlot C toRemove source) .allBottom = some found) :
    Found toRemove source (slots n) found := by
  have key (seen rest : List (Fin n)) (soFar : StrictSubtract C)
      (hsoFar : Found toRemove source seen soFar)
      (hrest : rest.foldlM (findSingleStrictSlot C toRemove source) soFar = some found) :
      Found toRemove source (seen ++ rest) found := by
    induction rest generalizing seen soFar with
    | nil =>
      cases hrest
      rw [List.append_nil]
      exact hsoFar
    | cons slot rest ih =>
      rw [List.foldlM_cons, Option.bind_eq_bind, Option.bind_eq_some_iff] at hrest
      obtain ⟨next, hnext, hrest⟩ := hrest
      rw [List.append_cons]
      refine ih (seen ++ [slot]) next ?_ hrest
      unfold findSingleStrictSlot at hnext
      dsimp only at hnext
      split at hnext
      · -- the difference of the slot is bottom, and the search goes on
        rename_i hbottom
        cases hnext
        cases soFar with
        | singleStrict slot' value => exact hsoFar
        | allBottom =>
          intro slot' hslot'
          rcases List.mem_append.mp hslot' with hseen | hslot
          · exact hsoFar slot' hseen
          · rw [List.mem_singleton.mp hslot]
            exact hbottom
      · rename_i hbottom
        split at hnext
        · split at hnext
          · cases hnext
            exact ⟨rfl, Bool.eq_false_iff.mpr hbottom⟩
          · cases hnext
        · cases hnext
  exact key [] (slots n) .allBottom (fun _ h => absurd h List.not_mem_nil) h

/-- The slot of an update that keeps the other slots, or of one that makes the product bottom. -/
theorem update_cases (phys : Phys C) (slot : Fin n)
    (value : C.T slot) (product : Product C) :
    update C phys slot value product = Function.update product slot value ∨
      update C phys slot value product = bottom C ∧
        ∃ slot', C.strict slot' = true ∧
          (C.domain slot').isBottom (Function.update product slot value slot') = true := by
  unfold update
  split
  · rename_i hphys
    rw [← (phys.slot slot).sound hphys, Function.update_eq_self]
    exact Or.inl rfl
  · split
    · rename_i hbottom
      obtain ⟨hstrict, hbottom⟩ := Bool.and_eq_true_iff.mp hbottom
      refine Or.inr ⟨rfl, slot, hstrict, ?_⟩
      rw [Function.update_self]
      exact hbottom
    · unfold makeStrict
      split
      · rename_i hany
        obtain ⟨slot', hslot', hbottom⟩ := List.any_eq_true.mp hany
        exact Or.inr ⟨rfl, slot', mem_strictSlots.mp hslot', hbottom⟩
      · exact Or.inl rfl

theorem bottom_lessOrEqual (hC : ∀ slot, (C.domain slot).Lawful) (a : Product C) :
    lessOrEqual C phys (bottom C) a = true :=
  (lessOrEqual_iff hC).mpr fun slot => (hC slot).bottom_le _

theorem lessOrEqual_refl (hC : ∀ slot, (C.domain slot).Lawful) (a : Product C) :
    lessOrEqual C phys a a = true := (lessOrEqual_iff hC).mpr fun slot => (hC slot).refl _

/-- A subtraction is bottom, all there was, the pointwise difference, or the difference in one
    slot and all there was in the others. -/
theorem subtract_cases (hC : ∀ slot, (C.domain slot).Lawful) (phys : Phys C) (ha : StrictSlots a)
    (b : Product C) :
    subtract C phys b a = bottom C ∧ lessOrEqual C phys a b = true ∨
      ∀ slot, subtract C phys b a slot = a slot ∨
        subtract C phys b a slot = difference C b a slot := by
  have hall (h : ∀ slot, (C.domain slot).isBottom (difference C b a slot) = true) :
      lessOrEqual C phys a b = true :=
    (lessOrEqual_iff hC).mpr fun slot => (hC slot).le_of_subtract_isBottom (h slot)
  unfold subtract
  split
  · rename_i hphys
    rw [phys.product.sound hphys]
    exact Or.inl ⟨rfl, lessOrEqual_refl hC _⟩
  · split
    · exact Or.inr fun _ => Or.inl rfl
    · split
      · rename_i hle
        exact Or.inl ⟨rfl, hle⟩
      · split
        · dsimp only
          split
          · rename_i hcount
            rw [List.countP_eq_zero] at hcount
            refine Or.inl ⟨rfl, hall fun slot => ?_⟩
            have hslot := hcount slot (List.mem_finRange slot)
            rwa [Bool.not_eq_true', Bool.not_eq_false] at hslot
          · exact Or.inr fun _ => Or.inr rfl
        · cases hfound : (slots n).foldlM (findSingleStrictSlot C b a) .allBottom with
          | none => exact Or.inr fun _ => Or.inl rfl
          | some found =>
            have hfound := found_foldlM hfound
            cases found with
            | allBottom => exact Or.inl ⟨rfl, hall fun slot => hfound slot (List.mem_finRange slot)⟩
            | singleStrict slot newValue =>
              obtain ⟨rfl, hnonbottom⟩ := hfound
              dsimp only
              rcases update_cases phys slot (difference C b a slot) a with
                hupdate | ⟨hupdate, slot', hstrict, hbottom⟩
              · rw [hupdate]
                refine Or.inr fun slot' => ?_
                by_cases hslot : slot' = slot
                · subst hslot
                  exact Or.inr (Function.update_self ..)
                · exact Or.inl (Function.update_of_ne hslot ..)
              · -- another strict slot of the source is bottom, so all of it is
                have hne : slot' ≠ slot := by
                  rintro rfl
                  rw [Function.update_self, hnonbottom] at hbottom
                  cases hbottom
                rw [Function.update_of_ne hne] at hbottom
                refine Or.inl ⟨hupdate, (lessOrEqual_iff hC).mpr fun s => ?_⟩
                exact (hC s).le_of_isBottom (ha slot' hstrict hbottom s)

theorem subtract_lessOrEqual (hC : ∀ slot, (C.domain slot).Lawful) (ha : StrictSlots a)
    (b : Product C) : lessOrEqual C phys (subtract C phys b a) a = true := by
  rcases subtract_cases hC phys ha b with ⟨h, -⟩ | h
  · rw [h]
    exact bottom_lessOrEqual hC a
  · refine (lessOrEqual_iff hC).mpr fun slot => ?_
    rcases h slot with h | h
    · rw [h]
      exact (hC slot).refl _
    · rw [h]
      exact (hC slot).subtract_le _ _

theorem lessOrEqual_join_subtract (hC : ∀ slot, (C.domain slot).Lawful) (ha : StrictSlots a)
    (b : Product C) :
    lessOrEqual C phys a (join C phys (subtract C phys b a) b) = true := by
  refine (lessOrEqual_iff hC).mpr fun slot => ?_
  have hD := hC slot
  obtain ⟨hsubtract, hb⟩ := (join_slot hC phys (subtract C phys b a) b slot _).mp (hD.refl _)
  rcases subtract_cases hC phys ha b with ⟨-, hle⟩ | h
  · exact hD.trans ((lessOrEqual_iff hC).mp hle slot) hb
  · rcases h slot with h | h
    · rw [h] at hsubtract
      exact hsubtract
    · rw [h] at hsubtract
      exact hD.trans (hD.le_join_subtract _ _) (hD.join_le hsubtract hb)

/-- **In every product that the operations build, a bottom strict slot makes the product bottom;
    and `subtract` drops no more than it may.** -/
theorem product_sound (C : Config.{u} n) (hC : ∀ slot, (C.domain slot).Lawful) (phys : Phys C) :
    (∀ product, Reachable C phys product → StrictSlots product) ∧
      ∀ a b, StrictSlots a → StrictSlots b →
        lessOrEqual C phys (subtract C phys b a) a = true ∧
        lessOrEqual C phys a (join C phys (subtract C phys b a) b) = true :=
  ⟨fun _ h => h.strictSlots hC, fun _ b ha _ =>
    ⟨subtract_lessOrEqual hC ha b, lessOrEqual_join_subtract hC ha b⟩⟩

/-- A strict and a non-strict slot: part of the strict one goes, and the other is kept. -/
theorem product_sound_sets :
    let C : Config.{0} 2 :=
      ⟨fun _ => SortedSet ℕ, fun _ => SetDomain.domain (.never _), fun slot => slot = 0⟩
    let phys : Phys C := ⟨.never _, fun _ => .never _⟩
    let a : Product C := makeStrict C fun slot => if slot = 0 then .ofList [1, 2] else .ofList [3]
    let b : Product C := makeStrict C fun slot => if slot = 0 then .ofList [1] else .ofList [3]
    lessOrEqual C phys (subtract C phys b a) a = true ∧
      lessOrEqual C phys a (join C phys (subtract C phys b a) b) = true :=
  (product_sound _ (fun _ => SetDomain.lawful _) _).2 _ _
    (strictSlots_makeStrict (fun _ => SetDomain.lawful _) _)
    (strictSlots_makeStrict (fun _ => SetDomain.lawful _) _)

end ProductDomain

end Pysa
