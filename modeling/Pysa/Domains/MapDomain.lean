/-
  Subject: MAPS TO A VALUE DOMAIN (`abstractMapDomain.ml`), strict ones above all.

  * the operations of the source over any value domain; `strict` is
    `Key.absence_implicitly_maps_to_bottom`. An operation on values (`Element.transform`,
    `Element.partition`, `Element.create`) is an argument;
  * `NoBottom` -- no key is bound to bottom; `Reachable` -- the maps that the operations of a
    strict domain build;
  * `lessOrEqual_iff`, `get_join` -- on strict maps the order and the join are pointwise;
  * `strictMap_sound` -- **strictness is kept, `join` is the pointwise least upper bound, and
    `subtract` drops no more than it may.**
-/
import Pysa.Domains.SetDomain

namespace Pysa

universe u

namespace MapDomain

open AbstractDomain

variable {K : Type u} [LinearOrder K] {V : Type u} (D : AbstractDomain V) (strict : Bool)
  (phys : PhysEq (SortedMap K V)) (physElement : PhysEq V)

/-! ## 1. Operations -/

def set (map : SortedMap K V) (key : K) (data : V) : SortedMap K V :=
  if strict && D.isBottom data then map.remove key else map.add key data

/-- `update ~key ~data`. -/
def update (map : SortedMap K V) (key : K) (data : V) : SortedMap K V :=
  if strict && D.isBottom data then map
  else
    map.add key
      (match map.find? key with
      | none => data
      | some existing => D.join existing data)

/-- `join`. The test `x == y` is physical equality. -/
def join (x y : SortedMap K V) : SortedMap K V :=
  if phys.test x y || y.isEmpty then x else x.union D.join y

def lessOrEqual (left right : SortedMap K V) : Bool :=
  if phys.test left right || left.isEmpty then true
  else if right.isEmpty then false
  else
    left.all fun key left =>
      match right.find? key with
      | some right => D.lessOrEqual left right
      | none => false

def widen (iteration : ℕ) (prev next : SortedMap K V) : SortedMap K V :=
  if phys.test prev next then prev else prev.union (D.widen iteration) next

/-- One key of `from` in `subtract`. -/
def subtractElement (toRemove : SortedMap K V) (key : K) (fromElement : V)
    (result : SortedMap K V) : SortedMap K V :=
  match toRemove.find? key with
  | none => set D strict result key fromElement
  | some toRemoveElement =>
    let difference := D.subtract toRemoveElement fromElement
    if D.isBottom difference then result.remove key
    else if physElement.test difference fromElement then result
    else result.add key difference

def subtract (toRemove source : SortedMap K V) : SortedMap K V :=
  if phys.test source toRemove then .empty
  else if source.isEmpty then .empty
  else if toRemove.isEmpty then source
  else source.fold (subtractElement D strict physElement toRemove) source

def domain : AbstractDomain (SortedMap K V) where
  bottom := .empty
  isBottom := SortedMap.isEmpty
  join := join D phys
  meet := baseMeet (lessOrEqual D phys)
  lessOrEqual := lessOrEqual D phys
  widen := widen D phys
  subtract := subtract D strict phys physElement

/-- The operations of `transform`. The last two levels apply a transform of the value domain. -/
inductive Transform (K : Type u) [LinearOrder K] (V : Type u)
  | keyMap (f : K → K)
  | keyAdd (key : K)
  | keyFilter (f : K → Bool)
  | keyFilterMap (f : K → Option K)
  | keyExpand (f : K → List K)
  | keyValueMap (f : K × V → K × V)
  | keyValueAdd (keyValue : K × V)
  | keyValueFilter (f : K × V → Bool)
  | keyValueFilterMap (f : K × V → Option (K × V))
  | keyValueExpand (f : K × V → List (K × V))
  | contextKey (f : K → V → V)
  | contextKeyValue (f : K × V → V → V)
  | element (f : V → V)
  | self (op : SelfTransform (SortedMap K V))

/-- Applies a transform of the value domain to each value. -/
def transformElements (f : K → V → V) (map : SortedMap K V) : SortedMap K V :=
  if strict then map.fold (fun key data result => set D strict result key (f key data)) .empty
  else map.filterMapi fun key data => some (f key data)

def transform (op : Transform K V) (map : SortedMap K V) : SortedMap K V :=
  match op with
  | .keyMap f => map.fold (fun key data result => update D strict result (f key) data) .empty
  | .keyAdd key => update D strict map key D.bottom
  | .keyFilter f => map.filterMapi fun key data => if f key then some data else none
  | .keyFilterMap f =>
    map.fold
      (fun key data result =>
        match f key with
        | some key => update D strict result key data
        | none => result)
      .empty
  | .keyExpand f =>
    map.fold
      (fun key data result =>
        (f key).foldl (fun result key => update D strict result key data) result)
      .empty
  | .keyValueMap f =>
    map.fold
      (fun key data result =>
        let (key, data) := f (key, data)
        update D strict result key data)
      .empty
  | .keyValueAdd (key, data) => update D strict map key data
  | .keyValueFilter f => map.filterMapi fun key data => if f (key, data) then some data else none
  | .keyValueFilterMap f =>
    map.fold
      (fun key data result =>
        match f (key, data) with
        | some (key, data) => update D strict result key data
        | none => result)
      .empty
  | .keyValueExpand f =>
    map.fold
      (fun key data result =>
        (f (key, data)).foldl
          (fun result keyValue => update D strict result keyValue.1 keyValue.2) result)
      .empty
  | .contextKey f => transformElements D strict f map
  | .contextKeyValue f => transformElements D strict (fun key data => f (key, data) data) map
  | .element f => transformElements D strict (fun _ data => f data) map
  | .self op => (domain D strict phys physElement).selfTransform op map

def singleton (key : K) (data : V) : SortedMap K V := set D strict .empty key data

def updatePartition (keyValue : K × V) : Option (SortedMap K V) → SortedMap K V
  | none => singleton D strict keyValue.1 keyValue.2
  | some existing => update D strict existing keyValue.1 keyValue.2

variable {κ : Type u} [LinearOrder κ]

/-- `partition` on `KeyValue, ByFilter`; the part `Key` and the operation `By` are special cases. -/
def partition (f : K × V → Option κ) (map : SortedMap K V) : SortedMap κ (SortedMap K V) :=
  fileAll (updatePartition D strict) f map.bindings

/-- `partition` on a part of the value domain, whose own partition of a value is `f`. -/
def partitionElements (f : K × V → SortedMap κ V) (map : SortedMap K V) :
    SortedMap κ (SortedMap K V) :=
  fileAll (fun part => updatePartition D strict part.2) (fun part => some part.1)
    (map.bindings.flatMap fun keyValue =>
      (f keyValue).bindings.map fun cls => (cls.1, keyValue.1, cls.2))

/-- A part of the list given to `create`: `P` are the parts of the value domain. -/
inductive Part (K : Type u) (V : Type u) (P : Type u)
  | key (value : K)
  | keyValue (value : K × V)
  | element (part : P)

section Create

variable {P : Type u} (createElement : List P → Except String V)

/-- The parts of the value domain before the first key, and the keys with their values. -/
def splitIntoAlist : List (Part K V P) → Except String (List P × List (K × V))
  | [] => .ok ([], [])
  | .key value :: rest => do
      let (elements, pairs) ← splitIntoAlist rest
      let elementValue ← createElement elements.reverse
      return ([], (value, elementValue) :: pairs)
  | .keyValue value :: rest => do
      let (elements, pairs) ← splitIntoAlist rest
      return (elements, value :: pairs)
  | .element part :: rest => do
      let (elements, pairs) ← splitIntoAlist rest
      return (part :: elements, pairs)

def create (parts : List (Part K V P)) : Except String (SortedMap K V) := do
  let (commonElements, keyValues) ← splitIntoAlist createElement parts
  if keyValues.isEmpty && !commonElements.isEmpty then throw "No keys specified"
  let common ← createElement commonElements.reverse
  return (keyValues.map fun keyValue => (keyValue.1, D.join common keyValue.2)).foldl
    (fun map keyValue => update D strict map keyValue.1 keyValue.2) .empty

end Create

def ofList (l : List (K × V)) : SortedMap K V :=
  l.foldl (fun acc keyValue => set D strict acc keyValue.1 keyValue.2) .empty

/-- The exported `update`, which shadows the one above. -/
def updateWith (map : SortedMap K V) (key : K) (f : Option V → V) : SortedMap K V :=
  set D strict map key (f (map.find? key))

def get (key : K) (map : SortedMap K V) : V :=
  match map.find? key with
  | some d => d
  | none => D.bottom

/-! ## 2. No key is bound to bottom -/

variable {D phys physElement} {map a b : SortedMap K V}

theorem find?_set (map : SortedMap K V) (key : K) (data : V) (x : K) :
    (set D true map key data).find? x =
      if x = key then if D.isBottom data then none else some data else map.find? x := by
  unfold set
  rw [Bool.true_and]
  split
  · rw [SortedMap.find?_remove]
  · rw [SortedMap.find?_add]

theorem find?_update (map : SortedMap K V) (key : K) {data : V} (hdata : D.isBottom data = false)
    (x : K) : (update D true map key data).find? x =
      if x = key then some ((map.find? key).elim data fun existing => D.join existing data)
      else map.find? x := by
  unfold update
  rw [hdata, Bool.and_false, if_neg Bool.false_ne_true, SortedMap.find?_add]
  cases map.find? key <;> rfl

/-- A transform of the values of a strict map, at one key. -/
theorem find?_transformElements (f : K → V → V) (map : SortedMap K V) (key : K) :
    (transformElements D true f map).find? key = (map.find? key).bind fun data =>
      if D.isBottom (f key data) then none else some (f key data) := by
  rw [transformElements, if_pos rfl]
  refine (SortedMap.find?_fold
    (fun key data _ => if D.isBottom (f key data) then none else some (f key data))
    (fun key data acc x hx => ?_) (fun key data acc => ?_) key).trans ?_
  · rw [find?_set, if_neg hx]
  · rw [find?_set, if_pos rfl]
  · cases map.find? key with
    | none => exact SortedMap.find?_empty key
    | some data => rfl

/-- What absence means: no key of the map is bound to bottom. -/
def NoBottom (D : AbstractDomain V) (map : SortedMap K V) : Prop :=
  ∀ key data, map.find? key = some data → D.isBottom data = false

theorem noBottom_empty : NoBottom D (.empty : SortedMap K V) := by
  intro key data h
  rw [SortedMap.find?_empty] at h
  cases h

theorem NoBottom.add (h : NoBottom D map) (key : K) {data : V} (hdata : D.isBottom data = false) :
    NoBottom D (map.add key data) := by
  intro key' data' hfind
  rw [SortedMap.find?_add] at hfind
  split at hfind
  · cases hfind
    exact hdata
  · exact h key' data' hfind

/-- A map whose bindings are bindings of a strict map is strict. -/
theorem NoBottom.of_find? (h : NoBottom D map)
    (hsub : ∀ key data, a.find? key = some data → map.find? key = some data) : NoBottom D a :=
  fun key data hfind => h key data (hsub key data hfind)

theorem NoBottom.remove (h : NoBottom D map) (key : K) : NoBottom D (map.remove key) := by
  refine h.of_find? fun key' data hfind => ?_
  rw [SortedMap.find?_remove] at hfind
  split at hfind
  · cases hfind
  · exact hfind

theorem NoBottom.filter (h : NoBottom D map) (f : K → V → Bool) :
    NoBottom D (map.filterMapi fun key data => if f key data then some data else none) := by
  refine h.of_find? fun key data hfind => ?_
  rw [SortedMap.find?_filterMapi, Option.bind_eq_some_iff] at hfind
  obtain ⟨data', hdata', hif⟩ := hfind
  split at hif
  · cases hif
    exact hdata'
  · cases hif

theorem NoBottom.set (h : NoBottom D map) (key : K) (data : V) :
    NoBottom D (set D true map key data) := by
  unfold MapDomain.set
  rw [Bool.true_and]
  split
  · exact h.remove key
  · rename_i hdata
    exact h.add key (Bool.not_eq_true _ ▸ hdata)

theorem NoBottom.update (hD : D.Lawful) (h : NoBottom D map) (key : K) (data : V) :
    NoBottom D (update D true map key data) := by
  unfold MapDomain.update
  rw [Bool.true_and]
  split
  · exact h
  · rename_i hdata
    refine h.add key ?_
    cases map.find? key with
    | none => exact Bool.not_eq_true _ ▸ hdata
    | some existing =>
      -- the join is above the new value, which is not bottom
      exact Bool.eq_false_iff.mpr fun hjoin => hdata (hD.isBottom_join.mp hjoin).2

theorem NoBottom.union (ha : NoBottom D a) (hb : NoBottom D b) {f : V → V → V}
    (hf : ∀ v w, D.isBottom (f v w) = true → D.isBottom v = true) : NoBottom D (a.union f b) := by
  intro key data hfind
  rw [SortedMap.find?_union] at hfind
  cases hav : a.find? key with
  | none =>
    rw [hav] at hfind
    exact hb key data hfind
  | some v =>
    have hv := ha key v hav
    rw [hav] at hfind
    cases hbw : b.find? key with
    | none =>
      rw [hbw] at hfind
      cases hfind
      exact hv
    | some w =>
      rw [hbw] at hfind
      cases hfind
      exact Bool.eq_false_iff.mpr fun hbottom => Bool.eq_false_iff.mp hv (hf v w hbottom)

theorem NoBottom.join (hD : D.Lawful) (ha : NoBottom D a) (hb : NoBottom D b) :
    NoBottom D (join D phys a b) := by
  unfold MapDomain.join
  split
  · exact ha
  · exact ha.union hb fun v w h => (hD.isBottom_join.mp h).1

theorem NoBottom.widen (hD : D.Lawful) (ha : NoBottom D a) (hb : NoBottom D b) (iteration : ℕ) :
    NoBottom D (widen D phys iteration a b) := by
  unfold MapDomain.widen
  split
  · exact ha
  · exact ha.union hb fun v w h => hD.isBottom_of_le (hD.le_widen_left iteration v w) h

theorem NoBottom.subtractElement (h : NoBottom D map) (toRemove : SortedMap K V) (key : K)
    (fromElement : V) :
    NoBottom D (subtractElement D true physElement toRemove key fromElement map) := by
  unfold MapDomain.subtractElement
  split
  · exact h.set key fromElement
  · dsimp only
    split
    · exact h.remove key
    · rename_i hdifference
      split
      · exact h
      · exact h.add key (Bool.not_eq_true _ ▸ hdifference)

theorem NoBottom.subtract (ha : NoBottom D a) :
    NoBottom D (subtract D true phys physElement b a) := by
  unfold MapDomain.subtract
  split
  · exact noBottom_empty
  · split
    · exact noBottom_empty
    · split
      · exact ha
      · exact SortedMap.fold_induction (NoBottom D) ha fun key data _ _ h =>
          h.subtractElement b key data

theorem NoBottom.foldl_update (hD : D.Lawful) (h : NoBottom D map) (keyValues : List (K × V)) :
    NoBottom D (keyValues.foldl
      (fun result keyValue => MapDomain.update D true result keyValue.1 keyValue.2) map) := by
  induction keyValues generalizing map with
  | nil => exact h
  | cons keyValue rest ih => exact ih (h.update hD keyValue.1 keyValue.2)

theorem noBottom_transformElements (f : K → V → V) (map : SortedMap K V) :
    NoBottom D (transformElements D true f map) :=
  SortedMap.fold_induction (NoBottom D) noBottom_empty fun key data _ _ h => h.set key (f key data)

/-- Every transform keeps strictness, if the maps that its argument gives are strict. -/
theorem NoBottom.transform (hD : D.Lawful) {op : Transform K V} (h : NoBottom D map)
    (hresults : ∀ self, op = .self self → ∀ value ∈ self.results map, NoBottom D value) :
    NoBottom D (transform D true phys physElement op map) := by
  cases op with
  | keyAdd key => exact h.update hD key D.bottom
  | keyValueAdd keyValue => exact h.update hD keyValue.1 keyValue.2
  | keyFilter f => exact h.filter fun key _ => f key
  | keyValueFilter f => exact h.filter fun key data => f (key, data)
  | contextKey f => exact noBottom_transformElements f map
  | contextKeyValue f => exact noBottom_transformElements _ map
  | element f => exact noBottom_transformElements _ map
  | self self =>
    exact selfTransform_preserves (D := domain D true phys physElement) noBottom_empty
      (fun _ _ ha hb => ha.join hD hb) (hresults self rfl) h
  | keyMap f =>
    exact SortedMap.fold_induction (NoBottom D) noBottom_empty fun key data _ _ h =>
      h.update hD (f key) data
  | keyValueMap f =>
    exact SortedMap.fold_induction (NoBottom D) noBottom_empty fun key data _ _ h =>
      h.update hD (f (key, data)).1 (f (key, data)).2
  | keyFilterMap f =>
    refine SortedMap.fold_induction (NoBottom D) noBottom_empty fun key data _ _ h => ?_
    cases f key with
    | none => exact h
    | some key' => exact h.update hD key' data
  | keyValueFilterMap f =>
    refine SortedMap.fold_induction (NoBottom D) noBottom_empty fun key data _ _ h => ?_
    cases f (key, data) with
    | none => exact h
    | some keyValue => exact h.update hD keyValue.1 keyValue.2
  | keyExpand f =>
    refine SortedMap.fold_induction (NoBottom D) noBottom_empty fun key data result _ h => ?_
    have hmap : (f key).foldl (fun result key => MapDomain.update D true result key data) result =
        ((f key).map fun key => (key, data)).foldl
          (fun result keyValue => MapDomain.update D true result keyValue.1 keyValue.2)
          result := by
      rw [List.foldl_map]
    rw [hmap]
    exact h.foldl_update hD _
  | keyValueExpand f =>
    exact SortedMap.fold_induction (NoBottom D) noBottom_empty fun key data _ _ h =>
      h.foldl_update hD (f (key, data))

theorem noBottom_updatePartition (hD : D.Lawful) (keyValue : K × V) {cls : Option (SortedMap K V)}
    (h : ∀ old, cls = some old → NoBottom D old) :
    NoBottom D (updatePartition D true keyValue cls) := by
  cases cls with
  | none => exact noBottom_empty.set keyValue.1 keyValue.2
  | some old => exact (h old rfl).update hD keyValue.1 keyValue.2

theorem noBottom_partition (hD : D.Lawful) {f : K × V → Option κ} {key : κ}
    (hcls : (partition D true f map).find? key = some a) : NoBottom D a :=
  fileAll_preserves (fun part _ => noBottom_updatePartition hD part (by simp))
    (fun part _ cls h => noBottom_updatePartition hD part (by simpa using h)) hcls

theorem noBottom_partitionElements (hD : D.Lawful) {f : K × V → SortedMap κ V} {key : κ}
    (hcls : (partitionElements D true f map).find? key = some a) : NoBottom D a :=
  fileAll_preserves (fun part _ => noBottom_updatePartition hD part.2 (by simp))
    (fun part _ cls h => noBottom_updatePartition hD part.2 (by simpa using h)) hcls

theorem noBottom_create (hD : D.Lawful) {P : Type u} {createElement : List P → Except String V}
    {parts : List (Part K V P)} (h : create D true createElement parts = .ok map) :
    NoBottom D map := by
  unfold create at h
  cases hsplit : splitIntoAlist createElement parts with
  | error message =>
    rw [hsplit] at h
    cases h
  | ok split =>
    rw [hsplit] at h
    simp only [bind, Except.bind] at h
    split at h
    · cases h
    · cases hcommon : createElement split.1.reverse with
      | error message =>
        rw [hcommon] at h
        cases h
      | ok common =>
        rw [hcommon] at h
        cases h
        exact noBottom_empty.foldl_update hD _

theorem noBottom_ofList (l : List (K × V)) : NoBottom D (ofList D true l) := by
  have key (map : SortedMap K V) (h : NoBottom D map) :
      NoBottom D (l.foldl (fun acc keyValue => MapDomain.set D true acc keyValue.1 keyValue.2)
        map) := by
    induction l generalizing map with
    | nil => exact h
    | cons keyValue rest ih => exact ih _ (h.set keyValue.1 keyValue.2)
  exact key .empty noBottom_empty

/-! ## 3. Runs -/

/-- The maps that the operations of a strict map domain build. -/
inductive Reachable (D : AbstractDomain V) (phys : PhysEq (SortedMap K V))
    (physElement : PhysEq V) : SortedMap K V → Prop
  | bottom : Reachable D phys physElement .empty
  | singleton (key : K) (data : V) : Reachable D phys physElement (singleton D true key data)
  | ofList (l : List (K × V)) : Reachable D phys physElement (ofList D true l)
  | create {P : Type u} (createElement : List P → Except String V) (parts : List (Part K V P))
      {map : SortedMap K V} : create D true createElement parts = .ok map →
      Reachable D phys physElement map
  | set {map : SortedMap K V} (key : K) (data : V) : Reachable D phys physElement map →
      Reachable D phys physElement (set D true map key data)
  | update {map : SortedMap K V} (key : K) (data : V) : Reachable D phys physElement map →
      Reachable D phys physElement (update D true map key data)
  | updateWith {map : SortedMap K V} (key : K) (f : Option V → V) :
      Reachable D phys physElement map →
      Reachable D phys physElement (updateWith D true map key f)
  | remove {map : SortedMap K V} (key : K) : Reachable D phys physElement map →
      Reachable D phys physElement (map.remove key)
  | join {x y : SortedMap K V} : Reachable D phys physElement x → Reachable D phys physElement y →
      Reachable D phys physElement (join D phys x y)
  | widen {prev next : SortedMap K V} (iteration : ℕ) : Reachable D phys physElement prev →
      Reachable D phys physElement next →
      Reachable D phys physElement (widen D phys iteration prev next)
  | meet {x y : SortedMap K V} : Reachable D phys physElement x → Reachable D phys physElement y →
      Reachable D phys physElement ((domain D true phys physElement).meet x y)
  | subtract {toRemove source : SortedMap K V} : Reachable D phys physElement toRemove →
      Reachable D phys physElement source →
      Reachable D phys physElement (subtract D true phys physElement toRemove source)
  | transform {map : SortedMap K V} (op : Transform K V) : Reachable D phys physElement map →
      (∀ self, op = .self self → ∀ value ∈ self.results map, Reachable D phys physElement value) →
      Reachable D phys physElement (transform D true phys physElement op map)
  | partition {map cls : SortedMap K V} {κ : Type u} [LinearOrder κ] (f : K × V → Option κ)
      {key : κ} : Reachable D phys physElement map →
      (partition D true f map).find? key = some cls → Reachable D phys physElement cls
  | partitionElements {map cls : SortedMap K V} {κ : Type u} [LinearOrder κ]
      (f : K × V → SortedMap κ V) {key : κ} : Reachable D phys physElement map →
      (partitionElements D true f map).find? key = some cls → Reachable D phys physElement cls

theorem Reachable.noBottom (hD : D.Lawful) (h : Reachable D phys physElement map) :
    NoBottom D map := by
  induction h with
  | bottom => exact noBottom_empty
  | singleton key data => exact noBottom_empty.set key data
  | ofList l => exact noBottom_ofList l
  | create createElement parts h => exact noBottom_create hD h
  | set key data _ ih => exact ih.set key data
  | update key data _ ih => exact ih.update hD key data
  | updateWith key f _ ih => exact ih.set key _
  | remove key _ ih => exact ih.remove key
  | join _ _ ih ih' => exact ih.join hD ih'
  | widen iteration _ _ ih ih' => exact ih.widen hD ih' iteration
  | meet _ _ ih ih' => exact baseMeet_preserves _ ih ih'
  | subtract _ _ _ ih => exact ih.subtract
  | transform op _ _ ih ihresults => exact ih.transform hD ihresults
  | partition f _ hcls _ => exact noBottom_partition hD hcls
  | partitionElements f _ hcls _ => exact noBottom_partitionElements hD hcls

/-! ## 4. The order and the join, key by key -/

theorem get_of_find? {key : K} {data : V} (h : map.find? key = some data) :
    get D key map = data := by
  unfold get
  rw [h]

theorem get_of_find?_none {key : K} (h : map.find? key = none) : get D key map = D.bottom := by
  unfold get
  rw [h]

/-- The order of the source, without its shortcuts. -/
theorem lessOrEqual_iff_find? (hrefl : ∀ v, D.lessOrEqual v v = true) :
    lessOrEqual D phys a b = true ↔ ∀ key v, a.find? key = some v →
      ∃ w, b.find? key = some w ∧ D.lessOrEqual v w = true := by
  unfold lessOrEqual
  split
  · rename_i h
    refine iff_of_true rfl fun key v hv => ?_
    rcases Bool.or_eq_true_iff.mp h with hphys | hempty
    · exact ⟨v, phys.sound hphys ▸ hv, hrefl v⟩
    · rw [SortedMap.isEmpty_iff.mp hempty key] at hv
      cases hv
  · rename_i hshort
    rw [Bool.or_eq_true, not_or] at hshort
    split
    · rename_i hempty
      -- the left map has a key, the right one has none
      obtain ⟨key, v, hv⟩ := SortedMap.exists_of_not_isEmpty hshort.2
      refine iff_of_false Bool.false_ne_true fun h => ?_
      obtain ⟨w, hw, -⟩ := h key v hv
      rw [SortedMap.isEmpty_iff.mp hempty key] at hw
      cases hw
    · rw [SortedMap.all_iff]
      refine forall_congr' fun key => forall_congr' fun v => imp_congr_right fun _ => ?_
      cases b.find? key with
      | none => simp
      | some w => simp

theorem lessOrEqual_iff (hD : D.Lawful) (ha : NoBottom D a) : lessOrEqual D phys a b = true ↔
    ∀ key, D.lessOrEqual (get D key a) (get D key b) = true := by
  rw [lessOrEqual_iff_find? hD.refl]
  constructor
  · intro h key
    cases hv : a.find? key with
    | none =>
      rw [get_of_find?_none hv]
      exact hD.bottom_le _
    | some v =>
      obtain ⟨w, hw, hle⟩ := h key v hv
      rw [get_of_find? hv, get_of_find? hw]
      exact hle
  · intro h key v hv
    have hle := h key
    rw [get_of_find? hv] at hle
    cases hw : b.find? key with
    | some w => exact ⟨w, rfl, get_of_find? hw ▸ hle⟩
    | none =>
      -- a value of a strict map is not below bottom
      rw [get_of_find?_none hw, ← hD.isBottom_iff, ha key v hv] at hle
      cases hle

/-- The value of a join, up to the order of the values. -/
theorem get_join (hD : D.Lawful) (phys : PhysEq (SortedMap K V)) (a b : SortedMap K V) (key : K)
    (u : V) :
    D.lessOrEqual (get D key (join D phys a b)) u = true ↔
      D.lessOrEqual (get D key a) u = true ∧ D.lessOrEqual (get D key b) u = true := by
  unfold join
  split
  · rename_i h
    rcases Bool.or_eq_true_iff.mp h with hphys | hempty
    · rw [phys.sound hphys, and_self]
    · rw [get_of_find?_none (SortedMap.isEmpty_iff.mp hempty key), and_iff_left (hD.bottom_le u)]
  · unfold get
    rw [SortedMap.find?_union]
    cases a.find? key with
    | none =>
      cases b.find? key with
      | none => exact (and_self_iff).symm
      | some w => exact (and_iff_right (hD.bottom_le u)).symm
    | some v =>
      cases b.find? key with
      | none => exact (and_iff_left (hD.bottom_le u)).symm
      | some w =>
        constructor
        · exact fun h => ⟨hD.trans (hD.le_join_left v w) h, hD.trans (hD.le_join_right v w) h⟩
        · exact fun h => hD.join_le h.1 h.2

theorem join_lessOrEqual_iff (hD : D.Lawful) (ha : NoBottom D a) (hb : NoBottom D b)
    (upper : SortedMap K V) : lessOrEqual D phys (join D phys a b) upper = true ↔
      lessOrEqual D phys a upper = true ∧ lessOrEqual D phys b upper = true := by
  rw [lessOrEqual_iff hD (ha.join hD hb), lessOrEqual_iff hD ha, lessOrEqual_iff hD hb,
    ← forall_and]
  exact forall_congr' fun key => get_join hD phys a b key _

/-! ## 5. Subtraction -/

/-- The fold of `subtract`, at one key of the source. -/
theorem find?_fold_subtractElement (ha : NoBottom D a) (key : K) :
    (a.fold (subtractElement D true physElement b) a).find? key =
      match a.find? key, b.find? key with
      | none, _ => none
      | some v, none => some v
      | some v, some w => if D.isBottom (D.subtract w v) then none else some (D.subtract w v) := by
  refine (SortedMap.find?_fold
    (fun key v old =>
      match b.find? key with
      | none => if D.isBottom v then none else some v
      | some w =>
        if D.isBottom (D.subtract w v) then none
        else if physElement.test (D.subtract w v) v then old
        else some (D.subtract w v))
    (fun key v acc x hx => ?_) (fun key v acc => ?_) key).trans ?_
  · unfold subtractElement set
    cases b.find? key with
    | none =>
      dsimp only
      split
      · rw [SortedMap.find?_remove, if_neg hx]
      · rw [SortedMap.find?_add, if_neg hx]
    | some w =>
      dsimp only
      split
      · rw [SortedMap.find?_remove, if_neg hx]
      · split
        · rfl
        · rw [SortedMap.find?_add, if_neg hx]
  · unfold subtractElement set
    cases b.find? key with
    | none =>
      dsimp only
      rw [Bool.true_and]
      split
      · rw [SortedMap.find?_remove, if_pos rfl]
      · rw [SortedMap.find?_add, if_pos rfl]
    | some w =>
      dsimp only
      split
      · rw [SortedMap.find?_remove, if_pos rfl]
      · split
        · rfl
        · rw [SortedMap.find?_add, if_pos rfl]
  · cases hv : a.find? key with
    | none => rfl
    | some v =>
      cases b.find? key with
      | none =>
        dsimp only
        rw [ha key v hv, if_neg Bool.false_ne_true]
      | some w =>
        dsimp only
        split
        · rfl
        · split
          · -- the value was kept because it is the difference
            rename_i hphys
            rw [physElement.sound hphys]
          · rfl

/-- What `subtract` leaves of a key: no more than there was, and enough to come back to it. -/
theorem get_subtract (hD : D.Lawful) (ha : NoBottom D a) (key : K) :
    D.lessOrEqual (get D key (subtract D true phys physElement b a)) (get D key a) = true ∧
      ∀ u, D.lessOrEqual (get D key (subtract D true phys physElement b a)) u = true →
        D.lessOrEqual (get D key b) u = true → D.lessOrEqual (get D key a) u = true := by
  have hempty : get D key (.empty : SortedMap K V) = D.bottom :=
    get_of_find?_none (SortedMap.find?_empty key)
  unfold subtract
  split
  · rename_i hphys
    rw [phys.sound hphys, hempty]
    exact ⟨hD.bottom_le _, fun _ _ h => h⟩
  · split
    · rename_i hsource
      rw [hempty, get_of_find?_none (SortedMap.isEmpty_iff.mp hsource key)]
      exact ⟨hD.refl _, fun _ h _ => h⟩
    · split
      · exact ⟨hD.refl _, fun _ h _ => h⟩
      · unfold get
        rw [find?_fold_subtractElement ha]
        cases a.find? key with
        | none => exact ⟨hD.refl _, fun _ h _ => h⟩
        | some v =>
          cases b.find? key with
          | none => exact ⟨hD.refl _, fun _ h _ => h⟩
          | some w =>
            by_cases hbottom : D.isBottom (D.subtract w v) = true
            · simp only [if_pos hbottom]
              exact ⟨hD.bottom_le _, fun _ _ h =>
                hD.trans (hD.le_of_subtract_isBottom hbottom) h⟩
            · simp only [if_neg hbottom]
              exact ⟨hD.subtract_le w v, fun _ h h' =>
                hD.trans (hD.le_join_subtract w v) (hD.join_le h h')⟩

theorem subtract_lessOrEqual (hD : D.Lawful) (ha : NoBottom D a) :
    lessOrEqual D phys (subtract D true phys physElement b a) a = true :=
  (lessOrEqual_iff hD ha.subtract).mpr fun key => (get_subtract hD ha key).1

theorem lessOrEqual_join_subtract (hD : D.Lawful) (ha : NoBottom D a) :
    lessOrEqual D phys a (join D phys (subtract D true phys physElement b a) b) = true := by
  refine (lessOrEqual_iff hD ha).mpr fun key => ?_
  obtain ⟨hsubtract, hb⟩ :=
    (get_join hD phys (subtract D true phys physElement b a) b key _).mp (hD.refl _)
  exact (get_subtract hD ha key).2 _ hsubtract hb

/-- **Every map that a strict domain builds is strict; on strict maps `join` is the least upper
    bound, key by key and as maps; and `subtract` drops no more than it may.** -/
theorem strictMap_sound (D : AbstractDomain V) (hD : D.Lawful) (phys : PhysEq (SortedMap K V))
    (physElement : PhysEq V) :
    let le (left right : SortedMap K V) : Prop := lessOrEqual D phys left right = true
    let leValue (left right : V) : Prop := D.lessOrEqual left right = true
    (∀ map, Reachable D phys physElement map → NoBottom D map) ∧
      (∀ a b key, NoBottom D a → NoBottom D b →
        leValue (get D key a) (get D key (join D phys a b)) ∧
        leValue (get D key b) (get D key (join D phys a b)) ∧
        ∀ u, leValue (get D key a) u → leValue (get D key b) u →
          leValue (get D key (join D phys a b)) u) ∧
      (∀ a b, NoBottom D a → NoBottom D b →
        le a (join D phys a b) ∧ le b (join D phys a b) ∧
        ∀ upper, le a upper → le b upper → le (join D phys a b) upper) ∧
      ∀ a b, NoBottom D a → NoBottom D b →
        le (subtract D true phys physElement b a) a ∧
        le a (join D phys (subtract D true phys physElement b a) b) := by
  refine ⟨fun map h => h.noBottom hD, fun a b key _ _ => ?_, fun a b ha hb => ?_,
    fun a b ha _ => ⟨subtract_lessOrEqual hD ha, lessOrEqual_join_subtract hD ha⟩⟩
  · obtain ⟨hle, hle'⟩ := (get_join hD phys a b key _).mp (hD.refl _)
    exact ⟨hle, hle', fun u h h' => (get_join hD phys a b key u).mpr ⟨h, h'⟩⟩
  · have hrefl : lessOrEqual D phys (join D phys a b) (join D phys a b) = true :=
      (lessOrEqual_iff hD (ha.join hD hb)).mpr fun key => hD.refl _
    obtain ⟨hle, hle'⟩ := (join_lessOrEqual_iff hD ha hb _).mp hrefl
    exact ⟨hle, hle', fun upper h h' => (join_lessOrEqual_iff hD ha hb upper).mpr ⟨h, h'⟩⟩

/-- Part of the value of a key is removed, and the other key goes. -/
theorem strictMap_sound_sets :
    let D : AbstractDomain (SortedSet ℕ) := SetDomain.domain (.never _)
    let phys : PhysEq (SortedMap ℕ (SortedSet ℕ)) := .never _
    let a := ofList D true [(0, .ofList [1, 2]), (3, .ofList [4])]
    let b := ofList D true [(0, .ofList [2]), (3, .ofList [4, 5])]
    lessOrEqual D phys (subtract D true phys (.never _) b a) a = true ∧
      lessOrEqual D phys a (join D phys (subtract D true phys (.never _) b a) b) = true :=
  (strictMap_sound _ (SetDomain.lawful _) (.never _) (.never _)).2.2.2 _ _ (noBottom_ofList _)
    (noBottom_ofList _)

end MapDomain

end Pysa
