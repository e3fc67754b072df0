/-
  Subject: REFINEMENT TREES (`typeInfo.ml`: `Mutability`, `Unit`, `LocalOrGlobal`; and
    `latticeOfMaps.ml`).

  * `Mutability`, `RefinementUnit` -- what is known of one name or attribute;
  * `LatticeOfMaps` -- maps in which a missing key stands for no knowledge;
  * `LocalOrGlobal` -- the tree of a name and its attributes: order, join and widening;
  * `subtree`, `lessOrEqual_iff`, `subtree_join` -- a tree as a function of attribute paths, in
    which order and join are pathwise;
  * `BasesAgree`, `BelowTop` -- where join and widening lie above both trees. The order puts a tree
    with a base above no tree without one and the other way round, while join forgets the base that
    one tree lacks;
  * `refinement_lattice` -- **the order is a preorder; join and widening are upper bounds exactly
    there; and join assumes nothing that one of the trees does not establish**.
-/
import Mathlib.Data.String.Basic
import Pysa.Lib.SortedMap

namespace Pysa.TypeInfo

universe u v w

/-- The operations on types that refinements are compared with. -/
structure TypeOrder (T : Type u) where
  lessOrEqual : T → T → Bool
  join : T → T → T
  /-- `Type.Top`. -/
  top : T

/-- `less_or_equal` is a preorder, and `join` an upper bound. -/
structure TypeOrder.Lawful {T : Type u} (order : TypeOrder T) : Prop where
  refl : ∀ a, order.lessOrEqual a a = true
  trans : ∀ {a b c}, order.lessOrEqual a b = true → order.lessOrEqual b c = true →
    order.lessOrEqual a c = true
  le_join_left : ∀ a b, order.lessOrEqual a (order.join a b) = true
  le_join_right : ∀ a b, order.lessOrEqual b (order.join a b) = true

/-! ## 1. Units -/

inductive Mutability (T : Type u) where
  | mutable
  | immutable (original : T) (final : Bool)
deriving DecidableEq

namespace Mutability

variable {T : Type u}

def lessOrEqual : Mutability T → Mutability T → Bool
  | .mutable, _ => true
  | .immutable _ _, .immutable _ _ => true
  | .immutable _ _, .mutable => false

def join (typeJoin : T → T → T) : Mutability T → Mutability T → Mutability T
  | .immutable left leftFinal, .immutable right rightFinal =>
    .immutable (typeJoin left right) (leftFinal || rightFinal)
  | .immutable left leftFinal, .mutable => .immutable left leftFinal
  | .mutable, .immutable right rightFinal => .immutable right rightFinal
  | .mutable, .mutable => .mutable

theorem lessOrEqual_refl (a : Mutability T) : a.lessOrEqual a = true := by
  cases a with
  | mutable => rfl
  | immutable original final => rfl

theorem lessOrEqual_trans {a b c : Mutability T} (hab : a.lessOrEqual b = true)
    (hbc : b.lessOrEqual c = true) : a.lessOrEqual c = true := by
  cases a with
  | mutable => rfl
  | immutable original final =>
    cases b with
    | mutable => cases hab
    | immutable original' final' =>
      cases c with
      | mutable => cases hbc
      | immutable original'' final'' => rfl

theorem lessOrEqual_join (typeJoin : T → T → T) (a b : Mutability T) :
    a.lessOrEqual (join typeJoin a b) = true ∧ b.lessOrEqual (join typeJoin a b) = true := by
  cases a with
  | mutable => exact ⟨rfl, by cases b <;> rfl⟩
  | immutable original final =>
    cases b with
    | mutable => exact ⟨rfl, rfl⟩
    | immutable original' final' => exact ⟨rfl, rfl⟩

end Mutability

/-- `Unit.t`. -/
structure RefinementUnit (T : Type u) where
  type : T
  mutability : Mutability T
deriving DecidableEq

namespace RefinementUnit

variable {T : Type u}

def createMutable (type : T) : RefinementUnit T := ⟨type, .mutable⟩

def lessOrEqual (typeLessOrEqual : T → T → Bool) (left right : RefinementUnit T) : Bool :=
  left.mutability.lessOrEqual right.mutability && typeLessOrEqual left.type right.type

def join (typeJoin : T → T → T) (left right : RefinementUnit T) : RefinementUnit T where
  type := typeJoin left.type right.type
  mutability := .join typeJoin left.mutability right.mutability

theorem lessOrEqual_iff {typeLessOrEqual : T → T → Bool} {left right : RefinementUnit T} :
    lessOrEqual typeLessOrEqual left right = true ↔
      left.mutability.lessOrEqual right.mutability = true ∧
        typeLessOrEqual left.type right.type = true :=
  Bool.and_eq_true_iff

theorem lessOrEqual_join {order : TypeOrder T} (h : order.Lawful) (left right : RefinementUnit T) :
    lessOrEqual order.lessOrEqual left (join order.join left right) = true ∧
      lessOrEqual order.lessOrEqual right (join order.join left right) = true := by
  obtain ⟨hleft, hright⟩ :=
    Mutability.lessOrEqual_join order.join left.mutability right.mutability
  exact ⟨lessOrEqual_iff.mpr ⟨hleft, h.le_join_left _ _⟩,
    lessOrEqual_iff.mpr ⟨hright, h.le_join_right _ _⟩⟩

end RefinementUnit

/-! ## 2. Maps -/

namespace LatticeOfMaps

variable {K : Type u} [LinearOrder K] {V : Type v} {W : Type w} {X : Type*}

def lessOrEqual (lessOrEqualOne : V → W → Bool) (left : SortedMap K V) (right : SortedMap K W) :
    Bool :=
  right.fold (fun key rightData sofar => sofar &&
    match left.find? key with
    | some leftData => lessOrEqualOne leftData rightData
    | none => false) true

/-- A key that one of the maps lacks is dropped. -/
def join (joinOne : V → W → X) (left : SortedMap K V) (right : SortedMap K W) : SortedMap K X :=
  (left.merge right).fold (fun key data sofar =>
    match data with
    | .both left right => sofar.add key (joinOne left right)
    | .left _ => sofar
    | .right _ => sofar) .empty

end LatticeOfMaps

namespace LatticeOfMaps

variable {K : Type u} [LinearOrder K] {V : Type v} {W : Type w} {X : Type*}

theorem lessOrEqual_iff {lessOrEqualOne : V → W → Bool} {left : SortedMap K V}
    {right : SortedMap K W} :
    lessOrEqual lessOrEqualOne left right = true ↔
      ∀ key rightData, right.find? key = some rightData →
        ∃ leftData, left.find? key = some leftData ∧ lessOrEqualOne leftData rightData = true := by
  have hone (key : K) (rightData : W) :
      (match left.find? key with
        | some leftData => lessOrEqualOne leftData rightData
        | none => false) = true ↔
      ∃ leftData, left.find? key = some leftData ∧ lessOrEqualOne leftData rightData = true := by
    cases left.find? key with
    | none => simp
    | some leftData => simp
  unfold lessOrEqual
  constructor
  · intro h key rightData hkey
    by_contra hnot
    refine Bool.false_ne_true (Eq.trans (Eq.symm ?_) h)
    refine SortedMap.fold_establishes (· = false) hkey (fun sofar => ?_) ?_
    · rw [Bool.eq_false_iff.mpr fun hdata => hnot ((hone key rightData).mp hdata), Bool.and_false]
    · intro key data sofar _ hfalse
      rw [hfalse, Bool.false_and]
  · intro h
    refine SortedMap.fold_induction (· = true) rfl fun key rightData sofar hkey htrue => ?_
    rw [htrue, Bool.true_and]
    exact (hone key rightData).mpr (h key rightData hkey)

theorem find?_join (joinOne : V → W → X) (left : SortedMap K V) (right : SortedMap K W) (key : K) :
    (join joinOne left right).find? key =
      (left.find? key).bind fun leftData => (right.find? key).map (joinOne leftData) := by
  unfold join
  rw [SortedMap.find?_fold (fun _ data old =>
    match data with
    | .both left right => some (joinOne left right)
    | .left _ => old
    | .right _ => old), SortedMap.find?_merge]
  · cases left.find? key with
    | none => cases right.find? key <;> rfl
    | some leftData => cases right.find? key <;> rfl
  · intro k data sofar x hx
    cases data with
    | left _ => rfl
    | right _ => rfl
    | both left right => rw [SortedMap.find?_add, if_neg hx]
  · intro k data sofar
    cases data with
    | left _ => rfl
    | right _ => rfl
    | both left right => rw [SortedMap.find?_add, if_pos rfl]

end LatticeOfMaps

/-! ## 3. Trees -/

/-- `LocalOrGlobal.t`: what is known of a name, and the trees of its attributes. -/
inductive LocalOrGlobal (T : Type u) : Type u where
  | mk (base : Option (RefinementUnit T)) (attributes : SortedMap String (LocalOrGlobal T))

namespace LocalOrGlobal

variable {T : Type u}

def base : LocalOrGlobal T → Option (RefinementUnit T)
  | .mk base _ => base

def attributes : LocalOrGlobal T → SortedMap String (LocalOrGlobal T)
  | .mk _ attributes => attributes

def create (base : RefinementUnit T) : LocalOrGlobal T := .mk (some base) .empty

/-- `get_type_info`: the base at the end of a path of attributes. -/
def getTypeInfo : (attributePath : List String) → LocalOrGlobal T → Option (RefinementUnit T)
  | [], tree => tree.base
  | identifier :: identifiers, tree =>
    match tree.attributes.find? identifier with
    | some tree => getTypeInfo identifiers tree
    | none => none

def baseLessOrEqual (typeLessOrEqual : T → T → Bool) :
    Option (RefinementUnit T) → Option (RefinementUnit T) → Bool
  | some left, some right => RefinementUnit.lessOrEqual typeLessOrEqual left right
  | none, none => true
  | none, some _ => false
  | some _, none => false

/-- `less_or_equal`; the attributes of the left tree are mapped to what compares with them. -/
def lessOrEqual (typeLessOrEqual : T → T → Bool) : LocalOrGlobal T → LocalOrGlobal T → Bool
  | .mk base ⟨keys, sorted, get⟩, right =>
    baseLessOrEqual typeLessOrEqual base right.base &&
      LatticeOfMaps.lessOrEqual (fun lessOrEqualOne right => lessOrEqualOne right)
        (SortedMap.mk keys sorted fun key => lessOrEqual typeLessOrEqual (get key)) right.attributes

def joinBase (typeJoin : T → T → T) :
    Option (RefinementUnit T) → Option (RefinementUnit T) → Option (RefinementUnit T)
  | some left, some right => some (RefinementUnit.join typeJoin left right)
  | none, _ => none
  | some _, none => none

/-- `join`; the attributes of the left tree are mapped to what joins with them. -/
def join (typeJoin : T → T → T) : LocalOrGlobal T → LocalOrGlobal T → LocalOrGlobal T
  | .mk base ⟨keys, sorted, get⟩, right =>
    .mk (joinBase typeJoin base right.base)
      (LatticeOfMaps.join (fun joinOne right => joinOne right)
        (SortedMap.mk keys sorted fun key => join typeJoin (get key)) right.attributes)

def widen (order : TypeOrder T) (wideningThreshold iteration : ℕ) (left right : LocalOrGlobal T) :
    LocalOrGlobal T :=
  if wideningThreshold ≤ iteration + 1 then create (.createMutable order.top)
  else join order.join left right

@[simp] theorem base_mk (base : Option (RefinementUnit T))
    (attributes : SortedMap String (LocalOrGlobal T)) : (mk base attributes).base = base := rfl

@[simp] theorem attributes_mk (base : Option (RefinementUnit T))
    (attributes : SortedMap String (LocalOrGlobal T)) :
    (mk base attributes).attributes = attributes := rfl

theorem find?_mapped {V : Type v} (keys : List String) (sorted : keys.Pairwise (· < ·))
    (get : {k // k ∈ keys} → LocalOrGlobal T) (f : LocalOrGlobal T → V) (key : String) :
    (SortedMap.mk keys sorted fun k => f (get k)).find? key =
      ((SortedMap.mk keys sorted get).find? key).map f := by
  unfold SortedMap.find?
  split
  · rfl
  · rfl

/-- The order compares the bases, and the attributes of the right tree. -/
theorem lessOrEqual_eq (typeLessOrEqual : T → T → Bool) (left right : LocalOrGlobal T) :
    lessOrEqual typeLessOrEqual left right =
      (baseLessOrEqual typeLessOrEqual left.base right.base &&
        LatticeOfMaps.lessOrEqual (lessOrEqual typeLessOrEqual) left.attributes
          right.attributes) := by
  obtain ⟨base, keys, sorted, get⟩ := left
  rw [lessOrEqual, base_mk, attributes_mk]
  congr 1
  rw [Bool.eq_iff_iff, LatticeOfMaps.lessOrEqual_iff, LatticeOfMaps.lessOrEqual_iff]
  simp only [find?_mapped, Option.map_eq_some_iff, exists_exists_and_eq_and]

theorem base_join (typeJoin : T → T → T) (left right : LocalOrGlobal T) :
    (join typeJoin left right).base = joinBase typeJoin left.base right.base := by
  obtain ⟨base, keys, sorted, get⟩ := left
  rfl

theorem attributes_join (typeJoin : T → T → T) (left right : LocalOrGlobal T) :
    (join typeJoin left right).attributes =
      LatticeOfMaps.join (join typeJoin) left.attributes right.attributes := by
  obtain ⟨base, keys, sorted, get⟩ := left
  rw [join, attributes_mk, attributes_mk]
  refine SortedMap.ext_find? fun key => ?_
  rw [LatticeOfMaps.find?_join, LatticeOfMaps.find?_join, find?_mapped]
  cases (SortedMap.mk keys sorted get).find? key with
  | none => rfl
  | some leftData => rfl

/-- **Induction on trees**: a property holds of a node once it holds of its attributes. -/
@[elab_as_elim]
theorem induct {motive : LocalOrGlobal T → Prop}
    (node : ∀ tree : LocalOrGlobal T,
      (∀ key child, tree.attributes.find? key = some child → motive child) →
        motive tree) : ∀ tree, motive tree
  | .mk base ⟨keys, sorted, get⟩ => node (.mk base ⟨keys, sorted, get⟩) fun key child h => by
      rw [← SortedMap.get_of_find? h]
      exact induct node (get ⟨key, SortedMap.mem_of_find? h⟩)

/-! ## 4. A tree as a function of paths -/

/-- The tree at the end of a path of attributes. -/
def subtree : List String → LocalOrGlobal T → Option (LocalOrGlobal T)
  | [], tree => some tree
  | identifier :: identifiers, tree => (tree.attributes.find? identifier).bind (subtree identifiers)

theorem getTypeInfo_eq (path : List String) (tree : LocalOrGlobal T) :
    getTypeInfo path tree = (subtree path tree).bind base := by
  induction path generalizing tree with
  | nil => rfl
  | cons identifier identifiers ih =>
    rw [getTypeInfo, subtree]
    cases tree.attributes.find? identifier with
    | none => rfl
    | some child => exact ih child

/-- The order is pathwise: the left tree has every path of the right one, with a smaller base. -/
theorem lessOrEqual_iff {typeLessOrEqual : T → T → Bool} {left right : LocalOrGlobal T} :
    lessOrEqual typeLessOrEqual left right = true ↔
      ∀ path tree', subtree path right = some tree' → ∃ tree, subtree path left = some tree ∧
        baseLessOrEqual typeLessOrEqual tree.base tree'.base = true := by
  induction left using induct generalizing right with
  | node left ih =>
    rw [lessOrEqual_eq, Bool.and_eq_true_iff, LatticeOfMaps.lessOrEqual_iff]
    constructor
    · intro h path tree' hpath
      cases path with
      | nil =>
        cases hpath
        exact ⟨left, rfl, h.1⟩
      | cons identifier identifiers =>
        obtain ⟨child', hchild', hpath⟩ := Option.bind_eq_some_iff.mp hpath
        obtain ⟨child, hchild, hle⟩ := h.2 identifier child' hchild'
        obtain ⟨tree, htree, hbase⟩ :=
          (ih identifier child hchild).mp hle identifiers tree' hpath
        exact ⟨tree, Option.bind_eq_some_iff.mpr ⟨child, hchild, htree⟩, hbase⟩
    · intro h
      constructor
      · obtain ⟨tree, htree, hbase⟩ := h [] right rfl
        cases htree
        exact hbase
      · intro identifier child' hchild'
        have hroot : subtree [identifier] right = some child' :=
          Option.bind_eq_some_iff.mpr ⟨child', hchild', rfl⟩
        obtain ⟨child, hchild, -⟩ := h [identifier] child' hroot
        obtain ⟨child, hchild, hself⟩ := Option.bind_eq_some_iff.mp hchild
        refine ⟨child, hchild, (ih identifier child hchild).mpr ?_⟩
        intro path tree' hpath
        obtain ⟨tree, htree, hbase⟩ := h (identifier :: path) tree'
          (Option.bind_eq_some_iff.mpr ⟨child', hchild', hpath⟩)
        obtain ⟨child₂, hchild₂, htree⟩ := Option.bind_eq_some_iff.mp htree
        rw [hchild] at hchild₂
        cases hchild₂
        exact ⟨tree, htree, hbase⟩

/-- Join is pathwise: a path of the join is one of both trees. -/
theorem subtree_join (typeJoin : T → T → T) (path : List String) (left right : LocalOrGlobal T) :
    subtree path (join typeJoin left right) =
      (subtree path left).bind fun tree => (subtree path right).map (join typeJoin tree) := by
  induction path generalizing left right with
  | nil => rfl
  | cons identifier identifiers ih =>
    rw [subtree, subtree, subtree, attributes_join, LatticeOfMaps.find?_join]
    cases left.attributes.find? identifier with
    | none => rfl
    | some child =>
      cases right.attributes.find? identifier with
      | none => cases hpath : subtree identifiers child <;> simp [hpath]
      | some child' => exact ih child child'

theorem subtree_create {unit : RefinementUnit T} {path : List String} {tree : LocalOrGlobal T} :
    subtree path (create unit) = some tree ↔ path = [] ∧ tree = create unit := by
  cases path with
  | nil => simp [subtree, eq_comm]
  | cons identifier identifiers => simp [subtree, create]

/-! ## 5. The order is a preorder -/

variable {order : TypeOrder T}

theorem baseLessOrEqual_refl (h : order.Lawful) (base : Option (RefinementUnit T)) :
    baseLessOrEqual order.lessOrEqual base base = true := by
  cases base with
  | none => rfl
  | some unit =>
    exact RefinementUnit.lessOrEqual_iff.mpr ⟨unit.mutability.lessOrEqual_refl, h.refl _⟩

theorem baseLessOrEqual_trans (h : order.Lawful) {a b c : Option (RefinementUnit T)}
    (hab : baseLessOrEqual order.lessOrEqual a b = true)
    (hbc : baseLessOrEqual order.lessOrEqual b c = true) :
    baseLessOrEqual order.lessOrEqual a c = true := by
  cases b with
  | none =>
    cases a with
    | none => exact hbc
    | some a => cases hab
  | some b =>
    cases a with
    | none => cases hab
    | some a =>
      cases c with
      | none => cases hbc
      | some c =>
        obtain ⟨hab, hab'⟩ := RefinementUnit.lessOrEqual_iff.mp hab
        obtain ⟨hbc, hbc'⟩ := RefinementUnit.lessOrEqual_iff.mp hbc
        exact RefinementUnit.lessOrEqual_iff.mpr
          ⟨Mutability.lessOrEqual_trans hab hbc, h.trans hab' hbc'⟩

theorem lessOrEqual_refl (h : order.Lawful) (tree : LocalOrGlobal T) :
    lessOrEqual order.lessOrEqual tree tree = true :=
  lessOrEqual_iff.mpr fun _ tree' hpath => ⟨tree', hpath, baseLessOrEqual_refl h tree'.base⟩

theorem lessOrEqual_trans (h : order.Lawful) {a b c : LocalOrGlobal T}
    (hab : lessOrEqual order.lessOrEqual a b = true)
    (hbc : lessOrEqual order.lessOrEqual b c = true) :
    lessOrEqual order.lessOrEqual a c = true := by
  rw [lessOrEqual_iff] at hab hbc ⊢
  intro path tree'' hpath
  obtain ⟨tree', hpath, hbase'⟩ := hbc path tree'' hpath
  obtain ⟨tree, hpath, hbase⟩ := hab path tree' hpath
  exact ⟨tree, hpath, baseLessOrEqual_trans h hbase hbase'⟩

/-! ## 6. Upper bounds -/

/-- At each path of both trees, either both have a base or none has. -/
def BasesAgree (left right : LocalOrGlobal T) : Prop :=
  ∀ path tree tree', subtree path left = some tree → subtree path right = some tree' →
    tree.base.isSome = tree'.base.isSome

/-- The name can be assigned any type, and its own is below the greatest one. -/
def BelowTop (order : TypeOrder T) (tree : LocalOrGlobal T) : Prop :=
  ∃ type, tree.base = some (.createMutable type) ∧ order.lessOrEqual type order.top = true

theorem baseLessOrEqual_join (h : order.Lawful) {a b : Option (RefinementUnit T)} :
    (baseLessOrEqual order.lessOrEqual a (joinBase order.join a b) = true ∧
      baseLessOrEqual order.lessOrEqual b (joinBase order.join a b) = true) ↔
        a.isSome = b.isSome := by
  cases a with
  | none =>
    cases b with
    | none => simp [joinBase, baseLessOrEqual]
    | some b => simp [joinBase, baseLessOrEqual]
  | some a =>
    cases b with
    | none => simp [joinBase, baseLessOrEqual]
    | some b =>
      simp only [Option.isSome_some, iff_true]
      exact RefinementUnit.lessOrEqual_join h a b

theorem join_upper_bound_iff (h : order.Lawful) {left right : LocalOrGlobal T} :
    (lessOrEqual order.lessOrEqual left (join order.join left right) = true ∧
      lessOrEqual order.lessOrEqual right (join order.join left right) = true) ↔
        BasesAgree left right := by
  rw [lessOrEqual_iff, lessOrEqual_iff]
  constructor
  · intro hbound path tree tree' hpath hpath'
    have hjoin : subtree path (join order.join left right) = some (join order.join tree tree') := by
      rw [subtree_join, hpath, hpath']
      rfl
    obtain ⟨tree₁, hpath₁, hbase⟩ := hbound.1 path _ hjoin
    obtain ⟨tree₂, hpath₂, hbase'⟩ := hbound.2 path _ hjoin
    rw [hpath] at hpath₁
    rw [hpath'] at hpath₂
    cases hpath₁
    cases hpath₂
    rw [base_join] at hbase hbase'
    exact (baseLessOrEqual_join h).mp ⟨hbase, hbase'⟩
  · intro hagree
    have hpaths (path : List String) (joined : LocalOrGlobal T)
        (hpath : subtree path (join order.join left right) = some joined) :
        ∃ tree tree', subtree path left = some tree ∧ subtree path right = some tree' ∧
          baseLessOrEqual order.lessOrEqual tree.base joined.base = true ∧
            baseLessOrEqual order.lessOrEqual tree'.base joined.base = true := by
      rw [subtree_join] at hpath
      obtain ⟨tree, hleft, hpath⟩ := Option.bind_eq_some_iff.mp hpath
      obtain ⟨tree', hright, rfl⟩ := Option.map_eq_some_iff.mp hpath
      refine ⟨tree, tree', hleft, hright, ?_⟩
      rw [base_join]
      exact (baseLessOrEqual_join h).mpr (hagree path tree tree' hleft hright)
    constructor
    · intro path joined hpath
      obtain ⟨tree, -, hleft, -, hbase, -⟩ := hpaths path joined hpath
      exact ⟨tree, hleft, hbase⟩
    · intro path joined hpath
      obtain ⟨-, tree', -, hright, -, hbase⟩ := hpaths path joined hpath
      exact ⟨tree', hright, hbase⟩

theorem le_top_iff {tree : LocalOrGlobal T} :
    lessOrEqual order.lessOrEqual tree (create (.createMutable order.top)) = true ↔
      BelowTop order tree := by
  rw [lessOrEqual_iff]
  constructor
  · intro hle
    obtain ⟨self, hself, hbase⟩ := hle [] _ rfl
    cases hself
    cases hsome : tree.base with
    | none =>
      rw [hsome] at hbase
      cases hbase
    | some unit =>
      rw [hsome] at hbase
      obtain ⟨hmutability, htype⟩ := RefinementUnit.lessOrEqual_iff.mp hbase
      obtain ⟨type, mutability⟩ := unit
      cases mutability with
      | mutable => exact ⟨type, hsome, htype⟩
      | immutable original final => cases hmutability
  · intro hbelow path tree' hpath
    obtain ⟨type, hbase, htype⟩ := hbelow
    obtain ⟨rfl, rfl⟩ := subtree_create.mp hpath
    refine ⟨tree, rfl, ?_⟩
    rw [hbase]
    exact RefinementUnit.lessOrEqual_iff.mpr ⟨rfl, htype⟩

theorem widen_upper_bound_iff (h : order.Lawful) {wideningThreshold iteration : ℕ}
    {left right : LocalOrGlobal T} :
    (lessOrEqual order.lessOrEqual left
        (widen order wideningThreshold iteration left right) = true ∧
      lessOrEqual order.lessOrEqual right
        (widen order wideningThreshold iteration left right) = true) ↔
      if wideningThreshold ≤ iteration + 1 then BelowTop order left ∧ BelowTop order right
      else BasesAgree left right := by
  unfold widen
  split
  · rw [le_top_iff, le_top_iff]
  · exact join_upper_bound_iff h

/-- What the join knows of an attribute, both trees know, and at least as precisely. -/
theorem getTypeInfo_join (h : order.Lawful) {path : List String} {left right : LocalOrGlobal T}
    {unit : RefinementUnit T} (hunit : getTypeInfo path (join order.join left right) = some unit) :
    ∃ leftUnit rightUnit, getTypeInfo path left = some leftUnit ∧
      getTypeInfo path right = some rightUnit ∧
        leftUnit.lessOrEqual order.lessOrEqual unit = true ∧
          rightUnit.lessOrEqual order.lessOrEqual unit = true := by
  rw [getTypeInfo_eq, subtree_join] at hunit
  obtain ⟨joined, hjoined, hbase⟩ := Option.bind_eq_some_iff.mp hunit
  obtain ⟨tree, hleft, hjoined⟩ := Option.bind_eq_some_iff.mp hjoined
  obtain ⟨tree', hright, rfl⟩ := Option.map_eq_some_iff.mp hjoined
  rw [base_join] at hbase
  rw [getTypeInfo_eq, getTypeInfo_eq, hleft, hright]
  cases hleftBase : tree.base with
  | none =>
    rw [hleftBase] at hbase
    cases hbase
  | some leftUnit =>
    cases hrightBase : tree'.base with
    | none =>
      rw [hleftBase, hrightBase] at hbase
      cases hbase
    | some rightUnit =>
      rw [hleftBase, hrightBase] at hbase
      cases hbase
      obtain ⟨hle, hle'⟩ := RefinementUnit.lessOrEqual_join h leftUnit rightUnit
      exact ⟨leftUnit, rightUnit, hleftBase, hrightBase, hle, hle'⟩

/-- Where refinement trees are a join-semilattice. -/
theorem refinement_lattice (order : TypeOrder T) (h : order.Lawful) :
    (∀ tree, lessOrEqual order.lessOrEqual tree tree = true) ∧
    (∀ a b c, lessOrEqual order.lessOrEqual a b = true →
      lessOrEqual order.lessOrEqual b c = true → lessOrEqual order.lessOrEqual a c = true) ∧
    (∀ left right,
      (lessOrEqual order.lessOrEqual left (join order.join left right) = true ∧
        lessOrEqual order.lessOrEqual right (join order.join left right) = true) ↔
          BasesAgree left right) ∧
    (∀ wideningThreshold iteration left right,
      (lessOrEqual order.lessOrEqual left
          (widen order wideningThreshold iteration left right) = true ∧
        lessOrEqual order.lessOrEqual right
          (widen order wideningThreshold iteration left right) = true) ↔
        if wideningThreshold ≤ iteration + 1 then BelowTop order left ∧ BelowTop order right
        else BasesAgree left right) ∧
    (∀ path left right unit, getTypeInfo path (join order.join left right) = some unit →
      ∃ leftUnit rightUnit, getTypeInfo path left = some leftUnit ∧
        getTypeInfo path right = some rightUnit ∧
          leftUnit.lessOrEqual order.lessOrEqual unit = true ∧
            rightUnit.lessOrEqual order.lessOrEqual unit = true) :=
  ⟨lessOrEqual_refl h, fun _ _ _ => lessOrEqual_trans h, fun _ _ => join_upper_bound_iff h,
    fun _ _ _ _ => widen_upper_bound_iff h, fun _ _ _ _ => getTypeInfo_join h⟩

end LocalOrGlobal

/-! ## 7. A small type order -/

namespace Sample

inductive Kind where
  | int
  | str
  | top
deriving DecidableEq

def order : TypeOrder Kind where
  lessOrEqual left right := left = right || right = .top
  join left right := if left = right then left else .top
  top := .top

theorem order_lawful : order.Lawful where
  refl a := by cases a <;> rfl
  trans {a b c} hab hbc := by
    cases a <;> cases b <;> cases c <;> first | rfl | exact hab | exact hbc
  le_join_left a b := by cases a <;> cases b <;> rfl
  le_join_right a b := by cases a <;> cases b <;> rfl

/-- `x` is known to be an `int`. -/
def known : LocalOrGlobal Kind := .create (.createMutable .int)

/-- Of `x`, only the attribute `a` is known. -/
def attributeOnly : LocalOrGlobal Kind := .mk none (.singleton "a" known)

theorem refinement_lattice_sample :
    order.Lawful ∧
    (∀ tree, LocalOrGlobal.lessOrEqual order.lessOrEqual tree tree = true) ∧
    (∀ a b c, LocalOrGlobal.lessOrEqual order.lessOrEqual a b = true →
      LocalOrGlobal.lessOrEqual order.lessOrEqual b c = true →
        LocalOrGlobal.lessOrEqual order.lessOrEqual a c = true) ∧
    (∀ left right,
      (LocalOrGlobal.lessOrEqual order.lessOrEqual left (.join order.join left right) = true ∧
        LocalOrGlobal.lessOrEqual order.lessOrEqual right (.join order.join left right) = true) ↔
          LocalOrGlobal.BasesAgree left right) ∧
    (∀ wideningThreshold iteration left right,
      (LocalOrGlobal.lessOrEqual order.lessOrEqual left
          (.widen order wideningThreshold iteration left right) = true ∧
        LocalOrGlobal.lessOrEqual order.lessOrEqual right
          (.widen order wideningThreshold iteration left right) = true) ↔
        if wideningThreshold ≤ iteration + 1 then
          LocalOrGlobal.BelowTop order left ∧ LocalOrGlobal.BelowTop order right
        else LocalOrGlobal.BasesAgree left right) ∧
    (∀ path left right unit,
      LocalOrGlobal.getTypeInfo path (.join order.join left right) = some unit →
      ∃ leftUnit rightUnit, LocalOrGlobal.getTypeInfo path left = some leftUnit ∧
        LocalOrGlobal.getTypeInfo path right = some rightUnit ∧
          leftUnit.lessOrEqual order.lessOrEqual unit = true ∧
            rightUnit.lessOrEqual order.lessOrEqual unit = true) :=
  ⟨order_lawful, LocalOrGlobal.refinement_lattice order order_lawful⟩

theorem known_not_le_join :
    LocalOrGlobal.lessOrEqual order.lessOrEqual known (.join order.join known attributeOnly) =
      false := rfl

/-- The join of a tree with a base and one without is not above the first. -/
theorem join_not_upper_bound :
    ¬ ∀ (T : Type) (order : TypeOrder T), order.Lawful →
      ∀ left right : LocalOrGlobal T,
        LocalOrGlobal.lessOrEqual order.lessOrEqual left (.join order.join left right) = true ∧
          LocalOrGlobal.lessOrEqual order.lessOrEqual right (.join order.join left right) = true ∧
            ∀ wideningThreshold iteration,
              LocalOrGlobal.lessOrEqual order.lessOrEqual left
                  (.widen order wideningThreshold iteration left right) = true ∧
                LocalOrGlobal.lessOrEqual order.lessOrEqual right
                  (.widen order wideningThreshold iteration left right) = true := by
  intro h
  have hbound := (h Kind order order_lawful known attributeOnly).1
  rw [known_not_le_join] at hbound
  cases hbound

end Sample

end Pysa.TypeInfo
