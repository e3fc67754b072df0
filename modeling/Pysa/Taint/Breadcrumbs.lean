/-
  Subject: THE BREADCRUMBS OF A TAINT (`domains.ml`): which of them are on every flow, and which on
    some flow.

  * `Frame`, `LocalTaint`, `Taint` -- the slots that hold breadcrumbs; none of them is bottom;
  * `getFeatures` -- the breadcrumbs of one flow in sequence, those of different flows joined;
  * `Keeps` -- what a join of all flows promises;
  * `Taint.keeps_joinedBreadcrumbs` -- **on one taint the promise is kept**;
  * `TaintTree.joinedBreadcrumbs_iff` -- **on a tree it is kept exactly where no breadcrumb is always on
    some flow of every node, but not on every flow**: the tree joins what its nodes accumulate.
-/
import Pysa.Domains.OverUnderSet
import Pysa.Domains.TreeReadRefined

namespace Pysa

open OverUnderSet

/-! ## 1. Folds -/

/-- What holds at the end of a fold, if each step keeps it where its entry shows it. -/
theorem foldl_all_iff {A B : Type*} (kept : B → Prop) {P : A → Prop} {step : B → A → B}
    (hstep : ∀ acc x, kept (step acc x) ↔ kept acc ∧ P x) (entries : List A) (init : B) :
    kept (entries.foldl step init) ↔ kept init ∧ ∀ x ∈ entries, P x := by
  have hlost := foldl_seen_iff (fun acc => ¬ kept acc)
    (fun acc x => (not_congr (hstep acc x)).trans not_and_or) entries init
  rw [← not_iff_not, hlost, not_and_or]
  simp only [not_forall, exists_prop]

namespace SortedMap

variable {K V A : Type} [LinearOrder K] {P : A → Prop} {Q : V → Prop} {step : A → V → A}

theorem fold_and_iff (h : ∀ acc v, P (step acc v) ↔ P acc ∧ Q v) (init : A) (m : SortedMap K V) :
    P (m.fold (fun _ v acc => step acc v) init) ↔ P init ∧ ∀ k v, m.find? k = some v → Q v := by
  rw [fold_eq_foldl, foldl_all_iff P (fun acc binding => h acc binding.2), Prod.forall]
  simp only [mem_bindings]

theorem fold_or_iff (h : ∀ acc v, P (step acc v) ↔ P acc ∨ Q v) (init : A) (m : SortedMap K V) :
    P (m.fold (fun _ v acc => step acc v) init) ↔ P init ∨ ∃ k v, m.find? k = some v ∧ Q v := by
  rw [fold_eq_foldl, foldl_seen_iff P (fun acc binding => h acc binding.2), Prod.exists]
  simp only [mem_bindings]

end SortedMap

/-! ## 2. Membership in the two approximations -/

namespace OverUnderSet.BiSet

variable {α : Type} [LinearOrder α]

/-- In the under-approximation, which for bottom is everything. -/
def InUnder (x : α) : BiSet α → Prop
  | bottom => True
  | biSet _ unders => x ∈ unders

/-- In the over-approximation, which for bottom is empty. -/
def InOver (x : α) : BiSet α → Prop
  | bottom => False
  | biSet overs _ => x ∈ overs

variable {physSet : PhysEq (SortedSet α)} {phys : PhysEq (BiSet α)} {a b : BiSet α} {x : α}

theorem bottom_sequenceJoin : sequenceJoin physSet phys bottom b = b := by
  unfold sequenceJoin
  split
  · rename_i h
    exact phys.sound h
  · rfl

theorem sequenceJoin_bottom : sequenceJoin physSet phys a bottom = a := by
  unfold sequenceJoin
  split
  · rfl
  · cases a <;> rfl

theorem biSet_sequenceJoin {overs unders overs' unders' : SortedSet α} :
    sequenceJoin physSet phys (biSet overs unders) (biSet overs' unders') =
      biSet (overs.union overs') (unders.union unders') := by
  unfold sequenceJoin
  split
  · rename_i h
    cases phys.sound h
    have hover : overs.union overs = overs := SortedSet.ext fun x => by simp
    have hunder : unders.union unders = unders := SortedSet.ext fun x => by simp
    rw [hover, hunder]
  · exact make_eq _ _ _

theorem inOver_join : (join phys a b).InOver x ↔ a.InOver x ∨ b.InOver x := by
  rw [join_eq]
  cases a with
  | bottom => exact (or_iff_right id).symm
  | biSet overs unders =>
    cases b with
    | bottom => exact (or_iff_left id).symm
    | biSet overs' unders' => exact SortedSet.mem_union

theorem inUnder_join : (join phys a b).InUnder x ↔ a.InUnder x ∧ b.InUnder x := by
  rw [join_eq]
  cases a with
  | bottom => exact (and_iff_right trivial).symm
  | biSet overs unders =>
    cases b with
    | bottom => exact (and_iff_left trivial).symm
    | biSet overs' unders' => exact SortedSet.mem_inter

theorem join_ne_bottom : join phys a b ≠ bottom ↔ a ≠ bottom ∨ b ≠ bottom := by
  rw [join_eq]
  cases a <;> cases b <;> simp

theorem inOver_sequenceJoin :
    (sequenceJoin physSet phys a b).InOver x ↔ a.InOver x ∨ b.InOver x := by
  cases a with
  | bottom => rw [bottom_sequenceJoin]; exact (or_iff_right id).symm
  | biSet overs unders =>
    cases b with
    | bottom => rw [sequenceJoin_bottom]; exact (or_iff_left id).symm
    | biSet overs' unders' => rw [biSet_sequenceJoin]; exact SortedSet.mem_union

theorem inUnder_sequenceJoin (ha : a ≠ bottom) (hb : b ≠ bottom) :
    (sequenceJoin physSet phys a b).InUnder x ↔ a.InUnder x ∨ b.InUnder x := by
  cases a with
  | bottom => exact absurd rfl ha
  | biSet overs unders =>
    cases b with
    | bottom => exact absurd rfl hb
    | biSet overs' unders' => rw [biSet_sequenceJoin]; exact SortedSet.mem_union

theorem addSet_ne_bottom (ha : a ≠ bottom) : addSet physSet a b ≠ bottom := by
  cases a with
  | bottom => exact absurd rfl ha
  | biSet overs unders =>
    cases b with
    | bottom => exact nofun
    | biSet overs' unders' => rw [addSet, make_eq]; exact nofun

/-- In the under-approximation of a set that is not bottom. -/
def Recorded (x : α) (set : BiSet α) : Prop := set ≠ bottom ∧ set.InUnder x

theorem recorded_sequenceJoin :
    (sequenceJoin physSet phys a b).Recorded x ↔ a.Recorded x ∨ b.Recorded x := by
  cases a with
  | bottom => rw [bottom_sequenceJoin]; exact (or_iff_right fun h => h.1 rfl).symm
  | biSet overs unders =>
    cases b with
    | bottom => rw [sequenceJoin_bottom]; exact (or_iff_left fun h => h.1 rfl).symm
    | biSet overs' unders' =>
      rw [biSet_sequenceJoin]
      simp [Recorded, InUnder]

theorem sequenceJoin_ne_bottom :
    sequenceJoin physSet phys a b ≠ bottom ↔ a ≠ bottom ∨ b ≠ bottom := by
  cases a with
  | bottom => rw [bottom_sequenceJoin]; simp
  | biSet overs unders =>
    cases b with
    | bottom => rw [sequenceJoin_bottom]; simp
    | biSet overs' unders' => rw [biSet_sequenceJoin]; simp

section Fold

variable {K V : Type} [LinearOrder K] {m : SortedMap K V} {f : V → BiSet α}

theorem inUnder_fold_join : (m.fold (fun _ v sofar => join phys sofar (f v)) bottom).InUnder x ↔
    ∀ k v, m.find? k = some v → (f v).InUnder x :=
  (SortedMap.fold_and_iff (P := InUnder x) (Q := fun v => (f v).InUnder x)
    (fun _ _ => inUnder_join) bottom m).trans (and_iff_right trivial)

theorem inOver_fold_join : (m.fold (fun _ v sofar => join phys sofar (f v)) bottom).InOver x ↔
    ∃ k v, m.find? k = some v ∧ (f v).InOver x :=
  (SortedMap.fold_or_iff (P := InOver x) (Q := fun v => (f v).InOver x)
    (fun _ _ => inOver_join) bottom m).trans (or_iff_right id)

theorem fold_join_ne_bottom : m.fold (fun _ v sofar => join phys sofar (f v)) bottom ≠ bottom ↔
    ∃ k v, m.find? k = some v ∧ f v ≠ bottom :=
  (SortedMap.fold_or_iff (P := (· ≠ bottom)) (Q := fun v => f v ≠ bottom)
    (fun _ _ => join_ne_bottom) bottom m).trans (or_iff_right fun h => h rfl)

theorem recorded_fold_sequenceJoin :
    (m.fold (fun _ v sofar => sequenceJoin physSet phys sofar (f v)) bottom).Recorded x ↔
      ∃ k v, m.find? k = some v ∧ (f v).Recorded x :=
  (SortedMap.fold_or_iff (P := Recorded x) (Q := fun v => (f v).Recorded x)
    (fun _ _ => recorded_sequenceJoin) bottom m).trans (or_iff_right fun h => h.1 rfl)

theorem inOver_fold_sequenceJoin :
    (m.fold (fun _ v sofar => sequenceJoin physSet phys sofar (f v)) bottom).InOver x ↔
      ∃ k v, m.find? k = some v ∧ (f v).InOver x :=
  (SortedMap.fold_or_iff (P := InOver x) (Q := fun v => (f v).InOver x)
    (fun _ _ => inOver_sequenceJoin) bottom m).trans (or_iff_right id)

theorem fold_sequenceJoin_ne_bottom :
    m.fold (fun _ v sofar => sequenceJoin physSet phys sofar (f v)) bottom ≠ bottom ↔
      ∃ k v, m.find? k = some v ∧ f v ≠ bottom :=
  (SortedMap.fold_or_iff (P := (· ≠ bottom)) (Q := fun v => f v ≠ bottom)
    (fun _ _ => sequenceJoin_ne_bottom) bottom m).trans (or_iff_right fun h => h rfl)

end Fold

end OverUnderSet.BiSet

/-! ## 3. Taint -/

/-- The breadcrumbs of a frame: those of the callee, and those of its kind. Both are the empty set
    at first, and no operation makes them bottom. -/
structure Frame (α : Type) [LinearOrder α] where
  propagatedBreadcrumb : BiSet α
  localKindSpecificBreadcrumb : BiSet α
  propagated_ne_bottom : propagatedBreadcrumb ≠ .bottom
  localKindSpecific_ne_bottom : localKindSpecificBreadcrumb ≠ .bottom

variable {α Kind CallInfo : Type} [LinearOrder α] [LinearOrder Kind] [LinearOrder CallInfo]
  (physSet : PhysEq (SortedSet α)) (phys : PhysEq (BiSet α))

namespace Frame

def initial : Frame α := ⟨.empty, .empty, nofun, nofun⟩

def addPropagatedBreadcrumbs (breadcrumbs : BiSet α) (frame : Frame α) : Frame α where
  propagatedBreadcrumb := frame.propagatedBreadcrumb.addSet physSet breadcrumbs
  localKindSpecificBreadcrumb := frame.localKindSpecificBreadcrumb
  propagated_ne_bottom := BiSet.addSet_ne_bottom frame.propagated_ne_bottom
  localKindSpecific_ne_bottom := frame.localKindSpecific_ne_bottom

end Frame

/-- The frames of one call by their kind, and the breadcrumbs that they share. The slot of the
    kinds is strict. -/
structure LocalTaint (Kind α : Type) [LinearOrder Kind] [LinearOrder α] where
  kinds : SortedMap Kind (Frame α)
  breadcrumb : BiSet α
  kinds_ne_bottom : kinds.isEmpty = false
  breadcrumb_ne_bottom : breadcrumb ≠ .bottom

abbrev Taint (CallInfo Kind α : Type) [LinearOrder CallInfo] [LinearOrder Kind] [LinearOrder α] :=
  SortedMap CallInfo (LocalTaint Kind α)

namespace Taint

def getFeatures {F : Type} (propagatedSlot localKindSpecificSlot : Frame α → F)
    (localSlot : LocalTaint Kind α → F) (bottom : F) (join sequenceJoin : F → F → F)
    (taint : Taint CallInfo Kind α) : F :=
  let localTaintFeatures (localTaint : LocalTaint Kind α) (sofar : F) : F :=
    let frameFeatures (frame : Frame α) (sofar : F) : F :=
      join sofar (sequenceJoin (propagatedSlot frame) (localKindSpecificSlot frame))
    let features := localTaint.kinds.fold (fun _ => frameFeatures) bottom
    join sofar (sequenceJoin features (localSlot localTaint))
  taint.fold (fun _ => localTaintFeatures) bottom

def accumulatedBreadcrumbs (taint : Taint CallInfo Kind α) : BiSet α :=
  getFeatures Frame.propagatedBreadcrumb Frame.localKindSpecificBreadcrumb LocalTaint.breadcrumb
    .bottom (BiSet.sequenceJoin physSet phys) (BiSet.sequenceJoin physSet phys) taint

def joinedBreadcrumbs (taint : Taint CallInfo Kind α) : BiSet α :=
  getFeatures Frame.propagatedBreadcrumb Frame.localKindSpecificBreadcrumb LocalTaint.breadcrumb
    .bottom (BiSet.join phys) (BiSet.sequenceJoin physSet phys) taint

end Taint

namespace TaintTree

/-- The element domain of the trees. A map is bottom if it is empty. -/
def element (operations : Element (Taint CallInfo Kind α)) : Element (Taint CallInfo Kind α) :=
  { operations with isBottom := SortedMap.isEmpty }

def joinedBreadcrumbs (operations : Element (Taint CallInfo Kind α))
    (taintTree : Tree (Taint CallInfo Kind α)) : BiSet α :=
  let gatherBreadcrumbs (taint : Taint CallInfo Kind α) (sofar : BiSet α) : BiSet α :=
    sofar.join phys (taint.accumulatedBreadcrumbs physSet phys)
  foldTreePaths (element operations) false .bottom (fun _ _ => gatherBreadcrumbs) taintTree

end TaintTree

/-! ## 4. Flows -/

/-- A flow is a frame of a local taint. -/
def Taint.HasFlow (taint : Taint CallInfo Kind α) (frame : Frame α) (localTaint : LocalTaint Kind α) :
    Prop :=
  ∃ callInfo kind, taint.find? callInfo = some localTaint ∧ localTaint.kinds.find? kind = some frame

def TaintTree.HasFlow (taintTree : Tree (Taint CallInfo Kind α)) (frame : Frame α)
    (localTaint : LocalTaint Kind α) : Prop :=
  ∃ path node, subtreeAt taintTree path = some node ∧ Taint.HasFlow node.element frame localTaint

def Always (x : α) (frame : Frame α) (localTaint : LocalTaint Kind α) : Prop :=
  frame.propagatedBreadcrumb.InUnder x ∨ frame.localKindSpecificBreadcrumb.InUnder x ∨
    localTaint.breadcrumb.InUnder x

def May (x : α) (frame : Frame α) (localTaint : LocalTaint Kind α) : Prop :=
  frame.propagatedBreadcrumb.InOver x ∨ frame.localKindSpecificBreadcrumb.InOver x ∨
    localTaint.breadcrumb.InOver x

/-- What the breadcrumbs of all flows are, "accumulated with a `join`: the over-under approximation
    is properly preserved". -/
def Keeps (flow : Frame α → LocalTaint Kind α → Prop) (breadcrumbs : BiSet α) : Prop :=
  ∀ x, (breadcrumbs.InUnder x ↔ ∀ frame localTaint, flow frame localTaint → Always x frame localTaint) ∧
    (breadcrumbs.InOver x ↔ ∃ frame localTaint, flow frame localTaint ∧ May x frame localTaint)

variable {physSet phys} {x : α}

/-! ## 5. One taint -/

namespace LocalTaint

variable {localTaint : LocalTaint Kind α}

theorem exists_frame (localTaint : LocalTaint Kind α) :
    ∃ kind frame, localTaint.kinds.find? kind = some frame :=
  SortedMap.exists_of_not_isEmpty (by rw [localTaint.kinds_ne_bottom]; exact Bool.false_ne_true)

variable (physSet phys) in
/-- The features of the frames, joined. -/
def joinedFeatures (localTaint : LocalTaint Kind α) : BiSet α :=
  localTaint.kinds.fold (fun _ frame sofar => sofar.join phys
    (frame.propagatedBreadcrumb.sequenceJoin physSet phys frame.localKindSpecificBreadcrumb)) .bottom

variable (physSet phys) in
/-- The features of the frames, one after the other. -/
def accumulatedFeatures (localTaint : LocalTaint Kind α) : BiSet α :=
  localTaint.kinds.fold (fun _ frame sofar => sofar.sequenceJoin physSet phys
    (frame.propagatedBreadcrumb.sequenceJoin physSet phys frame.localKindSpecificBreadcrumb)) .bottom

theorem joinedFeatures_ne_bottom : localTaint.joinedFeatures physSet phys ≠ .bottom := by
  obtain ⟨kind, frame, hframe⟩ := localTaint.exists_frame
  exact BiSet.fold_join_ne_bottom.mpr
    ⟨kind, frame, hframe, BiSet.sequenceJoin_ne_bottom.mpr (.inl frame.propagated_ne_bottom)⟩

theorem inUnder_joined :
    ((localTaint.joinedFeatures physSet phys).sequenceJoin physSet phys
      localTaint.breadcrumb).InUnder x ↔
      ∀ kind frame, localTaint.kinds.find? kind = some frame → Always x frame localTaint := by
  have hframe : ∀ frame : Frame α, (frame.propagatedBreadcrumb.sequenceJoin physSet phys
      frame.localKindSpecificBreadcrumb).InUnder x ↔ frame.propagatedBreadcrumb.InUnder x ∨
        frame.localKindSpecificBreadcrumb.InUnder x := fun frame =>
    BiSet.inUnder_sequenceJoin frame.propagated_ne_bottom frame.localKindSpecific_ne_bottom
  rw [BiSet.inUnder_sequenceJoin joinedFeatures_ne_bottom localTaint.breadcrumb_ne_bottom,
    joinedFeatures, BiSet.inUnder_fold_join]
  simp only [hframe, Always, ← or_assoc]
  constructor
  · rintro (h | h) kind frame hkind
    · exact .inl (h kind frame hkind)
    · exact .inr h
  · intro h
    by_cases hlocal : localTaint.breadcrumb.InUnder x
    · exact .inr hlocal
    · exact .inl fun kind frame hkind => (h kind frame hkind).resolve_right hlocal

/-- A breadcrumb is on some flow of a local taint if it is on a frame, or on the local taint. -/
theorem exists_flow_iff {P : BiSet α → Prop} :
    ((∃ kind frame, localTaint.kinds.find? kind = some frame ∧
        (P frame.propagatedBreadcrumb ∨ P frame.localKindSpecificBreadcrumb)) ∨
      P localTaint.breadcrumb) ↔
      ∃ kind frame, localTaint.kinds.find? kind = some frame ∧
        (P frame.propagatedBreadcrumb ∨ P frame.localKindSpecificBreadcrumb ∨
          P localTaint.breadcrumb) := by
  constructor
  · rintro (⟨kind, frame, hframe, h⟩ | h)
    · exact ⟨kind, frame, hframe, h.imp_right .inl⟩
    · obtain ⟨kind, frame, hframe⟩ := localTaint.exists_frame
      exact ⟨kind, frame, hframe, .inr (.inr h)⟩
  · rintro ⟨kind, frame, hframe, h | h | h⟩
    · exact .inl ⟨kind, frame, hframe, .inl h⟩
    · exact .inl ⟨kind, frame, hframe, .inr h⟩
    · exact .inr h

theorem inOver_joined :
    ((localTaint.joinedFeatures physSet phys).sequenceJoin physSet phys
      localTaint.breadcrumb).InOver x ↔
      ∃ kind frame, localTaint.kinds.find? kind = some frame ∧ May x frame localTaint := by
  rw [BiSet.inOver_sequenceJoin, joinedFeatures, BiSet.inOver_fold_join]
  simp only [BiSet.inOver_sequenceJoin]
  exact exists_flow_iff (P := BiSet.InOver x)

theorem inOver_accumulated :
    ((localTaint.accumulatedFeatures physSet phys).sequenceJoin physSet phys
      localTaint.breadcrumb).InOver x ↔
      ∃ kind frame, localTaint.kinds.find? kind = some frame ∧ May x frame localTaint := by
  rw [BiSet.inOver_sequenceJoin, accumulatedFeatures, BiSet.inOver_fold_sequenceJoin]
  simp only [BiSet.inOver_sequenceJoin]
  exact exists_flow_iff (P := BiSet.InOver x)

theorem always_iff {frame : Frame α} : Always x frame localTaint ↔
    frame.propagatedBreadcrumb.Recorded x ∨ frame.localKindSpecificBreadcrumb.Recorded x ∨
      localTaint.breadcrumb.Recorded x := by
  simp only [Always, BiSet.Recorded, ne_eq, frame.propagated_ne_bottom,
    frame.localKindSpecific_ne_bottom, localTaint.breadcrumb_ne_bottom, not_false_eq_true, true_and]

theorem recorded_accumulated :
    ((localTaint.accumulatedFeatures physSet phys).sequenceJoin physSet phys
      localTaint.breadcrumb).Recorded x ↔
      ∃ kind frame, localTaint.kinds.find? kind = some frame ∧ Always x frame localTaint := by
  rw [BiSet.recorded_sequenceJoin, accumulatedFeatures, BiSet.recorded_fold_sequenceJoin]
  simp only [BiSet.recorded_sequenceJoin, always_iff]
  exact exists_flow_iff (P := BiSet.Recorded x)

end LocalTaint

namespace Taint

theorem joinedBreadcrumbs_eq (taint : Taint CallInfo Kind α) :
    taint.joinedBreadcrumbs physSet phys = taint.fold (fun _ localTaint sofar => sofar.join phys
      ((localTaint.joinedFeatures physSet phys).sequenceJoin physSet phys localTaint.breadcrumb))
      .bottom := rfl

theorem accumulatedBreadcrumbs_eq (taint : Taint CallInfo Kind α) :
    taint.accumulatedBreadcrumbs physSet phys = taint.fold (fun _ localTaint sofar =>
      sofar.sequenceJoin physSet phys ((localTaint.accumulatedFeatures physSet phys).sequenceJoin
        physSet phys localTaint.breadcrumb)) .bottom := rfl

theorem keeps_joinedBreadcrumbs (taint : Taint CallInfo Kind α) :
    Keeps taint.HasFlow (taint.joinedBreadcrumbs physSet phys) := by
  intro x
  constructor
  · rw [joinedBreadcrumbs_eq, BiSet.inUnder_fold_join]
    constructor
    · rintro h frame localTaint ⟨callInfo, kind, hlocal, hframe⟩
      exact LocalTaint.inUnder_joined.mp (h callInfo localTaint hlocal) kind frame hframe
    · intro h callInfo localTaint hlocal
      exact LocalTaint.inUnder_joined.mpr fun kind frame hframe =>
        h frame localTaint ⟨callInfo, kind, hlocal, hframe⟩
  · rw [joinedBreadcrumbs_eq, BiSet.inOver_fold_join]
    constructor
    · rintro ⟨callInfo, localTaint, hlocal, h⟩
      obtain ⟨kind, frame, hframe, h⟩ := LocalTaint.inOver_joined.mp h
      exact ⟨frame, localTaint, ⟨callInfo, kind, hlocal, hframe⟩, h⟩
    · rintro ⟨frame, localTaint, ⟨callInfo, kind, hlocal, hframe⟩, h⟩
      exact ⟨callInfo, localTaint, hlocal, LocalTaint.inOver_joined.mpr ⟨kind, frame, hframe, h⟩⟩

theorem inOver_accumulatedBreadcrumbs {taint : Taint CallInfo Kind α} :
    (taint.accumulatedBreadcrumbs physSet phys).InOver x ↔
      ∃ frame localTaint, taint.HasFlow frame localTaint ∧ May x frame localTaint := by
  rw [accumulatedBreadcrumbs_eq, BiSet.inOver_fold_sequenceJoin]
  constructor
  · rintro ⟨callInfo, localTaint, hlocal, h⟩
    obtain ⟨kind, frame, hframe, h⟩ := LocalTaint.inOver_accumulated.mp h
    exact ⟨frame, localTaint, ⟨callInfo, kind, hlocal, hframe⟩, h⟩
  · rintro ⟨frame, localTaint, ⟨callInfo, kind, hlocal, hframe⟩, h⟩
    exact ⟨callInfo, localTaint, hlocal, LocalTaint.inOver_accumulated.mpr ⟨kind, frame, hframe, h⟩⟩

/-- What is accumulated is always there as soon as it is always there on one flow. -/
theorem inUnder_accumulatedBreadcrumbs {taint : Taint CallInfo Kind α}
    (hne : taint.isEmpty = false) :
    (taint.accumulatedBreadcrumbs physSet phys).InUnder x ↔
      ∃ frame localTaint, taint.HasFlow frame localTaint ∧ Always x frame localTaint := by
  have hbottom : taint.accumulatedBreadcrumbs physSet phys ≠ .bottom := by
    obtain ⟨callInfo, localTaint, hlocal⟩ := SortedMap.exists_of_not_isEmpty
      (by rw [hne]; exact Bool.false_ne_true : ¬ taint.isEmpty = true)
    rw [accumulatedBreadcrumbs_eq, BiSet.fold_sequenceJoin_ne_bottom]
    exact ⟨callInfo, localTaint, hlocal,
      BiSet.sequenceJoin_ne_bottom.mpr (.inr localTaint.breadcrumb_ne_bottom)⟩
  have hrecorded : (taint.accumulatedBreadcrumbs physSet phys).InUnder x ↔
      (taint.accumulatedBreadcrumbs physSet phys).Recorded x := (and_iff_right hbottom).symm
  rw [hrecorded, accumulatedBreadcrumbs_eq, BiSet.recorded_fold_sequenceJoin]
  constructor
  · rintro ⟨callInfo, localTaint, hlocal, h⟩
    obtain ⟨kind, frame, hframe, h⟩ := LocalTaint.recorded_accumulated.mp h
    exact ⟨frame, localTaint, ⟨callInfo, kind, hlocal, hframe⟩, h⟩
  · rintro ⟨frame, localTaint, ⟨callInfo, kind, hlocal, hframe⟩, h⟩
    exact ⟨callInfo, localTaint, hlocal,
      LocalTaint.recorded_accumulated.mpr ⟨kind, frame, hframe, h⟩⟩

end Taint

/-! ## 6. A tree -/

namespace TaintTree

variable {operations : Element (Taint CallInfo Kind α)}

/-- The breadcrumb is always on some flow of every node. -/
def OnEveryNode (x : α) (taintTree : Tree (Taint CallInfo Kind α)) : Prop :=
  ∀ path node, subtreeAt taintTree path = some node → node.element.isEmpty = false →
    ∃ frame localTaint, Taint.HasFlow node.element frame localTaint ∧ Always x frame localTaint

theorem isEmpty_eq_false_of_flow {taint : Taint CallInfo Kind α} {frame : Frame α}
    {localTaint : LocalTaint Kind α} (h : taint.HasFlow frame localTaint) : taint.isEmpty = false := by
  obtain ⟨callInfo, kind, hlocal, hframe⟩ := h
  by_contra hempty
  rw [Bool.not_eq_false, SortedMap.isEmpty_iff] at hempty
  rw [hempty] at hlocal
  cases hlocal

/-- The fold over a tree is a fold over its nodes. -/
theorem joinedBreadcrumbs_eq (taintTree : Tree (Taint CallInfo Kind α)) :
    joinedBreadcrumbs physSet phys operations taintTree =
      (nodes (element operations) false taintTree).foldl (fun sofar node =>
        sofar.join phys (node.element.accumulatedBreadcrumbs physSet phys)) .bottom :=
  foldTreePaths_eq _ _ _ _ _

theorem inUnder_joinedBreadcrumbs {taintTree : Tree (Taint CallInfo Kind α)} :
    (joinedBreadcrumbs physSet phys operations taintTree).InUnder x ↔ OnEveryNode x taintTree := by
  rw [joinedBreadcrumbs_eq]
  refine (foldl_all_iff (BiSet.InUnder x)
    (P := fun node => (node.element.accumulatedBreadcrumbs physSet phys).InUnder x)
    (fun _ _ => BiSet.inUnder_join) _ _).trans ?_
  constructor
  · rintro ⟨-, h⟩ path node hnode hne
    refine (Taint.inUnder_accumulatedBreadcrumbs hne).mp
      (h ⟨path, ancestorsAt (element operations) false taintTree path, node.element⟩ ?_)
    exact (mem_nodes _ _ _ _).mpr ⟨node, hnode, hne, rfl, rfl⟩
  · refine fun h => ⟨trivial, fun n hn => ?_⟩
    obtain ⟨node, hnode, hne, helement, -⟩ := (mem_nodes _ _ _ _).mp hn
    rw [helement]
    exact (Taint.inUnder_accumulatedBreadcrumbs hne).mpr (h n.path node hnode hne)

theorem inOver_joinedBreadcrumbs {taintTree : Tree (Taint CallInfo Kind α)} :
    (joinedBreadcrumbs physSet phys operations taintTree).InOver x ↔
      ∃ frame localTaint, HasFlow taintTree frame localTaint ∧ May x frame localTaint := by
  rw [joinedBreadcrumbs_eq]
  refine (foldl_seen_iff (BiSet.InOver x)
    (P := fun node => (node.element.accumulatedBreadcrumbs physSet phys).InOver x)
    (fun _ _ => BiSet.inOver_join) _ _).trans ?_
  constructor
  · rintro (h | ⟨n, hn, h⟩)
    · exact h.elim
    · obtain ⟨node, hnode, -, helement, -⟩ := (mem_nodes _ _ _ _).mp hn
      rw [helement] at h
      obtain ⟨frame, localTaint, hflow, hmay⟩ := Taint.inOver_accumulatedBreadcrumbs.mp h
      exact ⟨frame, localTaint, ⟨n.path, node, hnode, hflow⟩, hmay⟩
  · rintro ⟨frame, localTaint, ⟨path, node, hnode, hflow⟩, hmay⟩
    refine .inr ⟨⟨path, ancestorsAt (element operations) false taintTree path, node.element⟩, ?_,
      Taint.inOver_accumulatedBreadcrumbs.mpr ⟨frame, localTaint, hflow, hmay⟩⟩
    exact (mem_nodes _ _ _ _).mpr ⟨node, hnode, isEmpty_eq_false_of_flow hflow, rfl, rfl⟩

theorem keeps_iff (taintTree : Tree (Taint CallInfo Kind α)) :
    Keeps (HasFlow taintTree) (joinedBreadcrumbs physSet phys operations taintTree) ↔
      ∀ x, OnEveryNode x taintTree →
        ∀ frame localTaint, HasFlow taintTree frame localTaint → Always x frame localTaint := by
  constructor
  · intro h x hnodes
    exact (h x).1.mp (inUnder_joinedBreadcrumbs.mpr hnodes)
  · intro h x
    refine ⟨inUnder_joinedBreadcrumbs.trans ⟨h x, fun hflows path node hnode hne => ?_⟩,
      inOver_joinedBreadcrumbs⟩
    obtain ⟨callInfo, localTaint, hlocal⟩ := SortedMap.exists_of_not_isEmpty
      (by rw [hne]; exact Bool.false_ne_true : ¬ SortedMap.isEmpty node.element = true)
    obtain ⟨kind, frame, hframe⟩ := localTaint.exists_frame
    have hflow : Taint.HasFlow node.element frame localTaint := ⟨callInfo, kind, hlocal, hframe⟩
    exact ⟨frame, localTaint, hflow, hflows frame localTaint ⟨path, node, hnode, hflow⟩⟩

/-- **The joined breadcrumbs of a tree and of a taint.** A taint keeps the under- and the
    over-approximation. A tree joins what `accumulatedBreadcrumbs` gives for its nodes, so that it
    keeps them exactly if each breadcrumb that is always on some flow of every node is always on
    every flow. -/
theorem joinedBreadcrumbs_iff (taintTree : Tree (Taint CallInfo Kind α)) :
    (Keeps (HasFlow taintTree) (joinedBreadcrumbs physSet phys operations taintTree) ∧
      ∀ taint : Taint CallInfo Kind α,
        Keeps (Taint.HasFlow taint) (Taint.joinedBreadcrumbs physSet phys taint)) ↔
      ∀ x, OnEveryNode x taintTree →
        ∀ frame localTaint, HasFlow taintTree frame localTaint → Always x frame localTaint :=
  (and_iff_left Taint.keeps_joinedBreadcrumbs).trans (keeps_iff taintTree)

/-- One call with two kinds, of which one has the breadcrumb. -/
def twoKinds : LocalTaint ℕ ℕ :=
  ⟨(SortedMap.singleton 0 (Frame.initial.addPropagatedBreadcrumbs (PhysEq.never _) (.singleton 7))).add
    1 Frame.initial, .empty, rfl, nofun⟩

theorem onEveryNode_twoKinds :
    OnEveryNode 7 (.node (.singleton 0 twoKinds) .empty : Tree (Taint ℕ ℕ ℕ)) := by
  intro path node hnode _
  cases path with
  | nil =>
    cases hnode
    exact ⟨Frame.initial.addPropagatedBreadcrumbs (PhysEq.never _) (.singleton 7), twoKinds,
      ⟨0, 0, rfl, rfl⟩, .inl List.mem_cons_self⟩
  | cons k rest => cases hnode

theorem not_keeps_joinedBreadcrumbs :
    ¬ ∃ operations : Element (Taint ℕ ℕ ℕ),
      Keeps (HasFlow (.node (.singleton 0 twoKinds) .empty))
        (joinedBreadcrumbs (PhysEq.never _) (PhysEq.never _) operations
          (.node (.singleton 0 twoKinds) .empty)) := by
  rintro ⟨operations, h⟩
  have halways : Always 7 Frame.initial twoKinds := (keeps_iff _).mp h 7 onEveryNode_twoKinds
    Frame.initial twoKinds ⟨[], _, rfl, 0, 1, rfl, rfl⟩
  rcases halways with h | h | h
  · cases h
  · cases h
  · cases h

end TaintTree

end Pysa
