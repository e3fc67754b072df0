/-
  Subject: SETS OF RELATED ELEMENTS, FILED BY BUCKET (`abstractBucketedElementSetDomain.ml`): a
    strict map from buckets to element sets.

  * `Filed` -- every bucket holds a nonempty antichain of elements of its own;
  * `Represents` -- a filed map with the elements of a plain set. `add`, `join`, `meet`, `subtract`
    and the classes of `partition` keep it, and the order is that of the sets;
  * `Represents.transform` -- so does a transform that keeps the buckets (`Keeps`), and only such a
    one leaves its results in their buckets (`Represents.keeps`);
  * `Run.bucketed_same_iff` -- **what runs build is observably the plain set, up to the first
    transform that takes an element out of its bucket.**
-/
import Pysa.Domains.ElementSet
import Pysa.Domains.MapDomain

namespace Pysa

universe u v

namespace BucketedElementSet

open AbstractDomain

/-- `BUCKETED_ELEMENT`; the order of the buckets is `compare_bucket`. -/
structure BucketedElement (α B : Type u) extends ElementSet.Element α where
  bucket : α → B

/-- An operation that no case of `transform` handles raises an exception. -/
inductive Failure
  | unhandledPartOp
  deriving DecidableEq

/-- A transform on the part `Element`. -/
inductive Transform (α : Type u)
  | map (f : α → α)
  | add (x : α)
  | filter (f : α → Bool)
  | filterMap (f : α → Option α)
  | expand (f : α → List α)

/-- `transform` of plain sets on the part `Element`. -/
def transformSet {α : Type u} [LinearOrder α] (E : ElementSet.Element α) :
    Transform α → SortedSet α → Except Failure (SortedSet α)
  | .map f, set => .ok (E.map f set)
  | .add x, set => .ok (E.add x set)
  | .filter f, set => .ok (set.filter f)
  | .filterMap f, set => .ok (E.filterMap f set)
  | .expand _, _ => .error .unhandledPartOp

namespace BucketedElement

variable {α B : Type u} [LinearOrder α] [LinearOrder B] {κ : Type u} [LinearOrder κ]
  (E : BucketedElement α B) (phys : PhysEq (SortedMap B (SortedSet α)))
  (physSet : PhysEq (SortedSet α))

/-! ## 1. Operations -/

/-- The domain of the set of one bucket. -/
abbrev setDomain : AbstractDomain (SortedSet α) := E.toElement.domain physSet

def add (toAdd : α) (buckets : SortedMap B (SortedSet α)) : SortedMap B (SortedSet α) :=
  MapDomain.updateWith (E.setDomain physSet) true buckets (E.bucket toAdd) fun
    | none => .singleton toAdd
    | some existing => E.toElement.add toAdd existing

/-- `reduce` on `Element, Acc`. -/
def reduce {β : Type v} (f : α → β → β) (init : β) (buckets : SortedMap B (SortedSet α)) : β :=
  buckets.fold (fun _ set result => set.fold f result) init

def elements (buckets : SortedMap B (SortedSet α)) : List α := reduce List.cons [] buckets

def ofList (elements : List α) : SortedMap B (SortedSet α) :=
  elements.foldl (fun set element => E.add physSet element set) .empty

def domain : AbstractDomain (SortedMap B (SortedSet α)) :=
  { MapDomain.domain (E.setDomain physSet) true phys physSet with
    widen := fun iteration prev next =>
      E.ofList physSet (E.widen
        (elements (MapDomain.widen (E.setDomain physSet) phys iteration prev next))) }

/-- `transform` on the part `Element`: each set is transformed in its bucket. -/
def transform (op : Transform α) (buckets : SortedMap B (SortedSet α)) :
    Except Failure (SortedMap B (SortedSet α)) :=
  buckets.foldM
    (fun bucket set result => (transformSet E.toElement op set).map fun set =>
      MapDomain.set (E.setDomain physSet) true result bucket set)
    .empty

/-- `partition` on `Element, ByFilter`; `By` is the case where the key is never `None`. -/
def partition (f : α → Option κ) (buckets : SortedMap B (SortedSet α)) :
    SortedMap κ (SortedMap B (SortedSet α)) :=
  MapDomain.partitionElements (E.setDomain physSet) true (fun binding => E.toElement.partition f binding.2)
    buckets

/-! ## 2. The plain set -/

/-- The set of a bucket is a nonempty antichain of elements of the bucket. -/
structure InBucket (bucket : B) (set : SortedSet α) : Prop where
  antichain : E.Antichain set
  nonempty : set.isEmpty = false
  own : ∀ x ∈ set, E.bucket x = bucket

def Filed (buckets : SortedMap B (SortedSet α)) : Prop :=
  ∀ bucket set, buckets.find? bucket = some set → E.InBucket bucket set

/-- Related elements share a bucket. -/
def SharesBuckets : Prop := ∀ a b, E.lessOrEqual a b = true → E.bucket a = E.bucket b

/-- The elements of all buckets. -/
def flatten (buckets : SortedMap B (SortedSet α)) : SortedSet α :=
  buckets.fold (fun _ set result => set.union result) .empty

/-- The map is filed, and its elements are those of the plain set. -/
structure Represents (buckets : SortedMap B (SortedSet α)) (set : SortedSet α) : Prop where
  filed : E.Filed buckets
  flatten_eq : flatten buckets = set

variable {E phys physSet} {buckets buckets' : SortedMap B (SortedSet α)} {set set' : SortedSet α}
  {x y : α} {bucket : B}

theorem mem_flatten :
    x ∈ flatten buckets ↔ ∃ bucket set, buckets.find? bucket = some set ∧ x ∈ set := by
  constructor
  · refine SortedMap.fold_induction
      (fun result => x ∈ result → ∃ bucket set, buckets.find? bucket = some set ∧ x ∈ set)
      (fun h => absurd h (SortedSet.notMem_empty x)) fun bucket set result hfind ih h => ?_
    rcases SortedSet.mem_union.mp h with h | h
    · exact ⟨bucket, set, hfind, h⟩
    · exact ih h
  · rintro ⟨bucket, set, hfind, hx⟩
    exact SortedMap.fold_establishes (fun result => x ∈ result) hfind
      (fun result => SortedSet.mem_union.mpr (Or.inl hx))
      fun _ _ result _ h => SortedSet.mem_union.mpr (Or.inr h)

theorem covered_flatten : E.Covered (flatten buckets) x ↔
    ∃ bucket set, buckets.find? bucket = some set ∧ E.Covered set x := by
  constructor
  · rintro ⟨y, hy, hxy⟩
    obtain ⟨bucket, set, hfind, hy⟩ := mem_flatten.mp hy
    exact ⟨bucket, set, hfind, y, hy, hxy⟩
  · rintro ⟨bucket, set, hfind, y, hy, hxy⟩
    exact ⟨y, mem_flatten.mpr ⟨bucket, set, hfind, hy⟩, hxy⟩

omit [LinearOrder B] in
theorem InBucket.bucket_of_covered (h : E.InBucket bucket set) (hbucket : E.SharesBuckets)
    (hx : E.Covered set x) : E.bucket x = bucket := by
  obtain ⟨y, hy, hxy⟩ := hx
  exact (hbucket x y hxy).trans (h.own y hy)

omit [LinearOrder B] in
/-- An antichain whose meaning lies in a bucket. -/
theorem InBucket.of_covered (hE : E.PartialOrder) (hanti : E.Antichain set)
    (hown : ∀ x, E.Covered set x → E.bucket x = bucket) (hx : E.Covered set x) :
    E.InBucket bucket set where
  antichain := hanti
  nonempty := Bool.eq_false_iff.mpr fun hempty => ElementSet.Element.not_covered_of_isEmpty hempty hx
  own := fun y hy => hown y (ElementSet.Element.covered_of_mem hE hy)

omit [LinearOrder B] in
theorem InBucket.exists_mem (h : E.InBucket bucket set) : ∃ x, x ∈ set := by
  by_contra hnone
  push Not at hnone
  exact absurd (SortedSet.isEmpty_iff.mpr hnone) (Bool.eq_false_iff.mp h.nonempty)

theorem Filed.noBottom (h : E.Filed buckets) :
    MapDomain.NoBottom (E.setDomain physSet) buckets := fun bucket set hfind =>
  (h bucket set hfind).nonempty

theorem Filed.find?_bucket (h : E.Filed buckets) (hx : x ∈ flatten buckets) :
    ∃ set, buckets.find? (E.bucket x) = some set ∧ x ∈ set := by
  obtain ⟨bucket, set, hfind, hx⟩ := mem_flatten.mp hx
  rw [(h bucket set hfind).own x hx]
  exact ⟨set, hfind, hx⟩

/-- Related elements are in one bucket, and its set is an antichain. -/
theorem Filed.antichain_flatten (h : E.Filed buckets) (hbucket : E.SharesBuckets) :
    E.Antichain (flatten buckets) := by
  intro a ha b hb hne hle
  obtain ⟨set, hfind, ha⟩ := h.find?_bucket ha
  obtain ⟨set', hfind', hb⟩ := h.find?_bucket hb
  rw [← hbucket a b hle, hfind] at hfind'
  cases hfind'
  exact (h _ _ hfind).antichain ha hb hne hle

/-- A filed map represents the antichain with its meaning. -/
theorem Filed.represents (hE : E.PartialOrder) (hbucket : E.SharesBuckets) (h : E.Filed buckets)
    (hset : E.Antichain set) (hcovered : ∀ x, (∃ bucket set, buckets.find? bucket = some set ∧
      E.Covered set x) ↔ E.Covered set x) : E.Represents buckets set :=
  ⟨h, ElementSet.Element.eq_of_covered hE (h.antichain_flatten hbucket) hset fun x =>
    covered_flatten.trans (hcovered x)⟩

theorem Represents.antichain (h : E.Represents buckets set) (hbucket : E.SharesBuckets) :
    E.Antichain set := h.flatten_eq ▸ h.filed.antichain_flatten hbucket

theorem Represents.covered_iff (h : E.Represents buckets set) : E.Covered set x ↔
    ∃ bucket set, buckets.find? bucket = some set ∧ E.Covered set x := by
  rw [← h.flatten_eq]
  exact covered_flatten

theorem represents_empty : E.Represents .empty .empty where
  filed := fun bucket set hfind => by
    rw [SortedMap.find?_empty] at hfind
    cases hfind
  flatten_eq := rfl

/-! ## 3. Adding, joining, comparing and subtracting -/

theorem find?_add (hE : E.PartialOrder) (x : α) (buckets : SortedMap B (SortedSet α)) (bucket : B) :
    (E.add physSet x buckets).find? bucket =
      if bucket = E.bucket x then
        some (E.toElement.add x ((buckets.find? bucket).getD .empty))
      else buckets.find? bucket := by
  have hnonempty (set : SortedSet α) : ¬ (E.toElement.add x set).isEmpty = true := fun hempty =>
    ElementSet.Element.not_covered_of_isEmpty (E := E.toElement) hempty
      ((ElementSet.Element.covered_add hE).mpr (Or.inr (hE.refl x)))
  unfold add MapDomain.updateWith
  rw [MapDomain.find?_set]
  by_cases hkey : bucket = E.bucket x
  · rw [if_pos hkey, if_pos hkey, hkey]
    cases buckets.find? (E.bucket x) with
    | none => exact if_neg (hnonempty .empty)
    | some set => exact if_neg (hnonempty set)
  · rw [if_neg hkey, if_neg hkey]

omit [LinearOrder B] in
theorem InBucket.add (hE : E.PartialOrder) (hbucket : E.SharesBuckets)
    (h : E.InBucket (E.bucket x) set) : E.InBucket (E.bucket x) (E.toElement.add x set) := by
  refine .of_covered hE (h.antichain.add x) (fun y hy => ?_)
    ((ElementSet.Element.covered_add hE).mpr (Or.inr (hE.refl x)))
  rcases (ElementSet.Element.covered_add hE).mp hy with hy | hle
  · exact h.bucket_of_covered hbucket hy
  · exact hbucket y x hle

omit [LinearOrder B] in
theorem inBucket_singleton (x : α) : E.InBucket (E.bucket x) (.singleton x) where
  antichain := ElementSet.Element.antichain_singleton
  nonempty := rfl
  own := fun y hy => by rw [SortedSet.mem_singleton.mp hy]

theorem Represents.add (hE : E.PartialOrder) (hbucket : E.SharesBuckets)
    (h : E.Represents buckets set) (x : α) :
    E.Represents (E.add physSet x buckets) (E.toElement.add x set) := by
  refine Filed.represents hE hbucket (fun bucket set' hfind => ?_)
    ((h.antichain hbucket).add x) fun y => ?_
  · rw [find?_add hE] at hfind
    split at hfind
    · rename_i hkey
      cases hfind
      subst hkey
      cases hold : buckets.find? (E.bucket x) with
      | none => exact inBucket_singleton x
      | some set => exact (h.filed _ set hold).add hE hbucket
    · exact h.filed bucket set' hfind
  · rw [ElementSet.Element.covered_add hE, h.covered_iff]
    constructor
    · rintro ⟨bucket, set', hfind, hy⟩
      rw [find?_add hE] at hfind
      split at hfind
      · cases hfind
        refine ((ElementSet.Element.covered_add hE).mp hy).imp_left fun hy => ?_
        cases hfind : buckets.find? bucket with
        | none =>
          rw [hfind] at hy
          exact absurd hy ElementSet.Element.not_covered_empty
        | some set =>
          rw [hfind] at hy
          exact ⟨bucket, set, hfind, hy⟩
      · exact Or.inl ⟨bucket, set', hfind, hy⟩
    · rintro (⟨bucket, set', hfind, hy⟩ | hle)
      · by_cases hkey : bucket = E.bucket x
        · refine ⟨bucket, _, (find?_add hE x buckets bucket).trans (if_pos hkey), ?_⟩
          rw [hfind]
          exact (ElementSet.Element.covered_add hE).mpr (Or.inl hy)
        · exact ⟨bucket, set', (find?_add hE x buckets bucket).trans
            ((if_neg hkey).trans hfind), hy⟩
      · exact ⟨E.bucket x, _, (find?_add hE x buckets _).trans (if_pos rfl),
          (ElementSet.Element.covered_add hE).mpr (Or.inr hle)⟩

omit [LinearOrder B] in
theorem InBucket.join (hE : E.PartialOrder) (hbucket : E.SharesBuckets)
    (h : E.InBucket bucket set) (h' : E.InBucket bucket set') :
    E.InBucket bucket (E.toElement.join physSet set set') := by
  obtain ⟨hanti, hcovered⟩ := ElementSet.Element.join_spec hE physSet h.antichain h'.antichain
  obtain ⟨x, hx⟩ := h.exists_mem
  refine .of_covered hE hanti (fun y hy => ?_)
    ((hcovered x).mpr (Or.inl (ElementSet.Element.covered_of_mem hE hx)))
  rcases (hcovered y).mp hy with hy | hy
  · exact h.bucket_of_covered hbucket hy
  · exact h'.bucket_of_covered hbucket hy

theorem Represents.join (hE : E.PartialOrder) (hbucket : E.SharesBuckets)
    (phys : PhysEq (SortedMap B (SortedSet α))) (physSet physPlain : PhysEq (SortedSet α))
    (h : E.Represents buckets set) (h' : E.Represents buckets' set') :
    E.Represents (MapDomain.join (E.setDomain physSet) phys buckets buckets')
      (E.toElement.join physPlain set set') := by
  obtain ⟨hanti, hcovered⟩ :=
    ElementSet.Element.join_spec hE physPlain (h.antichain hbucket) (h'.antichain hbucket)
  unfold MapDomain.join
  split
  · rename_i hshort
    refine h.filed.represents hE hbucket hanti fun x => ?_
    rw [hcovered, ← h.covered_iff]
    refine (or_iff_left_of_imp fun hx => ?_).symm
    rcases Bool.or_eq_true_iff.mp hshort with hphys | hempty
    · obtain rfl := phys.sound hphys
      rwa [← h.flatten_eq, h'.flatten_eq]
    · obtain ⟨bucket, set, hfind, -⟩ := h'.covered_iff.mp hx
      rw [SortedMap.isEmpty_iff.mp hempty bucket] at hfind
      cases hfind
  · refine Filed.represents hE hbucket (fun bucket result hfind => ?_) hanti fun x => ?_
    · rw [SortedMap.find?_union] at hfind
      split at hfind
      · rename_i v w hv hw
        cases hfind
        exact (h.filed bucket v hv).join hE hbucket (h'.filed bucket w hw)
      · rename_i hv hw
        cases hfind
        exact h.filed bucket _ hv
      · exact h'.filed bucket result hfind
    · rw [hcovered, h.covered_iff, h'.covered_iff, ← exists_or]
      refine exists_congr fun bucket => ?_
      rw [SortedMap.find?_union]
      cases hv : buckets.find? bucket with
      | none => simp
      | some v =>
        cases hw : buckets'.find? bucket with
        | none => simp
        | some w =>
          have hspec := (ElementSet.Element.join_spec hE physSet (h.filed bucket v hv).antichain
            (h'.filed bucket w hw).antichain).2 x
          simpa [domain, ElementSet.Element.domain] using hspec

/-- The order of the maps is the order of the sets. -/
theorem Represents.lessOrEqual_eq (hE : E.PartialOrder) (hbucket : E.SharesBuckets)
    (h : E.Represents buckets set) (h' : E.Represents buckets' set') :
    MapDomain.lessOrEqual (E.setDomain physSet) phys buckets buckets' =
      E.lessOrEqualSet set set' := by
  rw [Bool.eq_iff_iff, ElementSet.Element.lessOrEqualSet_iff hE,
    MapDomain.lessOrEqual_iff_find? (ElementSet.Element.lessOrEqualSet_refl hE)]
  constructor
  · intro hle x hx
    obtain ⟨bucket, v, hv, hx⟩ := h.covered_iff.mp hx
    obtain ⟨w, hw, hvw⟩ := hle bucket v hv
    exact h'.covered_iff.mpr
      ⟨bucket, w, hw, (ElementSet.Element.lessOrEqualSet_iff hE).mp hvw x hx⟩
  · intro hcovered bucket v hv
    have hin (x : α) (hx : E.Covered v x) :
        ∃ w, buckets'.find? bucket = some w ∧ E.Covered w x := by
      obtain ⟨bucket', w, hw, hx'⟩ :=
        h'.covered_iff.mp (hcovered x (h.covered_iff.mpr ⟨bucket, v, hv, hx⟩))
      -- the right map finds `x` in the bucket of `x`, where the left map has it
      obtain rfl : bucket' = bucket :=
        ((h'.filed bucket' w hw).bucket_of_covered hbucket hx').symm.trans
          ((h.filed bucket v hv).bucket_of_covered hbucket hx)
      exact ⟨w, hw, hx'⟩
    obtain ⟨x, hx⟩ := (h.filed bucket v hv).exists_mem
    obtain ⟨w, hw, -⟩ := hin x (ElementSet.Element.covered_of_mem hE hx)
    refine ⟨w, hw, (ElementSet.Element.lessOrEqualSet_iff hE).mpr fun y hy => ?_⟩
    obtain ⟨w', hw', hy⟩ := hin y hy
    rw [hw] at hw'
    cases hw'
    exact hy

theorem Represents.isEmpty_eq (h : E.Represents buckets set) : buckets.isEmpty = set.isEmpty := by
  rw [Bool.eq_iff_iff, SortedSet.isEmpty_iff, ← h.flatten_eq]
  constructor
  · intro hempty x hx
    obtain ⟨bucket, v, hv, -⟩ := mem_flatten.mp hx
    rw [SortedMap.isEmpty_iff.mp hempty bucket] at hv
    cases hv
  · intro hnone
    by_contra hne
    obtain ⟨bucket, v, hv⟩ := SortedMap.exists_of_not_isEmpty hne
    obtain ⟨x, hx⟩ := (h.filed bucket v hv).exists_mem
    exact hnone x (mem_flatten.mpr ⟨bucket, v, hv, hx⟩)

theorem Represents.eq_empty (h : E.Represents buckets .empty) : buckets = .empty :=
  SortedMap.isEmpty_iff_eq.mp h.isEmpty_eq

theorem Represents.mem_iff (h : E.Represents buckets set) :
    x ∈ set ↔ ∃ bucket set, buckets.find? bucket = some set ∧ x ∈ set := by
  rw [← h.flatten_eq]
  exact mem_flatten

/-- A filed map whose elements are those of a set. -/
theorem Filed.represents_of_mem (h : E.Filed buckets)
    (hmem : ∀ x, (∃ bucket set, buckets.find? bucket = some set ∧ x ∈ set) ↔ x ∈ set) :
    E.Represents buckets set :=
  ⟨h, SortedSet.ext fun x => mem_flatten.trans (hmem x)⟩

theorem Represents.meet (hE : E.PartialOrder) (hbucket : E.SharesBuckets)
    (phys : PhysEq (SortedMap B (SortedSet α))) (physSet : PhysEq (SortedSet α))
    (h : E.Represents buckets set) (h' : E.Represents buckets' set') :
    E.Represents (baseMeet (MapDomain.lessOrEqual (E.setDomain physSet) phys) buckets buckets')
      (baseMeet E.lessOrEqualSet set set') := by
  unfold baseMeet
  rw [h'.lessOrEqual_eq hE hbucket h]
  split
  · exact h'
  · exact h

omit [LinearOrder B] in
theorem InBucket.subset (h : E.InBucket bucket set) (hsub : ∀ x ∈ set', x ∈ set)
    (hne : ¬ set'.isEmpty = true) : E.InBucket bucket set' where
  antichain := h.antichain.subset hsub
  nonempty := Bool.eq_false_iff.mpr hne
  own := fun x hx => h.own x (hsub x hx)

/-- What covers `x` is in the bucket of `x`. -/
theorem Represents.covered_iff_bucket (h : E.Represents buckets set) (hbucket : E.SharesBuckets) :
    E.Covered set x ↔ ∃ set, buckets.find? (E.bucket x) = some set ∧ E.Covered set x := by
  rw [h.covered_iff]
  constructor
  · rintro ⟨bucket, set, hfind, hx⟩
    rw [(h.filed bucket set hfind).bucket_of_covered hbucket hx]
    exact ⟨set, hfind, hx⟩
  · rintro ⟨set, hfind, hx⟩
    exact ⟨_, set, hfind, hx⟩

theorem Represents.subtract (hE : E.PartialOrder) (hbucket : E.SharesBuckets)
    (phys : PhysEq (SortedMap B (SortedSet α))) (physSet : PhysEq (SortedSet α))
    (h : E.Represents buckets set) (h' : E.Represents buckets' set') :
    E.Represents (MapDomain.subtract (E.setDomain physSet) true phys physSet buckets' buckets)
      (E.toElement.subtract set' set) := by
  unfold MapDomain.subtract
  split
  · rename_i hphys
    obtain rfl := phys.sound hphys
    have hempty : E.toElement.subtract set' set = .empty := SortedSet.ext fun x => by
      rw [ElementSet.Element.mem_subtract, ← h.flatten_eq, h'.flatten_eq]
      exact iff_of_false (fun hx => hx.2 (ElementSet.Element.covered_of_mem hE hx.1))
        (SortedSet.notMem_empty x)
    rw [hempty]
    exact represents_empty
  · split
    · rename_i hsource
      have hempty : E.toElement.subtract set' set = .empty := SortedSet.ext fun x => by
        rw [ElementSet.Element.mem_subtract]
        rw [h.isEmpty_eq, SortedSet.isEmpty_iff] at hsource
        exact iff_of_false (fun hx => hsource x hx.1) (SortedSet.notMem_empty x)
      rw [hempty]
      exact represents_empty
    · split
      · rename_i hremove
        rw [h'.isEmpty_eq] at hremove
        refine h.filed.represents_of_mem fun x => ?_
        rw [ElementSet.Element.mem_subtract, ← h.mem_iff]
        exact (and_iff_left (ElementSet.Element.not_covered_of_isEmpty hremove)).symm
      · refine Filed.represents_of_mem (fun bucket result hfind => ?_) fun x => ?_
        · rw [MapDomain.find?_fold_subtractElement h.filed.noBottom] at hfind
          split at hfind
          · cases hfind
          · rename_i hv _
            cases hfind
            exact h.filed bucket _ hv
          · rename_i hv _
            split at hfind
            · cases hfind
            · rename_i hne
              cases hfind
              exact (h.filed bucket _ hv).subset
                (fun x hx => (ElementSet.Element.mem_subtract.mp hx).1) hne
        · rw [ElementSet.Element.mem_subtract, h.mem_iff, h'.covered_iff_bucket hbucket]
          simp only [MapDomain.find?_fold_subtractElement h.filed.noBottom]
          constructor
          · rintro ⟨bucket, result, hfind, hx⟩
            split at hfind
            · cases hfind
            · rename_i hv hw
              cases hfind
              refine ⟨⟨bucket, _, hv, hx⟩, ?_⟩
              rintro ⟨w, hw', -⟩
              rw [(h.filed bucket _ hv).own x hx, hw] at hw'
              cases hw'
            · rename_i hv hw
              split at hfind
              · cases hfind
              · cases hfind
                obtain ⟨hx, hnot⟩ := ElementSet.Element.mem_subtract.mp hx
                refine ⟨⟨bucket, _, hv, hx⟩, ?_⟩
                rintro ⟨w, hw', hcovered⟩
                rw [(h.filed bucket _ hv).own x hx, hw] at hw'
                cases hw'
                exact hnot hcovered
          · rintro ⟨⟨bucket, v, hv, hx⟩, hnot⟩
            rw [(h.filed bucket v hv).own x hx] at hnot
            cases hw : buckets'.find? bucket with
            | none => exact ⟨bucket, v, by simp only [hv, hw], hx⟩
            | some w =>
              have hmem : x ∈ E.toElement.subtract w v :=
                ElementSet.Element.mem_subtract.mpr ⟨hx, fun hcovered => hnot ⟨w, hw, hcovered⟩⟩
              refine ⟨bucket, _, ?_, hmem⟩
              simp only [hv, hw]
              exact if_neg fun hempty => SortedSet.isEmpty_iff.mp hempty x hmem

/-! ## 4. Transforms -/

/-- The transform takes no element of the set out of its bucket, and treats the buckets that are
    there as the plain set treats its elements. -/
def Keeps (E : BucketedElement α B) : Transform α → SortedSet α → Prop
  | .map f, set => ∀ x ∈ set, E.bucket (f x) = E.bucket x
  | .add x, set => set ≠ .empty ∧ ∀ y ∈ set, E.bucket y = E.bucket x
  | .filter _, _ => True
  | .filterMap f, set => ∀ x ∈ set, ∀ y, f x = some y → E.bucket y = E.bucket x
  | .expand _, set => set ≠ .empty

/-- Both fail, or the map represents the set. -/
inductive Simulates (E : BucketedElement α B) :
    Except Failure (SortedMap B (SortedSet α)) → Except Failure (SortedSet α) → Prop
  | ok {buckets : SortedMap B (SortedSet α)} {set : SortedSet α} (h : E.Represents buckets set) :
      Simulates E (.ok buckets) (.ok set)
  | error (failure : Failure) : Simulates E (.error failure) (.error failure)

/-- Every element is in the bucket that it is filed under. -/
def Own (E : BucketedElement α B) (buckets : SortedMap B (SortedSet α)) : Prop :=
  ∀ bucket set, buckets.find? bucket = some set → ∀ x ∈ set, E.bucket x = bucket

/-- A transform that no set fails. -/
theorem transform_eq {op : Transform α} {f : SortedSet α → SortedSet α}
    (h : ∀ set, transformSet E.toElement op set = .ok (f set)) :
    E.transform physSet op buckets =
      .ok (MapDomain.transformElements (E.setDomain physSet) true (fun _ set => f set)
        buckets) := by
  rw [MapDomain.transformElements, if_pos rfl]
  refine SortedMap.foldM_eq_ok fun bucket set result _ => ?_
  rw [h set]
  rfl

theorem find?_transformElements_eq_some {f : SortedSet α → SortedSet α} :
    (MapDomain.transformElements (E.setDomain physSet) true (fun _ set => f set) buckets).find?
        bucket = some set' ↔
      ∃ set, buckets.find? bucket = some set ∧ f set = set' ∧ ¬ set'.isEmpty = true := by
  rw [MapDomain.find?_transformElements, Option.bind_eq_some_iff]
  refine exists_congr fun set => and_congr_right fun _ => ?_
  constructor
  · intro h
    split at h
    · cases h
    · rename_i hne
      cases h
      exact ⟨rfl, hne⟩
  · rintro ⟨rfl, hne⟩
    exact if_neg hne

theorem covered_transformElements {f : SortedSet α → SortedSet α} :
    (∃ bucket set, (MapDomain.transformElements (E.setDomain physSet) true (fun _ set => f set)
        buckets).find? bucket = some set ∧ E.Covered set x) ↔
      ∃ bucket set, buckets.find? bucket = some set ∧ E.Covered (f set) x := by
  constructor
  · rintro ⟨bucket, result, hfind, hx⟩
    obtain ⟨set, hset, rfl, -⟩ := find?_transformElements_eq_some.mp hfind
    exact ⟨bucket, set, hset, hx⟩
  · rintro ⟨bucket, set, hfind, hx⟩
    exact ⟨bucket, f set, find?_transformElements_eq_some.mpr ⟨set, hfind, rfl, fun hempty =>
      ElementSet.Element.not_covered_of_isEmpty hempty hx⟩, hx⟩

theorem Represents.filter (h : E.Represents buckets set) (p : α → Bool) :
    E.Represents (MapDomain.transformElements (E.setDomain physSet) true
      (fun _ set => set.filter p) buckets) (set.filter p) := by
  refine Filed.represents_of_mem (fun bucket result hfind => ?_) fun x => ?_
  · obtain ⟨v, hv, rfl, hne⟩ := find?_transformElements_eq_some.mp hfind
    exact (h.filed bucket v hv).subset (fun x hx => (SortedSet.mem_filter.mp hx).1) hne
  · rw [SortedSet.mem_filter, h.mem_iff]
    constructor
    · rintro ⟨bucket, result, hfind, hx⟩
      obtain ⟨v, hv, rfl, -⟩ := find?_transformElements_eq_some.mp hfind
      obtain ⟨hx, hp⟩ := SortedSet.mem_filter.mp hx
      exact ⟨⟨bucket, v, hv, hx⟩, hp⟩
    · rintro ⟨⟨bucket, set, hfind, hx⟩, hp⟩
      have hmem : x ∈ set.filter p := SortedSet.mem_filter.mpr ⟨hx, hp⟩
      exact ⟨bucket, _, find?_transformElements_eq_some.mpr
        ⟨set, hfind, rfl, fun hempty => SortedSet.isEmpty_iff.mp hempty x hmem⟩, hmem⟩

theorem Represents.filterMap (hE : E.PartialOrder) (hbucket : E.SharesBuckets)
    (h : E.Represents buckets set) {f : α → Option α}
    (hkeeps : ∀ x ∈ set, ∀ y, f x = some y → E.bucket y = E.bucket x) :
    E.Represents (MapDomain.transformElements (E.setDomain physSet) true
      (fun _ set => E.filterMap f set) buckets) (E.filterMap f set) := by
  obtain ⟨hanti, hcovered⟩ := ElementSet.Element.filterMap_spec hE f set
  refine Filed.represents hE hbucket (fun bucket result hfind => ?_) hanti fun x => ?_
  · obtain ⟨v, hv, rfl, hne⟩ := find?_transformElements_eq_some.mp hfind
    obtain ⟨hanti, hcovered⟩ := ElementSet.Element.filterMap_spec hE f v
    refine ⟨hanti, Bool.eq_false_iff.mpr hne, fun y hy => ?_⟩
    obtain ⟨x, hx, z, hz, hyz⟩ := (hcovered y).mp (ElementSet.Element.covered_of_mem hE hy)
    have hmem : x ∈ set := h.mem_iff.mpr ⟨bucket, v, hv, hx⟩
    calc E.bucket y
      _ = E.bucket z := hbucket y z hyz
      _ = E.bucket x := hkeeps x hmem z hz
      _ = bucket := (h.filed bucket v hv).own x hx
  · rw [covered_transformElements, hcovered]
    constructor
    · rintro ⟨bucket, v, hv, hx⟩
      obtain ⟨y, hy, hz⟩ := ((ElementSet.Element.filterMap_spec hE f v).2 x).mp hx
      exact ⟨y, h.mem_iff.mpr ⟨bucket, v, hv, hy⟩, hz⟩
    · rintro ⟨y, hy, hz⟩
      obtain ⟨bucket, v, hv, hy⟩ := h.mem_iff.mp hy
      exact ⟨bucket, v, hv, ((ElementSet.Element.filterMap_spec hE f v).2 x).mpr ⟨y, hy, hz⟩⟩

/-- A transform that leaves its results in the bucket of `x` cannot have moved one. -/
theorem Represents.keeps_filterMap (hE : E.PartialOrder) (hbucket : E.SharesBuckets)
    (h : E.Represents buckets set) {f : α → Option α}
    (hown : E.Own (MapDomain.transformElements (E.setDomain physSet) true
      (fun _ set => E.filterMap f set) buckets)) :
    ∀ x ∈ set, ∀ y, f x = some y → E.bucket y = E.bucket x := by
  intro x hx y hy
  obtain ⟨bucket, v, hv, hx⟩ := h.mem_iff.mp hx
  have hcovered : E.Covered (E.filterMap f v) y :=
    ((ElementSet.Element.filterMap_spec hE f v).2 y).mpr ⟨x, hx, y, hy, hE.refl y⟩
  obtain ⟨z, hz, hyz⟩ := hcovered
  have hfind : (MapDomain.transformElements (E.setDomain physSet) true
      (fun _ set => E.filterMap f set) buckets).find? bucket = some (E.filterMap f v) :=
    find?_transformElements_eq_some.mpr
      ⟨v, hv, rfl, fun hempty => SortedSet.isEmpty_iff.mp hempty z hz⟩
  calc E.bucket y
    _ = E.bucket z := hbucket y z hyz
    _ = bucket := hown bucket _ hfind z hz
    _ = E.bucket x := ((h.filed bucket v hv).own x hx).symm

theorem Represents.addEverywhere (hE : E.PartialOrder) (hbucket : E.SharesBuckets)
    (h : E.Represents buckets set) (hne : set ≠ .empty)
    (hkeeps : ∀ y ∈ set, E.bucket y = E.bucket x) :
    E.Represents (MapDomain.transformElements (E.setDomain physSet) true
      (fun _ set => E.toElement.add x set) buckets) (E.toElement.add x set) := by
  refine Filed.represents hE hbucket (fun bucket result hfind => ?_)
    ((h.antichain hbucket).add x) fun y => ?_
  · obtain ⟨v, hv, rfl, -⟩ := find?_transformElements_eq_some.mp hfind
    have hin := h.filed bucket v hv
    obtain ⟨z, hz⟩ := hin.exists_mem
    obtain rfl : E.bucket x = bucket :=
      (hkeeps z (h.mem_iff.mpr ⟨bucket, v, hv, hz⟩)).symm.trans (hin.own z hz)
    exact hin.add hE hbucket
  · rw [covered_transformElements, ElementSet.Element.covered_add hE, h.covered_iff]
    simp only [ElementSet.Element.covered_add hE]
    constructor
    · rintro ⟨bucket, v, hv, hy | hle⟩
      · exact Or.inl ⟨bucket, v, hv, hy⟩
      · exact Or.inr hle
    · rintro (⟨bucket, v, hv, hy⟩ | hle)
      · exact ⟨bucket, v, hv, Or.inl hy⟩
      · -- some bucket is there to take `x`
        have hexists : ¬ buckets.isEmpty = true := by
          rw [h.isEmpty_eq]
          exact fun hempty => hne (SortedSet.isEmpty_iff_eq.mp hempty)
        obtain ⟨bucket, v, hv⟩ := SortedMap.exists_of_not_isEmpty hexists
        exact ⟨bucket, v, hv, Or.inr hle⟩

theorem Represents.keeps_add (hE : E.PartialOrder) (hbucket : E.SharesBuckets)
    (h : E.Represents buckets set)
    (hown : E.Own (MapDomain.transformElements (E.setDomain physSet) true
      (fun _ set => E.toElement.add x set) buckets)) :
    ∀ y ∈ set, E.bucket y = E.bucket x := by
  intro y hy
  obtain ⟨bucket, v, hv, hy⟩ := h.mem_iff.mp hy
  obtain ⟨z, hz, hxz⟩ : E.Covered (E.toElement.add x v) x :=
    (ElementSet.Element.covered_add hE).mpr (Or.inr (hE.refl x))
  have hfind : (MapDomain.transformElements (E.setDomain physSet) true
      (fun _ set => E.toElement.add x set) buckets).find? bucket = some (E.toElement.add x v) :=
    find?_transformElements_eq_some.mpr
      ⟨v, hv, rfl, fun hempty => SortedSet.isEmpty_iff.mp hempty z hz⟩
  calc E.bucket y
    _ = bucket := (h.filed bucket v hv).own y hy
    _ = E.bucket z := (hown bucket _ hfind z hz).symm
    _ = E.bucket x := (hbucket x z hxz).symm

theorem transform_expand (f : α → List α) (h : ¬ buckets.isEmpty = true) :
    E.transform physSet (.expand f) buckets = .error .unhandledPartOp := by
  obtain ⟨bucket, set, hfind⟩ := SortedMap.exists_of_not_isEmpty h
  unfold transform SortedMap.foldM
  refine SortedMap.fold_establishes
    (fun result => result = (.error .unhandledPartOp : Except Failure (SortedMap B (SortedSet α))))
    hfind (fun result => ?_) fun bucket set result _ hresult => ?_
  · cases result <;> rfl
  · rw [hresult]
    rfl

/-- **A transform that keeps the buckets is that of the plain set.** -/
theorem Represents.transform (hE : E.PartialOrder) (hbucket : E.SharesBuckets)
    (h : E.Represents buckets set) {op : Transform α} (hkeeps : E.Keeps op set) :
    E.Simulates (E.transform physSet op buckets) (transformSet E.toElement op set) := by
  cases op with
  | map f =>
    rw [transform_eq (f := E.map f) fun _ => rfl]
    exact .ok (h.filterMap hE hbucket fun x hx y hy => Option.some.inj hy ▸ hkeeps x hx)
  | add x =>
    rw [transform_eq (f := E.toElement.add x) fun _ => rfl]
    exact .ok (h.addEverywhere hE hbucket hkeeps.1 hkeeps.2)
  | filter f =>
    rw [transform_eq (f := SortedSet.filter f) fun _ => rfl]
    exact .ok (h.filter f)
  | filterMap f =>
    rw [transform_eq (f := E.filterMap f) fun _ => rfl]
    exact .ok (h.filterMap hE hbucket hkeeps)
  | expand f =>
    have hne : ¬ buckets.isEmpty = true := by
      rw [h.isEmpty_eq]
      exact fun hempty => hkeeps (SortedSet.isEmpty_iff_eq.mp hempty)
    rw [transform_expand f hne]
    exact .error _

/-- A transform whose result is filed has kept the buckets. -/
theorem Represents.keeps (physSet : PhysEq (SortedSet α)) (hE : E.PartialOrder)
    (hbucket : E.SharesBuckets)
    (h : E.Represents buckets set) {op : Transform α}
    (hfailure : ∀ result, E.transform physSet op buckets = .ok result →
      ∃ result', transformSet E.toElement op set = .ok result' ∧
        result.isEmpty = result'.isEmpty ∧ E.Own result) : E.Keeps op set := by
  cases op with
  | map f =>
    obtain ⟨-, -, -, hown⟩ := hfailure _ (transform_eq (f := E.map f) fun _ => rfl)
    exact fun x hx => h.keeps_filterMap hE hbucket (f := fun x => some (f x)) hown x hx _ rfl
  | add x =>
    obtain ⟨result, heq, hempty, hown⟩ :=
      hfailure _ (transform_eq (f := E.toElement.add x) fun _ => rfl)
    refine ⟨?_, h.keeps_add hE hbucket hown⟩
    rintro rfl
    -- no bucket is there to take `x`
    obtain rfl : buckets = .empty := h.eq_empty
    cases heq
    exact Bool.false_ne_true (show true = false from hempty).symm
  | filter f => trivial
  | filterMap f =>
    obtain ⟨-, -, -, hown⟩ := hfailure _ (transform_eq (f := E.filterMap f) fun _ => rfl)
    exact h.keeps_filterMap hE hbucket hown
  | expand f =>
    rintro rfl
    obtain rfl : buckets = .empty := h.eq_empty
    obtain ⟨result, heq, -⟩ := hfailure .empty rfl
    cases heq

/-! ## 5. Partitions and folds -/

/-- One set of a bucket joins a class. -/
theorem Filed.update (hE : E.PartialOrder) (hbucket : E.SharesBuckets) (h : E.Filed buckets)
    (hset : E.InBucket bucket set) :
    E.Filed (MapDomain.update (E.setDomain physSet) true buckets bucket set) := by
  intro bucket' result hfind
  rw [MapDomain.find?_update buckets bucket hset.nonempty] at hfind
  split at hfind
  · rename_i heq
    subst heq
    cases hfind
    cases hv : buckets.find? bucket' with
    | none => exact hset
    | some v => exact (h bucket' v hv).join hE hbucket hset
  · exact h bucket' result hfind

theorem Filed.covered_update (physSet : PhysEq (SortedSet α)) (hE : E.PartialOrder)
    (h : E.Filed buckets) (hset : E.InBucket bucket set) : E.Covered
        (flatten (MapDomain.update (E.setDomain physSet) true buckets bucket set)) x ↔
      E.Covered (flatten buckets) x ∨ E.Covered set x := by
  have hjoin {v : SortedSet α} (hv : buckets.find? bucket = some v) :
      E.Covered ((E.setDomain physSet).join v set) x ↔ E.Covered v x ∨ E.Covered set x :=
    (ElementSet.Element.join_spec hE physSet (h bucket v hv).antichain hset.antichain).2 x
  rw [covered_flatten, covered_flatten]
  constructor
  · rintro ⟨bucket', result, hfind, hx⟩
    rw [MapDomain.find?_update buckets bucket hset.nonempty] at hfind
    split at hfind
    · cases hfind
      cases hv : buckets.find? bucket with
      | none =>
        rw [hv] at hx
        exact Or.inr hx
      | some v =>
        rw [hv] at hx
        exact ((hjoin hv).mp hx).imp_left fun hx => ⟨bucket, v, hv, hx⟩
    · exact Or.inl ⟨bucket', result, hfind, hx⟩
  · have hfind := MapDomain.find?_update buckets bucket (D := E.setDomain physSet) hset.nonempty
    rintro (⟨bucket', v, hv, hx⟩ | hx)
    · by_cases heq : bucket' = bucket
      · subst heq
        refine ⟨bucket', _, (hfind bucket').trans (if_pos rfl), ?_⟩
        rw [hv]
        exact (hjoin hv).mpr (Or.inl hx)
      · exact ⟨bucket', v, (hfind bucket').trans ((if_neg heq).trans hv), hx⟩
    · refine ⟨bucket, _, (hfind bucket).trans (if_pos rfl), ?_⟩
      cases hv : buckets.find? bucket with
      | none => exact hx
      | some v => exact (hjoin hv).mpr (Or.inr hx)

omit [LinearOrder B] in
/-- A class of the set of a bucket. -/
theorem InBucket.partition (hE : E.PartialOrder) (hbucket : E.SharesBuckets)
    (h : E.InBucket bucket set) {f : α → Option κ} {key : κ} {cls : SortedSet α}
    (hcls : (E.toElement.partition f set).find? key = some cls) : E.InBucket bucket cls := by
  obtain ⟨⟨hanti, x, hx⟩, hcovered⟩ :=
    (ElementSet.Element.partition_spec hE f set key).1 cls hcls
  refine .of_covered hE hanti (fun y hy => ?_) hx
  obtain ⟨z, hz, -, hyz⟩ := (hcovered y).mp hy
  exact (hbucket y z hyz).trans (h.own z hz)

/-- The first set of a class, as that of a later one. -/
theorem singleton_eq_update (physSet : PhysEq (SortedSet α))
    (hset : E.InBucket bucket set) :
    MapDomain.singleton (E.setDomain physSet) true bucket set =
      MapDomain.update (E.setDomain physSet) true .empty bucket set := by
  refine SortedMap.ext_find? fun x => ?_
  rw [MapDomain.singleton, MapDomain.find?_set, MapDomain.find?_update _ _ hset.nonempty,
    SortedMap.find?_empty, SortedMap.find?_empty]
  exact if_congr Iff.rfl (if_neg (Bool.eq_false_iff.mp hset.nonempty)) rfl

/-- The classes of the sets of all buckets. -/
def classParts (E : BucketedElement α B) (f : α → Option κ) (buckets : SortedMap B (SortedSet α)) :
    List (κ × B × SortedSet α) :=
  buckets.bindings.flatMap fun binding =>
    (E.toElement.partition f binding.2).bindings.map fun cls => (cls.1, binding.1, cls.2)

theorem mem_classParts {f : α → Option κ} {part : κ × B × SortedSet α} :
    part ∈ E.classParts f buckets ↔ ∃ v, buckets.find? part.2.1 = some v ∧
      (E.toElement.partition f v).find? part.1 = some part.2.2 := by
  simp only [classParts, List.mem_flatMap, List.mem_map, Prod.exists, SortedMap.mem_bindings]
  constructor
  · rintro ⟨bucket, v, hv, key, cls, hcls, rfl⟩
    exact ⟨v, hv, hcls⟩
  · rintro ⟨v, hv, hcls⟩
    exact ⟨part.2.1, v, hv, part.1, part.2.2, hcls, rfl⟩

/-- A class of a filed map is filed, and covers what the classes of its buckets cover. -/
theorem partition_spec (physSet : PhysEq (SortedSet α)) (hE : E.PartialOrder)
    (hbucket : E.SharesBuckets) (h : E.Filed buckets) (f : α → Option κ) (key : κ) :
    (∀ cls, (E.partition physSet f buckets).find? key = some cls →
      (E.Filed cls ∧ ∃ x, E.Covered (flatten cls) x) ∧ ∀ x, E.Covered (flatten cls) x ↔
        ∃ part ∈ E.classParts f buckets, some part.1 = some key ∧ E.Covered part.2.2 x) ∧
    ((E.partition physSet f buckets).find? key = none →
      ∀ part ∈ E.classParts f buckets, some part.1 ≠ some key) := by
  have hin (part : κ × B × SortedSet α) (hmem : part ∈ E.classParts f buckets) :
      E.InBucket part.2.1 part.2.2 := by
    obtain ⟨v, hv, hcls⟩ := mem_classParts.mp hmem
    exact (h _ v hv).partition hE hbucket hcls
  have hfiled : E.Filed (.empty : SortedMap B (SortedSet α)) := represents_empty.filed
  refine fileAll_spec (f := fun part : κ × B × SortedSet α => some part.1) (fun part hmem => ?_)
    (fun part hmem cls hcls => ?_) key
  · have hset := hin part hmem
    have heq := singleton_eq_update physSet hset
    have hcovered (x : α) := hfiled.covered_update physSet hE hset (x := x)
    obtain ⟨x, hx⟩ := hset.exists_mem
    rw [MapDomain.updatePartition, heq]
    refine ⟨⟨hfiled.update hE hbucket hset, x, ?_⟩, fun x => (hcovered x).trans ?_⟩
    · exact (hcovered x).mpr (Or.inr (ElementSet.Element.covered_of_mem hE hx))
    · exact or_iff_right ElementSet.Element.not_covered_empty
  · have hset := hin part hmem
    obtain ⟨hcls, x, hx⟩ := hcls
    have hcovered (x : α) := hcls.covered_update physSet hE hset (x := x)
    exact ⟨⟨hcls.update hE hbucket hset, x, (hcovered x).mpr (Or.inl hx)⟩, hcovered⟩

/-- **The classes of a filed map represent those of the plain set.** -/
theorem Represents.partition (physSet : PhysEq (SortedSet α)) (hE : E.PartialOrder)
    (hbucket : E.SharesBuckets) (h : E.Represents buckets set) (f : α → Option κ) (key : κ) :
    Option.Rel E.Represents ((E.partition physSet f buckets).find? key)
      ((E.toElement.partition f set).find? key) := by
  obtain ⟨hsome, hnone⟩ := partition_spec physSet hE hbucket h.filed f key
  obtain ⟨hsome', hnone'⟩ := ElementSet.Element.partition_spec hE f set key
  -- the classes of the buckets cover what the elements with the key do
  have hparts (x : α) :
      (∃ part ∈ E.classParts f buckets, some part.1 = some key ∧ E.Covered part.2.2 x) ↔
        ∃ y ∈ set, f y = some key ∧ E.lessOrEqual x y = true := by
    constructor
    · rintro ⟨⟨key', bucket, cls⟩, hmem, hkey, hx⟩
      cases hkey
      obtain ⟨v, hv, hcls⟩ := mem_classParts.mp hmem
      obtain ⟨y, hy, hf, hxy⟩ :=
        (((ElementSet.Element.partition_spec hE f v _).1 cls hcls).2 x).mp hx
      exact ⟨y, h.mem_iff.mpr ⟨bucket, v, hv, hy⟩, hf, hxy⟩
    · rintro ⟨y, hy, hf, hxy⟩
      obtain ⟨bucket, v, hv, hy⟩ := h.mem_iff.mp hy
      obtain ⟨hsome, hnone⟩ := ElementSet.Element.partition_spec hE f v key
      cases hcls : (E.toElement.partition f v).find? key with
      | none => exact absurd hf (hnone hcls y hy)
      | some cls =>
        exact ⟨(key, bucket, cls), mem_classParts.mpr ⟨v, hv, hcls⟩, rfl,
          ((hsome cls hcls).2 x).mpr ⟨y, hy, hf, hxy⟩⟩
  cases hcls : (E.partition physSet f buckets).find? key with
  | none =>
    cases hcls' : (E.toElement.partition f set).find? key with
    | none => exact .none
    | some cls' =>
      obtain ⟨⟨-, x, hx⟩, hcovered⟩ := hsome' cls' hcls'
      obtain ⟨part, hmem, hkey, -⟩ := (hparts x).mpr ((hcovered x).mp hx)
      exact absurd hkey (hnone hcls part hmem)
  | some cls =>
    obtain ⟨⟨hfiled, x, hx⟩, hcovered⟩ := hsome cls hcls
    cases hcls' : (E.toElement.partition f set).find? key with
    | none =>
      obtain ⟨y, hy, hf, -⟩ := (hparts x).mp ((hcovered x).mp hx)
      exact absurd hf (hnone' hcls' y hy)
    | some cls' =>
      obtain ⟨⟨hanti, -⟩, hcovered'⟩ := hsome' cls' hcls'
      refine .some (hfiled.represents hE hbucket hanti fun x => ?_)
      rw [← covered_flatten]
      exact (hcovered x).trans ((hparts x).trans (hcovered' x).symm)

/-- The elements in the order of `reduce`, bucket by bucket. -/
theorem reduce_eq {β : Type v} (f : α → β → β) (init : β) :
    reduce f init buckets =
      (buckets.bindings.flatMap fun binding => binding.2.elements).foldl (fun acc x => f x acc)
        init := by
  unfold reduce
  rw [SortedMap.fold_eq_foldl, List.foldl_flatMap]
  rfl

theorem Represents.perm_flatMap (h : E.Represents buckets set) :
    (buckets.bindings.flatMap fun binding => binding.2.elements).Perm set.elements := by
  refine (List.perm_ext_iff_of_nodup ?_ set.nodup).mpr fun x => ?_
  · refine List.nodup_flatMap.mpr ⟨fun binding _ => binding.2.nodup, ?_⟩
    refine (SortedMap.sorted_bindings buckets).imp_of_mem fun {binding binding'} hmem hmem' hlt => ?_
    -- an element of two buckets would belong to both
    intro x hx hx'
    exact hlt.ne (((h.filed _ _ (SortedMap.mem_bindings.mp hmem)).own x hx).symm.trans
      ((h.filed _ _ (SortedMap.mem_bindings.mp hmem')).own x hx'))
  · rw [SortedSet.mem_elements, h.mem_iff, List.mem_flatMap]
    constructor
    · rintro ⟨⟨bucket, v⟩, hmem, hx⟩
      exact ⟨bucket, v, SortedMap.mem_bindings.mp hmem, hx⟩
    · rintro ⟨bucket, v, hv, hx⟩
      exact ⟨(bucket, v), SortedMap.mem_bindings.mpr hv, hx⟩

theorem foldl_cons {β : Type u} (list acc : List β) :
    list.foldl (fun acc x => x :: acc) acc = list.reverse ++ acc := by
  simp

theorem Represents.perm_elements (h : E.Represents buckets set) :
    (elements buckets).Perm set.elements := by
  unfold elements
  rw [reduce_eq, foldl_cons, List.append_nil]
  exact (List.reverse_perm _).trans h.perm_flatMap

/-- A fold that does not depend on the order of the elements. -/
theorem Represents.reduce_eq {β : Type v} (h : E.Represents buckets set) (f : α → β → β)
    (hf : ∀ x y acc, f x (f y acc) = f y (f x acc)) (init : β) :
    reduce f init buckets = set.fold f init := by
  rw [BucketedElement.reduce_eq]
  exact h.perm_flatMap.foldl_eq' (fun x _ y _ acc => hf y x acc) init

end BucketedElement

/-! ## 6. Runs -/

/-- An expression over the operations. -/
inductive Run (α : Type u) : Type (u + 1)
  | bottom
  | add (x : α) (run : Run α)
  | join (left right : Run α)
  | meet (left right : Run α)
  | subtract (toRemove source : Run α)
  | transform (op : Transform α) (run : Run α)
  /-- The class of a key, empty if there is none. -/
  | cls {κ : Type u} [LinearOrder κ] (f : α → Option κ) (key : κ) (run : Run α)

namespace Run

open BucketedElement

variable {α B : Type u} [LinearOrder α] [LinearOrder B] (E : BucketedElement α B)
  (phys : PhysEq (SortedMap B (SortedSet α))) (physSet physPlain : PhysEq (SortedSet α))

/-- The run on bucketed sets. -/
def eval : Run α → Except Failure (SortedMap B (SortedSet α))
  | bottom => .ok .empty
  | add x run => run.eval.map (E.add physSet x)
  | join left right => left.eval.bind fun left => right.eval.map ((E.domain phys physSet).join left)
  | meet left right => left.eval.bind fun left => right.eval.map ((E.domain phys physSet).meet left)
  | subtract toRemove source => toRemove.eval.bind fun toRemove =>
    source.eval.map ((E.domain phys physSet).subtract toRemove)
  | transform op run => run.eval.bind (E.transform physSet op)
  | cls f key run => run.eval.map fun buckets =>
    ((E.partition physSet f buckets).find? key).getD .empty

/-- The run on plain sets. -/
def evalSet (E : ElementSet.Element α) : Run α → Except Failure (SortedSet α)
  | bottom => .ok .empty
  | add x run => (evalSet E run).map (E.add x)
  | join left right => (evalSet E left).bind fun left =>
    (evalSet E right).map ((E.domain physPlain).join left)
  | meet left right => (evalSet E left).bind fun left =>
    (evalSet E right).map ((E.domain physPlain).meet left)
  | subtract toRemove source => (evalSet E toRemove).bind fun toRemove =>
    (evalSet E source).map ((E.domain physPlain).subtract toRemove)
  | transform op run => (evalSet E run).bind (transformSet E op)
  | cls f key run => (evalSet E run).map fun set => ((E.partition f set).find? key).getD .empty

/-- Every transform of the run keeps the buckets of the set that it is applied to. -/
def Kept : Run α → Prop
  | bottom => True
  | add _ run => run.Kept
  | join left right => left.Kept ∧ right.Kept
  | meet left right => left.Kept ∧ right.Kept
  | subtract toRemove source => toRemove.Kept ∧ source.Kept
  | transform op run => run.Kept ∧ ∀ set, run.evalSet physPlain E.toElement = .ok set → E.Keeps op set
  | cls _ _ run => run.Kept

/-- The two values of a run have the same elements, folds and classes, and compare alike with the
    values of the runs that keep their buckets. -/
structure SameValue (buckets : SortedMap B (SortedSet α)) (set : SortedSet α) : Prop where
  elements : (elements buckets).Perm set.elements
  isBottom : (E.domain phys physSet).isBottom buckets = set.isEmpty
  fold : ∀ {β : Type u} (f : α → β → β) (init : β), (∀ x y acc, f x (f y acc) = f y (f x acc)) →
    reduce f init buckets = set.fold f init
  partition : ∀ {κ : Type u} [LinearOrder κ] (f : α → Option κ) (key : κ),
    Option.Rel (fun buckets set => (BucketedElement.elements buckets).Perm set.elements)
      ((E.partition physSet f buckets).find? key) ((E.toElement.partition f set).find? key)
  lessOrEqual : ∀ (run : Run α) buckets' set', run.Kept E physPlain →
    run.eval E phys physSet = .ok buckets' → run.evalSet physPlain E.toElement = .ok set' →
    (E.domain phys physSet).lessOrEqual buckets buckets' = E.lessOrEqualSet set set' ∧
      (E.domain phys physSet).lessOrEqual buckets' buckets = E.lessOrEqualSet set' set

/-- Both runs fail, or their values are observably the same. -/
inductive Same : Except Failure (SortedMap B (SortedSet α)) → Except Failure (SortedSet α) → Prop
  | ok {buckets : SortedMap B (SortedSet α)} {set : SortedSet α}
      (h : SameValue E phys physSet physPlain buckets set) : Same (.ok buckets) (.ok set)
  | error (failure : Failure) : Same (.error failure) (.error failure)

variable {E phys physSet physPlain}

theorem simulates_map {x : Except Failure (SortedMap B (SortedSet α))}
    {y : Except Failure (SortedSet α)} (h : E.Simulates x y)
    {f : SortedMap B (SortedSet α) → SortedMap B (SortedSet α)} {g : SortedSet α → SortedSet α}
    (hf : ∀ {buckets set}, E.Represents buckets set → E.Represents (f buckets) (g set)) :
    E.Simulates (x.map f) (y.map g) := by
  cases h with
  | ok h => exact .ok (hf h)
  | error failure => exact .error failure

theorem simulates_bind {x : Except Failure (SortedMap B (SortedSet α))}
    {y : Except Failure (SortedSet α)} (h : E.Simulates x y)
    {f : SortedMap B (SortedSet α) → Except Failure (SortedMap B (SortedSet α))}
    {g : SortedSet α → Except Failure (SortedSet α)}
    (hf : ∀ {buckets set}, E.Represents buckets set → y = .ok set →
      E.Simulates (f buckets) (g set)) : E.Simulates (x.bind f) (y.bind g) := by
  cases h with
  | ok h => exact hf h rfl
  | error failure => exact .error failure

/-- **A run whose transforms keep the buckets is simulated by the run on plain sets.** -/
theorem simulates (phys : PhysEq (SortedMap B (SortedSet α))) (physSet : PhysEq (SortedSet α))
    (hE : E.PartialOrder) (hbucket : E.SharesBuckets) (run : Run α)
    (hkept : run.Kept E physPlain) :
    E.Simulates (run.eval E phys physSet) (run.evalSet physPlain E.toElement) := by
  induction run with
  | bottom => exact .ok represents_empty
  | add x run ih => exact simulates_map (ih hkept) fun h => h.add hE hbucket x
  | join left right ihl ihr =>
    exact simulates_bind (ihl hkept.1) fun h _ => simulates_map (ihr hkept.2) fun h' =>
      h.join hE hbucket phys physSet physPlain h'
  | meet left right ihl ihr =>
    exact simulates_bind (ihl hkept.1) fun h _ => simulates_map (ihr hkept.2) fun h' =>
      h.meet hE hbucket phys physSet h'
  | subtract toRemove source ihr ihs =>
    exact simulates_bind (ihr hkept.1) fun h' _ => simulates_map (ihs hkept.2) fun h =>
      h.subtract hE hbucket phys physSet h'
  | transform op run ih =>
    exact simulates_bind (ih hkept.1) fun h heq => h.transform hE hbucket (hkept.2 _ heq)
  | cls f key run ih =>
    refine simulates_map (ih hkept) fun {buckets set} h => ?_
    have hrel := h.partition physSet hE hbucket f key
    generalize (E.partition physSet f buckets).find? key = cls at hrel ⊢
    generalize (E.toElement.partition f set).find? key = cls' at hrel ⊢
    cases hrel with
    | none => exact represents_empty
    | some h => exact h

theorem sameValue (hE : E.PartialOrder) (hbucket : E.SharesBuckets)
    {buckets : SortedMap B (SortedSet α)} {set : SortedSet α} (h : E.Represents buckets set) :
    SameValue E phys physSet physPlain buckets set where
  elements := h.perm_elements
  isBottom := h.isEmpty_eq
  fold := fun f init hf => h.reduce_eq f hf init
  partition := fun f key => by
    have hrel := h.partition physSet hE hbucket f key
    generalize (E.partition physSet f buckets).find? key = cls at hrel ⊢
    generalize (E.toElement.partition f set).find? key = cls' at hrel ⊢
    cases hrel with
    | none => exact .none
    | some h => exact .some h.perm_elements
  lessOrEqual := fun run buckets' set' hkept heval hevalSet => by
    have hsim := simulates phys physSet hE hbucket run hkept
    rw [heval, hevalSet] at hsim
    cases hsim with
    | ok h' => exact ⟨h.lessOrEqual_eq hE hbucket h', h'.lessOrEqual_eq hE hbucket h⟩

theorem same_of_simulates (hE : E.PartialOrder) (hbucket : E.SharesBuckets)
    {x : Except Failure (SortedMap B (SortedSet α))} {y : Except Failure (SortedSet α)}
    (h : E.Simulates x y) : Same E phys physSet physPlain x y := by
  cases h with
  | ok h => exact .ok (sameValue hE hbucket h)
  | error failure => exact .error failure

/-- The run that adds the elements of a list. -/
def ofList (list : List α) : Run α := list.foldr Run.add bottom

omit [LinearOrder B] in
theorem kept_ofList (physPlain : PhysEq (SortedSet α)) (list : List α) : (ofList list).Kept E physPlain := by
  induction list with
  | nil => trivial
  | cons x rest ih => exact ih

omit [LinearOrder B] in
theorem evalSet_ofList (physPlain : PhysEq (SortedSet α)) (hE : E.PartialOrder) (list : List α) : ∃ set,
    (ofList list).evalSet physPlain E.toElement = .ok set ∧ ∀ x ∈ list, E.Covered set x := by
  induction list with
  | nil => exact ⟨.empty, rfl, nofun⟩
  | cons x rest ih =>
    obtain ⟨set, heval, hcovered⟩ := ih
    refine ⟨E.toElement.add x set, ?_, fun y hy => (ElementSet.Element.covered_add hE).mpr ?_⟩
    · show ((ofList rest).evalSet physPlain E.toElement).map (E.toElement.add x) = _
      rw [heval]
      rfl
    · rcases List.mem_cons.mp hy with rfl | hy
      · exact Or.inr (hE.refl y)
      · exact Or.inl (hcovered y hy)

/-- What lies below a filed map has its elements in their buckets. -/
theorem own_of_lessOrEqual (hE : E.PartialOrder) (hbucket : E.SharesBuckets)
    {buckets buckets' : SortedMap B (SortedSet α)} {set' : SortedSet α}
    (h' : E.Represents buckets' set')
    (hle : MapDomain.lessOrEqual (E.setDomain physSet) phys buckets buckets' = true) :
    E.Own buckets := by
  intro bucket v hv x hx
  obtain ⟨w, hw, hvw⟩ :=
    (MapDomain.lessOrEqual_iff_find? (ElementSet.Element.lessOrEqualSet_refl hE)).mp hle bucket v hv
  exact (h'.filed bucket w hw).bucket_of_covered hbucket
    ((ElementSet.Element.lessOrEqualSet_iff hE).mp hvw x (ElementSet.Element.covered_of_mem hE hx))

/-- A map that compares like a plain set has its elements in their buckets. -/
theorem SameValue.own (hE : E.PartialOrder) (hbucket : E.SharesBuckets)
    {buckets : SortedMap B (SortedSet α)} {set : SortedSet α}
    (h : SameValue E phys physSet physPlain buckets set) : E.Own buckets := by
  obtain ⟨upper, hupper, hcovered⟩ := evalSet_ofList physPlain hE set.elements
  have hsim := simulates phys physSet hE hbucket (ofList set.elements)
    (kept_ofList physPlain set.elements)
  rw [hupper] at hsim
  generalize heval : (ofList set.elements).eval E phys physSet = result at hsim
  cases hsim with
  | ok h' =>
    have hle : E.lessOrEqualSet set upper = true :=
      (ElementSet.Element.lessOrEqualSet_iff hE).mpr fun x ⟨y, hy, hxy⟩ =>
        (hcovered y hy).le hE hxy
    have heq := (h.lessOrEqual _ _ _ (kept_ofList physPlain set.elements) heval hupper).1
    exact own_of_lessOrEqual hE hbucket h' (heq.trans hle)

/-- **On runs whose transforms keep the buckets the bucketed set is observably the plain one, and
    one more transform leaves it so if and only if it keeps the buckets.** -/
theorem bucketed_same_iff (E : BucketedElement α B) (hE : E.PartialOrder)
    (hbucket : E.SharesBuckets) (phys : PhysEq (SortedMap B (SortedSet α)))
    (physSet physPlain : PhysEq (SortedSet α)) (run : Run α) (hkept : run.Kept E physPlain) :
    Same E phys physSet physPlain (run.eval E phys physSet) (run.evalSet physPlain E.toElement) ∧
      ∀ op, Same E phys physSet physPlain ((transform op run).eval E phys physSet)
          ((transform op run).evalSet physPlain E.toElement) ↔
        ∀ set, run.evalSet physPlain E.toElement = .ok set → E.Keeps op set := by
  have hsame (run : Run α) (hkept : run.Kept E physPlain) : Same E phys physSet physPlain
      (run.eval E phys physSet) (run.evalSet physPlain E.toElement) :=
    same_of_simulates hE hbucket (simulates phys physSet hE hbucket run hkept)
  refine ⟨hsame run hkept, fun op => ⟨fun h set heval => ?_, fun h => hsame _ ⟨hkept, h⟩⟩⟩
  have hsim := simulates phys physSet hE hbucket run hkept
  rw [eval, evalSet, heval] at h
  rw [heval] at hsim
  generalize run.eval E phys physSet = value at h hsim
  cases hsim with
  | ok hrep =>
    refine hrep.keeps physSet hE hbucket fun result hresult => ?_
    simp only [Except.bind, hresult] at h
    generalize transformSet E.toElement op set = result' at h
    cases h with
    | ok h => exact ⟨_, rfl, h.isBottom, h.own hE hbucket⟩

/-- Numbers that are related when they are equal, filed by their parity. -/
def parities : BucketedElement ℕ ℕ := { ElementSet.Run.numbers with bucket := fun n => n % 2 }

theorem parities_sharesBuckets : parities.SharesBuckets := fun _ _ h =>
  congrArg (· % 2) (of_decide_eq_true h)

/-- The numbers 3 and 4, and their images under a map that keeps the parities. -/
theorem bucketed_same_numbers :
    let run : Run ℕ := .transform (.map (· + 2)) (.add 4 (.add 3 .bottom))
    Same parities (.never _) (.never _) (.never _) (run.eval parities (.never _) (.never _))
      (run.evalSet (.never _) parities.toElement) := by
  have hkept : Kept parities (.never _) (.transform (.map (· + 2)) (.add 4 (.add 3 .bottom))) :=
    ⟨trivial, fun set _ x _ => Nat.add_mod_right x 2⟩
  exact (bucketed_same_iff parities ElementSet.Run.numbers_partialOrder parities_sharesBuckets
    (.never _) (.never _) (.never _) _ hkept).1

/-- The image 2 of the number 1 stays in the bucket of 1: it does not lie below the set of 2, and
    joined with it, it is there twice. -/
theorem not_bucketed_same :
    let phys : PhysEq (SortedMap ℕ (SortedSet ℕ)) := .never _
    let mapped : Run ℕ := .transform (.map (· + 1)) (.add 1 .bottom)
    let two : Run ℕ := .add 2 .bottom
    let le := (parities.domain phys (.never _)).lessOrEqual
    parities.PartialOrder ∧ parities.SharesBuckets ∧
      (∃ left right, mapped.eval parities phys (.never _) = .ok left ∧
        two.eval parities phys (.never _) = .ok right ∧ le left right = false) ∧
      (∃ left right, mapped.evalSet (.never _) parities.toElement = .ok left ∧
        two.evalSet (.never _) parities.toElement = .ok right ∧
        parities.lessOrEqualSet left right = true) ∧
      ((Run.join mapped two).eval parities phys (.never _)).map elements = .ok [2, 2] ∧
      ((Run.join mapped two).evalSet (.never _) parities.toElement).map SortedSet.elements =
        .ok [2] :=
  ⟨ElementSet.Run.numbers_partialOrder, parities_sharesBuckets, ⟨_, _, rfl, rfl, by decide⟩,
    ⟨_, _, rfl, rfl, by decide⟩, by decide, by decide⟩

end Run

end BucketedElementSet

end Pysa
