/-
  Subject: TABLES WITH KEYS ARE FINITE MAPS (`FirstClassWithKeys`, `sharedMemory.ml`).

  * `Maps`, `Maps.apply` -- what the operations do to the maps that the tables stand for;
  * `Maps.Answers` -- what is read of the maps;
  * `Represents` -- the tables hold the maps, their handles the keys;
  * `Represents.step_spec` -- **each operation of a process answers as the maps**, unless it reads a
    stale key through the cache, or fails at a key that is given twice.
-/
import Mathlib.Data.Set.Basic
import Pysa.Heap.FirstClassWithKeysView

namespace Pysa.SharedMemory.FirstClassWithKeys

variable {K D V : Type} [DecidableEq K] [DecidableEq D]

/-! ## 1. Maps -/

/-- The maps that all tables stand for: their values, those that have been made old, and the keys
    that have been given a value. -/
structure Maps (K V : Type) where
  new : TupleKey K → Option V
  old : TupleKey K → Option V
  keys : ℕ → Set K
  next : ℕ

namespace Maps

def empty : Maps K V := ⟨fun _ => none, fun _ => none, fun _ => ∅, 0⟩

def keysOf (list : List (K × V)) : Set K := {x | x ∈ list.map Prod.fst}

/-- A new map of the bindings. -/
def create (list : List (K × V)) (m : Maps K V) : Maps K V where
  new := atTable m.next (fun x _ => list.lookup x) m.new
  old := m.old
  keys := Function.update m.keys m.next (keysOf list)
  next := m.next + 1

/-- The bindings are put into a map, each with what the map binds its key to. -/
def combine (id : ℕ) (list : List (K × V)) (change : K → Option V → Option V) (m : Maps K V) :
    Maps K V :=
  { m with
    new := atTable id change m.new
    keys := Function.update m.keys id (m.keys id ∪ keysOf list) }

def extend (id : ℕ) (list : List (K × V)) (m : Maps K V) : Maps K V :=
  m.combine id list fun x existing => (list.lookup x).or existing

def apply : Operation K V → Maps K V → Maps K V
  | .ofAlistSequential list, m => m.create list
  | .ofAlistParallel _ list, m => m.create list
  | .mergeWithAlistSequential id f list, m =>
    m.combine id list fun x existing => Option.merge f existing (list.lookup x)
  | .addAlistSequential id alist, m => m.extend id alist
  | .addParallel id merge, m => m.extend id merge.entries
  | .mapParallelKeys id f chunks, m =>
    { m with
      new := atTable id
        (fun x existing => if x ∈ chunks.flatten then existing.map (f x) else existing) m.new }
  | .oldifyBatch id batch, m =>
    { m with
      new := atTable id (fun x existing => if x ∈ batch then none else existing) m.new
      old := fun x => if x.1 = id ∧ x.2 ∈ batch then m.new x else m.old x }
  | .setNew id _ x y, m => { m with new := Function.update m.new (id, x) (some y) }
  | .removeOldBatch id batch, m =>
    { m with old := atTable id (fun x existing => if x ∈ batch then none else existing) m.old }
  | .keys _, m => m
  | .toAlist _, m => m
  | .foldSequential _, m => m
  | .get _ _ _, m => m
  | .getOld _ _, m => m

/-- A table is used after it has been created. Workers are given all of the list or of distinct
    keys, in chunks, and merge the table itself once, unless it has no keys. A value is set once
    after its key was made old, and no old value is in the way of a map or of another old value. -/
def Allowed (m : Maps K V) : Operation K V → Prop
  | .ofAlistSequential _ => True
  | .ofAlistParallel chunks list => chunks.flatten.Perm list
  | .mergeWithAlistSequential id _ _ => id < m.next
  | .addAlistSequential id _ => id < m.next
  | .addParallel id merge => id < m.next ∧ (merge.tables = 1 ∨ m.keys id = ∅)
  | .mapParallelKeys id _ chunks => id < m.next ∧ chunks.flatten.Nodup ∧
      ∀ x ∈ chunks.flatten, m.old (id, x) = none
  | .oldifyBatch id batch => id < m.next ∧ ∀ x ∈ batch, m.old (id, x) = none
  | .setNew id _ x _ => id < m.next ∧ x ∈ m.keys id ∧ m.new (id, x) = none
  | .removeOldBatch id _ => id < m.next
  | .keys id => id < m.next
  | .toAlist id => id < m.next
  | .foldSequential id => id < m.next
  | .get id _ _ => id < m.next
  | .getOld id _ => id < m.next

/-- No key is given twice, and none is added to a map that has it. -/
def Distinct (m : Maps K V) : Operation K V → Prop
  | .ofAlistSequential list => (list.map Prod.fst).Nodup
  | .ofAlistParallel _ list => (list.map Prod.fst).Nodup
  | .mergeWithAlistSequential _ _ list => (list.map Prod.fst).Nodup
  | .addAlistSequential id alist =>
    (alist.map Prod.fst).Nodup ∧ ∀ x ∈ alist.map Prod.fst, x ∉ m.keys id
  | .addParallel id merge =>
    (merge.entries.map Prod.fst).Nodup ∧ ∀ x ∈ merge.entries.map Prod.fst, x ∉ m.keys id
  | .mapParallelKeys _ _ _ => True
  | .oldifyBatch _ _ => True
  | .setNew _ _ _ _ => True
  | .removeOldBatch _ _ => True
  | .keys _ => True
  | .toAlist _ => True
  | .foldSequential _ => True
  | .get _ _ _ => True
  | .getOld _ _ => True

/-- What is read of the maps. The answer of a map over a table is what its function is applied to:
    the bindings of the given keys, each once. -/
def Answers (m : Maps K V) : Operation K V → Answer K V → Prop
  | .keys id, .keys keys => keys.Nodup ∧ (∀ x, x ∈ keys ↔ x ∈ m.keys id) ∧
      ∀ x v, m.new (id, x) = some v ∨ m.old (id, x) = some v → x ∈ keys
  | .toAlist id, .bindings bindings => Lists (fun x => m.new (id, x)) bindings
  | .foldSequential id, .bindings bindings => Lists (fun x => m.new (id, x)) bindings
  | .mapParallelKeys id _ chunks, .bindings applied =>
    Lists (fun x => if x ∈ chunks.flatten then m.new (id, x) else none) applied
  | .get id _ x, .value value => value = m.new (id, x)
  | .getOld id x, .value value => value = m.old (id, x)
  | .ofAlistSequential _, .unit => True
  | .ofAlistParallel _ _, .unit => True
  | .mergeWithAlistSequential _ _ _, .unit => True
  | .addAlistSequential _ _, .unit => True
  | .addParallel _ _, .unit => True
  | .oldifyBatch _ _, .unit => True
  | .setNew _ _ _ _, .unit => True
  | .removeOldBatch _ _, .unit => True
  | _, _ => False

/-- The keys that an operation reads through the cache of its process. -/
def cachedReads (m : Maps K V) : Operation K V → Set (TupleKey K)
  | .get id true x => {(id, x)}
  | .toAlist id => {y | y.1 = id ∧ y.2 ∈ m.keys id}
  | _ => ∅

/-- The keys with a value are among the keys, and the tables to come have none. -/
structure WellFormed (m : Maps K V) : Prop where
  new : ∀ id x v, m.new (id, x) = some v → x ∈ m.keys id
  old : ∀ id x v, m.old (id, x) = some v → x ∈ m.keys id
  fresh : ∀ id, m.next ≤ id → m.keys id = ∅

omit [DecidableEq K] in
theorem wellFormed_empty : (empty : Maps K V).WellFormed :=
  ⟨fun _ _ _ h => (Option.some_ne_none _ h.symm).elim,
    fun _ _ _ h => (Option.some_ne_none _ h.symm).elim, fun _ _ => rfl⟩

variable {m : Maps K V}

theorem WellFormed.create (h : m.WellFormed) (list : List (K × V)) : (m.create list).WellFormed := by
  refine ⟨fun id x v hv => ?_, fun id x v hv => ?_, fun id hid => ?_⟩
  · by_cases heq : id = m.next
    · subst heq
      simp only [Maps.create, atTable, if_true] at hv ⊢
      rw [Function.update_self]
      exact mem_of_lookup hv
    · simp only [Maps.create, atTable, if_neg heq] at hv ⊢
      rw [Function.update_of_ne heq]
      exact h.new id x v hv
  · by_cases heq : id = m.next
    · subst heq
      have hmem := h.old _ x v hv
      rw [h.fresh _ le_rfl] at hmem
      exact absurd hmem (Set.notMem_empty x)
    · simp only [Maps.create]
      rw [Function.update_of_ne heq]
      exact h.old id x v hv
  · have hlt : m.next < id := hid
    simp only [Maps.create]
    rw [Function.update_of_ne hlt.ne', h.fresh id hlt.le]

omit [DecidableEq K] in
theorem WellFormed.combine (h : m.WellFormed) {id : ℕ} (hid : id < m.next) {list : List (K × V)}
    {change : K → Option V → Option V}
    (hchange : ∀ x existing v, change x existing = some v →
      x ∈ list.map Prod.fst ∨ existing.isSome) :
    (m.combine id list change).WellFormed := by
  refine ⟨fun id' x v hv => ?_, fun id' x v hv => ?_, fun id' hid' => ?_⟩
  · by_cases heq : id' = id
    · subst heq
      simp only [Maps.combine, atTable, if_true, Function.update_self] at hv ⊢
      rcases hchange x _ v hv with hx | hx
      · exact Or.inr hx
      · obtain ⟨w, hw⟩ := Option.isSome_iff_exists.mp hx
        exact Or.inl (h.new _ x w hw)
    · simp only [Maps.combine, atTable, if_neg heq] at hv ⊢
      rw [Function.update_of_ne heq]
      exact h.new id' x v hv
  · have hmem := h.old id' x v hv
    by_cases heq : id' = id
    · subst heq
      simp only [Maps.combine, Function.update_self]
      exact Or.inl hmem
    · simp only [Maps.combine, Function.update_of_ne heq]
      exact hmem
  · have hlt : id < id' := hid.trans_le hid'
    simp only [Maps.combine, Function.update_of_ne hlt.ne']
    exact h.fresh id' hid'

theorem WellFormed.extend (h : m.WellFormed) {id : ℕ} (hid : id < m.next) (list : List (K × V)) :
    (m.extend id list).WellFormed := by
  refine h.combine hid fun x existing v hv => ?_
  rcases Option.or_eq_some_iff.mp hv with hlookup | ⟨-, hexisting⟩
  · exact Or.inl (mem_of_lookup hlookup)
  · exact Or.inr (Option.isSome_iff_exists.mpr ⟨v, hexisting⟩)

omit [DecidableEq K] in
/-- Values that were there before, among the keys that are kept. -/
theorem WellFormed.values (h : m.WellFormed) {new old : TupleKey K → Option V}
    (hnew : ∀ id x v, new (id, x) = some v → x ∈ m.keys id)
    (hold : ∀ id x v, old (id, x) = some v → x ∈ m.keys id) :
    ({ m with new, old } : Maps K V).WellFormed :=
  ⟨hnew, hold, h.fresh⟩

omit [DecidableEq K] in
theorem mem_of_atTable {values : TupleKey K → Option V} {id : ℕ} {change : K → Option V → Option V}
    (hvalues : ∀ id x v, values (id, x) = some v → x ∈ m.keys id)
    (hchange : ∀ x v, change x none ≠ some v) (id' : ℕ) (x : K) (v : V)
    (hv : atTable id change values (id', x) = some v) : x ∈ m.keys id' := by
  unfold atTable at hv
  dsimp only at hv
  cases hexisting : values (id', x) with
  | none =>
    rw [hexisting] at hv
    split_ifs at hv
    exact absurd hv (hchange x v)
  | some w => exact hvalues id' x w hexisting

theorem WellFormed.apply (h : m.WellFormed) {op : Operation K V} (hop : m.Allowed op) :
    (m.apply op).WellFormed := by
  cases op with
  | ofAlistSequential list => exact h.create list
  | ofAlistParallel chunks list => exact h.create list
  | mergeWithAlistSequential id f list =>
    refine h.combine hop fun x existing v hv => ?_
    cases hlookup : list.lookup x with
    | none =>
      rw [hlookup, Option.merge_none_right] at hv
      exact Or.inr (Option.isSome_iff_exists.mpr ⟨v, hv⟩)
    | some w => exact Or.inl (mem_of_lookup hlookup)
  | addAlistSequential id alist => exact h.extend hop alist
  | addParallel id merge => exact h.extend hop.1 merge.entries
  | mapParallelKeys id f chunks =>
    refine h.values (mem_of_atTable h.new fun x v hv => ?_) h.old
    split_ifs at hv
    cases hv
  | oldifyBatch id batch =>
    refine h.values (mem_of_atTable h.new fun x v hv => ?_) fun id' x v hv => ?_
    · split_ifs at hv
    · split_ifs at hv
      · exact h.new id' x v hv
      · exact h.old id' x v hv
  | setNew id cache x y =>
    refine h.values (fun id' x' v hv => ?_) h.old
    rw [Function.update_apply] at hv
    split_ifs at hv with heq
    · obtain ⟨rfl, rfl⟩ := Prod.mk.inj heq
      exact hop.2.1
    · exact h.new id' x' v hv
  | removeOldBatch id batch =>
    refine h.values h.new (mem_of_atTable h.old fun x v hv => ?_)
    split_ifs at hv
  | keys id => exact h
  | toAlist id => exact h
  | foldSequential id => exact h
  | get id cache x => exact h
  | getOld id x => exact h

end Maps

/-! ## 2. The tables -/

/-- The tables hold the maps, and their handles the keys, each once. The cache may hold other values
    for stale keys. -/
structure Represents (key : KeyFunctor (TupleKey K) D) (stale : Set (TupleKey K)) (m : Maps K V)
    (tables : Tables K D V) : Prop where
  view : TableView key stale tables.global m.new m.old
  next : tables.nextTableId = m.next
  nodup : ∀ id, (tables.keys id).Nodup
  keys : ∀ id x, x ∈ tables.keys id ↔ x ∈ m.keys id
  wellFormed : m.WellFormed

namespace Represents

variable {key : KeyFunctor (TupleKey K) D}
  {iteration : IterationOrder (Sigma fun _ : TupleKey K => ℕ × V)} {stale : Set (TupleKey K)}
  {m : Maps K V} {tables : Tables K D V} {id : ℕ}

theorem empty : Represents key stale (Maps.empty : Maps K V) Tables.empty where
  view := ⟨LocalCache.empty_valid, fun x v _ h => absurd h (LocalCache.empty_finds x v),
    fun _ => NoCache.get_eq _ _, fun _ => NoCache.getOld_eq _ _ _⟩
  next := rfl
  nodup := fun _ => List.nodup_nil
  keys := fun _ x => iff_of_false List.not_mem_nil (Set.notMem_empty x)
  wellFormed := Maps.wellFormed_empty

theorem mem_keys (h : Represents key stale m tables) {x : K} {v : V} (hv : m.new (id, x) = some v) :
    x ∈ tables.keys id :=
  (h.keys id x).mpr (h.wellFormed.new id x v hv)

theorem new_of_notMem (h : Represents key stale m tables) {x : K} (hx : x ∉ m.keys id) :
    m.new (id, x) = none := by
  cases hv : m.new (id, x) with
  | none => rfl
  | some v => exact absurd (h.wellFormed.new id x v hv) hx

theorem created (h : Represents key stale m tables) {list : List (K × V)}
    (hnodup : (list.map Prod.fst).Nodup) {written : List (K × V)}
    (hwritten : ∀ x, written.lookup x = list.lookup x) :
    Represents key stale (m.create list) (tables.created
      (⟨tables.nextTableId, list.map Prod.fst⟩,
        writeAll key tables.nextTableId written tables.global)) := by
  have hview := writeAll_view m.next h.view written
  have hsame : atTable m.next (fun x existing => existing.or (written.lookup x)) m.new =
      atTable m.next (fun x _ => list.lookup x) m.new := by
    funext ⟨i, x⟩
    unfold atTable
    split_ifs with hi
    · have hnone : m.new (i, x) = none := by
        refine h.new_of_notMem ?_
        rw [h.wellFormed.fresh i (le_of_eq hi.symm)]
        exact Set.notMem_empty x
      dsimp only
      rw [hnone, Option.none_or, hwritten]
    · rfl
  rw [hsame] at hview
  refine ⟨by rw [h.next]; exact hview, congrArg (· + 1) h.next, fun id => ?_, fun id x => ?_,
    h.wellFormed.create list⟩
  · simp only [Tables.created, Function.update_apply]
    split_ifs
    · exact hnodup
    · exact h.nodup id
  · simp only [Tables.created, Maps.create, h.next, Function.update_apply]
    split_ifs
    · exact Iff.rfl
    · exact h.keys id x

theorem changed (h : Represents key stale m tables) {list : List (K × V)}
    {change : K → Option V → Option V} {global : Global K D V} {keys : List K}
    (hview : TableView key stale global (atTable id change m.new) m.old) (hnodup : keys.Nodup)
    (hkeys : ∀ x, x ∈ keys ↔ x ∈ tables.keys id ∨ x ∈ list.map Prod.fst)
    (hwellFormed : (m.combine id list change).WellFormed) :
    Represents key stale (m.combine id list change) (tables.changed (⟨id, keys⟩, global)) := by
  refine ⟨hview, h.next, fun id' => ?_, fun id' x => ?_, hwellFormed⟩
  · simp only [Tables.changed, Function.update_apply]
    split_ifs
    · exact hnodup
    · exact h.nodup id'
  · simp only [Tables.changed, Maps.combine, Function.update_apply]
    split_ifs
    · exact (hkeys x).trans (or_congr (h.keys id x) Iff.rfl)
    · exact h.keys id' x

/-- Only the values change. -/
theorem values (h : Represents key stale m tables) {global : Global K D V} {new old : TupleKey K → Option V}
    (hview : TableView key stale global new old)
    (hwellFormed : ({ m with new, old } : Maps K V).WellFormed) :
    Represents key stale { m with new, old } { tables with global } :=
  ⟨hview, h.next, h.nodup, h.keys, hwellFormed⟩

/-! ## 3. Additions -/

theorem nodup_added (h : Represents key stale m tables) {alist : List (K × V)} {keys : List K}
    (hperm : keys.Perm (tables.keys id ++ alist.map Prod.fst)) :
    keys.Nodup ↔ (alist.map Prod.fst).Nodup ∧ ∀ x ∈ alist.map Prod.fst, x ∉ m.keys id := by
  rw [hperm.nodup_iff, List.nodup_append']
  constructor
  · rintro ⟨-, hnodup, hdisjoint⟩
    exact ⟨hnodup, fun x hx hin => hdisjoint ((h.keys id x).mpr hin) hx⟩
  · rintro ⟨hnodup, hdisjoint⟩
    exact ⟨h.nodup id, hnodup, fun x hin hx => hdisjoint x hx ((h.keys id x).mp hin)⟩

theorem added (h : Represents key stale m tables) (hid : id < m.next) {alist : List (K × V)}
    {keys : List K} (hperm : keys.Perm (tables.keys id ++ alist.map Prod.fst))
    (hdistinct : ∀ x ∈ alist.map Prod.fst, x ∉ m.keys id) (hnodup : keys.Nodup) :
    Represents key stale (m.extend id alist)
      (tables.changed (⟨id, keys⟩, writeAll key id alist tables.global)) := by
  refine h.changed ?_ hnodup (fun x => hperm.mem_iff.trans List.mem_append)
    (h.wellFormed.extend hid alist)
  have hview := writeAll_view id h.view alist
  have hsame : atTable id (fun x existing => existing.or (alist.lookup x)) m.new =
      atTable id (fun x existing => (alist.lookup x).or existing) m.new := by
    funext ⟨i, x⟩
    unfold atTable
    split_ifs with hi
    · dsimp only at hi ⊢
      subst hi
      cases hlookup : alist.lookup x with
      | none => rw [Option.none_or, Option.or_none]
      | some v => rw [h.new_of_notMem (hdistinct x (mem_of_lookup hlookup)), Option.none_or,
          Option.some_or]
    · rfl
  rw [hsame] at hview
  exact hview

/-! ## 4. One operation -/

variable (iteration) in
/-- What the code does with an operation: it answers as the maps, or fails at a key that is given
    twice. -/
def StepSpec (key : KeyFunctor (TupleKey K) D) (stale : Set (TupleKey K)) (m : Maps K V)
    (tables : Tables K D V) (op : Operation K V) : Prop :=
  (m.Distinct op → ∃ answer tables', step key iteration op tables = .ok (answer, tables') ∧
    m.Answers op answer ∧ Represents key stale (m.apply op) tables') ∧
  (¬ m.Distinct op → ∃ message, step key iteration op tables = .error message)

theorem step_created (h : Represents key stale m tables) {list : List (K × V)} (written : List (K × V))
    {op : Operation K V}
    (hlookup : (list.map Prod.fst).Nodup → ∀ x, written.lookup x = list.lookup x)
    (hstep : step key iteration op tables =
      (if hasDuplicates (list.map Prod.fst) then .error "of_alist_sequential: duplicate key"
        else Except.ok (⟨tables.nextTableId, list.map Prod.fst⟩,
          writeAll key tables.nextTableId written tables.global)) >>= fun result =>
        pure (.unit, tables.created result))
    (hdistinct : m.Distinct op ↔ (list.map Prod.fst).Nodup) (hanswer : m.Answers op .unit)
    (happly : m.apply op = m.create list) : StepSpec iteration key stale m tables op := by
  refine ⟨fun hop => ?_, fun hop => ?_⟩
  · have hnodup := hdistinct.mp hop
    rw [hasDuplicates_eq_false.mpr hnodup] at hstep
    exact ⟨.unit, _, hstep, hanswer, happly ▸ h.created hnodup (hlookup hnodup)⟩
  · have hduplicates : hasDuplicates (list.map Prod.fst) = true := by
      rw [← Bool.not_eq_false, hasDuplicates_eq_false, ← hdistinct]
      exact hop
    rw [hduplicates] at hstep
    exact ⟨_, hstep⟩

theorem step_added (h : Represents key stale m tables) (hid : id < m.next) {alist : List (K × V)}
    (keys : List K) (hperm : keys.Perm (tables.keys id ++ alist.map Prod.fst)) {op : Operation K V}
    (hstep : step key iteration op tables =
      (fromAddOnly ⟨id, keys⟩ >>= fun handle => pure (handle, writeAll key id alist tables.global)) >>=
        fun result => pure (.unit, tables.changed result))
    (hdistinct : m.Distinct op ↔
      (alist.map Prod.fst).Nodup ∧ ∀ x ∈ alist.map Prod.fst, x ∉ m.keys id)
    (hanswer : m.Answers op .unit) (happly : m.apply op = m.extend id alist) :
    StepSpec iteration key stale m tables op := by
  rw [fromAddOnly] at hstep
  refine ⟨fun hop => ?_, fun hop => ?_⟩
  · have hnodup := (h.nodup_added hperm).mpr (hdistinct.mp hop)
    rw [hasDuplicates_eq_false.mpr hnodup] at hstep
    exact ⟨.unit, _, hstep, hanswer, happly ▸ h.added hid hperm (hdistinct.mp hop).2 hnodup⟩
  · have hduplicates : hasDuplicates keys = true := by
      rw [← Bool.not_eq_false, hasDuplicates_eq_false, h.nodup_added hperm, ← hdistinct]
      exact hop
    rw [hduplicates] at hstep
    exact ⟨_, hstep⟩

theorem step_merge (h : Represents key stale m tables) (hid : id < m.next) (f : V → V → V)
    (list : List (K × V)) :
    StepSpec iteration key stale m tables (.mergeWithAlistSequential id f list) := by
  have hwellFormed : (m.apply (.mergeWithAlistSequential id f list)).WellFormed :=
    h.wellFormed.apply hid
  obtain ⟨global, new, hmerge, hview, hnew⟩ := mergeAll_view id h.view f list
  have hlength : (keySet (list.map Prod.fst)).length = list.length ↔ (list.map Prod.fst).Nodup := by
    rw [← length_keySet, List.length_map]
  have hstep : step key iteration (.mergeWithAlistSequential id f list) tables =
      (if (keySet (list.map Prod.fst)).length ≠ list.length then
          .error "merge_with_alist_sequential: duplicate key"
        else Except.ok (⟨id, keySet (tables.keys id ++ keySet (list.map Prod.fst))⟩, global)) >>=
        fun result => pure (.unit, tables.changed result) := by
    simp only [step, mergeWithAlistSequential, Tables.handle, hmerge, bind, Except.bind]
    rfl
  refine ⟨fun hop => ?_, fun hop => ?_⟩
  · rw [if_neg (not_not.mpr (hlength.mpr hop))] at hstep
    refine ⟨.unit, _, hstep, trivial, h.changed (hnew hop ▸ hview) (nodup_keySet _) (fun x => ?_)
      hwellFormed⟩
    rw [mem_keySet, List.mem_append, mem_keySet]
  · rw [if_pos fun heq => hop (hlength.mp heq)] at hstep
    exact ⟨_, hstep⟩

theorem step_map (h : Represents key stale m tables) {f : K → V → V} {chunks : List (List K)}
    (hop : m.Allowed (.mapParallelKeys id f chunks)) :
    StepSpec iteration key stale m tables (.mapParallelKeys id f chunks) := by
  refine ⟨fun _ => ?_, fun hdistinct => absurd trivial hdistinct⟩
  have hwellFormed := h.wellFormed.apply hop
  obtain ⟨hid, hnodup, hfree⟩ := hop
  obtain ⟨applied, global, hmap, hperm, hview⟩ :=
    mapParallelKeys_view h.view (tables.handle id) f hfree
  refine ⟨.bindings applied, { tables with global }, ?_, ?_,
    h.values hview hwellFormed⟩
  · simp only [step, hmap, bind, Except.bind]
    rfl
  · refine Lists.perm ⟨nodup_bindings hnodup, fun x v => ?_⟩ hperm.symm
    rw [mem_bindings]
    constructor
    · rintro ⟨hx, hv⟩
      exact (if_pos hx).trans hv
    · intro hv
      split_ifs at hv with hx
      exact ⟨hx, hv⟩

omit [DecidableEq K] in
theorem foldl_visited (bindings visited : List (K × V)) :
    bindings.foldl (fun visited entry => visited ++ [(entry.1, entry.2)]) visited =
      visited ++ bindings := by
  induction bindings generalizing visited with
  | nil => exact (List.append_nil visited).symm
  | cons entry rest ih => rw [List.foldl_cons, ih, List.append_assoc, List.singleton_append]

variable (iteration) in
theorem step_spec (h : Represents key stale m tables) {op : Operation K V} (hop : m.Allowed op)
    (hfresh : ∀ x ∈ m.cachedReads op, x ∉ stale) : StepSpec iteration key stale m tables op := by
  have total : (m.Distinct op → ∃ answer tables', step key iteration op tables =
      .ok (answer, tables') ∧ m.Answers op answer ∧ Represents key stale (m.apply op) tables') →
      m.Distinct op → StepSpec iteration key stale m tables op :=
    fun hok hdistinct => ⟨hok, fun hnot => absurd hdistinct hnot⟩
  cases op with
  | ofAlistSequential list => exact h.step_created list (fun _ _ => rfl) rfl Iff.rfl trivial rfl
  | ofAlistParallel chunks list =>
    refine h.step_created chunks.flatten (fun hnodup x => ?_) ?_ Iff.rfl trivial rfl
    · exact (lookup_perm hop.symm hnodup x).symm
    · rw [step, ofAlistParallel, foldl_writeAll]
  | mergeWithAlistSequential id f list => exact h.step_merge hop f list
  | addAlistSequential id alist =>
    refine h.step_added hop ((alist.map Prod.fst).reverse ++ tables.keys id)
      ?_ ?_ Iff.rfl trivial rfl
    · exact ((List.reverse_perm _).append_right _).trans List.perm_append_comm
    · rw [step, addAlistSequential, addAll_eq]
      rfl
  | addParallel id merge =>
    refine h.step_added hop.1 (merge.keys (tables.keys id)) ?_ ?_
      Iff.rfl trivial rfl
    · refine (merge.keys_perm (tables.keys id)).trans (List.Perm.append_right _ ?_)
      rcases hop.2 with hone | hempty
      · rw [hone, List.replicate_one, List.flatten_singleton]
      · have hnil : tables.keys id = [] := List.eq_nil_iff_forall_not_mem.mpr fun x hx => by
          have hmem := (h.keys id x).mp hx
          rw [hempty] at hmem
          exact hmem
        rw [hnil, List.flatten_replicate_nil]
    · rw [step, addParallel, Merge.run_eq]
      rfl
  | mapParallelKeys id f chunks => exact h.step_map hop
  | oldifyBatch id batch =>
    refine total (fun _ => ?_) trivial
    have hwellFormed := h.wellFormed.apply hop
    obtain ⟨global, holdify, hview⟩ := h.view.oldifyBatch (nodup_withId id
      (nodup_keySet batch)) fun x hx => by
        obtain ⟨rfl, hbatch⟩ := mem_withId.mp hx
        exact hop.2 x.2 (mem_keySet.mp hbatch)
    simp only [mem_withId, mem_keySet] at hview
    refine ⟨.unit, { tables with global }, ?_, trivial,
      h.values ?_ hwellFormed⟩
    · simp only [step, oldifyBatch, Tables.handle, holdify, bind, Except.bind]
      rfl
    · convert hview using 1
      funext x
      unfold atTable
      split_ifs <;> simp_all
  | setNew id cache x y =>
    refine total (fun _ => ?_) trivial
    have hwellFormed := h.wellFormed.apply hop
    have hset : ∃ global, PreserveKeyOnly.setNew key iteration (tables.handle id) cache x y
        tables.global = .ok global ∧
        TableView key stale global (Function.update m.new (id, x) (some y)) m.old := by
      unfold PreserveKeyOnly.setNew
      cases cache with
      | true => exact h.view.add iteration hop.2.2 y
      | false =>
        have hview := h.view.writeAround (id, x) y
        rw [hop.2.2] at hview
        exact ⟨_, rfl, hview⟩
    obtain ⟨global, hset, hview⟩ := hset
    refine ⟨.unit, { tables with global }, ?_, trivial,
      h.values hview hwellFormed⟩
    simp only [step, hset, bind, Except.bind]
    rfl
  | removeOldBatch id batch =>
    refine total (fun _ => ?_) trivial
    have hwellFormed := h.wellFormed.apply hop
    obtain ⟨global, hremove, hview⟩ := h.view.removeOldBatch (nodup_withId id
      (nodup_keySet batch))
    simp only [mem_withId, mem_keySet] at hview
    refine ⟨.unit, { tables with global }, ?_, trivial,
      h.values ?_ hwellFormed⟩
    · simp only [step, removeOldBatch, Tables.handle, hremove, bind, Except.bind]
      rfl
    · convert hview using 1
      funext x
      unfold atTable
      split_ifs <;> simp_all
  | keys id =>
    refine total (fun _ => ⟨.keys (tables.keys id), tables, rfl, ⟨h.nodup id, h.keys id, ?_⟩, h⟩)
      trivial
    rintro x v (hv | hv)
    · exact h.mem_keys hv
    · exact (h.keys id x).mpr (h.wellFormed.old id x v hv)
  | toAlist id =>
    refine total (fun _ => ?_) trivial
    obtain ⟨bindings, global, hlist, hlists, hview⟩ := toAlist_view iteration h.view
      (tables.handle id) (h.nodup id) (fun x v hv => h.mem_keys hv)
      fun x hx => hfresh (id, x) ⟨rfl, (h.keys id x).mp hx⟩
    refine ⟨.bindings bindings, { tables with global }, ?_, hlists, h.values hview h.wellFormed⟩
    simp only [step, hlist, bind, Except.bind]
    rfl
  | foldSequential id =>
    refine total (fun _ => ⟨_, tables, rfl, ?_, h⟩) trivial
    have hfold := foldSequential_eq h.view.heap (tables.handle id) ([] : List (K × V))
      fun x value visited => visited ++ [(x, value)]
    rw [hfold, foldl_visited, List.nil_append]
    exact lists_bindings (h.nodup id) fun x v hv => h.mem_keys hv
  | get id cache x =>
    refine total (fun _ => ?_) trivial
    have hget : ∃ global, ReadOnly.get key iteration (tables.handle id) cache x tables.global =
        .ok (m.new (id, x), global) ∧ TableView key stale global m.new m.old := by
      unfold ReadOnly.get
      cases cache with
      | true => exact h.view.get iteration (hfresh (id, x) rfl)
      | false =>
        refine ⟨tables.global, ?_, h.view⟩
        rw [← h.view.heap.new]
        rfl
    obtain ⟨global, hget, hview⟩ := hget
    refine ⟨.value (m.new (id, x)), { tables with global }, ?_, rfl, h.values hview h.wellFormed⟩
    simp only [step, hget, bind, Except.bind]
    rfl
  | getOld id x =>
    refine total (fun _ => ⟨_, tables, rfl, ?_, h⟩) trivial
    exact h.view.heap.old (id, x)

end Represents

end Pysa.SharedMemory.FirstClassWithKeys
