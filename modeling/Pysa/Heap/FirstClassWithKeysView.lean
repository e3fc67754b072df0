/-
  Subject: THE OPERATIONS ON WHOLE TABLES, ON THE MAPS (`FirstClassWithKeys`, `sharedMemory.ml`).

  * `atTable` -- a change of the values of one table;
  * `Lists` -- a list of exactly the bindings of a map;
  * `writeAll_view`, `mergeAll_view`, `mapParallelKeys_view` and so on -- what each operation does to
    the new and the old values.
-/
import Mathlib.Data.List.Dedup
import Pysa.Heap.TableView

namespace Pysa.SharedMemory.FirstClassWithKeys

variable {K D V : Type} [DecidableEq K] [DecidableEq D] {key : KeyFunctor (TupleKey K) D}
  {iteration : IterationOrder (Sigma fun _ : TupleKey K => ℕ × V)} {global : Global K D V}
  {stale : Set (TupleKey K)} {new old : TupleKey K → Option V} {id : ℕ}

/-! ## 1. Values and bindings -/

/-- The values with those of one table changed. -/
def atTable (id : ℕ) (change : K → Option V → Option V) (values : TupleKey K → Option V) :
    TupleKey K → Option V :=
  fun x => if x.1 = id then change x.2 (values x) else values x

/-- A change after the value at one key was set. -/
theorem atTable_update {values : TupleKey K → Option V} {change change' : K → Option V → Option V}
    {k : K} {value : Option V} (hk : change k value = change' k (values (id, k)))
    (hne : ∀ x, x ≠ k → ∀ existing, change x existing = change' x existing) :
    atTable id change (Function.update values (id, k) value) = atTable id change' values := by
  funext x
  obtain ⟨i, x⟩ := x
  unfold atTable
  by_cases hi : i = id
  · subst hi
    by_cases hx : x = k
    · subst hx
      rw [if_pos rfl, if_pos rfl, Function.update_self, hk]
    · rw [if_pos rfl, if_pos rfl, Function.update_of_ne fun heq => hx (Prod.mk.inj heq).2,
        hne x hx]
  · rw [if_neg hi, if_neg hi, Function.update_of_ne fun heq => hi (Prod.mk.inj heq).1]

/-- The bindings of a map, once each, in some order. -/
structure Lists (values : K → Option V) (bindings : List (K × V)) : Prop where
  nodup : (bindings.map Prod.fst).Nodup
  mem : ∀ x v, (x, v) ∈ bindings ↔ values x = some v

def binding (values : K → Option V) (x : K) : Option (K × V) := (values x).map fun v => (x, v)

omit [DecidableEq K] in
theorem binding_eq_some {values : K → Option V} {x : K} {entry : K × V} :
    binding values x = some entry ↔ x = entry.1 ∧ values entry.1 = some entry.2 := by
  unfold binding
  constructor
  · intro h
    obtain ⟨v, hv, rfl⟩ := Option.map_eq_some_iff.mp h
    exact ⟨rfl, hv⟩
  · rintro ⟨rfl, hv⟩
    rw [hv]
    rfl

omit [DecidableEq K] in
theorem mem_bindings {values : K → Option V} {xs : List K} {entry : K × V} :
    entry ∈ xs.filterMap (binding values) ↔ entry.1 ∈ xs ∧ values entry.1 = some entry.2 := by
  rw [List.mem_filterMap]
  constructor
  · rintro ⟨x, hx, hbinding⟩
    obtain ⟨rfl, hv⟩ := binding_eq_some.mp hbinding
    exact ⟨hx, hv⟩
  · rintro ⟨hx, hv⟩
    exact ⟨entry.1, hx, binding_eq_some.mpr ⟨rfl, hv⟩⟩

omit [DecidableEq K] in
theorem nodup_bindings {values : K → Option V} {xs : List K} (h : xs.Nodup) :
    ((xs.filterMap (binding values)).map Prod.fst).Nodup := by
  induction xs with
  | nil => exact List.nodup_nil
  | cons x rest ih =>
    obtain ⟨hnotin, hrest⟩ := List.nodup_cons.mp h
    rw [List.filterMap_cons]
    cases hx : binding values x with
    | none => exact ih hrest
    | some entry =>
      refine List.nodup_cons.mpr ⟨fun hmem => ?_, ih hrest⟩
      obtain ⟨entry', hentry', heq⟩ := List.mem_map.mp hmem
      rw [← (binding_eq_some.mp hx).1] at heq
      exact hnotin (heq ▸ (mem_bindings.mp hentry').1)

omit [DecidableEq K] in
/-- The bindings of distinct keys, among them all with a value. -/
theorem lists_bindings {values : K → Option V} {xs : List K} (hnodup : xs.Nodup)
    (hall : ∀ x v, values x = some v → x ∈ xs) : Lists values (xs.filterMap (binding values)) :=
  ⟨nodup_bindings hnodup, fun x v => mem_bindings.trans
    ⟨fun h => h.2, fun h => ⟨hall x v h, h⟩⟩⟩

omit [DecidableEq K] in
theorem Lists.perm {values : K → Option V} {bindings bindings' : List (K × V)}
    (h : Lists values bindings) (hperm : bindings.Perm bindings') : Lists values bindings' :=
  ⟨(hperm.map Prod.fst).nodup_iff.mp h.nodup, fun x v => hperm.mem_iff.symm.trans (h.mem x v)⟩

/-- A list with distinct keys lists the map that it stands for. -/
theorem lists_lookup {list : List (K × V)} (h : (list.map Prod.fst).Nodup) :
    Lists (fun x => list.lookup x) list := by
  refine ⟨h, fun x v => ?_⟩
  induction list with
  | nil => exact ⟨fun hmem => absurd hmem List.not_mem_nil, fun hv => by cases hv⟩
  | cons entry rest ih =>
    obtain ⟨k, w⟩ := entry
    obtain ⟨hnotin, hrest⟩ := List.nodup_cons.mp h
    by_cases hx : x = k
    · subst hx
      rw [List.lookup_cons_self, List.mem_cons]
      constructor
      · rintro (heq | hmem)
        · rw [(Prod.mk.inj heq).2]
        · exact absurd (List.mem_map_of_mem hmem) hnotin
      · rintro ⟨⟩
        exact Or.inl rfl
    · rw [List.lookup_cons, beq_false_of_ne hx, List.mem_cons, ← ih hrest]
      exact ⟨fun hmem => hmem.resolve_left fun heq => hx (Prod.mk.inj heq).1, Or.inr⟩

theorem lookup_perm {list list' : List (K × V)} (hperm : list.Perm list')
    (h : (list.map Prod.fst).Nodup) (x : K) : list.lookup x = list'.lookup x := by
  have h' := (hperm.map Prod.fst).nodup_iff.mp h
  ext v
  exact ((lists_lookup h).mem x v).symm.trans (hperm.mem_iff.trans ((lists_lookup h').mem x v))

theorem lookup_eq_none_of_notMem {list : List (K × V)} {x : K} (h : x ∉ list.map Prod.fst) :
    list.lookup x = none := by
  rw [List.lookup_eq_none_iff]
  intro entry hentry
  refine bne_iff_ne.mpr ?_
  rintro rfl
  exact h (List.mem_map_of_mem hentry)

theorem mem_of_lookup {list : List (K × V)} {x : K} {v : V} (h : list.lookup x = some v) :
    x ∈ list.map Prod.fst := by
  by_contra hnotin
  rw [lookup_eq_none_of_notMem hnotin] at h
  cases h

/-! ## 2. Sets of keys -/

theorem nodup_keySet (keys : List K) : (keySet keys).Nodup := List.nodup_dedup keys

theorem mem_keySet {keys : List K} {x : K} : x ∈ keySet keys ↔ x ∈ keys := List.mem_dedup

theorem length_keySet {keys : List K} : (keySet keys).length = keys.length ↔ keys.Nodup := by
  constructor
  · intro h
    exact List.dedup_eq_self.mp ((List.dedup_sublist keys).eq_of_length h)
  · intro h
    rw [keySet, List.dedup_eq_self.mpr h]

theorem hasDuplicates_eq_false {keys : List K} : hasDuplicates keys = false ↔ keys.Nodup := by
  rw [hasDuplicates, decide_eq_false_iff_not, not_not, length_keySet]

omit [DecidableEq K] in
theorem mem_withId {keys : List K} {x : TupleKey K} : x ∈ withId id keys ↔ x.1 = id ∧ x.2 ∈ keys := by
  rw [withId, List.mem_map]
  constructor
  · rintro ⟨y, hy, rfl⟩
    exact ⟨rfl, hy⟩
  · rintro ⟨rfl, hx⟩
    exact ⟨x.2, hx, rfl⟩

variable (id) in
omit [DecidableEq K] in
theorem nodup_withId {keys : List K} (h : keys.Nodup) : (withId id keys).Nodup :=
  h.map fun _ _ heq => (Prod.mk.inj heq).2

/-! ## 3. The operations -/

variable (id) in
/-- The first write to a key wins. -/
theorem writeAll_view (h : TableView key stale global new old) (alist : List (K × V)) :
    TableView key stale (writeAll key id alist global)
      (atTable id (fun x existing => existing.or (alist.lookup x)) new) old := by
  induction alist generalizing global new with
  | nil =>
    have hsame : atTable id (fun (x : K) existing => existing.or (([] : List (K × V)).lookup x)) new =
        new := by
      funext x
      simp only [atTable, List.lookup_nil, Option.or_none, ite_self]
    rw [hsame]
    exact h
  | cons entry rest ih =>
    obtain ⟨k, v⟩ := entry
    have hrest := ih (h.writeAround (id, k) v)
    have hsame : atTable id (fun x existing => existing.or (rest.lookup x))
          (Function.update new (id, k) (some ((new (id, k)).getD v))) =
        atTable id (fun x existing => existing.or (((k, v) :: rest).lookup x)) new := by
      refine atTable_update ?_ fun x hx existing => ?_
      · rw [List.lookup_cons_self]
        cases new (id, k) <;> rfl
      · rw [List.lookup_cons, beq_false_of_ne hx]
    rw [← hsame]
    exact hrest

omit [DecidableEq K] in
theorem writeAll_append (first second : List (K × V)) :
    writeAll key id (first ++ second) global =
      writeAll key id second (writeAll key id first global) :=
  List.foldl_append

omit [DecidableEq K] in
theorem foldl_writeAll (chunks : List (List (K × V))) :
    chunks.foldl (fun global chunk => writeAll key id chunk global) global =
      writeAll key id chunks.flatten global := by
  induction chunks generalizing global with
  | nil => rfl
  | cons chunk rest ih => rw [List.foldl_cons, ih, List.flatten_cons, writeAll_append]

omit [DecidableEq K] in
theorem addAll_eq (handle : Handle K) (alist : List (K × V)) (global : Global K D V) :
    AddOnly.addAll key handle alist global =
      (⟨handle.firstClassHandle, (alist.map Prod.fst).reverse ++ handle.keys⟩,
        writeAll key handle.firstClassHandle alist global) := by
  unfold AddOnly.addAll
  induction alist generalizing handle global with
  | nil => rfl
  | cons entry rest ih =>
    rw [List.foldl_cons, ih, List.map_cons, List.reverse_cons, List.append_assoc]
    rfl

namespace Merge

/-- What the workers add. -/
def entries : Merge K V → List (K × V)
  | .table => []
  | .worker alist => alist
  | .merge smaller larger => smaller.entries ++ larger.entries

/-- How often the table itself is merged. -/
def tables : Merge K V → ℕ
  | .table => 1
  | .worker _ => 0
  | .merge smaller larger => smaller.tables + larger.tables

/-- The keys of the merged handle. -/
def keys (own : List K) : Merge K V → List K
  | .table => own
  | .worker alist => (alist.map Prod.fst).reverse
  | .merge smaller larger => smaller.keys own ++ larger.keys own

omit [DecidableEq K] in
theorem keys_perm (own : List K) (merge : Merge K V) :
    (merge.keys own).Perm ((List.replicate merge.tables own).flatten ++ merge.entries.map Prod.fst) := by
  induction merge with
  | table =>
    simp only [keys, tables, entries, List.replicate_one, List.flatten_singleton, List.map_nil,
      List.append_nil]
    exact .rfl
  | worker alist => exact List.reverse_perm _
  | merge smaller larger ihSmaller ihLarger =>
    simp only [keys, tables, entries, List.replicate_add, List.flatten_append, List.map_append]
    refine (ihSmaller.append ihLarger).trans ?_
    rw [List.append_assoc, List.append_assoc]
    refine List.Perm.append_left _ ?_
    rw [← List.append_assoc, ← List.append_assoc]
    exact List.perm_append_comm.append_right _

omit [DecidableEq K] in
theorem run_eq (handle : Handle K) (merge : Merge K V) (global : Global K D V) :
    merge.run key handle global =
      .ok (⟨handle.firstClassHandle, merge.keys handle.keys⟩,
        writeAll key handle.firstClassHandle merge.entries global) := by
  induction merge generalizing global with
  | table => rfl
  | worker alist =>
    rw [run, addAll_eq, AddOnly.createEmpty, List.append_nil]
    rfl
  | merge smaller larger ihSmaller ihLarger =>
    simp only [run, ihSmaller, ihLarger, bind, Except.bind, AddOnly.mergeSameHandleDisjointKeys,
      ne_eq, not_true_eq_false, if_false, pure, Except.pure, entries, writeAll_append]
    rfl

end Merge

variable (id) in
theorem mergeEntry_view (h : TableView key stale global new old) (f : V → V → V) (entry : K × V) :
    ∃ global', mergeEntry key f id global entry = .ok global' ∧
      TableView key stale global' (Function.update new (id, entry.1)
        (Option.merge f (new (id, entry.1)) (some entry.2))) old := by
  unfold mergeEntry
  rw [h.heap.new]
  cases hnew : new (id, entry.1) with
  | none =>
    have hview := h.writeAround (id, entry.1) entry.2
    rw [hnew] at hview
    exact ⟨_, rfl, hview⟩
  | some existing =>
    obtain ⟨global', hremove, hremoved⟩ := h.remove (id, entry.1)
    have hview := hremoved.writeAround (id, entry.1) (f existing entry.2)
    rw [Function.update_self, Function.update_idem] at hview
    refine ⟨global'.writeAround key (id, entry.1) (f existing entry.2), ?_, hview⟩
    simp only [hremove, bind, Except.bind]
    rfl

variable (id) in
/-- With a key twice, the values are still defined. -/
theorem mergeAll_view (h : TableView key stale global new old) (f : V → V → V) (list : List (K × V)) :
    ∃ global' new', list.foldlM (mergeEntry key f id) global = .ok global' ∧
      TableView key stale global' new' old ∧
      ((list.map Prod.fst).Nodup →
        new' = atTable id (fun x existing => Option.merge f existing (list.lookup x)) new) := by
  induction list generalizing global new with
  | nil =>
    refine ⟨global, new, rfl, h, fun _ => ?_⟩
    funext x
    simp only [atTable, List.lookup_nil, Option.merge_none_right, ite_self]
  | cons entry rest ih =>
    obtain ⟨k, v⟩ := entry
    obtain ⟨next, hnext, hview⟩ := mergeEntry_view id h f (k, v)
    obtain ⟨last, new', hlast, hlastView, hvalues⟩ := ih hview
    refine ⟨last, new', by rw [List.foldlM_cons, hnext]; exact hlast, hlastView, fun hnodup => ?_⟩
    obtain ⟨hnotin, hrest⟩ := List.nodup_cons.mp hnodup
    rw [hvalues hrest]
    refine atTable_update ?_ fun x hx existing => ?_
    · rw [List.lookup_cons_self, lookup_eq_none_of_notMem hnotin, Option.merge_none_right]
    · rw [List.lookup_cons, beq_false_of_ne hx]

/-! ## 4. A map over a table -/

omit [DecidableEq K] in
theorem atTable_atTable (change change' : K → Option V → Option V) (values : TupleKey K → Option V) :
    atTable id change (atTable id change' values) =
      atTable id (fun x existing => change x (change' x existing)) values := by
  funext x
  unfold atTable
  by_cases hx : x.1 = id
  · rw [if_pos hx, if_pos hx, if_pos hx]
  · rw [if_neg hx, if_neg hx, if_neg hx]

/-- The first of the mapped values at each key stands among the old ones. -/
def mapped (f : K → V → V) (values : K → Option V) (xs : List K) (x : K) (existing : Option V) :
    Option V :=
  if x ∈ xs then existing.or ((values x).map (f x)) else existing

variable (id) in
theorem addOldOne_view (h : TableView key stale global new old) (f : K → V → V) (written : List (K × V))
    (x : K) :
    (addOldAndAccumulateWrittenKeys key f id (written, global) x).1 =
        (binding (fun x => new (id, x)) x).toList ++ written ∧
      TableView key stale (addOldAndAccumulateWrittenKeys key f id (written, global) x).2 new
        (Function.update old (id, x) ((old (id, x)).or ((new (id, x)).map (f x)))) := by
  unfold addOldAndAccumulateWrittenKeys
  rw [h.heap.new]
  cases hnew : new (id, x) with
  | none =>
    rw [Option.map_none, Option.or_none, Function.update_eq_self]
    refine ⟨?_, h⟩
    simp only [binding, hnew, Option.map_none, Option.toList_none, List.nil_append]
  | some value =>
    have hview := h.addOld (id, x) (f x value)
    have hor : (old (id, x)).or (some (f x value)) = some ((old (id, x)).getD (f x value)) := by
      cases old (id, x) <;> rfl
    rw [Option.map_some, hor]
    refine ⟨?_, hview⟩
    simp only [binding, hnew, Option.map_some, Option.toList_some, List.singleton_append]

theorem mapped_update (f : K → V → V) (x : K) (rest : List K) :
    atTable id (mapped f (fun x => new (id, x)) rest)
        (Function.update old (id, x) ((old (id, x)).or ((new (id, x)).map (f x)))) =
      atTable id (mapped f (fun x => new (id, x)) (x :: rest)) old := by
  refine atTable_update ?_ fun x' hx' existing => ?_
  · unfold mapped
    rw [if_pos List.mem_cons_self]
    split_ifs
    · rw [Option.or_assoc, Option.or_self]
    · rfl
  · simp only [mapped, List.mem_cons, hx', false_or]

variable (id) in
theorem addOldChunk_view (h : TableView key stale global new old) (f : K → V → V)
    (written : List (K × V)) (chunk : List K) :
    (chunk.foldl (addOldAndAccumulateWrittenKeys key f id) (written, global)).1 =
        (chunk.filterMap (binding fun x => new (id, x))).reverse ++ written ∧
      TableView key stale (chunk.foldl (addOldAndAccumulateWrittenKeys key f id) (written, global)).2 new
        (atTable id (mapped f (fun x => new (id, x)) chunk) old) := by
  induction chunk generalizing written global old with
  | nil =>
    have hsame : atTable id (mapped f (fun x => new (id, x)) []) old = old := by
      funext x
      simp only [atTable, mapped, List.not_mem_nil, if_false, ite_self]
    rw [hsame]
    exact ⟨rfl, h⟩
  | cons x rest ih =>
    obtain ⟨hwritten, hview⟩ := addOldOne_view id h f written x
    obtain ⟨hrest, hrestView⟩ := ih hview
      (addOldAndAccumulateWrittenKeys key f id (written, global) x).1
    rw [mapped_update] at hrestView
    refine ⟨hrest.trans ?_, hrestView⟩
    rw [hwritten, List.filterMap_cons]
    cases binding (fun x => new (id, x)) x with
    | none => rfl
    | some entry => rw [Option.toList_some, List.reverse_cons, List.append_assoc]

variable (id) in
theorem mapChunks_view (h : TableView key stale global new old) (f : K → V → V)
    (chunks : List (List K)) :
    (mapChunks key f id chunks global).1.Perm
        (chunks.flatten.filterMap (binding fun x => new (id, x))) ∧
      TableView key stale (mapChunks key f id chunks global).2 new
        (atTable id (mapped f (fun x => new (id, x)) chunks.flatten) old) := by
  unfold mapChunks
  suffices hall : ∀ written : List (K × V), ∀ result, result = chunks.foldl (fun sofar chunk =>
        ((chunk.foldl (addOldAndAccumulateWrittenKeys key f id) ([], sofar.2)).1.reverse ++ sofar.1,
          (chunk.foldl (addOldAndAccumulateWrittenKeys key f id) ([], sofar.2)).2))
        (written, global) →
      result.1.Perm (chunks.flatten.filterMap (binding fun x => new (id, x)) ++ written) ∧
        TableView key stale result.2 new (atTable id (mapped f (fun x => new (id, x)) chunks.flatten) old) by
    obtain ⟨hperm, hview⟩ := hall [] _ rfl
    rw [List.append_nil] at hperm
    exact ⟨hperm, hview⟩
  induction chunks generalizing global old with
  | nil =>
    rintro written result rfl
    have hsame : atTable id (mapped f (fun x => new (id, x)) ([] : List (List K)).flatten) old = old := by
      funext x
      simp only [atTable, mapped, List.flatten_nil, List.not_mem_nil, if_false, ite_self]
    rw [hsame]
    exact ⟨.rfl, h⟩
  | cons chunk rest ih =>
    rintro written result hresult
    obtain ⟨hwritten, hview⟩ := addOldChunk_view id h f [] chunk
    obtain ⟨hrest, hrestView⟩ := ih hview _ result hresult
    refine ⟨hrest.trans ?_, ?_⟩
    · rw [hwritten, List.append_nil, List.reverse_reverse, List.flatten_cons,
        List.filterMap_append, ← List.append_assoc]
      exact List.perm_append_comm.append_right _
    · rw [atTable_atTable] at hrestView
      have hsame : (fun x existing => mapped f (fun x => new (id, x)) rest.flatten x
            (mapped f (fun x => new (id, x)) chunk x existing)) =
          mapped f (fun x => new (id, x)) (chunk :: rest).flatten := by
        funext x existing
        unfold mapped
        rw [List.flatten_cons]
        by_cases hchunk : x ∈ chunk <;> by_cases hmem : x ∈ rest.flatten <;>
          simp [hchunk, hmem, Option.or_assoc]
      rw [hsame] at hrestView
      exact hrestView

/-- Each binding of the keys is mapped once. -/
theorem mapParallelKeys_view (h : TableView key stale global new old) (handle : Handle K) (f : K → V → V)
    {chunks : List (List K)} (hfree : ∀ x ∈ chunks.flatten, old (handle.firstClassHandle, x) = none) :
    ∃ applied global', mapParallelKeys key handle f chunks global = .ok (applied, global') ∧
      applied.Perm (chunks.flatten.filterMap (binding fun x => new (handle.firstClassHandle, x))) ∧
      TableView key stale global' (atTable handle.firstClassHandle
        (fun x existing => if x ∈ chunks.flatten then existing.map (f x) else existing) new) old := by
  obtain ⟨id, keys⟩ := handle
  obtain ⟨hperm, hview⟩ := mapChunks_view id h f chunks
  obtain ⟨global', hrevive, hrevived⟩ := hview.reviveBatch (nodup_withId id
    (nodup_keySet ((mapChunks key f id chunks global).1.map Prod.fst)))
  have hmem : ∀ x, x ∈ withId id (keySet ((mapChunks key f id chunks global).1.map Prod.fst)) ↔
      x.1 = id ∧ x.2 ∈ chunks.flatten ∧ ∃ v, new x = some v := by
    rintro ⟨i, x⟩
    rw [mem_withId, mem_keySet, (hperm.map Prod.fst).mem_iff, List.mem_map]
    constructor
    · rintro ⟨rfl, entry, hentry, rfl⟩
      obtain ⟨hx, hv⟩ := mem_bindings.mp hentry
      exact ⟨rfl, hx, entry.2, hv⟩
    · rintro ⟨rfl, hx, v, hv⟩
      exact ⟨rfl, (x, v), mem_bindings.mpr ⟨hx, hv⟩, rfl⟩
  refine ⟨(mapChunks key f id chunks global).1, global', ?_, hperm, ?_⟩
  · simp only [mapParallelKeys, hrevive, bind, Except.bind]
    rfl
  · convert hrevived using 1
    · funext x
      by_cases hx : x.1 = id ∧ x.2 ∈ chunks.flatten
      · obtain ⟨rfl, hflat⟩ := hx
        cases hnew : new x with
        | none =>
          rw [if_neg (fun hin => by obtain ⟨-, -, v, hv⟩ := (hmem x).mp hin; rw [hnew] at hv; cases hv)]
          simp only [atTable, if_true, if_pos hflat, hnew, Option.map_none]
        | some v =>
          rw [if_pos ((hmem x).mpr ⟨rfl, hflat, v, hnew⟩)]
          simp only [atTable, if_true, if_pos hflat, hnew, Option.map_some, mapped,
            hfree x.2 hflat, Option.none_or]
      · rw [if_neg (fun hin => hx ⟨((hmem x).mp hin).1, ((hmem x).mp hin).2.1⟩)]
        unfold atTable
        by_cases hid : x.1 = id
        · rw [if_pos hid]
          exact if_neg fun hflat => hx ⟨hid, hflat⟩
        · rw [if_neg hid]
    · funext x
      split_ifs with hin
      · obtain ⟨rfl, hflat, -⟩ := (hmem x).mp hin
        exact hfree x.2 hflat
      · unfold atTable mapped
        split_ifs with hid hflat
        · subst hid
          cases hnew : new x with
          | none => simp only [hnew, Option.map_none, Option.or_none]
          | some v => exact absurd ((hmem x).mpr ⟨rfl, hflat, v, hnew⟩) hin
        · rfl
        · rfl

/-! ## 5. The bindings of a table -/

variable (iteration) in
theorem toAlist_view (h : TableView key stale global new old) (handle : Handle K)
    (hnodup : handle.keys.Nodup)
    (hall : ∀ x v, new (handle.firstClassHandle, x) = some v → x ∈ handle.keys)
    (hfresh : ∀ x ∈ handle.keys, (handle.firstClassHandle, x) ∉ stale) :
    ∃ bindings global', toAlist key iteration handle global = .ok (bindings, global') ∧
      Lists (fun x => new (handle.firstClassHandle, x)) bindings ∧ TableView key stale global' new old := by
  have hkeys : ∀ x ∈ withId handle.firstClassHandle (keySet handle.keys), x ∉ stale := by
    intro x hx
    obtain ⟨hid, hmem⟩ := mem_withId.mp hx
    rw [← Prod.eta x, hid]
    exact hfresh x.2 (mem_keySet.mp hmem)
  obtain ⟨global', hget, hview⟩ := h.getBatch iteration hkeys
  refine ⟨handle.keys.filterMap (binding fun x => new (handle.firstClassHandle, x)), global', ?_,
    lists_bindings hnodup hall, hview⟩
  simp only [toAlist, hget, bind, Except.bind, pure, Except.pure]
  rw [keySet, List.dedup_eq_self.mpr hnodup, withId, List.map_map, List.filterMap_map]
  rfl

omit [DecidableEq K] in
/-- A fold is one over the bindings of the table. -/
theorem foldSequential_eq {A : Type} (h : HeapView key global.direct new old) (handle : Handle K)
    (init : A) (f : K → V → A → A) :
    foldSequential key handle init f global =
      (handle.keys.filterMap (binding fun x => new (handle.firstClassHandle, x))).foldl
        (fun accumulator entry => f entry.1 entry.2 accumulator) init := by
  unfold foldSequential
  induction handle.keys generalizing init with
  | nil => rfl
  | cons x rest ih =>
    rw [List.foldl_cons, ih, h.new, List.filterMap_cons]
    cases hnew : new (handle.firstClassHandle, x) with
    | none => simp only [binding, hnew, Option.map_none]
    | some value => simp only [binding, hnew, Option.map_some, List.foldl_cons]

end Pysa.SharedMemory.FirstClassWithKeys
