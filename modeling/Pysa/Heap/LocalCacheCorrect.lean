/-
  Subject: WHAT THE CACHES HOLD, AND HOW MUCH.

  * `OrderedCache.Fits` -- a key that can be added without exceeding the capacity: **the oldest key
    of a full cache is still in it**;
  * `add_lookup`, `remove_lookup` -- what is found after an operation.
-/
import Pysa.Heap.LocalCache

namespace Pysa.SharedMemory

variable {K V : Type} [DecidableEq K]

/-! ## 1. The frequency cache -/

namespace FreqCache

variable {capacity : ℕ} {iteration : IterationOrder (Sigma fun _ : K => ℕ × V)}

/-- The counter is the number of entries, at most twice the capacity. -/
structure Bounded (capacity : ℕ) (c : FreqCache K V) : Prop where
  size : c.size = AssocMap.count c.cache
  bound : AssocMap.count c.cache ≤ 2 * capacity

/-- The value of a key. -/
def find (c : FreqCache K V) (x : K) : Option V := (c.cache.lookup x).map (·.2)

theorem find_eq_some {c : FreqCache K V} {x : K} {v : V} :
    c.find x = some v ↔ ∃ freq, c.cache.lookup x = some (freq, v) := by
  unfold find
  rw [Option.map_eq_some_iff]
  constructor
  · intro h
    obtain ⟨⟨freq, v'⟩, hlookup, rfl⟩ := h
    exact ⟨freq, hlookup⟩
  · intro h
    obtain ⟨freq, hlookup⟩ := h
    exact ⟨(freq, v), hlookup, rfl⟩

omit [DecidableEq K] in
theorem empty_bounded : Bounded capacity (empty : FreqCache K V) :=
  ⟨rfl, Nat.zero_le _⟩

/-- The loop adds the first bindings of a list whose keys are distinct. -/
theorem count_keepFirst (left : ℕ) {bindings : List (Sigma fun _ : K => ℕ × V)}
    (hnodup : bindings.NodupKeys) {cache : AssocMap K (ℕ × V)}
    (hfresh : ∀ binding ∈ bindings, cache.lookup binding.1 = none) :
    AssocMap.count (keepFirst left bindings cache) =
      AssocMap.count cache + min left bindings.length := by
  induction bindings generalizing left cache with
  | nil => cases left <;> simp [keepFirst]
  | cons binding rest ih =>
    obtain ⟨k, freq, v⟩ := binding
    obtain ⟨hk, hrest⟩ := List.nodupKeys_cons.mp hnodup
    cases left with
    | zero => simp [keepFirst]
    | succ left =>
      have hnone := hfresh ⟨k, freq, v⟩ List.mem_cons_self
      have hcount : AssocMap.count (cache.insert k (0, v)) = AssocMap.count cache + 1 := by
        rw [AssocMap.count_insert, hnone]
        rfl
      rw [keepFirst, ih left hrest, hcount, List.length_cons]
      · omega
      · intro binding hbinding
        have hne : binding.1 ≠ k := by
          intro heq
          have hmem := List.mem_keys_of_mem hbinding
          rw [heq] at hmem
          exact hk hmem
        rw [AList.lookup_insert_ne hne]
        exact hfresh binding (List.mem_cons_of_mem _ hbinding)

theorem lookup_keepFirst {left : ℕ} {bindings : List (Sigma fun _ : K => ℕ × V)}
    {cache : AssocMap K (ℕ × V)} {x : K} {freq : ℕ} {v : V}
    (h : (keepFirst left bindings cache).lookup x = some (freq, v)) :
    (∃ freq', ⟨x, freq', v⟩ ∈ bindings) ∨ cache.lookup x = some (freq, v) := by
  induction bindings generalizing left cache with
  | nil => cases left <;> exact Or.inr h
  | cons binding rest ih =>
    obtain ⟨k, freq', v'⟩ := binding
    cases left with
    | zero => exact Or.inr h
    | succ left =>
      rcases ih h with ⟨freq'', hmem⟩ | hlookup
      · exact Or.inl ⟨freq'', List.mem_cons_of_mem _ hmem⟩
      · rcases AssocMap.lookup_of_insert hlookup with ⟨rfl, hvalue⟩ | hlookup
        · cases hvalue
          exact Or.inl ⟨freq', List.mem_cons_self⟩
        · exact Or.inr hlookup

omit [DecidableEq K] in
variable (iteration) in
/-- The bindings that `collect` sorts are those of the cache. -/
theorem sorted_perm (c : FreqCache K V) :
    ((iteration.order c.cache.entries).reverse.mergeSort fun a b => decide (b.2.1 ≤ a.2.1)).Perm
      c.cache.entries :=
  (List.mergeSort_perm _ _).trans ((List.reverse_perm _).trans (iteration.perm _))

variable (iteration) in
/-- A collection leaves room for one more entry, and only keeps values. -/
theorem collect_spec (hcapacity : 0 < capacity) {c : FreqCache K V} (hc : Bounded capacity c) :
    (collect capacity iteration c).size = AssocMap.count (collect capacity iteration c).cache ∧
      AssocMap.count (collect capacity iteration c).cache < 2 * capacity ∧
      ∀ x v, (collect capacity iteration c).find x = some v → c.find x = some v := by
  unfold collect
  split
  · rename_i hsmall
    refine ⟨hc.size, ?_, fun _ _ => id⟩
    have hsize := hc.size
    omega
  · rename_i hfull
    have hperm := sorted_perm iteration c
    have hnodup := (List.perm_nodupKeys hperm).mpr c.cache.nodupKeys
    have hlength : c.cache.entries.length = AssocMap.count c.cache := (List.length_map _).symm
    have hcount := count_keepFirst capacity hnodup fun binding _ => AList.lookup_empty binding.1
    rw [hperm.length_eq, hlength] at hcount
    have hempty : AssocMap.count (∅ : AssocMap K (ℕ × V)) = 0 := rfl
    have hsize := hc.size
    have hkept : min capacity (AssocMap.count c.cache) = capacity := by omega
    rw [hkept, hempty, Nat.zero_add] at hcount
    dsimp only
    refine ⟨by rw [hcount], by omega, fun x v h => ?_⟩
    obtain ⟨freq, hlookup⟩ := find_eq_some.mp h
    rcases lookup_keepFirst hlookup with ⟨freq', hmem⟩ | hlookup
    · exact find_eq_some.mpr ⟨freq', AList.mem_lookup_iff.mpr (hperm.subset hmem)⟩
    · rw [AList.lookup_empty] at hlookup
      cases hlookup

theorem add_bounded (hcapacity : 0 < capacity) (x : K) (y : V) {c : FreqCache K V}
    (hc : Bounded capacity c) : Bounded capacity (c.add capacity iteration x y) := by
  obtain ⟨hsize, hroom, -⟩ := collect_spec iteration hcapacity hc
  unfold add
  dsimp only
  cases hlookup : (collect capacity iteration c).cache.lookup x with
  | none =>
    have hcount := AssocMap.count_insert x (0, y) (collect capacity iteration c).cache
    rw [hlookup] at hcount
    have hcount' : AssocMap.count ((collect capacity iteration c).cache.insert x (0, y)) =
      AssocMap.count (collect capacity iteration c).cache + 1 := hcount
    exact ⟨by dsimp only; omega, by dsimp only; omega⟩
  | some entry =>
    obtain ⟨freq, v⟩ := entry
    have hcount := AssocMap.count_insert x (freq + 1, y) (collect capacity iteration c).cache
    rw [hlookup] at hcount
    have hcount' : AssocMap.count ((collect capacity iteration c).cache.insert x (freq + 1, y)) =
      AssocMap.count (collect capacity iteration c).cache := hcount
    exact ⟨by dsimp only; omega, by dsimp only; omega⟩

theorem add_lookup (hcapacity : 0 < capacity) {x x' : K} {y v : V} {c : FreqCache K V}
    (hc : Bounded capacity c) (h : (c.add capacity iteration x y).find x' = some v) :
    (x' = x ∧ v = y) ∨ c.find x' = some v := by
  obtain ⟨-, -, hfind⟩ := collect_spec iteration hcapacity hc
  have hinsert : ∃ freq, (((collect capacity iteration c).cache.insert x (freq, y)).lookup x').map
      (·.2) = some v := by
    unfold add at h
    dsimp only at h
    cases hlookup : (collect capacity iteration c).cache.lookup x with
    | none =>
      rw [hlookup] at h
      exact ⟨0, h⟩
    | some entry =>
      rw [hlookup] at h
      exact ⟨entry.1 + 1, h⟩
  obtain ⟨freq, hinsert⟩ := hinsert
  obtain ⟨⟨freq', v'⟩, hlookup, rfl⟩ := Option.map_eq_some_iff.mp hinsert
  rcases AssocMap.lookup_of_insert hlookup with ⟨hkey, hvalue⟩ | hlookup
  · cases hvalue
    exact Or.inl ⟨hkey, rfl⟩
  · exact Or.inr (hfind x' v' (find_eq_some.mpr ⟨freq', hlookup⟩))

theorem get_spec (x : K) {c : FreqCache K V} (hc : Bounded capacity c) :
    (c.get x).1 = c.find x ∧ Bounded capacity (c.get x).2 ∧
      ∀ x', (c.get x).2.find x' = c.find x' := by
  unfold get find
  cases hlookup : c.cache.lookup x with
  | none => exact ⟨rfl, hc, fun _ => rfl⟩
  | some entry =>
    obtain ⟨freq, v⟩ := entry
    have hcount := AssocMap.count_insert x (freq + 1, v) c.cache
    rw [hlookup] at hcount
    have hcount' : AssocMap.count (c.cache.insert x (freq + 1, v)) = AssocMap.count c.cache :=
      hcount
    refine ⟨rfl, ⟨?_, ?_⟩, fun x' => ?_⟩
    · exact hc.size.trans (congrArg Nat.cast hcount'.symm)
    · exact hcount'.trans_le hc.bound
    · dsimp only
      by_cases hx : x' = x
      · rw [hx, AList.lookup_insert, hlookup]
        rfl
      · rw [AList.lookup_insert_ne hx]

theorem remove_bounded (x : K) {c : FreqCache K V} (hc : Bounded capacity c) :
    Bounded capacity (c.remove x) := by
  have hcount := AssocMap.count_erase x c.cache
  have hsize := hc.size
  have hbound := hc.bound
  unfold remove
  cases hlookup : (c.cache.lookup x).isSome with
  | false =>
    rw [hlookup] at hcount
    have hcount' : AssocMap.count (c.cache.erase x) = AssocMap.count c.cache := hcount
    exact ⟨by dsimp only; rw [hcount', if_neg Bool.false_ne_true]; exact hsize,
      by dsimp only; omega⟩
  | true =>
    have hpos := AssocMap.count_pos hlookup
    rw [hlookup] at hcount
    have hcount' : AssocMap.count (c.cache.erase x) = AssocMap.count c.cache - 1 := hcount
    exact ⟨by dsimp only; rw [if_pos rfl]; omega, by dsimp only; omega⟩

theorem remove_lookup {x x' : K} {v : V} {c : FreqCache K V}
    (h : (c.remove x).find x' = some v) : x' ≠ x ∧ c.find x' = some v := by
  obtain ⟨freq, hlookup⟩ := find_eq_some.mp h
  obtain ⟨hne, hlookup⟩ := AssocMap.lookup_of_erase hlookup
  exact ⟨hne, find_eq_some.mpr ⟨freq, hlookup⟩⟩

end FreqCache

/-! ## 2. The recency cache -/

namespace OrderedCache

variable {capacity : ℕ}

/-- The counter is the number of entries, and the queue has all keys. -/
structure Counted (c : OrderedCache K V) : Prop where
  size : c.size = AssocMap.count c.cache
  queue : ∀ x, (c.cache.lookup x).isSome → x ∈ c.queue

/-- The cache is not full, or its oldest key is still in it, or the key is not new. -/
def Fits (capacity : ℕ) (c : OrderedCache K V) (x : K) : Prop :=
  c.size < capacity ∨ (∃ elt ∈ c.queue.head?, (c.cache.lookup elt).isSome) ∨
    (c.cache.lookup x).isSome

theorem empty_counted : Counted (empty : OrderedCache K V) := by
  refine ⟨rfl, fun x hx => ?_⟩
  rw [show (empty : OrderedCache K V).cache.lookup x = none from AList.lookup_empty x] at hx
  cases hx

/-- A full cache has an oldest key. -/
theorem evict_counted (hcapacity : 0 < capacity) {c : OrderedCache K V} (hc : Counted c)
    (hfull : c.size ≥ capacity) :
    ∃ next, evict c = .ok next ∧ Counted next ∧
      (∀ x v, next.cache.lookup x = some v → c.cache.lookup x = some v) ∧
      AssocMap.count next.cache ≤ AssocMap.count c.cache ∧
      ((∃ elt ∈ c.queue.head?, (c.cache.lookup elt).isSome) →
        AssocMap.count next.cache < AssocMap.count c.cache) ∧
      ((¬ ∃ elt ∈ c.queue.head?, (c.cache.lookup elt).isSome) → next.cache = c.cache) := by
  obtain ⟨cache, queue, size⟩ := c
  obtain ⟨hsize, hqueue⟩ := hc
  dsimp only at hsize hqueue hfull ⊢
  unfold evict
  cases queue with
  | nil =>
    have hpos : 0 < cache.keys.length := by
      unfold AssocMap.count at hsize
      omega
    obtain ⟨x, hx⟩ := List.exists_mem_of_length_pos hpos
    cases hqueue x (AList.lookup_isSome.mpr (AList.mem_keys.mpr hx))
  | cons elt queue =>
    dsimp only
    have hcount := AssocMap.count_erase elt cache
    cases hlookup : (cache.lookup elt).isSome with
    | true =>
      have hpos := AssocMap.count_pos hlookup
      rw [hlookup] at hcount
      have hcount' : AssocMap.count (cache.erase elt) = AssocMap.count cache - 1 := hcount
      refine ⟨_, rfl, ⟨by dsimp only; omega, fun x hx => ?_⟩, fun x v h => ?_, ?_, ?_, ?_⟩
      · obtain ⟨v, hv⟩ := Option.isSome_iff_exists.mp hx
        obtain ⟨hne, hold⟩ := AssocMap.lookup_of_erase hv
        have hmem := hqueue x (Option.isSome_iff_exists.mpr ⟨v, hold⟩)
        exact (List.mem_cons.mp hmem).resolve_left hne
      · exact (AssocMap.lookup_of_erase h).2
      · dsimp only
        omega
      · intro _
        dsimp only
        omega
      · intro hnone
        exact absurd ⟨elt, rfl, hlookup⟩ hnone
    | false =>
      refine ⟨_, rfl, ⟨hsize, fun x hx => ?_⟩, fun _ _ => id, le_rfl, ?_, fun _ => rfl⟩
      · have hne : x ≠ elt := fun heq => by
          rw [← heq] at hlookup
          exact Bool.false_ne_true (hlookup.symm.trans hx)
        exact (List.mem_cons.mp (hqueue x hx)).resolve_left hne
      · intro hsome
        obtain ⟨elt', helt', hin⟩ := hsome
        cases helt'
        exact absurd (hlookup.symm.trans hin) Bool.false_ne_true

/-- The last step of `add`. -/
theorem push_counted (x : K) (y : V) {c : OrderedCache K V} (hc : Counted c) :
    Counted ⟨c.cache.insert x y, c.queue ++ [x],
      if (c.cache.lookup x).isSome then c.size else c.size + 1⟩ := by
  constructor
  case size =>
    dsimp only
    rw [AssocMap.count_insert, hc.size]
    split <;> simp
  case queue =>
    intro x' hx'
    obtain ⟨v, hv⟩ := Option.isSome_iff_exists.mp hx'
    rcases AssocMap.lookup_of_insert hv with ⟨rfl, -⟩ | hold
    · exact List.mem_append_right _ (List.mem_singleton_self _)
    · exact List.mem_append_left _ (hc.queue x' (Option.isSome_iff_exists.mpr ⟨v, hold⟩))

/-- **An addition succeeds**: the queue of a full cache is not empty. It keeps within the capacity
    exactly when the key fits. -/
theorem add_spec (hcapacity : 0 < capacity) (x : K) (y : V) {c : OrderedCache K V}
    (hc : Counted c) :
    ∃ next, c.add capacity x y = .ok next ∧ Counted next ∧
      (∀ x' v, next.cache.lookup x' = some v → (x' = x ∧ v = y) ∨ c.cache.lookup x' = some v) ∧
      (AssocMap.count c.cache ≤ capacity →
        (AssocMap.count next.cache ≤ capacity ↔ Fits capacity c x)) := by
  have hsize := hc.size
  by_cases hfull : c.size ≥ capacity
  · obtain ⟨evicted, hevict, hevicted, hlookup, hle, hlt, hsame⟩ :=
      evict_counted hcapacity hc hfull
    refine ⟨_, ?_, push_counted x y hevicted, fun x' v h => ?_, fun hbound => ?_⟩
    · rw [add, if_pos hfull, hevict]
      rfl
    · exact (AssocMap.lookup_of_insert h).imp_right (hlookup x' v)
    · dsimp only
      rw [AssocMap.count_insert]
      by_cases hhead : ∃ elt ∈ c.queue.head?, (c.cache.lookup elt).isSome
      · have hroom := hlt hhead
        refine ⟨fun _ => Or.inr (Or.inl hhead), fun _ => ?_⟩
        split <;> omega
      · rw [hsame hhead]
        unfold Fits
        cases hin : (c.cache.lookup x).isSome with
        | true => exact ⟨fun _ => Or.inr (Or.inr rfl), fun _ => hbound⟩
        | false =>
          rw [if_neg Bool.false_ne_true]
          refine ⟨fun h => ?_, fun h => ?_⟩
          · omega
          · rcases h with h | h | h
            · omega
            · exact absurd h hhead
            · exact absurd h Bool.false_ne_true
  · refine ⟨_, ?_, push_counted x y hc, fun x' v h => AssocMap.lookup_of_insert h,
      fun hbound => ?_⟩
    · rw [add, if_neg hfull]
      rfl
    · refine ⟨fun _ => Or.inl (not_le.mp hfull), fun _ => ?_⟩
      dsimp only
      rw [AssocMap.count_insert]
      split <;> omega

theorem remove_counted (x : K) {c : OrderedCache K V} (hc : Counted c) :
    Counted (c.remove x) ∧
      AssocMap.count (c.remove x).cache ≤ AssocMap.count c.cache := by
  have hcount := AssocMap.count_erase x c.cache
  have hsize := hc.size
  have hqueue : ∀ x', ((c.cache.erase x).lookup x').isSome → x' ∈ c.queue := by
    intro x' hx'
    obtain ⟨v, hv⟩ := Option.isSome_iff_exists.mp hx'
    exact hc.queue x' (Option.isSome_iff_exists.mpr ⟨v, (AssocMap.lookup_of_erase hv).2⟩)
  unfold remove
  cases hlookup : (c.cache.lookup x).isSome with
  | false =>
    rw [hlookup] at hcount
    have hcount' : AssocMap.count (c.cache.erase x) = AssocMap.count c.cache := hcount
    exact ⟨⟨by dsimp only; rw [hcount', if_neg Bool.false_ne_true]; exact hsize, hqueue⟩,
      by dsimp only; omega⟩
  | true =>
    have hpos := AssocMap.count_pos hlookup
    rw [hlookup] at hcount
    have hcount' : AssocMap.count (c.cache.erase x) = AssocMap.count c.cache - 1 := hcount
    exact ⟨⟨by dsimp only; rw [if_pos rfl]; omega, hqueue⟩, by dsimp only; omega⟩

theorem remove_lookup {x x' : K} {v : V} {c : OrderedCache K V}
    (h : (c.remove x).cache.lookup x' = some v) : x' ≠ x ∧ c.cache.lookup x' = some v :=
  AssocMap.lookup_of_erase h

end OrderedCache

/-! ## 3. Both caches -/

namespace LocalCache

variable {iteration : IterationOrder (Sigma fun _ : K => ℕ × V)}

structure Valid (c : LocalCache K V) : Prop where
  l1 : c.l1.Counted
  l2 : c.l2.Bounded capacity

/-- One of the caches has the value. -/
def Finds (c : LocalCache K V) (x : K) (v : V) : Prop :=
  c.l1.cache.lookup x = some v ∨ c.l2.find x = some v

theorem capacity_pos : 0 < capacity := by decide

theorem empty_valid : Valid (empty : LocalCache K V) :=
  ⟨OrderedCache.empty_counted, FreqCache.empty_bounded⟩

theorem empty_finds (x : K) (v : V) : ¬ Finds empty x v := by
  intro h
  rcases h with h | h
  · cases (AList.lookup_empty x).symm.trans h
  · obtain ⟨freq, hlookup⟩ := FreqCache.find_eq_some.mp h
    cases (AList.lookup_empty x).symm.trans hlookup

variable (iteration) in
theorem add_spec (x : K) (y : V) {c : LocalCache K V} (hc : c.Valid) :
    ∃ next, c.add iteration x y = .ok next ∧ next.Valid ∧
      (∀ x' v, next.Finds x' v → (x' = x ∧ v = y) ∨ c.Finds x' v) ∧
      (AssocMap.count c.l1.cache ≤ capacity → c.l1.Fits capacity x →
        AssocMap.count next.l1.cache ≤ capacity) := by
  obtain ⟨l1, hadd, hcounted, hlookup, hbound⟩ := OrderedCache.add_spec capacity_pos x y hc.l1
  refine ⟨⟨l1, c.l2.add capacity iteration x y⟩, ?_, ⟨hcounted, FreqCache.add_bounded capacity_pos x y hc.l2⟩,
    fun x' v h => ?_, fun hle hfits => (hbound hle).mpr hfits⟩
  · rw [add, hadd]
    rfl
  · rcases h with h | h
    · exact (hlookup x' v h).imp_right Or.inl
    · exact (FreqCache.add_lookup capacity_pos hc.l2 h).imp_right Or.inr

variable (iteration) in
/-- **A look-up in the caches**: it finds what one of them has, and adds nothing else. A key that is
    only in the frequency cache is added to the recency cache. -/
theorem get_spec (x : K) {c : LocalCache K V} (hc : c.Valid) :
    ∃ result next, c.get iteration x = .ok (result, next) ∧ next.Valid ∧
      (∀ x' v, next.Finds x' v → c.Finds x' v) ∧
      (∀ v, result = some v → c.Finds x v) ∧
      (result = none → next.l1 = c.l1 ∧ c.l1.get x = none ∧ c.l2.find x = none) ∧
      (AssocMap.count c.l1.cache ≤ capacity →
        (c.l1.get x = none → c.l2.find x ≠ none → c.l1.Fits capacity x) →
        AssocMap.count next.l1.cache ≤ capacity) := by
  obtain ⟨hfind, hbounded, hsame⟩ := FreqCache.get_spec x hc.l2
  unfold get
  cases hl1 : c.l1.get x with
  | some v =>
    refine ⟨some v, _, rfl, ⟨hc.l1, FreqCache.add_bounded capacity_pos x v hc.l2⟩,
      fun x' v' h => ?_, fun v' hv' => ?_, fun h => (by cases h), fun hle _ => hle⟩
    · rcases h with h | h
      · exact Or.inl h
      · rcases FreqCache.add_lookup capacity_pos hc.l2 h with ⟨rfl, rfl⟩ | h
        · exact Or.inl hl1
        · exact Or.inr h
    · obtain rfl := Option.some.inj hv'
      exact Or.inl hl1
  | none =>
    dsimp only
    cases hresult : c.l2.get x with
    | mk result l2 =>
      rw [hresult] at hfind hbounded hsame
      dsimp only at hfind hbounded hsame
      cases result with
      | none =>
        exact ⟨none, _, rfl, ⟨hc.l1, hbounded⟩,
          fun x' v h => h.imp_right fun h => (hsame x').symm.trans h,
          fun v h => (by cases h), fun _ => ⟨rfl, rfl, hfind.symm⟩, fun hle _ => hle⟩
      | some v =>
        obtain ⟨l1, hadd, hcounted, hlookup, hbound⟩ :=
          OrderedCache.add_spec capacity_pos x v hc.l1
        refine ⟨some v, ⟨l1, l2⟩, ?_, ⟨hcounted, hbounded⟩, fun x' v' h => ?_,
          fun v' hv' => ?_, fun h => (by cases h), fun hle hfits => ?_⟩
        · dsimp only
          rw [hadd]
          rfl
        · rcases h with h | h
          · rcases hlookup x' v' h with ⟨rfl, rfl⟩ | h
            · exact Or.inr hfind.symm
            · exact Or.inl h
          · exact Or.inr ((hsame x').symm.trans h)
        · obtain rfl := Option.some.inj hv'
          exact Or.inr hfind.symm
        · refine (hbound hle).mpr (hfits rfl ?_)
          rw [← hfind]
          exact Option.some_ne_none v

theorem remove_spec (x : K) {c : LocalCache K V} (hc : c.Valid) :
    (c.remove x).Valid ∧
      (∀ x' v, (c.remove x).Finds x' v → x' ≠ x ∧ c.Finds x' v) ∧
      AssocMap.count (c.remove x).l1.cache ≤ AssocMap.count c.l1.cache := by
  obtain ⟨hcounted, hle⟩ := OrderedCache.remove_counted x hc.l1
  refine ⟨⟨hcounted, FreqCache.remove_bounded x hc.l2⟩, fun x' v h => ?_, hle⟩
  rcases h with h | h
  · exact (OrderedCache.remove_lookup h).imp_right Or.inl
  · exact (FreqCache.remove_lookup h).imp_right Or.inr

/-- The keys of a batch are removed one after the other. -/
theorem foldl_remove_spec (xs : List K) {c : LocalCache K V} (hc : c.Valid) :
    (xs.foldl (fun cache x => cache.remove x) c).Valid ∧
      (∀ x' v, (xs.foldl (fun cache x => cache.remove x) c).Finds x' v → x' ∉ xs ∧ c.Finds x' v) ∧
      AssocMap.count (xs.foldl (fun cache x => cache.remove x) c).l1.cache ≤
        AssocMap.count c.l1.cache := by
  induction xs generalizing c with
  | nil => exact ⟨hc, fun _ _ h => ⟨List.not_mem_nil, h⟩, le_rfl⟩
  | cons x rest ih =>
    obtain ⟨hvalid, hfinds, hle⟩ := remove_spec x hc
    obtain ⟨hvalid', hfinds', hle'⟩ := ih hvalid
    refine ⟨hvalid', fun x' v h => ?_, hle'.trans hle⟩
    obtain ⟨hrest, h⟩ := hfinds' x' v h
    obtain ⟨hne, h⟩ := hfinds x' v h
    exact ⟨List.not_mem_cons_of_ne_of_not_mem hne hrest, h⟩

end LocalCache

end Pysa.SharedMemory
