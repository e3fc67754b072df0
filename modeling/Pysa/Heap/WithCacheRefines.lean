/-
  Subject: WHEN A CACHED TABLE ANSWERS AS ONE WITHOUT A CACHE.

  * `Coherent` -- the caches only hold values of the table, but for stale keys;
  * `AddAgrees` -- a value is added at a key only if the key is free or has that value;
  * `RecencyFits` -- no addition to the full recency cache meets an oldest key that has left it;
  * `withCache_refines` -- **the caches never fail and count right; with the first condition the
    answers are those of the table without a cache, with the second one the recency cache keeps
    within its capacity**;
  * `withCache_second_value` -- a second value at a key is read from the cache, not from the table.
-/
import Pysa.Heap.LocalCacheCorrect
import Pysa.Heap.WithCache

namespace Pysa.SharedMemory

variable {K D V : Type} [DecidableEq D] {key : KeyFunctor K D}

/-! ## 1. The table without a cache -/

theorem lookup_hhAdd (md5 md5' : D) (value : V) (heap : Heap D V) :
    (hhAdd md5 value heap).lookup md5' =
      if md5' = md5 then some ((heap.lookup md5).getD value) else heap.lookup md5' := by
  unfold hhAdd
  by_cases h : md5' = md5
  · rw [h, if_pos rfl]
    cases hlookup : heap.lookup md5 with
    | none => exact AList.lookup_insert heap
    | some v => exact hlookup
  · rw [if_neg h]
    cases hlookup : heap.lookup md5 with
    | none => exact AList.lookup_insert_ne h
    | some v => rfl

namespace NoCache

theorem get_eq (x : K) (heap : Heap D V) : get key x heap = heap.lookup (key.md5 (key.make x)) := by
  unfold get New.get hhMem hhGetAndDeserialize
  cases hlookup : heap.lookup (key.md5 (key.make x)) <;> rfl

theorem mem_eq (x : K) (heap : Heap D V) : mem key x heap = (get key x heap).isSome := by
  rw [get_eq]
  rfl

theorem memOld_eq (x : K) (heap : Heap D V) :
    memOld key x heap = (heap.lookup (key.md5 (key.makeOld x))).isSome := rfl

omit [DecidableEq D] in
theorem new_inj {x x' : K} : key.md5 (key.make x') = key.md5 (key.make x) ↔ x' = x :=
  key.new_injective.eq_iff

omit [DecidableEq D] in
theorem old_inj {x x' : K} : key.md5 (key.makeOld x') = key.md5 (key.makeOld x) ↔ x' = x :=
  key.old_injective.eq_iff

omit [DecidableEq D] in
theorem new_ne_old {x x' : K} : key.md5 (key.make x') ≠ key.md5 (key.makeOld x) :=
  key.new_ne_old x' x

theorem get_add [DecidableEq K] (x x' : K) (y : V) (heap : Heap D V) :
    get key x' (add key x y heap) =
      if x' = x then some ((get key x heap).getD y) else get key x' heap := by
  rw [get_eq, get_eq, get_eq, add, New.add, lookup_hhAdd]
  simp only [new_inj]

theorem get_addOld (x x' : K) (y : V) (heap : Heap D V) :
    get key x' (addOld key x y heap) = get key x' heap := by
  rw [get_eq, get_eq, addOld, Old.add, lookup_hhAdd, if_neg new_ne_old]

/-- The new and the old values of all other keys are as before. -/
def SameElsewhere (key : KeyFunctor K D) (x : K) (heap heap' : Heap D V) : Prop :=
  ∀ x', x' ≠ x → get key x' heap' = get key x' heap ∧ memOld key x' heap' = memOld key x' heap

theorem sameElsewhere_erase_new (x : K) (heap : Heap D V) :
    SameElsewhere key x heap (heap.erase (key.md5 (key.make x))) := by
  intro x' hne
  rw [get_eq, get_eq, memOld_eq, memOld_eq, AList.lookup_erase_ne (fun h => hne (new_inj.mp h)),
    AList.lookup_erase_ne new_ne_old.symm]
  exact ⟨rfl, rfl⟩

theorem sameElsewhere_erase_old (x : K) (heap : Heap D V) :
    SameElsewhere key x heap (heap.erase (key.md5 (key.makeOld x))) := by
  intro x' hne
  rw [get_eq, get_eq, memOld_eq, memOld_eq, AList.lookup_erase_ne new_ne_old,
    AList.lookup_erase_ne (fun h => hne (old_inj.mp h))]
  exact ⟨rfl, rfl⟩

theorem sameElsewhere_insert_new (x : K) (v : V) (heap : Heap D V) :
    SameElsewhere key x heap (heap.insert (key.md5 (key.make x)) v) := by
  intro x' hne
  rw [get_eq, get_eq, memOld_eq, memOld_eq, AList.lookup_insert_ne (fun h => hne (new_inj.mp h)),
    AList.lookup_insert_ne new_ne_old.symm]
  exact ⟨rfl, rfl⟩

theorem sameElsewhere_insert_old (x : K) (v : V) (heap : Heap D V) :
    SameElsewhere key x heap (heap.insert (key.md5 (key.makeOld x)) v) := by
  intro x' hne
  rw [get_eq, get_eq, memOld_eq, memOld_eq, AList.lookup_insert_ne new_ne_old,
    AList.lookup_insert_ne (fun h => hne (old_inj.mp h))]
  exact ⟨rfl, rfl⟩

theorem SameElsewhere.trans {x : K} {heap heap' heap'' : Heap D V}
    (h : SameElsewhere key x heap heap') (h' : SameElsewhere key x heap' heap'') :
    SameElsewhere key x heap heap'' :=
  fun x' hne => ⟨(h' x' hne).1.trans (h x' hne).1, (h' x' hne).2.trans (h x' hne).2⟩

theorem SameElsewhere.refl (x : K) (heap : Heap D V) : SameElsewhere key x heap heap :=
  fun _ _ => ⟨rfl, rfl⟩

theorem hhRemove_of_mem {md5 : D} {heap : Heap D V} (h : hhMem md5 heap = true) :
    hhRemove md5 heap = .ok (heap.erase md5) := by
  obtain ⟨v, hv⟩ := Option.isSome_iff_exists.mp h
  rw [hhRemove, hv]

variable (key) in
theorem remove_spec (x : K) (heap : Heap D V) :
    ∃ heap', remove key x heap = .ok heap' ∧ SameElsewhere key x heap heap' := by
  unfold remove New.remove
  split
  · rename_i hmem
    exact ⟨_, hhRemove_of_mem hmem, sameElsewhere_erase_new x heap⟩
  · exact ⟨heap, rfl, .refl x heap⟩

variable (key) in
theorem removeOld_spec (x : K) (heap : Heap D V) :
    ∃ heap', Old.remove key (key.makeOld x) heap = .ok heap' ∧ SameElsewhere key x heap heap' ∧
      get key x heap' = get key x heap := by
  unfold Old.remove
  split
  · rename_i hmem
    refine ⟨_, hhRemove_of_mem hmem, sameElsewhere_erase_old x heap, ?_⟩
    rw [get_eq, get_eq, AList.lookup_erase_ne new_ne_old]
  · exact ⟨heap, rfl, .refl x heap, rfl⟩

/-- A key is moved to a free one. -/
theorem hhMove_of_free {md5 md5' : D} {heap : Heap D V} {v : V} (h : heap.lookup md5 = some v)
    (h' : heap.lookup md5' = none) :
    hhMove md5 md5' heap = .ok ((heap.insert md5' v).erase md5) := by
  rw [hhMove, h, h']

theorem oldify_spec {x : K} {heap : Heap D V} (hfree : memOld key x heap = false) :
    ∃ heap', New.oldify key (key.make x) heap = .ok heap' ∧ SameElsewhere key x heap heap' ∧
      get key x heap' = none := by
  unfold New.oldify
  cases hmem : New.mem key (key.make x) heap with
  | false =>
    refine ⟨heap, rfl, .refl x heap, Option.isSome_eq_false_iff.mp ?_ |> Option.isNone_iff_eq_none.mp⟩
    rw [← mem_eq]
    exact hmem
  | true =>
    obtain ⟨v, hv⟩ := Option.isSome_iff_exists.mp hmem
    have hnone : heap.lookup (key.md5 (key.makeOld x)) = none :=
      Option.isNone_iff_eq_none.mp (Option.isSome_eq_false_iff.mp hfree)
    refine ⟨_, hhMove_of_free hv hnone,
      (sameElsewhere_insert_old x v heap).trans (sameElsewhere_erase_new x _), ?_⟩
    rw [get_eq]
    exact AList.lookup_erase _ _

variable (key) in
theorem revive_spec (x : K) (heap : Heap D V) :
    ∃ heap', Old.revive key (key.makeOld x) heap = .ok heap' ∧ SameElsewhere key x heap heap' := by
  unfold Old.revive
  cases hmem : Old.mem key (key.makeOld x) heap with
  | false => exact ⟨heap, rfl, .refl x heap⟩
  | true =>
    obtain ⟨v, hv⟩ := Option.isSome_iff_exists.mp hmem
    have hmove : ∀ heap' : Heap D V, SameElsewhere key x heap heap' →
        heap'.lookup (key.md5 (key.makeOld x)) = some v →
        heap'.lookup (key.md5 (key.make x)) = none →
        ∃ last, hhMove (key.md5 (key.makeOld x)) (key.md5 (key.make x)) heap' = .ok last ∧
          SameElsewhere key x heap last := by
      intro heap' hsame hsome hnone
      exact ⟨_, hhMove_of_free hsome hnone, hsame.trans
        ((sameElsewhere_insert_new x v heap').trans (sameElsewhere_erase_old x _))⟩
    rw [if_pos rfl, KeyFunctor.newFromOld_makeOld]
    dsimp only
    split
    · rename_i hnew
      rw [hhRemove_of_mem hnew]
      refine hmove _ (sameElsewhere_erase_new x heap) ?_ (AList.lookup_erase _ _)
      rw [AList.lookup_erase_ne new_ne_old.symm]
      exact hv
    · rename_i hnew
      exact hmove heap (.refl x heap) hv (Option.isNone_iff_eq_none.mp
        (Option.isSome_eq_false_iff.mp (Bool.eq_false_of_not_eq_true hnew)))

/-- A batch whose steps succeed, as long as the keys still to come are ready, and leave all other
    keys as they are. -/
theorem foldlM_spec {f : Heap D V → K → Except String (Heap D V)} (ready : K → Heap D V → Prop)
    (hready : ∀ x heap heap', SameElsewhere key x heap heap' → ∀ x', x' ≠ x →
      ready x' heap → ready x' heap')
    (hstep : ∀ x heap, ready x heap →
      ∃ heap', f heap x = .ok heap' ∧ SameElsewhere key x heap heap' ∧ ready x heap')
    {xs : List K} {heap : Heap D V} (h : ∀ x ∈ xs, ready x heap) :
    ∃ heap', xs.foldlM f heap = .ok heap' ∧
      ∀ x, x ∉ xs → get key x heap' = get key x heap := by
  induction xs generalizing heap with
  | nil => exact ⟨heap, rfl, fun _ _ => rfl⟩
  | cons x rest ih =>
    obtain ⟨next, hnext, hsame, hagain⟩ := hstep x heap (h x List.mem_cons_self)
    have hrest : ∀ x' ∈ rest, ready x' next := by
      intro x' hx'
      by_cases hx : x' = x
      · rw [hx]
        exact hagain
      · exact hready x heap next hsame x' hx (h x' (List.mem_cons_of_mem _ hx'))
    obtain ⟨last, hlast, hkeep⟩ := ih hrest
    refine ⟨last, ?_, fun x' hx' => ?_⟩
    · rw [List.foldlM_cons, hnext]
      exact hlast
    · obtain ⟨hne, hnotin⟩ := not_or.mp (mt List.mem_cons.mpr hx')
      exact (hkeep x' hnotin).trans (hsame x' hne).1

/-- A batch of keys that are always ready. -/
theorem foldlM_spec_of_total {f : Heap D V → K → Except String (Heap D V)}
    (hstep : ∀ x heap, ∃ heap', f heap x = .ok heap' ∧ SameElsewhere key x heap heap')
    (xs : List K) (heap : Heap D V) :
    ∃ heap', xs.foldlM f heap = .ok heap' ∧ ∀ x, x ∉ xs → get key x heap' = get key x heap := by
  refine foldlM_spec (fun _ _ => True) (fun _ _ _ _ _ _ _ => trivial)
    (fun x heap _ => ?_) fun _ _ => trivial
  obtain ⟨heap', hheap', hsame⟩ := hstep x heap
  exact ⟨heap', hheap', hsame, trivial⟩

variable (key) in
theorem removeBatch_spec (xs : List K) (heap : Heap D V) :
    ∃ heap', removeBatch key xs heap = .ok heap' ∧
      ∀ x, x ∉ xs → get key x heap' = get key x heap :=
  foldlM_spec_of_total (remove_spec key) xs heap

variable (key) in
theorem reviveBatch_spec (xs : List K) (heap : Heap D V) :
    ∃ heap', reviveBatch key xs heap = .ok heap' ∧
      ∀ x, x ∉ xs → get key x heap' = get key x heap := by
  refine foldlM_spec_of_total (fun x heap => ?_) xs heap
  split
  · exact revive_spec key x heap
  · exact remove_spec key x heap

/-- Keys with a new value have no old one. -/
theorem oldifyBatch_spec {xs : List K} {heap : Heap D V}
    (h : ∀ x ∈ xs, memOld key x heap = false) :
    ∃ heap', oldifyBatch key xs heap = .ok heap' ∧
      ∀ x, x ∉ xs → get key x heap' = get key x heap := by
  refine foldlM_spec (fun x heap =>
      memOld key x heap = false ∨ get key x heap = none) ?_ ?_
    fun x hx => Or.inl (h x hx)
  · intro x heap heap' hsame x' hne hready
    rw [(hsame x' hne).1, (hsame x' hne).2]
    exact hready
  · intro x heap hready
    split
    · rename_i hmem
      have hfree : memOld key x heap = false := by
        rcases hready with hfree | hnone
        · exact hfree
        · have hmem' : mem key x heap = true := hmem
          rw [mem_eq, hnone] at hmem'
          cases hmem'
      obtain ⟨heap', hheap', hsame, hnone⟩ := oldify_spec hfree
      exact ⟨heap', hheap', hsame, Or.inr hnone⟩
    · rename_i hmem
      have hnone : get key x heap = none := by
        have hmem' : mem key x heap = false := Bool.eq_false_of_not_eq_true hmem
        rw [mem_eq] at hmem'
        exact Option.isNone_iff_eq_none.mp (Option.isSome_eq_false_iff.mp hmem')
      obtain ⟨heap', hheap', hsame, hget⟩ := removeOld_spec key x heap
      exact ⟨heap', hheap', hsame, Or.inr (hget.trans hnone)⟩

variable (key) in
/-- The new values stay. -/
theorem removeOldBatch_spec (xs : List K) (heap : Heap D V) :
    ∃ heap', removeOldBatch key xs heap = .ok heap' ∧ ∀ x, get key x heap' = get key x heap := by
  unfold removeOldBatch
  induction xs generalizing heap with
  | nil => exact ⟨heap, rfl, fun _ => rfl⟩
  | cons x rest ih =>
    obtain ⟨next, hnext, hsame, hget⟩ := removeOld_spec key x heap
    obtain ⟨last, hlast, hkeep⟩ := ih next
    refine ⟨last, ?_, fun x' => (hkeep x').trans ?_⟩
    · rw [List.foldlM_cons, hnext]
      exact hlast
    · by_cases hx : x' = x
      · rw [hx]
        exact hget
      · exact (hsame x' hx).1

end NoCache

/-! ## 2. One operation on both tables -/

variable [DecidableEq K] {iteration : IterationOrder (Sigma fun _ : K => ℕ × V)}

namespace WithCache

/-- The caches only hold values of the table, but for stale keys. -/
def Coherent (key : KeyFunctor K D) (stale : Set K) (table : WithCache K D V) : Prop :=
  ∀ x v, x ∉ stale → table.cache.Finds x v → NoCache.get key x table.direct = some v

/-- Keys are made old only while they have no old value. -/
def Unoldified (key : KeyFunctor K D) (table : WithCache K D V) : Operation K V → Prop
  | .oldifyBatch xs => ∀ x ∈ xs, NoCache.memOld key x table.direct = false
  | _ => True

/-- A value is added only at a free key, or at a key that has it already. -/
def AddAgrees (key : KeyFunctor K D) (table : WithCache K D V) : Operation K V → Prop
  | .add x y => ∀ v, NoCache.get key x table.direct = some v → v = y
  | _ => True

/-- A look-up that adds the key to the recency cache finds room for it. -/
def GetFits (key : KeyFunctor K D) (table : WithCache K D V) (x : K) : Prop :=
  table.cache.l1.get x = none →
    table.cache.l2.find x ≠ none ∨ NoCache.mem key x table.direct = true →
    table.cache.l1.Fits capacity x

/-- Each addition to the recency cache finds room. -/
def RecencyFits (key : KeyFunctor K D) (iteration : IterationOrder (Sigma fun _ : K => ℕ × V))
    (table : WithCache K D V) : Operation K V → Prop
  | .add x _ => table.cache.l1.Fits capacity x
  | .get x => GetFits key table x
  | .mem x => table.cache.l1.get x = none → table.cache.l2.find x ≠ none →
      table.cache.l1.Fits capacity x
  | .getBatch xs => Machine.Admissible (getBinding key iteration) (GetFits key) xs table
  | _ => True

/-- The recency cache keeps within its capacity. -/
def WithinCapacity (table : WithCache K D V) : Prop :=
  AssocMap.count table.cache.l1.cache ≤ capacity

variable {table : WithCache K D V} {stale : Set K}

variable (key iteration) in
theorem get_spec (hvalid : table.cache.Valid) (x : K) :
    ∃ value next, table.get key iteration x = .ok (value, next) ∧ next.direct = table.direct ∧
      next.cache.Valid ∧
      (Coherent key stale table →
        Coherent key stale next ∧ (x ∉ stale → value = NoCache.get key x table.direct)) ∧
      (table.WithinCapacity → GetFits key table x → next.WithinCapacity) := by
  obtain ⟨result, cache, hget, hcache, hfinds, hsome, hnone, hbound⟩ :=
    LocalCache.get_spec iteration x hvalid
  cases result with
  | some v =>
    refine ⟨some v, ⟨table.direct, cache⟩, ?_, rfl, hcache, fun hcoherent => ⟨?_, ?_⟩,
      fun hle hfits => hbound hle fun h h' => hfits h (Or.inl h')⟩
    · rw [get, hget]
      rfl
    · exact fun x' v' hx' h => hcoherent x' v' hx' (hfinds x' v' h)
    · exact fun hx => (hcoherent x v hx (hsome v rfl)).symm
  | none =>
    obtain ⟨hsame, hl1, hl2⟩ := hnone rfl
    cases hdirect : NoCache.get key x table.direct with
    | none =>
      refine ⟨none, ⟨table.direct, cache⟩, ?_, rfl, hcache, fun hcoherent => ⟨?_, fun _ => rfl⟩,
        fun hle _ => hbound hle fun _ h => absurd hl2 h⟩
      · simp only [get, hget, hdirect, bind, Except.bind, pure, Except.pure]
      · exact fun x' v' hx' h => hcoherent x' v' hx' (hfinds x' v' h)
    | some v =>
      obtain ⟨last, hadd, hlast, hadded, hroom⟩ :=
        LocalCache.add_spec iteration x v hcache
      refine ⟨some v, ⟨table.direct, last⟩, ?_, rfl, hlast, fun hcoherent => ⟨?_, fun _ => rfl⟩,
        fun hle hfits => hroom ?_ ?_⟩
      · simp only [get, hget, hdirect, hadd, bind, Except.bind, pure, Except.pure]
      · intro x' v' hx' h
        rcases hadded x' v' h with ⟨rfl, rfl⟩ | h
        · exact hdirect
        · exact hcoherent x' v' hx' (hfinds x' v' h)
      · rw [hsame]
        exact hle
      · rw [hsame]
        refine hfits hl1 (Or.inr ?_)
        rw [NoCache.mem_eq, hdirect]
        rfl

variable (key iteration) in
theorem mem_spec (hvalid : table.cache.Valid) (x : K) :
    ∃ found next, table.mem key iteration x = .ok (found, next) ∧ next.direct = table.direct ∧
      next.cache.Valid ∧
      (Coherent key ∅ table → Coherent key ∅ next ∧ found = NoCache.mem key x table.direct) ∧
      (table.WithinCapacity → RecencyFits key iteration table (.mem x) →
        next.WithinCapacity) := by
  obtain ⟨result, cache, hget, hcache, hfinds, hsome, -, hbound⟩ :=
    LocalCache.get_spec iteration x hvalid
  cases result with
  | some v =>
    refine ⟨true, ⟨table.direct, cache⟩, ?_, rfl, hcache, fun hcoherent => ⟨?_, ?_⟩, hbound⟩
    · rw [mem, hget]
      rfl
    · exact fun x' v' hx' h => hcoherent x' v' hx' (hfinds x' v' h)
    · rw [NoCache.mem_eq, hcoherent x v (Set.notMem_empty x) (hsome v rfl)]
      rfl
  | none =>
    refine ⟨NoCache.mem key x table.direct, ⟨table.direct, cache⟩, ?_, rfl, hcache,
      fun hcoherent => ⟨?_, rfl⟩, hbound⟩
    · rw [mem, hget]
      rfl
    · exact fun x' v' hx' h => hcoherent x' v' hx' (hfinds x' v' h)

variable (key iteration) in
/-- The bindings of a batch, by induction on its keys. -/
theorem getBatch_spec (hvalid : table.cache.Valid) (xs : List K) :
    ∃ bindings next, table.getBatch key iteration xs = .ok (bindings, next) ∧
      next.direct = table.direct ∧ next.cache.Valid ∧
      (Coherent key stale table → Coherent key stale next ∧
        ((∀ x ∈ xs, x ∉ stale) → bindings = NoCache.getBatch key xs table.direct)) ∧
      (table.WithinCapacity → RecencyFits key iteration table (.getBatch xs) →
        next.WithinCapacity) := by
  unfold getBatch
  induction xs generalizing table with
  | nil => exact ⟨[], table, rfl, rfl, hvalid, fun hcoherent => ⟨hcoherent, fun _ => rfl⟩,
      fun hle _ => hle⟩
  | cons x rest ih =>
    obtain ⟨value, next, hget, hdirect, hnext, hagree, hbound⟩ :=
      get_spec key iteration hvalid x
    obtain ⟨bindings, last, hrest, hdirect', hlast, hagree', hbound'⟩ := ih hnext
    have hbinding : getBinding key iteration x table = .ok ((x, value), next) := by
      rw [getBinding, hget]
      rfl
    refine ⟨(x, value) :: bindings, last, Machine.run_cons hbinding hrest,
      hdirect'.trans hdirect, hlast, fun hcoherent => ?_, fun hle hfits => ?_⟩
    · obtain ⟨hcoherent', hvalue⟩ := hagree hcoherent
      obtain ⟨hcoherent'', hbindings⟩ := hagree' hcoherent'
      refine ⟨hcoherent'', fun hfresh => ?_⟩
      obtain ⟨hx, hrest⟩ := List.forall_mem_cons.mp hfresh
      rw [hvalue hx, hbindings hrest, hdirect]
      rfl
    · exact hbound' (hbound hle hfits.1) (hfits.2 _ _ hbinding)

variable (key) in
/-- The keys that the heap may have changed are no longer in the cache. -/
theorem removing_spec (hvalid : table.cache.Valid) {xs : List K} {direct : Heap D V}
    (hkeep : ∀ x, x ∉ xs → NoCache.get key x direct = NoCache.get key x table.direct) :
    (removing xs direct table).cache.Valid ∧
      (Coherent key stale table → Coherent key stale (removing xs direct table)) ∧
      (table.WithinCapacity → (removing xs direct table).WithinCapacity) := by
  obtain ⟨hcache, hfinds, hle⟩ := LocalCache.foldl_remove_spec xs hvalid
  refine ⟨hcache, fun hcoherent x v hx h => ?_, hle.trans⟩
  obtain ⟨hnotin, h⟩ := hfinds x v h
  exact (hkeep x hnotin).trans (hcoherent x v hx h)

variable (key) in
/-- A write that binds no key anew to something else. -/
theorem direct_spec (hvalid : table.cache.Valid) {direct : Heap D V}
    (hkeep : ∀ x v, NoCache.get key x table.direct = some v → NoCache.get key x direct = some v) :
    (WithCache.mk direct table.cache).cache.Valid ∧
      (Coherent key stale table → Coherent key stale ⟨direct, table.cache⟩) ∧
      (table.WithinCapacity → WithinCapacity ⟨direct, table.cache⟩) :=
  ⟨hvalid, fun hcoherent x v hx h => hkeep x v (hcoherent x v hx h), id⟩

/-- The first write to a key wins. -/
theorem get_add_of_some {x x' : K} {y v : V} {heap : Heap D V}
    (h : NoCache.get key x' heap = some v) :
    NoCache.get key x' (NoCache.add key x y heap) = some v := by
  rw [NoCache.get_add]
  split
  · rename_i hx
    rw [← hx, h]
    rfl
  · exact h

/-- What an operation does: it succeeds; under the one condition it answers as the table without a
    cache, under the other one the recency cache keeps within its capacity. -/
structure Stepped (key : KeyFunctor K D) (iteration : IterationOrder (Sigma fun _ : K => ℕ × V))
    (op : Operation K V) (table : WithCache K D V) (answer : Answer K V)
    (next : WithCache K D V) : Prop where
  step : WithCache.step key iteration op table = .ok (answer, next)
  valid : next.cache.Valid
  agree : Coherent key ∅ table → AddAgrees key table op →
    Coherent key ∅ next ∧ NoCache.step key op table.direct = .ok (answer, next.direct)
  within : table.WithinCapacity → RecencyFits key iteration table op → next.WithinCapacity

/-- An operation that changes the heap, and drops the keys that it changes from the cache. -/
theorem stepped_removing (hvalid : table.cache.Valid) (xs : List K) {op : Operation K V}
    {result : Except String (Heap D V)} {direct : Heap D V} (hresult : result = .ok direct)
    (hstep : WithCache.step key iteration op table =
      Answer.ofState (result.map fun direct => removing xs direct table))
    (habstract : NoCache.step key op table.direct = Answer.ofState result)
    (hkeep : ∀ x, x ∉ xs → NoCache.get key x direct = NoCache.get key x table.direct) :
    Stepped key iteration op table .unit (removing xs direct table) := by
  obtain ⟨hcache, hcoherent, hle⟩ := removing_spec key hvalid hkeep
  subst hresult
  exact ⟨hstep, hcache, fun h _ => ⟨hcoherent h, habstract⟩, fun h _ => hle h⟩

/-- An operation that only changes the heap. -/
theorem stepped_direct (hvalid : table.cache.Valid) {op : Operation K V}
    {result : Except String (Heap D V)} {direct : Heap D V} (hresult : result = .ok direct)
    (hstep : WithCache.step key iteration op table =
      Answer.ofState (result.map fun direct => ⟨direct, table.cache⟩))
    (habstract : NoCache.step key op table.direct = Answer.ofState result)
    (hkeep : ∀ x v, NoCache.get key x table.direct = some v → NoCache.get key x direct = some v) :
    Stepped key iteration op table .unit ⟨direct, table.cache⟩ := by
  obtain ⟨hcache, hcoherent, hle⟩ := direct_spec key hvalid hkeep
  subst hresult
  exact ⟨hstep, hcache, fun h _ => ⟨hcoherent h, habstract⟩, fun h _ => hle h⟩

variable (iteration) in
theorem step_spec (hvalid : table.cache.Valid) {op : Operation K V}
    (hdomain : Unoldified key table op) :
    ∃ answer next, Stepped key iteration op table answer next := by
  cases op with
  | add x y =>
    obtain ⟨cache, hadd, hcache, hfinds, hroom⟩ :=
      LocalCache.add_spec iteration x y hvalid
    refine ⟨.unit, ⟨NoCache.add key x y table.direct, cache⟩, ?_, hcache,
      fun hcoherent hagree => ⟨fun x' v hx' h => ?_, rfl⟩, hroom⟩
    · rw [step, add, hadd]
      rfl
    · rcases hfinds x' v h with ⟨rfl, rfl⟩ | h
      · dsimp only
        rw [NoCache.get_add, if_pos rfl]
        cases hdirect : NoCache.get key x' table.direct with
        | none => rfl
        | some old => exact congrArg some (hagree old hdirect)
      · exact get_add_of_some (hcoherent x' v hx' h)
  | writeAround x y => exact ⟨_, _, stepped_direct hvalid rfl rfl rfl fun _ _ => get_add_of_some⟩
  | addOld x y =>
    refine ⟨_, _, stepped_direct hvalid rfl rfl rfl fun x' v h => ?_⟩
    rw [NoCache.get_addOld]
    exact h
  | get x =>
    obtain ⟨value, next, hget, hdirect, hnext, hagree, hbound⟩ :=
      get_spec key iteration hvalid x
    refine ⟨.value value, next, ?_, hnext, fun hcoherent _ => ?_, hbound⟩
    · rw [step, hget]
      rfl
    · obtain ⟨hcoherent', hvalue⟩ := hagree hcoherent
      refine ⟨hcoherent', ?_⟩
      rw [hvalue (Set.notMem_empty x), hdirect]
      rfl
  | mem x =>
    obtain ⟨found, next, hmem, hdirect, hnext, hagree, hbound⟩ :=
      mem_spec key iteration hvalid x
    refine ⟨.bool found, next, ?_, hnext, fun hcoherent _ => ?_, hbound⟩
    · rw [step, hmem]
      rfl
    · obtain ⟨hcoherent', hfound⟩ := hagree hcoherent
      refine ⟨hcoherent', ?_⟩
      rw [hfound, hdirect]
      rfl
  | getBatch xs =>
    obtain ⟨bindings, next, hget, hdirect, hnext, hagree, hbound⟩ :=
      getBatch_spec key iteration hvalid xs
    refine ⟨.batch bindings, next, ?_, hnext, fun hcoherent _ => ?_, hbound⟩
    · rw [step, hget]
      rfl
    · obtain ⟨hcoherent', hbindings⟩ := hagree hcoherent
      refine ⟨hcoherent', ?_⟩
      rw [hbindings fun x _ => Set.notMem_empty x, hdirect]
      rfl
  | remove x =>
    obtain ⟨direct, hremove, hsame⟩ := NoCache.remove_spec key x table.direct
    refine ⟨_, _, stepped_removing hvalid [x] hremove ?_ rfl fun x' hx' => ?_⟩
    · rw [step, remove]
      cases NoCache.remove key x table.direct <;> rfl
    · exact (hsame x' (fun h => hx' (h ▸ List.mem_singleton_self x))).1
  | removeBatch xs =>
    obtain ⟨direct, hremove, hkeep⟩ := NoCache.removeBatch_spec key xs table.direct
    refine ⟨_, _, stepped_removing hvalid xs hremove ?_ rfl hkeep⟩
    rw [step, removeBatch]
    cases NoCache.removeBatch key xs table.direct <;> rfl
  | oldifyBatch xs =>
    obtain ⟨direct, holdify, hkeep⟩ := NoCache.oldifyBatch_spec hdomain
    refine ⟨_, _, stepped_removing hvalid xs holdify ?_ rfl hkeep⟩
    rw [step, oldifyBatch]
    cases NoCache.oldifyBatch key xs table.direct <;> rfl
  | reviveBatch xs =>
    obtain ⟨direct, hrevive, hkeep⟩ := NoCache.reviveBatch_spec key xs table.direct
    refine ⟨_, _, stepped_removing hvalid xs hrevive ?_ rfl hkeep⟩
    rw [step, reviveBatch]
    cases NoCache.reviveBatch key xs table.direct <;> rfl
  | removeOldBatch xs =>
    obtain ⟨direct, hremove, hkeep⟩ := NoCache.removeOldBatch_spec key xs table.direct
    refine ⟨_, _, stepped_direct hvalid hremove ?_ rfl fun x v h => (hkeep x).trans h⟩
    rw [step, removeOldBatch]
    cases NoCache.removeOldBatch key xs table.direct <;> rfl

/-! ## 3. Runs -/

theorem preserves_valid :
    Machine.Preserves (WithCache.step key iteration) (Unoldified key)
      fun table => table.cache.Valid := by
  intro table op hvalid hdomain
  obtain ⟨answer, next, hstepped⟩ := step_spec iteration hvalid hdomain
  exact ⟨answer, next, hstepped.step, hstepped.valid⟩

theorem preserves_withinCapacity :
    Machine.Preserves (WithCache.step key iteration)
      (fun table op => Unoldified key table op ∧ RecencyFits key iteration table op)
      fun table => table.cache.Valid ∧ table.WithinCapacity := by
  intro table op htable hallowed
  obtain ⟨answer, next, hstepped⟩ := step_spec iteration htable.1 hallowed.1
  exact ⟨answer, next, hstepped.step, hstepped.valid, hstepped.within htable.2 hallowed.2⟩

theorem simulates_noCache :
    Machine.Simulates (WithCache.step key iteration) (NoCache.step key)
      (fun table op => Unoldified key table op ∧ AddAgrees key table op)
      fun table heap => table.cache.Valid ∧ Coherent key ∅ table ∧ table.direct = heap := by
  intro table heap op answer next hrelated hallowed hstep
  obtain ⟨hvalid, hcoherent, rfl⟩ := hrelated
  obtain ⟨answer', next', hstepped⟩ := step_spec iteration hvalid hallowed.1
  cases Except.ok.inj (hstep.symm.trans hstepped.step)
  obtain ⟨hcoherent', habstract⟩ := hstepped.agree hcoherent hallowed.2
  exact ⟨next.direct, habstract, hstepped.valid, hcoherent', rfl⟩

end WithCache

open WithCache

/-- **A cached table against the table without a cache**, over any run of operations that make keys
    old only while they have no old value. The caches never fail (no key is taken from an empty
    queue), their counters are right, and the frequency cache holds at most twice its capacity. If
    values are only added where they agree with the table, all answers are those of the table
    without a cache; if the additions to the recency cache find room, it keeps within its
    capacity. -/
theorem withCache_refines (key : KeyFunctor K D)
    (iteration : IterationOrder (Sigma fun _ : K => ℕ × V)) (ops : List (Operation K V))
    (hdomain : Machine.Admissible (WithCache.step key iteration) (Unoldified key) ops .empty) :
    ∃ answers table, Machine.run (WithCache.step key iteration) ops .empty = .ok (answers, table) ∧
      (table.cache.l1.size = AssocMap.count table.cache.l1.cache ∧
        table.cache.l2.size = AssocMap.count table.cache.l2.cache ∧
        AssocMap.count table.cache.l2.cache ≤ 2 * capacity) ∧
      (Machine.Admissible (WithCache.step key iteration) (AddAgrees key) ops .empty →
        Machine.run (NoCache.step key) ops ∅ = .ok (answers, table.direct)) ∧
      (Machine.Admissible (WithCache.step key iteration) (RecencyFits key iteration) ops .empty →
        AssocMap.count table.cache.l1.cache ≤ capacity) := by
  have hvalid : (WithCache.empty : WithCache K D V).cache.Valid := LocalCache.empty_valid
  obtain ⟨answers, table, hrun, hlast⟩ := preserves_valid.run hvalid hdomain
  refine ⟨answers, table, hrun, ⟨hlast.l1.size, hlast.l2.size, hlast.l2.bound⟩,
    fun hagree => ?_, fun hfits => ?_⟩
  · have hcoherent : Coherent key ∅ (WithCache.empty : WithCache K D V) :=
      fun x v _ h => absurd h (LocalCache.empty_finds x v)
    obtain ⟨heap, habstract, -, -, rfl⟩ := simulates_noCache.run ⟨hvalid, hcoherent, rfl⟩
      (hdomain.and hagree) hrun
    exact habstract
  · obtain ⟨answers', table', hrun', -, hle⟩ := preserves_withinCapacity.run
      ⟨hvalid, Nat.zero_le _⟩ (hdomain.and hfits)
    cases Except.ok.inj (hrun.symm.trans hrun')
    exact hle

/-- A number as that many letters, with the string itself as its digest. -/
def tally : KeyFunctor ℕ String where
  make n := String.ofList (List.replicate n 'a')
  md5 := id
  new_injective := by
    intro m n h
    have hlist := String.ofList_injective h
    exact (List.length_replicate.symm.trans (congrArg List.length hlist)).trans
      List.length_replicate
  old_injective := by
    intro m n h
    have hlist := congrArg String.toList h
    simp only [id_eq, String.toList_append, String.toList_ofList] at hlist
    exact (List.length_replicate.symm.trans
      (congrArg List.length (List.append_cancel_left hlist))).trans List.length_replicate
  new_ne_old := by
    intro m n h
    have hlist := congrArg String.toList h
    simp only [id_eq, String.toList_append, String.toList_ofList] at hlist
    cases m <;> cases hlist

def inOrder : IterationOrder (Sigma fun _ : ℕ => ℕ × ℕ) := ⟨id, fun _ => .rfl⟩

/-- A run that meets both conditions. -/
def agreeing : List (Operation ℕ ℕ) := [.add 0 1, .add 0 1, .oldifyBatch [0], .mem 0]

theorem withCache_refines_run :
    ∃ answers table,
      Machine.run (WithCache.step tally inOrder) agreeing .empty = .ok (answers, table) ∧
      Machine.run (NoCache.step tally) agreeing ∅ = .ok (answers, table.direct) ∧
      AssocMap.count table.cache.l1.cache ≤ capacity := by
  have hdomain : Machine.Admissible (WithCache.step tally inOrder) (Unoldified tally) agreeing
      .empty :=
    .cons trivial rfl (.cons trivial rfl (.cons (List.forall_mem_singleton.mpr rfl) rfl
      (.cons trivial rfl trivial)))
  have hagree : Machine.Admissible (WithCache.step tally inOrder) (AddAgrees tally) agreeing
      .empty :=
    .cons (fun v h => by cases h) rfl (.cons (fun v h => (Option.some.inj h).symm) rfl
      (.cons trivial rfl (.cons trivial rfl trivial)))
  have hfits : Machine.Admissible (WithCache.step tally inOrder) (RecencyFits tally inOrder)
      agreeing .empty :=
    .cons (.inl (by decide)) rfl (.cons (.inl (by decide)) rfl (.cons trivial rfl
      (.cons (fun _ hfound => absurd rfl hfound) rfl trivial)))
  obtain ⟨answers, table, hrun, -, hsame, hbound⟩ :=
    withCache_refines tally inOrder agreeing hdomain
  exact ⟨answers, table, hrun, hsame hagree, hbound hfits⟩

/-- **A second value at a key**: the cached table answers with it, the other one with the first. -/
theorem withCache_second_value :
    (Machine.run (WithCache.step tally inOrder) [.add 0 1, .add 0 2, .get 0] .empty).map (·.1) =
        .ok [.unit, .unit, .value (some 2)] ∧
      (Machine.run (NoCache.step tally) [.add 0 1, .add 0 2, .get 0] ∅).map (·.1) =
        .ok [.unit, .unit, .value (some 1)] := by
  decide

end Pysa.SharedMemory
