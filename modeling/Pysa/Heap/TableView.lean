/-
  Subject: A TABLE AS TWO MAPS, of the new and of the old values (`sharedMemory.ml`).

  * `HeapView`, `TableView` -- the heap binds the keys as the maps do, and the caches agree;
  * `writeAround_view`, `oldifyBatch_view`, `reviveBatch_view` and so on -- what each operation is
    on the maps.
-/
import Pysa.Heap.FirstClassWithKeys
import Pysa.Heap.WithCacheRefines

namespace Pysa.SharedMemory

variable {K D V : Type} [DecidableEq K] [DecidableEq D]

omit [DecidableEq K] in
theorem NoCache.getOld_eq (key : KeyFunctor K D) (x : K) (heap : Heap D V) :
    NoCache.getOld key x heap = heap.lookup (key.md5 (key.makeOld x)) := by
  unfold NoCache.getOld hhMem hhGetAndDeserialize
  cases heap.lookup (key.md5 (key.makeOld x)) <;> rfl

/-! ## 1. The heap -/

structure HeapView (key : KeyFunctor K D) (heap : Heap D V) (new old : K → Option V) : Prop where
  new : ∀ x, NoCache.get key x heap = new x
  old : ∀ x, NoCache.getOld key x heap = old x

namespace HeapView

open NoCache

variable {key : KeyFunctor K D} {heap : Heap D V} {new old : K → Option V}

theorem insert_new (h : HeapView key heap new old) (x : K) (v : V) :
    HeapView key (heap.insert (key.md5 (key.make x)) v) (Function.update new x (some v)) old := by
  refine ⟨fun x' => ?_, fun x' => ?_⟩
  · rw [get_eq, Function.update_apply]
    split_ifs with hx
    · rw [hx, AList.lookup_insert]
    · rw [AList.lookup_insert_ne (fun heq => hx (new_inj.mp heq)), ← get_eq, h.new]
  · rw [getOld_eq, AList.lookup_insert_ne new_ne_old.symm, ← getOld_eq, h.old]

theorem erase_new (h : HeapView key heap new old) (x : K) :
    HeapView key (heap.erase (key.md5 (key.make x))) (Function.update new x none) old := by
  refine ⟨fun x' => ?_, fun x' => ?_⟩
  · rw [get_eq, Function.update_apply]
    split_ifs with hx
    · rw [hx, AList.lookup_erase]
    · rw [AList.lookup_erase_ne (fun heq => hx (new_inj.mp heq)), ← get_eq, h.new]
  · rw [getOld_eq, AList.lookup_erase_ne new_ne_old.symm, ← getOld_eq, h.old]

theorem insert_old (h : HeapView key heap new old) (x : K) (v : V) :
    HeapView key (heap.insert (key.md5 (key.makeOld x)) v) new (Function.update old x (some v)) := by
  refine ⟨fun x' => ?_, fun x' => ?_⟩
  · rw [get_eq, AList.lookup_insert_ne new_ne_old, ← get_eq, h.new]
  · rw [getOld_eq, Function.update_apply]
    split_ifs with hx
    · rw [hx, AList.lookup_insert]
    · rw [AList.lookup_insert_ne (fun heq => hx (old_inj.mp heq)), ← getOld_eq, h.old]

theorem erase_old (h : HeapView key heap new old) (x : K) :
    HeapView key (heap.erase (key.md5 (key.makeOld x))) new (Function.update old x none) := by
  refine ⟨fun x' => ?_, fun x' => ?_⟩
  · rw [get_eq, AList.lookup_erase_ne new_ne_old, ← get_eq, h.new]
  · rw [getOld_eq, Function.update_apply]
    split_ifs with hx
    · rw [hx, AList.lookup_erase]
    · rw [AList.lookup_erase_ne (fun heq => hx (old_inj.mp heq)), ← getOld_eq, h.old]

/-- The first write to a key wins. -/
theorem add (h : HeapView key heap new old) (x : K) (y : V) :
    HeapView key (NoCache.add key x y heap)
      (Function.update new x (some ((new x).getD y))) old := by
  refine ⟨fun x' => ?_, fun x' => ?_⟩
  · rw [get_add, Function.update_apply, h.new, h.new]
  · rw [getOld_eq, NoCache.add, New.add, lookup_hhAdd, if_neg new_ne_old.symm, ← getOld_eq, h.old]

theorem addOld (h : HeapView key heap new old) (x : K) (y : V) :
    HeapView key (NoCache.addOld key x y heap) new
      (Function.update old x (some ((old x).getD y))) := by
  refine ⟨fun x' => ?_, fun x' => ?_⟩
  · rw [get_addOld, h.new]
  · rw [getOld_eq, NoCache.addOld, Old.add, lookup_hhAdd, Function.update_apply, ← getOld_eq,
      ← getOld_eq, h.old, h.old]
    simp only [old_inj]

omit [DecidableEq K] in
theorem mem_new (h : HeapView key heap new old) (x : K) :
    hhMem (key.md5 (key.make x)) heap = (new x).isSome := by
  rw [← h.new, get_eq]
  rfl

omit [DecidableEq K] in
theorem mem_old (h : HeapView key heap new old) (x : K) :
    hhMem (key.md5 (key.makeOld x)) heap = (old x).isSome := by
  rw [← h.old, getOld_eq]
  rfl

theorem remove (h : HeapView key heap new old) (x : K) :
    ∃ heap', NoCache.remove key x heap = .ok heap' ∧
      HeapView key heap' (Function.update new x none) old := by
  rw [NoCache.remove, New.remove]
  split_ifs with hmem
  · exact ⟨_, hhRemove_of_mem hmem, h.erase_new x⟩
  · refine ⟨heap, rfl, ?_⟩
    rw [h.mem_new, Bool.not_eq_true, Option.isSome_eq_false_iff, Option.isNone_iff_eq_none] at hmem
    rw [Function.update_eq_self_iff.mpr hmem.symm]
    exact h

/-- The old value of one key is dropped. -/
theorem removeOld (h : HeapView key heap new old) (x : K) :
    ∃ heap', Old.remove key (key.makeOld x) heap = .ok heap' ∧
      HeapView key heap' (Function.update new x (new x)) (Function.update old x none) := by
  rw [Function.update_eq_self, Old.remove]
  split_ifs with hmem
  · exact ⟨_, hhRemove_of_mem hmem, h.erase_old x⟩
  · refine ⟨heap, rfl, ?_⟩
    have hmem' : (old x).isSome = false := by
      rw [← h.mem_old]
      exact Bool.eq_false_of_not_eq_true hmem
    rw [Option.isSome_eq_false_iff, Option.isNone_iff_eq_none] at hmem'
    rw [Function.update_eq_self_iff.mpr hmem'.symm]
    exact h

/-- An old value is moved to a key without a new one. -/
theorem move_old (h : HeapView key heap new old) {x : K} {v : V} (hold : old x = some v)
    (hnew : new x = none) :
    ∃ heap', hhMove (key.md5 (key.makeOld x)) (key.md5 (key.make x)) heap = .ok heap' ∧
      HeapView key heap' (Function.update new x (some v)) (Function.update old x none) := by
  have hlookup : heap.lookup (key.md5 (key.makeOld x)) = some v := by rw [← getOld_eq, h.old, hold]
  have hfree : heap.lookup (key.md5 (key.make x)) = none := by rw [← get_eq, h.new, hnew]
  exact ⟨_, hhMove_of_free hlookup hfree, (h.insert_new x v).erase_old x⟩

theorem oldifyOne (h : HeapView key heap new old) {x : K} (hfree : old x = none) :
    ∃ heap', (if New.mem key (key.make x) heap then New.oldify key (key.make x) heap
        else Old.remove key (key.makeOld x) heap) = .ok heap' ∧
      HeapView key heap' (Function.update new x none) (Function.update old x (new x)) := by
  cases hx : new x with
  | none =>
    have hmem : New.mem key (key.make x) heap = false := by rw [New.mem, h.mem_new, hx]; rfl
    obtain ⟨heap', hheap', hview⟩ := h.removeOld x
    rw [hx] at hview
    exact ⟨heap', by rw [hmem]; exact hheap', hview⟩
  | some v =>
    have hmem : New.mem key (key.make x) heap = true := by rw [New.mem, h.mem_new, hx]; rfl
    have hlookup : heap.lookup (key.md5 (key.make x)) = some v := by rw [← get_eq, h.new, hx]
    have hnone : heap.lookup (key.md5 (key.makeOld x)) = none := by rw [← getOld_eq, h.old, hfree]
    refine ⟨_, ?_, (h.insert_old x v).erase_new x⟩
    rw [if_pos hmem, New.oldify, if_pos hmem]
    exact hhMove_of_free hlookup hnone

theorem reviveOne (h : HeapView key heap new old) (x : K) :
    ∃ heap', (if Old.mem key (key.makeOld x) heap then Old.revive key (key.makeOld x) heap
        else New.remove key (key.make x) heap) = .ok heap' ∧
      HeapView key heap' (Function.update new x (old x)) (Function.update old x none) := by
  cases hx : old x with
  | none =>
    have hmem : Old.mem key (key.makeOld x) heap = false := by rw [Old.mem, h.mem_old, hx]; rfl
    obtain ⟨heap', hheap', hview⟩ := h.remove x
    have hsame : Function.update old x none = old := Function.update_eq_self_iff.mpr hx.symm
    exact ⟨heap', by rw [hmem]; exact hheap', hsame.symm ▸ hview⟩
  | some v =>
    have hmem : Old.mem key (key.makeOld x) heap = true := by rw [Old.mem, h.mem_old, hx]; rfl
    rw [if_pos hmem, Old.revive, if_pos hmem, KeyFunctor.newFromOld_makeOld]
    cases hnew : new x with
    | none =>
      have hfree : hhMem (key.md5 (key.make x)) heap = false := by rw [h.mem_new, hnew]; rfl
      obtain ⟨heap', hheap', hview⟩ := h.move_old hx hnew
      refine ⟨heap', ?_, hview⟩
      simp only [hfree, Bool.false_eq_true, if_false, bind, Except.bind]
      exact hheap'
    | some w =>
      have hused : hhMem (key.md5 (key.make x)) heap = true := by rw [h.mem_new, hnew]; rfl
      obtain ⟨heap', hheap', hview⟩ := (h.erase_new x).move_old hx (Function.update_self x none new)
      rw [Function.update_idem] at hview
      refine ⟨heap', ?_, hview⟩
      simp only [hused, if_true, hhRemove_of_mem hused, bind, Except.bind]
      exact hheap'

/-- A batch of distinct keys, each of which only looks at its own values. -/
theorem foldlM_batch {f : Heap D V → K → Except String (Heap D V)}
    (effect : Option V → Option V → Option V × Option V) (ready : Option V → Option V → Prop)
    (hstep : ∀ (heap : Heap D V) (new old : K → Option V) x, HeapView key heap new old →
      ready (new x) (old x) → ∃ heap', f heap x = .ok heap' ∧
        HeapView key heap' (Function.update new x (effect (new x) (old x)).1)
          (Function.update old x (effect (new x) (old x)).2))
    {xs : List K} (hnodup : xs.Nodup) (h : HeapView key heap new old)
    (hready : ∀ x ∈ xs, ready (new x) (old x)) :
    ∃ heap', xs.foldlM f heap = .ok heap' ∧
      HeapView key heap' (fun x => if x ∈ xs then (effect (new x) (old x)).1 else new x)
        (fun x => if x ∈ xs then (effect (new x) (old x)).2 else old x) := by
  induction xs generalizing heap new old with
  | nil => exact ⟨heap, rfl, by simpa using h⟩
  | cons x rest ih =>
    obtain ⟨hnotin, hrest⟩ := List.nodup_cons.mp hnodup
    obtain ⟨next, hnext, hview⟩ := hstep heap new old x h (hready x List.mem_cons_self)
    have hne : ∀ x' ∈ rest, x' ≠ x := fun x' hx' heq => hnotin (heq ▸ hx')
    obtain ⟨last, hlast, hlastView⟩ := ih hrest hview fun x' hx' => by
      rw [Function.update_of_ne (hne x' hx'), Function.update_of_ne (hne x' hx')]
      exact hready x' (List.mem_cons_of_mem _ hx')
    refine ⟨last, by rw [List.foldlM_cons, hnext]; exact hlast, ?_⟩
    have hmaps : ∀ (proj : Option V × Option V → Option V) (base : K → Option V),
        (fun x' => if x' ∈ rest then proj (effect
            (Function.update new x (effect (new x) (old x)).1 x')
            (Function.update old x (effect (new x) (old x)).2 x'))
          else Function.update base x (proj (effect (new x) (old x))) x') =
        fun x' => if x' ∈ x :: rest then proj (effect (new x') (old x')) else base x' := by
      intro proj base
      funext x'
      by_cases hx : x' = x
      · subst hx
        rw [if_neg hnotin, if_pos List.mem_cons_self, Function.update_self]
      · rw [Function.update_of_ne hx, Function.update_of_ne hx, Function.update_of_ne hx]
        simp only [List.mem_cons, hx, false_or]
    rw [← hmaps Prod.fst new, ← hmaps Prod.snd old]
    exact hlastView

end HeapView

/-! ## 2. The table with its caches -/

/-- The caches agree with the heap, but for stale keys, and the heap with the maps. -/
structure TableView (key : KeyFunctor K D) (stale : Set K) (table : WithCache K D V)
    (new old : K → Option V) : Prop where
  valid : table.cache.Valid
  coherent : table.Coherent key stale
  heap : HeapView key table.direct new old

namespace TableView

variable {key : KeyFunctor K D} {iteration : IterationOrder (Sigma fun _ : K => ℕ × V)}
  {table : WithCache K D V} {stale : Set K} {new old : K → Option V}

theorem writeAround (h : TableView key stale table new old) (x : K) (y : V) :
    TableView key stale (table.writeAround key x y) (Function.update new x (some ((new x).getD y))) old := by
  obtain ⟨hvalid, hcoherent, -⟩ := WithCache.direct_spec key h.valid
    fun x' v (hget : NoCache.get key x' table.direct = some v) =>
      WithCache.get_add_of_some hget
  exact ⟨hvalid, hcoherent h.coherent, h.heap.add x y⟩

theorem addOld (h : TableView key stale table new old) (x : K) (y : V) :
    TableView key stale (table.addOld key x y) new (Function.update old x (some ((old x).getD y))) := by
  refine ⟨h.valid, fun x' v hx' hfinds => ?_, h.heap.addOld x y⟩
  exact (NoCache.get_addOld x x' y table.direct).trans (h.coherent x' v hx' hfinds)

theorem removing (h : TableView key stale table new old) {xs : List K} {direct : Heap D V}
    {new' old' : K → Option V} (hdirect : HeapView key direct new' old')
    (hkeep : ∀ x, x ∉ xs → new' x = new x) :
    TableView key stale (WithCache.removing xs direct table) new' old' := by
  obtain ⟨hvalid, hcoherent, -⟩ := WithCache.removing_spec key h.valid
    fun x (hx : x ∉ xs) => by rw [hdirect.new, h.heap.new, hkeep x hx]
  exact ⟨hvalid, hcoherent h.coherent, hdirect⟩

theorem remove (h : TableView key stale table new old) (x : K) :
    ∃ table', table.remove key x = .ok table' ∧
      TableView key stale table' (Function.update new x none) old := by
  obtain ⟨direct, hdirect, hview⟩ := h.heap.remove x
  refine ⟨WithCache.removing [x] direct table, ?_, h.removing hview fun x' hx' => ?_⟩
  · rw [WithCache.remove, hdirect]
    rfl
  · exact Function.update_of_ne (fun heq => hx' (List.mem_singleton.mpr heq)) none new

variable (iteration) in
theorem get (h : TableView key stale table new old) {x : K} (hx : x ∉ stale) :
    ∃ table', table.get key iteration x = .ok (new x, table') ∧ TableView key stale table' new old := by
  obtain ⟨value, next, hget, hdirect, hvalid, hagree, -⟩ :=
    WithCache.get_spec key iteration h.valid x
  obtain ⟨hcoherent, hvalue⟩ := hagree h.coherent
  rw [hvalue hx, h.heap.new] at hget
  exact ⟨next, hget, hvalid, hcoherent, hdirect ▸ h.heap⟩

variable (iteration) in
theorem getBatch (h : TableView key stale table new old) {xs : List K} (hxs : ∀ x ∈ xs, x ∉ stale) :
    ∃ table', table.getBatch key iteration xs = .ok (xs.map fun x => (x, new x), table') ∧
      TableView key stale table' new old := by
  obtain ⟨bindings, next, hget, hdirect, hvalid, hagree, -⟩ :=
    WithCache.getBatch_spec key iteration h.valid xs
  obtain ⟨hcoherent, hvalues⟩ := hagree h.coherent
  have hbindings : NoCache.getBatch key xs table.direct = xs.map fun x => (x, new x) :=
    List.map_congr_left fun x _ => by rw [h.heap.new]
  rw [hvalues hxs, hbindings] at hget
  exact ⟨next, hget, hvalid, hcoherent, hdirect ▸ h.heap⟩

variable (iteration) in
/-- A value is added to the caches too. -/
theorem add (h : TableView key stale table new old) {x : K} (hfree : new x = none) (y : V) :
    ∃ table', table.add key iteration x y = .ok table' ∧
      TableView key stale table' (Function.update new x (some y)) old := by
  obtain ⟨cache, hcache, hvalid, hfinds, -⟩ := LocalCache.add_spec iteration x y h.valid
  have hview := h.heap.add x y
  rw [hfree, Option.getD_none] at hview
  refine ⟨⟨NoCache.add key x y table.direct, cache⟩, ?_, hvalid, fun x' v hx' hfind => ?_, hview⟩
  · rw [WithCache.add, hcache]
    rfl
  · rw [hview.new]
    rcases hfinds x' v hfind with ⟨rfl, rfl⟩ | hold
    · exact Function.update_self _ _ _
    · have hget := h.coherent x' v hx' hold
      rw [h.heap.new] at hget
      rw [Function.update_of_ne, hget]
      rintro rfl
      rw [hfree] at hget
      cases hget

theorem oldifyBatch (h : TableView key stale table new old) {xs : List K} (hnodup : xs.Nodup)
    (hfree : ∀ x ∈ xs, old x = none) :
    ∃ table', table.oldifyBatch key xs = .ok table' ∧
      TableView key stale table' (fun x => if x ∈ xs then none else new x)
        (fun x => if x ∈ xs then new x else old x) := by
  obtain ⟨direct, hdirect, hview⟩ := HeapView.foldlM_batch (fun n _ => (none, n))
    (fun _ o => o = none) (fun _ _ _ _ hview hready => hview.oldifyOne hready) hnodup
    h.heap hfree
  refine ⟨WithCache.removing xs direct table, ?_, h.removing hview fun x hx => if_neg hx⟩
  rw [WithCache.oldifyBatch, NoCache.oldifyBatch, hdirect]
  rfl

theorem reviveBatch (h : TableView key stale table new old) {xs : List K} (hnodup : xs.Nodup) :
    ∃ table', table.reviveBatch key xs = .ok table' ∧
      TableView key stale table' (fun x => if x ∈ xs then old x else new x)
        (fun x => if x ∈ xs then none else old x) := by
  obtain ⟨direct, hdirect, hview⟩ := HeapView.foldlM_batch (fun _ o => (o, none))
    (fun _ _ => True) (fun _ _ _ x hview _ => hview.reviveOne x) hnodup
    h.heap fun _ _ => trivial
  refine ⟨WithCache.removing xs direct table, ?_, h.removing hview fun x hx => if_neg hx⟩
  rw [WithCache.reviveBatch, NoCache.reviveBatch, hdirect]
  rfl

theorem removeOldBatch (h : TableView key stale table new old) {xs : List K} (hnodup : xs.Nodup) :
    ∃ table', table.removeOldBatch key xs = .ok table' ∧
      TableView key stale table' new (fun x => if x ∈ xs then none else old x) := by
  obtain ⟨direct, hdirect, hview⟩ := HeapView.foldlM_batch (fun n _ => (n, none))
    (fun _ _ => True) (fun _ _ _ x hview _ => hview.removeOld x) hnodup
    h.heap fun _ _ => trivial
  simp only [ite_self] at hview
  refine ⟨⟨direct, table.cache⟩, ?_, h.valid, fun x v hx hfinds => ?_, hview⟩
  · rw [WithCache.removeOldBatch, NoCache.removeOldBatch, hdirect]
    rfl
  · rw [hview.new, ← h.heap.new]
    exact h.coherent x v hx hfinds

end TableView

end Pysa.SharedMemory
