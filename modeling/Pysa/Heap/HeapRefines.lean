/-
  Subject: THE HEAP OF THE MASTER IS A FINITE MAP, also while it is compacted (`hh_shared.c`).

  * `abstractStep` -- the operations on the map from keys to values of `SharedMemory`;
  * `Refines` -- the table and the heap hold what the map has;
  * `run_refines` -- **every run is answered as by the map: compaction changes nothing**;
  * `heap_accounted` -- **`wasted_heap_size` is what no slot points to, in every state of a run**;
  * `collect_reclaims` -- **compaction always succeeds, and leaves only what slots point to**;
  * `run_fits` -- **as long as there is room, no operation fails**.
-/
import Mathlib.Algebra.BigOperators.Group.Finset.Basic
import Pysa.Heap.HeapCompaction
import Pysa.Heap.WithCacheRefines

namespace Pysa.MasterHeap

open SharedHeap (Config Digest Cell Shared null writeInProgress slotSize aligned nonemptySlots)
open LinearProbing Results

instance : DecidableEq Digest := fun key key' =>
  decidable_of_iff (key.word = key'.word) ⟨SharedHeap.Digest.ext, fun h => by rw [h]⟩

variable {O : Type} {layout : Layout} {codec : Codec O} {state next : State} {blocks : List Block}
  {key : Digest} {slot : ℕ}

/-! ## 1. The finite map -/

abbrev Contents (O : Type) := SharedMemory.Heap Digest (Value O)

/-- The operations on the values that are bound to the keys. -/
def abstractStep (codec : Codec O) : Machine (Op O) (Answer O) (Contents O)
  | .add key data, contents =>
    match contents.lookup key with
    | some _ => .ok (.added none, SharedMemory.hhAdd key data contents)
    | none => do
      let stored ← hhStoreOcaml codec data
      .ok (.added (some (stored.2.length, origSize codec data)),
        SharedMemory.hhAdd key data contents)
  | .mem key, contents => .ok (.mem (SharedMemory.hhMem key contents), contents)
  | .get key, contents =>
    match SharedMemory.hhGetAndDeserialize key contents with
    | some data => .ok (.value data, contents)
    | none => .error "hh_get_and_deserialize"
  | .move key1 key2, contents => do
    let next ← SharedMemory.hhMove key1 key2 contents
    .ok (.unit, next)
  | .remove key, contents => do
    let next ← SharedMemory.hhRemove key contents
    .ok (.unit, next)
  | .collect, contents => .ok (.unit, contents)

/-- The key of a value that is moved must be present. -/
def Allowed (layout : Layout) (state : State) : Op O → Prop
  | .move key1 _ => hhMem layout key1 state = .ok true
  | _ => True

/-- The blocks that slots own hold the values that the map has for their keys. -/
structure Values (codec : Codec O) (hashtbl : ℕ → Cell) (blocks : List Block)
    (contents : Contents O) : Prop where
  sound : ∀ block ∈ blocks, ∀ slot, block.owner = some slot → ∃ key data,
    (hashtbl slot).hash = key.word ∧ contents.lookup key = some data ∧
      hhStoreOcaml codec data = .ok (block.entry.header, block.entry.data)
  complete : ∀ key data, contents.lookup key = some data → ∃ block ∈ blocks, ∃ slot,
    block.owner = some slot ∧ (hashtbl slot).hash = key.word

/-- The table and the heap hold what the map has. -/
def Refines (layout : Layout) (codec : Codec O) (state : State) (contents : Contents O) : Prop :=
  ∃ blocks, Laid layout state blocks ∧ Values codec state.hashtbl blocks contents

variable {contents : Contents O}

theorem Refines.initial (layout : Layout) (codec : Codec O) (memory : ByteMemory) :
    Refines layout codec (State.initial layout memory) (∅ : Contents O) := by
  refine ⟨[], Laid.initial layout memory, fun _ hmem => absurd hmem List.not_mem_nil, ?_⟩
  intro key data hlookup
  rw [AList.lookup_empty] at hlookup
  cases hlookup

/-- What the map has for a key is what is in the slot where the search for it ends. -/
theorem Refines.lookup_cases (h : Refines layout codec state contents)
    (hfound : Found layout state key slot) :
    (∃ data, contents.lookup key = some data ∧ (state.hashtbl slot).hash = key.word ∧
      1 < (state.hashtbl slot).addr ∧
      hhStoreOcaml codec data = .ok (entryAt state.memory (state.hashtbl slot).addr)) ∨
    contents.lookup key = none ∧ (state.hashtbl slot).addr = null := by
  obtain ⟨blocks, hlaid, hvalues⟩ := h
  by_cases hnull : (state.hashtbl slot).addr = null
  · refine .inr ⟨?_, hnull⟩
    cases hlookup : contents.lookup key with
    | none => rfl
    | some data =>
      obtain ⟨block, hmem, slot', howner, hword⟩ := hvalues.complete key data hlookup
      have hslot' := (hlaid.owner block hmem slot' howner).1
      have heq := hfound.eq_slot hlaid.indexed.probed hslot' hword
      rw [heq] at howner
      exact absurd howner ((hlaid.addr_eq_null_iff hfound.lt).mp hnull block hmem)
  · obtain ⟨block, hmem, howner⟩ := hlaid.owned slot hfound.lt hnull
    obtain ⟨key', data, hword, hlookup, hstore⟩ := hvalues.sound block hmem slot howner
    have hkey := hfound.hash.resolve_right (hlaid.owner block hmem slot howner).2
    obtain rfl := SharedHeap.Digest.ext (hword.symm.trans hkey)
    obtain ⟨before, after, a, -, -, hstored, -⟩ := hlaid.tiled.at_mem hmem
    refine .inl ⟨data, hlookup, hkey, hlaid.ne_null hmem howner, ?_⟩
    rw [hstored.owner slot howner, hstored.entryAt, hstore]

/-- The slot of a key that the map has. -/
theorem Refines.slot_of_lookup (h : Refines layout codec state contents) {data : Value O}
    (hlookup : contents.lookup key = some data) :
    ∃ slot, findSlot layout key state = .ok slot ∧ (state.hashtbl slot).hash = key.word ∧
      (state.hashtbl slot).addr ≠ null ∧
      hhStoreOcaml codec data = .ok (entryAt state.memory (state.hashtbl slot).addr) := by
  have hpresent : ∃ slot < layout.hashtblSize, (state.hashtbl slot).hash = key.word := by
    obtain ⟨blocks, hlaid, hvalues⟩ := h
    obtain ⟨block, hmem, slot, howner, hword⟩ := hvalues.complete key data hlookup
    exact ⟨slot, (hlaid.owner block hmem slot howner).1, hword⟩
  obtain ⟨slot, hslot, hword⟩ := hpresent
  obtain ⟨slot', hfind⟩ := findSlot_ok ⟨slot, hslot, .inr hword⟩
  rcases h.lookup_cases (found_of_findSlot hfind) with ⟨data', hlookup', hkey, hgt, hstore⟩ | ⟨hnone, -⟩
  · rw [hlookup] at hlookup'
    cases hlookup'
    exact ⟨slot', hfind, hkey, Nat.ne_of_gt (Nat.zero_lt_of_lt hgt), hstore⟩
  · rw [hlookup] at hnone
    cases hnone

/-! ## 2. Reading -/

/-- What the first slot says of a key. -/
theorem Refines.hhMem_eq (h : Refines layout codec state contents)
    (hfind : findSlot layout key state = .ok slot) :
    hhMem layout key state = .ok (SharedMemory.hhMem key contents) := by
  rw [hhMem, hfind]
  show (if decide ((state.hashtbl slot).hash = key.word) &&
      decide ((state.hashtbl slot).addr ≠ null) then
        if (state.hashtbl slot).addr = writeInProgress then
          Except.error "hh_mem busy-wait loop stuck for 60s" else .ok true
      else .ok false) = .ok (contents.lookup key).isSome
  rcases h.lookup_cases (found_of_findSlot hfind) with ⟨data, hlookup, hword, hgt, -⟩ | ⟨hlookup, hnull⟩
  · have hne : (state.hashtbl slot).addr ≠ null := Nat.ne_of_gt (Nat.zero_lt_of_lt hgt)
    have hwritten : (state.hashtbl slot).addr ≠ writeInProgress := Nat.ne_of_gt hgt
    rw [decide_eq_true hword, decide_eq_true hne, Bool.and_self, if_pos rfl, if_neg hwritten,
      hlookup]
    rfl
  · rw [decide_eq_false (not_not.mpr hnull), Bool.and_false, if_neg Bool.false_ne_true, hlookup]
    rfl

theorem Refines.isSome_lookup (h : Refines layout codec state contents) {present : Bool}
    (hmem : hhMem layout key state = .ok present) : (contents.lookup key).isSome = present := by
  obtain ⟨slot, hfind, -⟩ := bind_eq_ok_iff.mp hmem
  rw [h.hhMem_eq hfind] at hmem
  exact Except.ok.inj hmem

/-- A value that is read is the one that the map has. -/
theorem Refines.get_eq_ok (hlawful : codec.Lawful) (h : Refines layout codec state contents)
    {data : Value O} :
    hhGetAndDeserialize layout codec key state = .ok data ↔ contents.lookup key = some data := by
  refine hhGetAndDeserialize_eq_ok.trans ⟨?_, fun hlookup => ?_⟩
  · rintro ⟨slot, hfind, -, hne, hread⟩
    rcases h.lookup_cases (found_of_findSlot hfind) with ⟨data', hlookup, -, -, hstore⟩ | ⟨-, hnull⟩
    · rw [deserialize_of_entryAt hlawful hstore] at hread
      rw [hlookup, Except.ok.inj hread]
    · exact absurd hnull hne
  · obtain ⟨slot, hfind, hword, hne, hstore⟩ := h.slot_of_lookup hlookup
    exact ⟨slot, hfind, hword, hne, deserialize_of_entryAt hlawful hstore⟩

/-! ## 3. Writing -/

theorem Laid.key_unique (h : Laid layout state blocks) {block : Block} (hmem : block ∈ blocks)
    {other : ℕ} (howner : block.owner = some other) (hslot : slot < layout.hashtblSize)
    (hword : (state.hashtbl slot).hash = key.word) (hne : other ≠ slot) :
    (state.hashtbl other).hash ≠ key.word := by
  intro hother
  exact hne (h.indexed.probed.unique (h.owner block hmem other howner).1 hslot
    (slots_eq_key.mpr hother) (slots_eq_key.mpr hword))

theorem Refines.grab (h : Refines layout codec state contents)
    (hfound : Found layout state key slot) (hfree : (state.hashtbl slot).hash = 0) :
    Refines layout codec (grab state key slot) contents := by
  obtain ⟨blocks, hlaid, hvalues⟩ := h
  have hhash : ∀ block ∈ blocks, ∀ other, block.owner = some other →
      ((MasterHeap.grab state key slot).hashtbl other).hash = (state.hashtbl other).hash := by
    intro block hmem other howner
    refine hash_grab_of_ne ?_
    rintro rfl
    exact (hlaid.owner block hmem other howner).2 hfree
  refine ⟨blocks, laid_grab hlaid hfound hfree, fun block hmem other howner => ?_,
    fun key' data hlookup => ?_⟩
  · rw [hhash block hmem other howner]
    exact hvalues.sound block hmem other howner
  · obtain ⟨block, hmem, other, howner, hword⟩ := hvalues.complete key' data hlookup
    refine ⟨block, hmem, other, howner, ?_⟩
    rw [hhash block hmem other howner, hword]

theorem Refines.append (h : Refines layout codec state contents)
    (hslot : slot < layout.hashtblSize) (hword : (state.hashtbl slot).hash = key.word)
    (haddr : (state.hashtbl slot).addr = null) {value : Value O} {header : ℕ}
    {bytes : List UInt8} (hstore : hhStoreOcaml codec value = .ok (header, bytes))
    (hlookup : contents.lookup key = none) :
    Refines layout codec (state.append slot header bytes)
      (SharedMemory.hhAdd key value contents) := by
  obtain ⟨blocks, hlaid, hvalues⟩ := h
  obtain ⟨hodd, hlt, hsize⟩ := entry_of_store hstore
  have hnamed : (state.hashtbl slot).hash ≠ 0 := by
    rw [hword]
    exact key.ne_zero
  have hnew : ∀ key', (SharedMemory.hhAdd key value contents).lookup key' =
      if key' = key then some value else contents.lookup key' := by
    intro key'
    rw [SharedMemory.lookup_hhAdd, hlookup]
    rfl
  refine ⟨_, laid_append hlaid hslot hnamed haddr ⟨header, bytes, hodd, hlt, hsize⟩,
    fun block hmem other howner => ?_, fun key' data hdata => ?_⟩
  · rw [hash_append]
    rcases List.mem_append.mp hmem with hmem | hmem
    · obtain ⟨key', data, hword', hdata, hstored⟩ := hvalues.sound block hmem other howner
      refine ⟨key', data, hword', ?_, hstored⟩
      rw [hnew, if_neg, hdata]
      rintro rfl
      rw [hlookup] at hdata
      cases hdata
    · rw [List.mem_singleton.mp hmem] at howner ⊢
      cases howner
      refine ⟨key, value, hword, ?_, hstore⟩
      rw [hnew, if_pos rfl]
  · rw [hnew] at hdata
    split at hdata
    · rename_i heq
      refine ⟨_, List.mem_append_right _ (List.mem_singleton.mpr rfl), slot, rfl, ?_⟩
      rw [hash_append, heq, hword]
    · obtain ⟨block, hmem, other, howner, hword'⟩ := hvalues.complete key' data hdata
      refine ⟨block, List.mem_append_left _ hmem, other, howner, ?_⟩
      rw [hash_append, hword']

theorem Refines.release (h : Refines layout codec state contents)
    (hslot : slot < layout.hashtblSize) (hword : (state.hashtbl slot).hash = key.word)
    (hne : (state.hashtbl slot).addr ≠ null) :
    Refines layout codec (state.release slot) (contents.erase key) := by
  obtain ⟨blocks, hlaid, hvalues⟩ := h
  obtain ⟨before, entry, after, rfl, hat⟩ := hlaid.at_owner hslot hne
  refine ⟨_, laid_release hlaid hat, fun block hmem other howner => ?_, fun key' data hdata => ?_⟩
  · rw [hash_release]
    rcases mem_middle.mp hmem with rfl | hmem
    · cases howner
    · have hother : other ≠ slot := by
        rintro rfl
        exact hat.ne_owner hmem howner
      have hmem' : block ∈ before ++ ⟨entry, some slot⟩ :: after := mem_middle.mpr (.inr hmem)
      obtain ⟨key', data, hword', hdata, hstored⟩ := hvalues.sound block hmem' other howner
      refine ⟨key', data, hword', ?_, hstored⟩
      rw [AList.lookup_erase_ne, hdata]
      rintro rfl
      exact hlaid.key_unique hmem' howner hslot hword hother hword'
  · have hkey : key' ≠ key := by
      rintro rfl
      rw [AList.lookup_erase] at hdata
      cases hdata
    rw [AList.lookup_erase_ne hkey] at hdata
    obtain ⟨block, hmem, other, howner, hword'⟩ := hvalues.complete key' data hdata
    rcases mem_middle.mp hmem with rfl | hmem
    · cases howner
      exact absurd (SharedHeap.Digest.ext (hword'.symm.trans hword)) hkey
    · refine ⟨block, mem_middle.mpr (.inr hmem), other, howner, ?_⟩
      rw [hash_release, hword']

theorem Refines.rebind (h : Refines layout codec state contents) {slot' : ℕ} {key' : Digest}
    (hslot : slot < layout.hashtblSize) (hword : (state.hashtbl slot).hash = key.word)
    (hne : (state.hashtbl slot).addr ≠ null) (hslot' : slot' < layout.hashtblSize)
    (hword' : (state.hashtbl slot').hash = key'.word)
    (hnull : (state.hashtbl slot').addr = null) {value : Value O}
    (hlookup : contents.lookup key = some value) :
    Refines layout codec (state.rebind slot slot') ((contents.insert key' value).erase key) := by
  obtain ⟨blocks, hlaid, hvalues⟩ := h
  obtain ⟨before, entry, after, rfl, hat⟩ := hlaid.at_owner hslot hne
  have hnamed : (state.hashtbl slot').hash ≠ 0 := by
    rw [hword']
    exact key'.ne_zero
  have hkeys : key' ≠ key := by
    rintro rfl
    have heq := hlaid.indexed.probed.unique hslot' hslot (slots_eq_key.mpr hword')
      (slots_eq_key.mpr hword)
    rw [heq] at hnull
    exact hne hnull
  refine ⟨_, laid_rebind hlaid hat hslot' hnull hnamed, fun block hmem other howner => ?_,
    fun key'' data hdata => ?_⟩
  · rw [hash_rebind]
    rcases mem_middle.mp hmem with rfl | hmem
    · cases howner
      obtain ⟨key₀, data, hword₀, hdata, hstored⟩ :=
        hvalues.sound _ (mem_middle.mpr (.inl rfl)) slot rfl
      obtain rfl := SharedHeap.Digest.ext (hword₀.symm.trans hword)
      refine ⟨key', data, hword', ?_, hstored⟩
      rw [AList.lookup_erase_ne hkeys, AList.lookup_insert, ← hlookup, hdata]
    · have hmem' : block ∈ before ++ ⟨entry, some slot⟩ :: after := mem_middle.mpr (.inr hmem)
      have hother : other ≠ slot := by
        rintro rfl
        exact hat.ne_owner hmem howner
      have hother' : other ≠ slot' := by
        rintro rfl
        exact (hlaid.addr_eq_null_iff hslot').mp hnull block hmem' howner
      obtain ⟨key₀, data, hword₀, hdata, hstored⟩ := hvalues.sound block hmem' other howner
      refine ⟨key₀, data, hword₀, ?_, hstored⟩
      rw [AList.lookup_erase_ne, AList.lookup_insert_ne, hdata]
      · rintro rfl
        exact hlaid.key_unique hmem' howner hslot' hword' hother' hword₀
      · rintro rfl
        exact hlaid.key_unique hmem' howner hslot hword hother hword₀
  · have hkey : key'' ≠ key := by
      rintro rfl
      rw [AList.lookup_erase] at hdata
      cases hdata
    rw [AList.lookup_erase_ne hkey] at hdata
    by_cases heq : key'' = key'
    · refine ⟨_, mem_middle.mpr (.inl rfl), slot', rfl, ?_⟩
      rw [hash_rebind, heq, hword']
    · rw [AList.lookup_insert_ne heq] at hdata
      obtain ⟨block, hmem, other, howner, hword₀⟩ := hvalues.complete key'' data hdata
      rcases mem_middle.mp hmem with rfl | hmem
      · cases howner
        exact absurd (SharedHeap.Digest.ext (hword₀.symm.trans hword)) hkey
      · refine ⟨block, mem_middle.mpr (.inr hmem), other, howner, ?_⟩
        rw [hash_rebind, hword₀]

/-- Compaction keeps the contents. -/
theorem Refines.collect (h : Refines layout codec state contents) :
    ∃ next, hhCollect layout state = .ok next ∧ Refines layout codec next contents := by
  obtain ⟨blocks, hlaid, hvalues⟩ := h
  obtain ⟨next, hcollect, hnext, hhash, -⟩ := collect_spec hlaid
  refine ⟨next, hcollect, _, hnext, fun block hmem other howner => ?_, fun key data hdata => ?_⟩
  · rw [hhash]
    exact hvalues.sound block (List.mem_filter.mp hmem).1 other howner
  · obtain ⟨block, hmem, other, howner, hword⟩ := hvalues.complete key data hdata
    refine ⟨block, mem_owned hmem howner, other, howner, ?_⟩
    rw [hhash, hword]

/-! ## 4. Steps -/

theorem Refines.taken (h : Refines layout codec state contents)
    (hfound : Found layout state key slot) :
    Refines layout codec (taken state key slot) contents := by
  by_cases hfree : (state.hashtbl slot).hash = 0
  · rw [MasterHeap.taken, if_pos hfree]
    exact h.grab hfound hfree
  · rw [MasterHeap.taken, if_neg hfree]
    exact h

/-- `hh_add` writes the value of a key that has none, and nothing else. -/
theorem Refines.writeAt (h : Refines layout codec state contents)
    (hword : (state.hashtbl slot).hash = key.word) (hfound : Found layout state key slot)
    {data : Value O} {sizes : Option (ℕ × ℕ)}
    (hwrite : writeAt layout codec slot data state = .ok (sizes, next)) :
    ∃ contents', abstractStep codec (.add key data) contents = .ok (.added sizes, contents') ∧
      Refines layout codec next contents' := by
  refine ⟨SharedMemory.hhAdd key data contents, ?_⟩
  rcases h.lookup_cases hfound with ⟨value, hlookup, -, hgt, -⟩ | ⟨hlookup, hnull⟩
  · have hne : (state.hashtbl slot).addr ≠ null := Nat.ne_of_gt (Nat.zero_lt_of_lt hgt)
    rw [MasterHeap.writeAt, if_neg hne] at hwrite
    cases hwrite
    rw [abstractStep, SharedMemory.hhAdd, hlookup]
    exact ⟨rfl, h⟩
  · rcases (writeAt_eq_ok layout).mp hwrite with
      ⟨hne, -⟩ | ⟨-, header, bytes, hstore, -, hresult⟩
    · exact absurd hnull hne
    · cases hresult
      refine ⟨?_, h.append hfound.lt hword hnull hstore hlookup⟩
      rw [abstractStep, hlookup]
      exact bind_eq_ok_iff.mpr ⟨(header, bytes), hstore, rfl⟩

theorem step_refines (hlawful : codec.Lawful) :
    Machine.Simulates (step layout codec) (abstractStep codec) (Allowed layout)
      (Refines layout codec) := by
  intro state contents op answer next h hallowed hstep
  cases op with
  | add key data =>
    obtain ⟨⟨sizes, next'⟩, hadd, hresult⟩ := bind_eq_ok_iff.mp hstep
    cases hresult
    rcases hhAdd_cases layout state key codec data with ⟨slot, hfound, heq⟩ | ⟨heq, -⟩
    · rw [heq] at hadd
      exact (h.taken hfound).writeAt hfound.taken.1 hfound.taken.2 hadd
    · rw [heq] at hadd
      cases hadd
  | mem key =>
    obtain ⟨present, hmem, hresult⟩ := bind_eq_ok_iff.mp hstep
    cases hresult
    obtain ⟨slot, hfind, -⟩ := bind_eq_ok_iff.mp hmem
    rw [h.hhMem_eq hfind] at hmem
    cases hmem
    exact ⟨contents, rfl, h⟩
  | get key =>
    obtain ⟨data, hget, hresult⟩ := bind_eq_ok_iff.mp hstep
    cases hresult
    have hlookup := (h.get_eq_ok hlawful).mp hget
    refine ⟨contents, ?_, h⟩
    rw [abstractStep, SharedMemory.hhGetAndDeserialize, hlookup]
  | move key1 key2 =>
    obtain ⟨next', hmove, hresult⟩ := bind_eq_ok_iff.mp hstep
    cases hresult
    obtain ⟨slot1, slot2, hfind1, hfind2, hword, hnull, rfl⟩ := hhMove_eq_ok.mp hmove
    have hfound1 := found_of_findSlot hfind1
    have hfound2 := found_of_findSlot hfind2
    obtain ⟨value, hlookup⟩ := Option.isSome_iff_exists.mp (h.isSome_lookup hallowed)
    have hlookup2 : contents.lookup key2 = none := by
      rcases h.lookup_cases hfound2 with ⟨_, -, -, hgt, -⟩ | ⟨hlookup2, -⟩
      · rw [hnull] at hgt
        exact absurd hgt (Nat.not_lt_zero 1)
      · exact hlookup2
    obtain ⟨slot1', hfind1', -, hne, -⟩ := h.slot_of_lookup hlookup
    rw [hfind1] at hfind1'
    cases hfind1'
    have hslots : slot1 ≠ slot2 := by
      rintro rfl
      exact hne hnull
    refine ⟨(contents.insert key2 value).erase key1, bind_eq_ok_iff.mpr ⟨_, ?_, rfl⟩, ?_⟩
    · rw [SharedMemory.hhMove, hlookup, hlookup2]
    · refine (h.taken hfound2).rebind hfound1.lt ?_ ?_ hfound2.lt hfound2.taken.1 ?_ hlookup
      · rw [hash_taken_of_ne hslots, hword]
      · rw [addr_taken]
        exact hne
      · rw [addr_taken, hnull]
  | remove key =>
    obtain ⟨next', hremove, hresult⟩ := bind_eq_ok_iff.mp hstep
    cases hresult
    obtain ⟨slot, hfind, hword, hne, hrelease⟩ := hhRemove_eq_ok.mp hremove
    cases hrelease
    have hfound := found_of_findSlot hfind
    rcases h.lookup_cases hfound with ⟨data, hlookup, -⟩ | ⟨-, hnull⟩
    · refine ⟨contents.erase key, bind_eq_ok_iff.mpr ⟨contents.erase key, ?_, rfl⟩,
        h.release hfound.lt hword hne⟩
      rw [SharedMemory.hhRemove, hlookup]
    · exact absurd hnull hne
  | collect =>
    obtain ⟨next', hcollect, hresult⟩ := bind_eq_ok_iff.mp hstep
    cases hresult
    obtain ⟨next'', hcollect', hnext⟩ := h.collect
    rw [hcollect] at hcollect'
    cases hcollect'
    exact ⟨contents, rfl, hnext⟩

/-! ## 5. What slots point to -/

/-- The bytes of the entry that the slot points to. -/
def entryBytes (state : State) (slot : ℕ) : ℕ :=
  if (state.hashtbl slot).addr = null then 0
  else slotSize (entrySize (state.memory.read (state.hashtbl slot).addr 8))

/-- The bytes of the heap that slots point to. -/
def reachableBytes (layout : Layout) (state : State) : ℕ :=
  ∑ slot ∈ Finset.range layout.hashtblSize, entryBytes state slot

/-- The bytes of the block, if the slot owns it. -/
def Block.bytesOf (slot : ℕ) (block : Block) : ℕ :=
  if block.owner = some slot then block.size else 0

theorem sum_bytesOf_eq_zero (h : ∀ block ∈ blocks, block.owner ≠ some slot) :
    (blocks.map (Block.bytesOf slot)).sum = 0 := by
  refine List.sum_eq_zero fun bytes hbytes => ?_
  obtain ⟨block, hmem, rfl⟩ := List.mem_map.mp hbytes
  exact if_neg (h block hmem)

/-- The bytes of a slot are those of the one block that it owns. -/
theorem Laid.entryBytes_eq (h : Laid layout state blocks) (hslot : slot < layout.hashtblSize) :
    entryBytes state slot = (blocks.map (Block.bytesOf slot)).sum := by
  by_cases hnull : (state.hashtbl slot).addr = null
  · rw [entryBytes, if_pos hnull, sum_bytesOf_eq_zero ((h.addr_eq_null_iff hslot).mp hnull)]
  · obtain ⟨before, entry, after, rfl, hat⟩ := h.at_owner hslot hnull
    have hself : Block.bytesOf slot ⟨entry, some slot⟩ = Block.size ⟨entry, some slot⟩ := if_pos rfl
    rw [entryBytes, if_neg hnull, hat.stored.slotSize, List.map_append, List.map_cons,
      List.sum_append, List.sum_cons, sum_bytesOf_eq_zero hat.ne_below,
      sum_bytesOf_eq_zero hat.ne_above, hself]
    omega

/-- Each block is owned by one slot, or it is wasted. -/
theorem sum_bytesOf {size : ℕ}
    (h : ∀ block ∈ blocks, ∀ slot, block.owner = some slot → slot < size) :
    ∑ slot ∈ Finset.range size, (blocks.map (Block.bytesOf slot)).sum + wastedBytes blocks =
      (blocks.map Block.size).sum := by
  induction blocks with
  | nil =>
    have hzero : ∑ slot ∈ Finset.range size, (([] : List Block).map (Block.bytesOf slot)).sum = 0 :=
      Finset.sum_eq_zero fun _ _ => rfl
    rw [hzero]
    rfl
  | cons block rest ih =>
    have hrest := ih fun other hmem => h other (List.mem_cons_of_mem _ hmem)
    have hsplit : ∑ slot ∈ Finset.range size, ((block :: rest).map (Block.bytesOf slot)).sum =
        ∑ slot ∈ Finset.range size, block.bytesOf slot +
          ∑ slot ∈ Finset.range size, (rest.map (Block.bytesOf slot)).sum := by
      rw [← Finset.sum_add_distrib]
      exact Finset.sum_congr rfl fun slot _ => by rw [List.map_cons, List.sum_cons]
    rw [hsplit, List.map_cons, List.sum_cons, ← hrest]
    obtain ⟨entry, owner⟩ := block
    cases owner with
    | none =>
      have hzero : ∑ slot ∈ Finset.range size, Block.bytesOf slot ⟨entry, none⟩ = 0 :=
        Finset.sum_eq_zero fun slot _ => if_neg fun hnone => by cases hnone
      rw [hzero, wastedBytes_cons_none]
      omega
    | some owner =>
      have hlt := h ⟨entry, some owner⟩ List.mem_cons_self owner rfl
      have hone : ∑ slot ∈ Finset.range size, Block.bytesOf slot ⟨entry, some owner⟩ =
          Block.size ⟨entry, some owner⟩ := by
        rw [Finset.sum_eq_single_of_mem owner (Finset.mem_range.mpr hlt)]
        · exact if_pos rfl
        · intro slot _ hne
          exact if_neg fun heq => hne (Option.some.inj heq).symm
      rw [hone, wastedBytes_cons_some]
      omega

theorem Laid.heap_eq (h : Laid layout state blocks) :
    state.heap = layout.heapInit + state.wastedHeapSize + reachableBytes layout state := by
  have hbytes : reachableBytes layout state =
      ∑ slot ∈ Finset.range layout.hashtblSize, (blocks.map (Block.bytesOf slot)).sum :=
    Finset.sum_congr rfl fun slot hslot => h.entryBytes_eq (Finset.mem_range.mp hslot)
  have hsum := sum_bytesOf fun block hmem slot howner => (h.owner block hmem slot howner).1
  rw [h.tiled.hi_eq, ← hsum, ← hbytes, h.wasted]
  omega

/-- Compaction keeps what is reachable. -/
theorem reachableBytes_collect (h : Laid layout state blocks)
    (hnext : Laid layout next (blocks.filter Block.inUse)) :
    reachableBytes layout next = reachableBytes layout state := by
  refine Finset.sum_congr rfl fun slot hslot => ?_
  rw [hnext.entryBytes_eq (Finset.mem_range.mp hslot), h.entryBytes_eq (Finset.mem_range.mp hslot)]
  clear h hnext
  induction blocks with
  | nil => rfl
  | cons block rest ih =>
    rw [List.filter_cons, List.map_cons, List.sum_cons, ← ih]
    obtain ⟨entry, owner⟩ := block
    cases owner with
    | none =>
      have hzero : Block.bytesOf slot ⟨entry, none⟩ = 0 := if_neg fun hnone => by cases hnone
      rw [hzero, Nat.zero_add]
      rfl
    | some owner => rfl

/-! ## 6. When an operation succeeds -/

/-- There is a slot and room for what is added, and what is read, moved or removed is present. -/
def Fits (layout : Layout) (codec : Codec O) (state : State) : Op O → Prop
  | .add _ data => state.hcounter < layout.hashtblSize ∧ ∃ stored,
      hhStoreOcaml codec data = .ok stored ∧
        state.heap + slotSize stored.2.length ≤ layout.heapMax
  | .mem _ => state.hcounter < layout.hashtblSize
  | .get key => hhMem layout key state = .ok true
  | .move key1 key2 => hhMem layout key1 state = .ok true ∧ hhMem layout key2 state = .ok false
  | .remove key => hhMem layout key state = .ok true
  | .collect => True

theorem Fits.allowed {op : Op O} (h : Fits layout codec state op) : Allowed layout state op := by
  cases op with
  | move key1 key2 => exact h.1
  | _ => trivial

theorem heap_taken : (taken state key slot).heap = state.heap := by
  rw [taken]
  split <;> rfl

theorem writeAt_ok (state : State) (slot : ℕ) {data : Value O} {stored : ℕ × List UInt8}
    (hstore : hhStoreOcaml codec data = .ok stored)
    (hroom : state.heap + slotSize stored.2.length ≤ layout.heapMax) :
    ∃ result, MasterHeap.writeAt layout codec slot data state = .ok result := by
  obtain ⟨header, bytes⟩ := stored
  rw [← (entry_of_store hstore).2.2] at hroom
  by_cases hnull : (state.hashtbl slot).addr = null
  · exact ⟨_, (writeAt_eq_ok layout).mpr (.inr ⟨hnull, header, bytes, hstore, hroom, rfl⟩)⟩
  · exact ⟨_, (writeAt_eq_ok layout).mpr (.inl ⟨hnull, rfl⟩)⟩

theorem Refines.step_ok (hlawful : codec.Lawful) (h : Refines layout codec state contents)
    {op : Op O} (hfits : Fits layout codec state op) :
    ∃ answer next, step layout codec op state = .ok (answer, next) := by
  have hslot : ∀ {key}, hhMem layout key state = .ok true →
      ∃ data slot, contents.lookup key = some data ∧ findSlot layout key state = .ok slot ∧
        (state.hashtbl slot).hash = key.word ∧ (state.hashtbl slot).addr ≠ null := by
    intro key hmem
    obtain ⟨data, hlookup⟩ := Option.isSome_iff_exists.mp (h.isSome_lookup hmem)
    obtain ⟨slot, hfind, hword, hne, -⟩ := h.slot_of_lookup hlookup
    exact ⟨data, slot, hlookup, hfind, hword, hne⟩
  have hfree : state.hcounter < layout.hashtblSize →
      ∃ slot < layout.hashtblSize, (state.hashtbl slot).hash = 0 := by
    intro hlt
    obtain ⟨blocks, hlaid, -⟩ := h
    rw [hlaid.indexed.counter] at hlt
    exact exists_free hlt
  cases op with
  | add key data =>
    obtain ⟨hlt, stored, hstore, hroom⟩ := hfits
    rcases hhAdd_cases layout state key codec data with ⟨slot, -, heq⟩ | ⟨-, hpassed⟩
    · have hroom' : (MasterHeap.taken state key slot).heap + slotSize stored.2.length ≤ layout.heapMax := by
        rw [heap_taken]
        exact hroom
      obtain ⟨result, hwrite⟩ := writeAt_ok (MasterHeap.taken state key slot) slot hstore hroom'
      exact ⟨_, _, bind_eq_ok_iff.mpr ⟨result, heq.trans hwrite, rfl⟩⟩
    · obtain ⟨slot, hslot, hzero⟩ := hfree hlt
      exact absurd hzero (not_passed (hpassed hlt) hslot).1
  | mem key =>
    obtain ⟨slot, hslot, hzero⟩ := hfree hfits
    have hends : ∃ slot', findSlot layout key state = .ok slot' :=
      findSlot_ok ⟨slot, hslot, .inl hzero⟩
    obtain ⟨slot', hfind⟩ := hends
    exact ⟨_, _, bind_eq_ok_iff.mpr ⟨_, h.hhMem_eq hfind, rfl⟩⟩
  | get key =>
    obtain ⟨data, slot, hlookup, -⟩ := hslot hfits
    exact ⟨_, _, bind_eq_ok_iff.mpr ⟨data, (h.get_eq_ok hlawful).mpr hlookup, rfl⟩⟩
  | move key1 key2 =>
    obtain ⟨data, slot1, -, hfind1, hword, -⟩ := hslot hfits.1
    obtain ⟨slot2, hfind2, -⟩ := bind_eq_ok_iff.mp hfits.2
    have habsent := h.isSome_lookup hfits.2
    rcases h.lookup_cases (found_of_findSlot hfind2) with ⟨data', hlookup, -⟩ | ⟨-, hnull⟩
    · rw [hlookup] at habsent
      cases habsent
    · exact ⟨_, _, bind_eq_ok_iff.mpr
        ⟨_, hhMove_eq_ok.mpr ⟨slot1, slot2, hfind1, hfind2, hword, hnull, rfl⟩, rfl⟩⟩
  | remove key =>
    obtain ⟨data, slot, -, hfind, hword, hne⟩ := hslot hfits
    exact ⟨_, _, bind_eq_ok_iff.mpr ⟨_, hhRemove_eq_ok.mpr ⟨slot, hfind, hword, hne, rfl⟩, rfl⟩⟩
  | collect =>
    obtain ⟨next, hcollect, -⟩ := h.collect
    exact ⟨_, _, bind_eq_ok_iff.mpr ⟨next, hcollect, rfl⟩⟩

theorem fits_preserves (hlawful : codec.Lawful) :
    Machine.Preserves (step layout codec) (Fits layout codec)
      (fun state => ∃ contents, Refines layout codec state contents) := by
  rintro state op ⟨contents, h⟩ hfits
  obtain ⟨answer, next, hstep⟩ := h.step_ok hlawful hfits
  obtain ⟨contents', -, hnext⟩ := step_refines hlawful _ _ _ _ _ h hfits.allowed hstep
  exact ⟨answer, next, hstep, contents', hnext⟩

/-! ## 7. Runs -/

section Runs

variable {memory : ByteMemory} {ops : List (Op O)} {answers : List (Answer O)} {last : State}
  (hlawful : codec.Lawful)
  (hallowed : Machine.Admissible (step layout codec) (Allowed layout) ops
    (State.initial layout memory))
  (hrun : Machine.run (step layout codec) ops (State.initial layout memory) = .ok (answers, last))
include hlawful hallowed hrun

/-- **A run is answered as by the finite map**, whenever the heap is compacted in between. -/
theorem run_refines :
    ∃ contents, Machine.run (abstractStep codec) ops ∅ = .ok (answers, contents) ∧
      ∀ key data, hhGetAndDeserialize layout codec key last = .ok data ↔
        contents.lookup key = some data := by
  obtain ⟨contents, habstract, hlast⟩ := (step_refines hlawful).run
    (Refines.initial layout codec memory) hallowed hrun
  exact ⟨contents, habstract, fun _ _ => hlast.get_eq_ok hlawful⟩

/-- **`wasted_heap_size` is the part of the heap that no slot points to**, after every run. -/
theorem heap_accounted :
    last.heap = layout.heapInit + last.wastedHeapSize + reachableBytes layout last := by
  obtain ⟨contents, -, hlast⟩ := (step_refines hlawful).run
    (Refines.initial layout codec memory) hallowed hrun
  obtain ⟨blocks, hlaid, -⟩ := hlast
  exact hlaid.heap_eq

/-- **After every run compaction succeeds**: what slots point to fills the heap from its bottom on,
    and the value of each key is what it was. -/
theorem collect_reclaims :
    ∃ next, hhCollect layout last = .ok next ∧ next.wastedHeapSize = 0 ∧
      next.heap = layout.heapInit + reachableBytes layout last ∧
      ∀ key data, hhGetAndDeserialize layout codec key next = .ok data ↔
        hhGetAndDeserialize layout codec key last = .ok data := by
  obtain ⟨contents, -, hlast⟩ := (step_refines hlawful).run
    (Refines.initial layout codec memory) hallowed hrun
  have hlaid := hlast
  obtain ⟨blocks, hlaid, -⟩ := hlaid
  obtain ⟨next, hcollect, hnext, -, hwasted⟩ := collect_spec hlaid
  obtain ⟨next', hcollect', hrefines⟩ := hlast.collect
  rw [hcollect] at hcollect'
  cases hcollect'
  refine ⟨next, hcollect, hwasted, ?_, fun key data => ?_⟩
  · rw [hnext.heap_eq, hwasted, reachableBytes_collect hlaid hnext, Nat.add_zero]
  · rw [hrefines.get_eq_ok hlawful, hlast.get_eq_ok hlawful]

end Runs

/-- **No operation of a run fails that has a slot, room and its key**: neither an assertion, nor
    an exception, nor a pointer that is `NULL`. -/
theorem run_fits {memory : ByteMemory} {ops : List (Op O)} (hlawful : codec.Lawful)
    (hfits : Machine.Admissible (step layout codec) (Fits layout codec) ops
      (State.initial layout memory)) :
    ∃ answers last, Machine.run (step layout codec) ops (State.initial layout memory) =
      .ok (answers, last) := by
  obtain ⟨answers, last, hrun, -⟩ := (fits_preserves hlawful).run
    ⟨∅, Refines.initial layout codec memory⟩ hfits
  exact ⟨answers, last, hrun⟩

namespace Sample

def twoSlots : Layout where
  pow := 1
  heapInit := 96
  heapMax := 1024
  heapInit_gt := by decide
  hashtbl := 64
  hashtbl_aligned := by decide
  heapInit_eq := by decide
  heapInit_le := by decide

def first : Digest := ⟨9, by decide⟩

def second : Digest := ⟨7, by decide⟩

def ops : List (Op Unit) :=
  [.add first (.string (List.replicate 100 0)), .add second (.other ()), .remove first, .collect,
    .get second]

def answers : List (Answer Unit) :=
  [.added (some (17, 100)), .added (some (21, 21)), .unit, .unit, .value (.other ())]

def blank : ByteMemory := fun _ => 0

theorem run_ops : ∃ last, Machine.run (step twoSlots frames) ops (State.initial twoSlots blank) =
    .ok (answers, last) := ⟨_, rfl⟩

theorem fits_ops : Machine.Admissible (step twoSlots frames) (Fits twoSlots frames) ops
    (State.initial twoSlots blank) := by
  refine .cons ⟨by decide, _, rfl, by decide⟩ rfl ?_
  refine .cons ⟨by decide, _, rfl, by decide⟩ rfl ?_
  refine .cons rfl rfl ?_
  refine .cons trivial rfl ?_
  exact .cons rfl rfl trivial

theorem allowed_ops : Machine.Admissible (step twoSlots frames) (Allowed twoSlots) ops
    (State.initial twoSlots blank) :=
  fits_ops.mono fun _ _ => Fits.allowed

theorem run_refines_ops :
    ∃ contents, Machine.run (abstractStep frames) ops ∅ = .ok (answers, contents) := by
  obtain ⟨last, hrun⟩ := run_ops
  obtain ⟨contents, habstract, -⟩ := run_refines frames_lawful allowed_ops hrun
  exact ⟨contents, habstract⟩

theorem heap_accounted_ops :
    ∃ last, Machine.run (step twoSlots frames) ops (State.initial twoSlots blank) =
      .ok (answers, last) ∧ last.heap = 96 + last.wastedHeapSize + reachableBytes twoSlots last := by
  obtain ⟨last, hrun⟩ := run_ops
  exact ⟨last, hrun, heap_accounted frames_lawful allowed_ops hrun⟩

theorem collect_reclaims_ops :
    ∃ last next, hhCollect twoSlots last = .ok next ∧ next.wastedHeapSize = 0 ∧
      next.heap = 96 + reachableBytes twoSlots last := by
  obtain ⟨last, hrun⟩ := run_ops
  obtain ⟨next, hcollect, hwasted, hheap, -⟩ := collect_reclaims frames_lawful allowed_ops hrun
  exact ⟨last, next, hcollect, hwasted, hheap⟩

theorem run_fits_ops :
    ∃ answers last, Machine.run (step twoSlots frames) ops (State.initial twoSlots blank) =
      .ok (answers, last) :=
  run_fits frames_lawful fits_ops

end Sample

end Pysa.MasterHeap
