/-
  Subject: WHAT THE OPERATIONS OF THE MASTER DO to the blocks of the heap.

  * `grab`, `State.append` -- the state after a slot is taken, and after a value is stored;
  * `laid_grab`, `laid_append`, `laid_release`, `laid_rebind` -- the blocks of these states.
-/
import Pysa.Heap.HeapBlocks

namespace Pysa.MasterHeap

open SharedHeap (Config Digest Cell Shared null writeInProgress slotSize aligned nonemptySlots)
open LinearProbing Results

variable {layout : Layout} {state : State} {blocks : List Block} {key : Digest} {slot : ℕ} {O : Type}

/-! ## 1. Taking a slot -/

theorem addr_grab (other : ℕ) :
    ((grab state key slot).hashtbl other).addr = (state.hashtbl other).addr :=
  Shared.addr_setHash state.table slot key.word other

theorem hash_grab_self : ((grab state key slot).hashtbl slot).hash = key.word :=
  Shared.hash_setHash_self state.table slot key.word

theorem hash_grab_of_ne {other : ℕ} (h : other ≠ slot) :
    ((grab state key slot).hashtbl other).hash = (state.hashtbl other).hash :=
  Shared.hash_setHash_of_ne state.table key.word h

theorem slots_grab :
    (grab state key slot).table.slots = Function.update state.table.slots slot (some key.word) :=
  Shared.slots_setHash state.table key.ne_zero

theorem laid_grab (h : Laid layout state blocks) (hfound : Found layout state key slot)
    (hfree : (state.hashtbl slot).hash = 0) : Laid layout (grab state key slot) blocks where
  tiled := h.tiled.mono fun a block _ _ _ hstored =>
    hstored.frame (fun _ _ _ => rfl) fun other _ => addr_grab other
  owner := by
    intro block hmem other hother
    obtain ⟨hlt, hne⟩ := h.owner block hmem other hother
    have hother' : other ≠ slot := by
      rintro rfl
      exact hne hfree
    rw [hash_grab_of_ne hother']
    exact ⟨hlt, hne⟩
  owned := by
    intro other hother haddr
    rw [addr_grab] at haddr
    exact h.owned other hother haddr
  indexed := by
    obtain ⟨d, hd, rfl, hpassed⟩ := hfound.passed
    have hzero : (state.table.hashtbl (layout.probe key d)).hash = 0 := hfree
    have hcount := Shared.nonemptySlots_setHash hfound.lt hzero key.ne_zero
    refine ⟨?_, ?_⟩
    · rw [slots_grab]
      exact h.indexed.probed.insert hpassed hd (slots_eq_free.mpr hfree)
    · show state.hcounter + 1 = _
      rw [h.indexed.counter]
      exact hcount.symm
  wasted := h.wasted

theorem addr_taken (other : ℕ) :
    ((taken state key slot).hashtbl other).addr = (state.hashtbl other).addr := by
  rw [taken]
  split
  · exact addr_grab other
  · rfl

theorem hash_taken_of_ne {other : ℕ} (h : other ≠ slot) :
    ((taken state key slot).hashtbl other).hash = (state.hashtbl other).hash := by
  rw [taken]
  split
  · exact hash_grab_of_ne h
  · rfl

/-- The slot that is taken has its key, and is where the search for this key ends. -/
theorem Found.taken (h : Found layout state key slot) :
    ((taken state key slot).hashtbl slot).hash = key.word ∧
      Found layout (taken state key slot) key slot := by
  by_cases hfree : (state.hashtbl slot).hash = 0
  · rw [MasterHeap.taken, if_pos hfree]
    obtain ⟨d, hd, heq, hpassed⟩ := h.passed
    refine ⟨hash_grab_self, ⟨d, hd, heq, ?_⟩, .inl hash_grab_self⟩
    rw [Layout.Passed, slots_grab]
    exact (grows_update (slots_eq_free.mpr hfree)).passed hpassed
  · rw [MasterHeap.taken, if_neg hfree]
    exact ⟨h.hash.resolve_right hfree, h⟩

/-! ## 2. Storing a value -/

/-- The state after a value is stored at the top of the heap. -/
def State.append (state : State) (slot header : ℕ) (data : List UInt8) : State :=
  { state.setAddr slot state.heap with
    heap := state.heap + slotSize (entrySize header)
    memory := writeEntry state.memory state.heap header data }

section Append

variable {header : ℕ} {bytes : List UInt8}

theorem addr_append_self : ((state.append slot header bytes).hashtbl slot).addr = state.heap :=
  Shared.addr_setAddr_self state.table slot state.heap

theorem addr_append_of_ne {other : ℕ} (h : other ≠ slot) :
    ((state.append slot header bytes).hashtbl other).addr = (state.hashtbl other).addr :=
  Shared.addr_setAddr_of_ne state.table state.heap h

theorem hash_append (other : ℕ) :
    ((state.append slot header bytes).hashtbl other).hash = (state.hashtbl other).hash :=
  Shared.hash_setAddr state.table slot state.heap other

theorem laid_append (h : Laid layout state blocks) (hslot : slot < layout.hashtblSize)
    (hnamed : (state.hashtbl slot).hash ≠ 0) (haddr : (state.hashtbl slot).addr = null)
    (entry : Entry) :
    Laid layout (state.append slot entry.header entry.data) (blocks ++ [⟨entry, some slot⟩]) where
  tiled := by
    have hsize : slotSize (entrySize entry.header) = Block.size ⟨entry, some slot⟩ := by
      rw [entry.size_eq]
      rfl
    have hold : Tiled Block.size (Stored (state.append slot entry.header entry.data).hashtbl
        (state.append slot entry.header entry.data).memory) layout.heapInit blocks state.heap := by
      refine h.tiled.mono fun a block hmem _ hle hstored =>
        hstored.frame (fun b _ hb => writeEntry_of_lt (by omega)) fun other hother => ?_
      refine addr_append_of_ne ?_
      rintro rfl
      exact (h.addr_eq_null_iff hslot).mp haddr block hmem hother
    have hnew : Stored (state.append slot entry.header entry.data).hashtbl
        (state.append slot entry.header entry.data).memory state.heap ⟨entry, some slot⟩ := by
      refine ⟨read_writeEntry _ _ entry.lt, bytes_writeEntry _ _, ?_⟩
      rintro other hother
      cases hother
      exact addr_append_self
    have htiled := hold.append (Tiled.singleton hnew)
    rw [← hsize] at htiled
    exact htiled
  owner := by
    intro block hmem other hother
    rw [hash_append]
    rcases List.mem_append.mp hmem with hmem | hmem
    · exact h.owner block hmem other hother
    · rw [List.mem_singleton.mp hmem] at hother
      cases hother
      exact ⟨hslot, hnamed⟩
  owned := by
    intro other hother hne
    by_cases heq : other = slot
    · exact ⟨⟨entry, some slot⟩, List.mem_append_right _ (List.mem_singleton.mpr rfl),
        by rw [heq]⟩
    · rw [addr_append_of_ne heq] at hne
      obtain ⟨block, hmem, howner⟩ := h.owned other hother hne
      exact ⟨block, List.mem_append_left _ hmem, howner⟩
  indexed := h.indexed.of_hash hash_append rfl
  wasted := by
    rw [wastedBytes_append, wastedBytes_cons_some, ← h.wasted]
    rfl

end Append

/-- `write_at` leaves a slot that has a value, and stores the value of one that has none. -/
theorem writeAt_eq_ok (layout : Layout) {codec : Codec O} {value : Value O}
    {result : Option (ℕ × ℕ) × State} :
    writeAt layout codec slot value state = .ok result ↔
      (state.hashtbl slot).addr ≠ null ∧ result = (none, state) ∨
      (state.hashtbl slot).addr = null ∧ ∃ header bytes,
        hhStoreOcaml codec value = .ok (header, bytes) ∧
        state.heap + slotSize (entrySize header) ≤ layout.heapMax ∧
        result = (some (bytes.length, origSize codec value), state.append slot header bytes) := by
  by_cases haddr : (state.hashtbl slot).addr = null
  · have hsame : ∀ header bytes, ({ state.setAddr slot writeInProgress with
        heap := state.heap + slotSize (entrySize header)
        memory := writeEntry state.memory state.heap header bytes } : State).setAddr slot
          state.heap = state.append slot header bytes := by
      intro header bytes
      simp only [State.setAddr, State.append, Function.update_self, Function.update_idem]
    rw [writeAt, if_pos haddr, bind_eq_ok_iff]
    constructor
    · rintro ⟨⟨header, bytes⟩, hstore, hresult⟩
      obtain ⟨⟨chunk, next⟩, halloc, hresult⟩ := bind_eq_ok_iff.mp hresult
      rw [hhAlloc] at halloc
      dsimp only at halloc
      split at halloc
      · cases halloc
      · rename_i hroom
        cases halloc
        refine .inr ⟨haddr, header, bytes, hstore, Nat.le_of_not_lt hroom, ?_⟩
        have hresult' := Except.ok.inj hresult
        rw [← hresult']
        exact congrArg (Prod.mk _) (hsame header bytes)
    · rintro (⟨hne, -⟩ | ⟨-, header, bytes, hstore, hroom, rfl⟩)
      · exact absurd haddr hne
      · refine ⟨(header, bytes), hstore, ?_⟩
        rw [bind_eq_ok_iff]
        refine ⟨_, if_neg (Nat.not_lt.mpr hroom), ?_⟩
        exact congrArg Except.ok (congrArg (Prod.mk _) (hsame header bytes))
  · rw [writeAt, if_neg haddr]
    constructor
    · intro h
      exact .inl ⟨haddr, (Except.ok.inj h).symm⟩
    · rintro (⟨-, rfl⟩ | ⟨hnull, -⟩)
      · rfl
      · exact absurd hnull haddr

/-! ## 3. Removing and moving a value -/

/-- A slot without a value. -/
def State.release (state : State) (slot : ℕ) : State :=
  { state.setAddr slot null with
    wastedHeapSize := state.wastedHeapSize +
      slotSize (entrySize (state.memory.read (state.hashtbl slot).addr 8))
    removedCount := state.removedCount + 1 }

/-- The value of the first slot is now that of the second one. -/
def State.rebind (state : State) (slot slot' : ℕ) : State :=
  (state.setAddr slot' (state.hashtbl slot).addr).setAddr slot null

theorem hash_release (other : ℕ) :
    ((state.release slot).hashtbl other).hash = (state.hashtbl other).hash :=
  Shared.hash_setAddr state.table slot null other

theorem laid_release {before after : List Block} {entry : Entry}
    (h : Laid layout state (before ++ ⟨entry, some slot⟩ :: after))
    (hat : AtOwner layout state slot before entry after) :
    Laid layout (state.release slot) (before ++ ⟨entry, none⟩ :: after) := by
  refine h.reown hat hash_release (fun other => ?_) (fun _ hnone => by cases hnone) rfl ?_
  · rw [if_neg (fun hnone => by cases hnone)]
    split
    · rename_i heq
      rw [heq]
      exact Shared.addr_setAddr_self state.table slot null
    · rename_i hne
      exact Shared.addr_setAddr_of_ne state.table null hne
  · have hwasted := h.wasted
    rw [wastedBytes_append, wastedBytes_cons_some] at hwasted
    rw [wastedBytes_append, wastedBytes_cons_none]
    show state.wastedHeapSize + slotSize (entrySize (state.memory.read (state.hashtbl slot).addr 8)) = _
    rw [hat.stored.slotSize, hwasted]
    show wastedBytes before + wastedBytes after + Block.size ⟨entry, none⟩ = _
    omega

section AtKey

/-- An operation on the slot of its key, which must have a value. -/
theorem atKey_eq_ok {α : Type} {f : ℕ → Except String α} {result : α} :
    (do
      let slot ← findSlot layout key state
      if (state.hashtbl slot).hash = key.word then
        if (state.hashtbl slot).addr = null then .error "NULL" else f slot
      else .error "hashtbl[slot].hash == get_hash(key)") = .ok result ↔
      ∃ slot, findSlot layout key state = .ok slot ∧ (state.hashtbl slot).hash = key.word ∧
        (state.hashtbl slot).addr ≠ null ∧ f slot = .ok result := by
  rw [bind_eq_ok_iff]
  constructor
  · rintro ⟨slot, hfind, hresult⟩
    split at hresult
    · rename_i hword
      split at hresult
      · cases hresult
      · rename_i haddr
        exact ⟨slot, hfind, hword, haddr, hresult⟩
    · cases hresult
  · rintro ⟨slot, hfind, hword, haddr, hresult⟩
    refine ⟨slot, hfind, ?_⟩
    rw [if_pos hword, if_neg haddr, hresult]

theorem hhGetAndDeserialize_eq_ok {codec : Codec O} {data : Value O} :
    hhGetAndDeserialize layout codec key state = .ok data ↔
      ∃ slot, findSlot layout key state = .ok slot ∧ (state.hashtbl slot).hash = key.word ∧
        (state.hashtbl slot).addr ≠ null ∧
        hhDeserialize codec state.memory (state.hashtbl slot).addr = .ok data :=
  atKey_eq_ok

theorem hhRemove_eq_ok {next : State} :
    hhRemove layout key state = .ok next ↔
      ∃ slot, findSlot layout key state = .ok slot ∧ (state.hashtbl slot).hash = key.word ∧
        (state.hashtbl slot).addr ≠ null ∧ .ok (state.release slot) =
          (.ok next : Except String State) :=
  atKey_eq_ok

end AtKey

section Rebind

variable {slot' : ℕ}

theorem hash_rebind (other : ℕ) :
    ((state.rebind slot slot').hashtbl other).hash = (state.hashtbl other).hash := by
  have hsecond : ((state.rebind slot slot').hashtbl other).hash =
      ((state.setAddr slot' (state.hashtbl slot).addr).hashtbl other).hash :=
    Shared.hash_setAddr (state.setAddr slot' (state.hashtbl slot).addr).table slot null other
  rw [hsecond]
  exact Shared.hash_setAddr state.table slot' _ other

theorem addr_rebind (hslots : slot' ≠ slot) (other : ℕ) :
    ((state.rebind slot slot').hashtbl other).addr =
      if some slot' = some other then (state.hashtbl slot).addr
      else if other = slot then null else (state.hashtbl other).addr := by
  by_cases heq : other = slot
  · subst heq
    rw [if_neg (fun hsome => hslots (Option.some.inj hsome)), if_pos rfl]
    exact Shared.addr_setAddr_self (state.setAddr slot' _).table other null
  · have hsecond : ((state.rebind slot slot').hashtbl other).addr =
        ((state.setAddr slot' (state.hashtbl slot).addr).hashtbl other).addr :=
      Shared.addr_setAddr_of_ne (state.setAddr slot' _).table null heq
    rw [hsecond, if_neg heq]
    split
    · rename_i hsome
      cases hsome
      exact Shared.addr_setAddr_self state.table slot' _
    · rename_i hne
      exact Shared.addr_setAddr_of_ne state.table _ fun hother => hne (congrArg some hother.symm)

theorem laid_rebind {before after : List Block} {entry : Entry}
    (h : Laid layout state (before ++ ⟨entry, some slot⟩ :: after))
    (hat : AtOwner layout state slot before entry after) (hslot' : slot' < layout.hashtblSize)
    (haddr' : (state.hashtbl slot').addr = null) (hnamed : (state.hashtbl slot').hash ≠ 0) :
    Laid layout (state.rebind slot slot') (before ++ ⟨entry, some slot'⟩ :: after) := by
  have hslots : slot' ≠ slot := by
    rintro rfl
    exact (h.addr_eq_null_iff hslot').mp haddr' _ (mem_middle.mpr (.inl rfl)) rfl
  refine h.reown hat hash_rebind (addr_rebind hslots) ?_ rfl ?_
  · rintro other hother
    cases hother
    exact ⟨hslot', hnamed, haddr'⟩
  · have hwasted := h.wasted
    rw [wastedBytes_append, wastedBytes_cons_some] at hwasted
    rw [wastedBytes_append, wastedBytes_cons_some]
    exact hwasted

/-- The second slot is that of the second key, or it is taken for it. -/
theorem hhMove_eq_ok {key1 key2 : Digest} {next : State} :
    hhMove layout key1 key2 state = .ok next ↔ ∃ slot1 slot2,
      findSlot layout key1 state = .ok slot1 ∧ findSlot layout key2 state = .ok slot2 ∧
      (state.hashtbl slot1).hash = key1.word ∧ (state.hashtbl slot2).addr = null ∧
      next = (taken state key2 slot2).rebind slot1 slot2 := by
  have hsame : ∀ {slot1 slot2 : ℕ}, findSlot layout key2 state = .ok slot2 →
      ((((if (state.hashtbl slot2).hash = 0 then { state with hcounter := state.hcounter + 1 }
        else state).setHash slot2 key2.word).setAddr slot2
          (((if (state.hashtbl slot2).hash = 0 then { state with hcounter := state.hcounter + 1 }
            else state).setHash slot2 key2.word).hashtbl slot1).addr).setAddr slot1 null) =
      (taken state key2 slot2).rebind slot1 slot2 := by
    intro slot1 slot2 hfind
    rw [taken]
    split
    · rfl
    · rename_i hused
      have hself : state.setHash slot2 key2.word = state := by
        rw [State.setHash, ← (found_of_findSlot hfind).hash.resolve_right hused]
        exact congrArg (fun table => { state with hashtbl := table })
          (Function.update_eq_self slot2 state.hashtbl)
      rw [hself]
      rfl
  rw [hhMove, bind_eq_ok_iff]
  constructor
  · rintro ⟨slot1, hfind1, hresult⟩
    obtain ⟨slot2, hfind2, hresult⟩ := bind_eq_ok_iff.mp hresult
    split at hresult
    · rename_i hword
      split at hresult
      · rename_i haddr
        refine ⟨slot1, slot2, hfind1, hfind2, hword, haddr, ?_⟩
        rw [← hsame hfind2]
        exact (Except.ok.inj hresult).symm
      · cases hresult
    · cases hresult
  · rintro ⟨slot1, slot2, hfind1, hfind2, hword, haddr, rfl⟩
    refine ⟨slot1, hfind1, ?_⟩
    rw [bind_eq_ok_iff]
    refine ⟨slot2, hfind2, ?_⟩
    rw [if_pos hword, if_pos haddr, ← hsame hfind2]

end Rebind

end Pysa.MasterHeap
