/-
  Subject: THE HEAP OF THE MASTER AS A LIST OF BLOCKS, each owned by a slot or by none.

  * `Block`, `Stored` -- an entry with the slot that points to it, and the block where it lies;
  * `Indexed` -- the table is one with linear probing, and `hcounter` is exact;
  * `Laid` -- the blocks fill the heap, and each slot in use owns one of them;
  * `Found`, `search`, `findSlot_cases`, `hhAdd_cases` -- where a search ends.
-/
import Pysa.Heap.HashTableInvariant
import Pysa.Heap.MasterHeap
import Pysa.Lib.Results
import Pysa.Lib.Tiled

namespace Pysa.MasterHeap

open SharedHeap (Config Digest Cell Shared null writeInProgress slotSize aligned nonemptySlots)
open LinearProbing

/-! ## 1. Blocks -/

structure Block where
  entry : Entry
  owner : Option ℕ

/-- The bytes of the heap that the block takes. -/
def Block.size (block : Block) : ℕ := slotSize block.entry.data.length

theorem Block.size_ge (block : Block) : 8 + block.entry.data.length ≤ block.size := by
  have hsize : block.size = (8 + block.entry.data.length + 63) / 64 * 64 := rfl
  omega

def Block.inUse (block : Block) : Bool := block.owner.isSome

/-- The bytes of the blocks that no slot owns. -/
def wastedBytes (blocks : List Block) : ℕ :=
  ((blocks.filter fun block => block.owner.isNone).map Block.size).sum

theorem wastedBytes_append (blocks blocks' : List Block) :
    wastedBytes (blocks ++ blocks') = wastedBytes blocks + wastedBytes blocks' := by
  rw [wastedBytes, List.filter_append, List.map_append, List.sum_append]
  rfl

theorem wastedBytes_cons_some (entry : Entry) (slot : ℕ) (rest : List Block) :
    wastedBytes (⟨entry, some slot⟩ :: rest) = wastedBytes rest := rfl

theorem wastedBytes_cons_none (entry : Entry) (rest : List Block) :
    wastedBytes (⟨entry, none⟩ :: rest) = Block.size ⟨entry, none⟩ + wastedBytes rest := by
  show ((⟨entry, none⟩ :: rest.filter fun block => block.owner.isNone).map Block.size).sum = _
  rw [List.map_cons, List.sum_cons]
  rfl

/-- The entry of the block lies at the address, and its owner points to it. -/
structure Stored (hashtbl : ℕ → Cell) (memory : ByteMemory) (a : ℕ) (block : Block) : Prop where
  header : memory.read a 8 = block.entry.header
  data : memory.bytes (a + 8) block.entry.data.length = block.entry.data
  owner : ∀ slot, block.owner = some slot → (hashtbl slot).addr = a

section Stored

variable {hashtbl hashtbl' : ℕ → Cell} {memory memory' : ByteMemory} {a : ℕ} {block : Block}

/-- Only the bytes of the block matter, and the address that its owner has. -/
theorem Stored.frame (h : Stored hashtbl memory a block)
    (hmemory : ∀ b, a ≤ b → b < a + block.size → memory' b = memory b)
    (howner : ∀ slot, block.owner = some slot → (hashtbl' slot).addr = (hashtbl slot).addr) :
    Stored hashtbl' memory' a block where
  header := by
    have hge := block.size_ge
    rw [← h.header]
    exact ByteMemory.read_congr fun i hi => hmemory (a + i) (by omega) (by omega)
  data := by
    have hge := block.size_ge
    have hbytes : memory'.bytes (a + 8) block.entry.data.length =
        memory.bytes (a + 8) block.entry.data.length :=
      ByteMemory.bytes_congr fun i hi => hmemory (a + 8 + i) (by omega) (by omega)
    rw [hbytes, h.data]
  owner := by
    intro slot hslot
    rw [howner slot hslot, h.owner slot hslot]

theorem Stored.entryAt (h : Stored hashtbl memory a block) :
    entryAt memory a = (block.entry.header, block.entry.data) := by
  rw [MasterHeap.entryAt, h.header, block.entry.size_eq, h.data]

theorem Stored.slotSize (h : Stored hashtbl memory a block) :
    slotSize (entrySize (memory.read a 8)) = block.size := by
  rw [h.header, block.entry.size_eq, Block.size]

end Stored

/-! ## 2. The layout of the heap -/

/-- The table of the master, as the one that workers fill. -/
def State.table (state : State) : Shared Unit where
  hashtbl := state.hashtbl
  hcounter := state.hcounter
  heap := state.heap
  memory := fun _ => none

/-- The table is one with linear probing, and `hcounter` is the number of its slots in use. -/
structure Indexed (layout : Layout) (state : State) : Prop where
  probed : Probed layout.hashtblSize layout.home state.table.slots
  counter : state.hcounter = nonemptySlots layout.toConfig state.table

/-- Only the keys of the slots matter. -/
theorem Indexed.of_hash {layout : Layout} {state next : State} (h : Indexed layout state)
    (hhash : ∀ slot, (next.hashtbl slot).hash = (state.hashtbl slot).hash)
    (hcounter : next.hcounter = state.hcounter) : Indexed layout next := by
  have hslots : next.table.slots = state.table.slots := by
    funext slot
    have hslot : (next.table.hashtbl slot).hash = (state.table.hashtbl slot).hash := hhash slot
    rw [Shared.slots, Shared.slots, hslot]
  have hcount : nonemptySlots layout.toConfig next.table =
      nonemptySlots layout.toConfig state.table := by
    refine congrArg Finset.card (Finset.filter_congr fun slot _ => ?_)
    have hslot : (next.table.hashtbl slot).hash = (state.table.hashtbl slot).hash := hhash slot
    rw [hslot]
  refine ⟨?_, ?_⟩
  · rw [hslots]
    exact h.probed
  · rw [hcount, hcounter, h.counter]

structure Laid (layout : Layout) (state : State) (blocks : List Block) : Prop where
  tiled : Tiled Block.size (Stored state.hashtbl state.memory) layout.heapInit blocks state.heap
  owner : ∀ block ∈ blocks, ∀ slot, block.owner = some slot →
    slot < layout.hashtblSize ∧ (state.hashtbl slot).hash ≠ 0
  owned : ∀ slot < layout.hashtblSize, (state.hashtbl slot).addr ≠ null →
    ∃ block ∈ blocks, block.owner = some slot
  indexed : Indexed layout state
  wasted : state.wastedHeapSize = wastedBytes blocks

theorem Laid.initial (layout : Layout) (memory : ByteMemory) :
    Laid layout (State.initial layout memory) [] where
  tiled := Tiled.nil
  owner := fun _ h => absurd h List.not_mem_nil
  owned := fun _ _ h => absurd rfl h
  indexed := by
    have hslots : (State.initial layout memory).table.slots = fun _ => none :=
      funext fun _ => Shared.slots_eq_free.mpr rfl
    have hempty : ((Finset.range layout.hashtblSize).filter fun i =>
        ((State.initial layout memory).table.hashtbl i).hash ≠ 0) = ∅ :=
      Finset.filter_false_of_mem fun i _ hne => hne rfl
    refine ⟨?_, ?_⟩
    · rw [hslots]
      exact Probed.empty
    · rw [nonemptySlots, hempty]
      rfl
  wasted := rfl

section Laid

variable {layout : Layout} {state : State} {blocks : List Block} {slot : ℕ}

theorem addr_of_tiled {lo hi : ℕ} {hashtbl : ℕ → Cell} {memory : ByteMemory} {block : Block}
    (h : Tiled Block.size (Stored hashtbl memory) lo blocks hi) (hmem : block ∈ blocks)
    (hslot : block.owner = some slot) :
    lo ≤ (hashtbl slot).addr ∧ (hashtbl slot).addr < hi := by
  obtain ⟨before, after, a, -, hbefore, hstored, hafter⟩ := h.at_mem hmem
  have hge := block.size_ge
  have hlo := hbefore.le
  have hhi := hafter.le
  rw [hstored.owner slot hslot]
  omega

theorem Laid.ne_null (h : Laid layout state blocks) {block : Block} (hmem : block ∈ blocks)
    (hslot : block.owner = some slot) : 1 < (state.hashtbl slot).addr := by
  have hge := (addr_of_tiled h.tiled hmem hslot).1
  have hinit := layout.heapInit_gt
  omega

/-- The block of a slot lies at its address, and no other block has this owner. -/
structure AtOwner (layout : Layout) (state : State) (slot : ℕ) (before : List Block) (entry : Entry)
    (after : List Block) : Prop where
  below : Tiled Block.size (Stored state.hashtbl state.memory) layout.heapInit before
    (state.hashtbl slot).addr
  stored : Stored state.hashtbl state.memory (state.hashtbl slot).addr ⟨entry, some slot⟩
  above : Tiled Block.size (Stored state.hashtbl state.memory)
    ((state.hashtbl slot).addr + Block.size ⟨entry, some slot⟩) after state.heap
  ne_below : ∀ block ∈ before, block.owner ≠ some slot
  ne_above : ∀ block ∈ after, block.owner ≠ some slot

theorem Laid.at_owner (h : Laid layout state blocks) (hslot : slot < layout.hashtblSize)
    (haddr : (state.hashtbl slot).addr ≠ null) :
    ∃ before entry after, blocks = before ++ ⟨entry, some slot⟩ :: after ∧
      AtOwner layout state slot before entry after := by
  obtain ⟨⟨entry, owner⟩, hmem, howner⟩ := h.owned slot hslot haddr
  cases howner
  obtain ⟨before, after, a, rfl, hbefore, hstored, hafter⟩ := h.tiled.at_mem hmem
  have ha := hstored.owner slot rfl
  subst ha
  refine ⟨before, entry, after, rfl, hbefore, hstored, hafter, ?_, ?_⟩
  · intro block hblock howner
    have hlt := (addr_of_tiled hbefore hblock howner).2
    omega
  · intro block hblock howner
    have hge := (addr_of_tiled hafter hblock howner).1
    have hpos := Block.size_ge ⟨entry, some slot⟩
    omega

theorem mem_middle {before after : List Block} {block replaced : Block} :
    block ∈ before ++ replaced :: after ↔ block = replaced ∨ block ∈ before ++ after := by
  rw [List.mem_append, List.mem_cons, List.mem_append]
  exact or_left_comm

theorem AtOwner.ne_owner {before after : List Block} {entry : Entry}
    (h : AtOwner layout state slot before entry after) {block : Block}
    (hmem : block ∈ before ++ after) : block.owner ≠ some slot := by
  rcases List.mem_append.mp hmem with hmem | hmem
  · exact h.ne_below block hmem
  · exact h.ne_above block hmem

/-- A slot is in use if it owns a block. -/
theorem Laid.addr_eq_null_iff (h : Laid layout state blocks) (hslot : slot < layout.hashtblSize) :
    (state.hashtbl slot).addr = null ↔ ∀ block ∈ blocks, block.owner ≠ some slot := by
  constructor
  · intro hnull block hmem howner
    have hgt := h.ne_null hmem howner
    rw [hnull] at hgt
    exact Nat.not_lt_zero 1 hgt
  · intro hnone
    by_contra hne
    obtain ⟨block, hmem, howner⟩ := h.owned slot hslot hne
    exact hnone block hmem howner

/-- The block of a slot is given to another slot, or to none. -/
theorem Laid.reown {before after : List Block} {entry : Entry} {owner : Option ℕ} {next : State}
    (h : Laid layout state (before ++ ⟨entry, some slot⟩ :: after))
    (hat : AtOwner layout state slot before entry after)
    (hhash : ∀ other, (next.hashtbl other).hash = (state.hashtbl other).hash)
    (haddr : ∀ other, (next.hashtbl other).addr = if owner = some other then
      (state.hashtbl slot).addr else if other = slot then null else (state.hashtbl other).addr)
    (hfree : ∀ other, owner = some other → other < layout.hashtblSize ∧
      (state.hashtbl other).hash ≠ 0 ∧ (state.hashtbl other).addr = null)
    (hsame : next = { state with
      hashtbl := next.hashtbl
      wastedHeapSize := next.wastedHeapSize
      removedCount := next.removedCount })
    (hwasted : next.wastedHeapSize = wastedBytes (before ++ ⟨entry, owner⟩ :: after)) :
    Laid layout next (before ++ ⟨entry, owner⟩ :: after) := by
  have hmemory : next.memory = state.memory := by rw [hsame]
  have hheap : next.heap = state.heap := by rw [hsame]
  have hframe : ∀ a, ∀ block ∈ before ++ after, Stored state.hashtbl state.memory a block →
      block.owner ≠ some slot → Stored next.hashtbl next.memory a block := by
    intro a block hmem hstored hne
    refine hstored.frame (fun _ _ _ => by rw [hmemory]) fun other hother => ?_
    have hslot : other ≠ slot := by
      rintro rfl
      exact hne hother
    have howner : owner ≠ some other := by
      intro hnew
      have hgt := h.ne_null (mem_middle.mpr (.inr hmem)) hother
      rw [(hfree other hnew).2.2] at hgt
      exact Nat.not_lt_zero 1 hgt
    rw [haddr, if_neg howner, if_neg hslot]
  refine ⟨?_, ?_, ?_, h.indexed.of_hash hhash (by rw [hsame]), hwasted⟩
  · rw [hheap]
    refine (hat.below.mono fun a block hmem _ _ hstored => hframe a block
      (List.mem_append_left _ hmem) hstored (hat.ne_below block hmem)).append ⟨⟨?_, ?_, ?_⟩, ?_⟩
    · rw [hmemory]
      exact hat.stored.header
    · rw [hmemory]
      exact hat.stored.data
    · intro other hother
      rw [haddr, if_pos hother]
    · exact hat.above.mono fun a block hmem _ _ hstored => hframe a block
        (List.mem_append_right _ hmem) hstored (hat.ne_above block hmem)
  · intro block hmem other hother
    rw [hhash]
    rcases mem_middle.mp hmem with rfl | hmem
    · exact ⟨(hfree other hother).1, (hfree other hother).2.1⟩
    · exact h.owner block (mem_middle.mpr (.inr hmem)) other hother
  · intro other hother hne
    rw [haddr] at hne
    split at hne
    · rename_i howner
      exact ⟨_, mem_middle.mpr (.inl rfl), howner⟩
    · split at hne
      · exact absurd rfl hne
      · rename_i hslot
        obtain ⟨block, hmem, howner⟩ := h.owned other hother hne
        rcases mem_middle.mp hmem with rfl | hmem
        · exact absurd (Option.some.inj howner).symm hslot
        · exact ⟨block, mem_middle.mpr (.inr hmem), howner⟩

end Laid

/-! ## 3. Searches -/

/-- The slot that a search for the key looks at after `d` others. -/
abbrev Layout.probe (layout : Layout) (key : Digest) (d : ℕ) : ℕ :=
  LinearProbing.probe layout.hashtblSize (layout.home key.word) d

/-- A search for the key has passed `d` slots. -/
abbrev Layout.Passed (layout : Layout) (state : State) (key : Digest) (d : ℕ) : Prop :=
  LinearProbing.Passed layout.hashtblSize layout.home state.table.slots key.word d

/-- Where a search for a key ends: at the key, or at a free slot. -/
structure Found (layout : Layout) (state : State) (key : Digest) (slot : ℕ) : Prop where
  passed : ∃ d < layout.hashtblSize, slot = layout.probe key d ∧ layout.Passed state key d
  hash : (state.hashtbl slot).hash = key.word ∨ (state.hashtbl slot).hash = 0

section Found

variable {layout : Layout} {state : State} {key : Digest} {slot slot' : ℕ}

theorem slots_eq_free : state.table.slots slot = none ↔ (state.hashtbl slot).hash = 0 :=
  Shared.slots_eq_free

theorem slots_eq_key :
    state.table.slots slot = some key.word ↔ (state.hashtbl slot).hash = key.word := by
  refine Shared.slots_eq_key.trans ⟨fun h => h.1, fun h => ⟨h, key.ne_zero⟩⟩

theorem Found.lt (h : Found layout state key slot) : slot < layout.hashtblSize := by
  obtain ⟨d, -, rfl, -⟩ := h.passed
  exact probe_lt layout.hashtblSize_pos _ _

/-- The search ends at the slot of its key, if there is one. -/
theorem Found.eq_slot (h : Found layout state key slot)
    (hprobed : Probed layout.hashtblSize layout.home state.table.slots)
    (hslot' : slot' < layout.hashtblSize) (hkey : (state.hashtbl slot').hash = key.word) :
    slot' = slot := by
  obtain ⟨d, hd, rfl, hpassed⟩ := h.passed
  obtain ⟨e, hle, he, rfl, hpassed'⟩ := hprobed.passed_le hpassed hslot' (slots_eq_key.mpr hkey)
  rcases Nat.lt_or_eq_of_le hle with hlt | rfl
  · have hseen := hpassed' d hlt
    rcases h.hash with hhash | hhash
    · exact absurd (slots_eq_key.mpr hhash) hseen.2
    · exact absurd (slots_eq_free.mpr hhash) hseen.1
  · rfl

/-- A search has passed all slots of a table without its key and without a free slot. -/
theorem not_passed (h : layout.Passed state key layout.hashtblSize) (hslot : slot < layout.hashtblSize) :
    (state.hashtbl slot).hash ≠ 0 ∧ (state.hashtbl slot).hash ≠ key.word := by
  obtain ⟨d, hd, rfl⟩ := exists_probe (layout.home_lt key.word) hslot
  have hseen := h d hd
  exact ⟨fun hfree => hseen.1 (slots_eq_free.mpr hfree),
    fun hkey => hseen.2 (slots_eq_key.mpr hkey)⟩

variable (layout state key)

/-- A search comes to its key or to a free slot, or it goes on until it is back. -/
theorem search {P : ℕ → ℕ → Prop}
    (hend : ∀ slot, layout.Passed state key layout.hashtblSize → P 0 slot)
    (hfound : ∀ fuel slot, Found layout state key slot → P (fuel + 1) slot)
    (hnext : ∀ fuel slot, (state.hashtbl slot).hash ≠ key.word → (state.hashtbl slot).hash ≠ 0 →
      (if layout.next slot = layout.home key.word then layout.Passed state key layout.hashtblSize
        else P fuel (layout.next slot)) → P (fuel + 1) slot) :
    P layout.hashtblSize (layout.home key.word) := by
  have hsearch : ∀ fuel d, d + fuel = layout.hashtblSize → layout.Passed state key d →
      P fuel (layout.probe key d) := by
    -- the fuel is the number of slots that are left
    intro fuel
    induction fuel with
    | zero =>
      intro d hfuel hpassed
      rw [Nat.add_zero] at hfuel
      rw [hfuel] at hpassed
      exact hend _ hpassed
    | succ fuel ih =>
      intro d hfuel hpassed
      have hd : d < layout.hashtblSize := by omega
      by_cases hkey : (state.hashtbl (layout.probe key d)).hash = key.word
      · exact hfound fuel _ ⟨⟨d, hd, rfl, hpassed⟩, .inl hkey⟩
      · by_cases hfree : (state.hashtbl (layout.probe key d)).hash = 0
        · exact hfound fuel _ ⟨⟨d, hd, rfl, hpassed⟩, .inr hfree⟩
        · have hsucc := hpassed.succ (fun h => hfree (slots_eq_free.mp h))
            (fun h => hkey (slots_eq_key.mp h))
          refine hnext fuel _ hkey hfree ?_
          rw [layout.next_probe]
          split
          · rename_i hback
            rwa [(probe_succ_eq_home_iff (layout.home_lt key.word) hd).mp hback] at hsucc
          · exact ih (d + 1) (by omega) hsucc
  have hhome : layout.probe key 0 = layout.home key.word := probe_zero (layout.home_lt key.word)
  rw [← hhome]
  exact hsearch layout.hashtblSize 0 (Nat.zero_add _) Passed.zero

theorem findSlot_cases :
    (∃ slot, findSlot layout key state = .ok slot ∧ Found layout state key slot) ∨
    findSlot layout key state = .error "hash_table_full" ∧
      layout.Passed state key layout.hashtblSize := by
  refine search layout state key (P := fun fuel slot =>
    (∃ slot', findSlotFrom layout state.hashtbl key.word fuel slot = .ok slot' ∧
      Found layout state key slot') ∨
    findSlotFrom layout state.hashtbl key.word fuel slot = .error "hash_table_full" ∧
      layout.Passed state key layout.hashtblSize) ?_ ?_ ?_
  · exact fun _ hpassed => .inr ⟨rfl, hpassed⟩
  · intro fuel slot hfound
    refine .inl ⟨slot, ?_, hfound⟩
    rw [findSlotFrom]
    rcases hfound.hash with hkey | hfree
    · rw [if_pos hkey]
    · rw [if_pos hfree, ite_self]
  · intro fuel slot hkey hfree hrest
    rw [findSlotFrom, if_neg hkey, if_neg hfree]
    split at hrest
    · rename_i hback
      rw [if_pos hback]
      exact .inr ⟨rfl, hrest⟩
    · rename_i hback
      rw [if_neg hback]
      exact hrest

/-- The free slot that `hh_add` has grabbed. -/
def grab (slot : ℕ) : State :=
  { state.setHash slot key.word with hcounter := state.hcounter + 1 }

/-- The slot where the search has ended is taken for its key. -/
def taken (slot : ℕ) : State :=
  if (state.hashtbl slot).hash = 0 then grab state key slot else state

variable {O : Type} (codec : Codec O) (data : Value O)

/-- `hh_add` writes at the slot of its key, or grabs a free slot for it. It gives up when the
    counter says that the table is full. -/
theorem hhAdd_cases :
    (∃ slot, Found layout state key slot ∧ hhAdd layout codec key data state =
      writeAt layout codec slot data (taken state key slot)) ∨
    hhAdd layout codec key data state = .error "hash_table_full" ∧
      (state.hcounter < layout.hashtblSize → layout.Passed state key layout.hashtblSize) := by
  refine search layout state key (P := fun fuel slot =>
    (∃ slot', Found layout state key slot' ∧ hhAddFrom layout codec key data fuel slot state =
      writeAt layout codec slot' data (taken state key slot')) ∨
    hhAddFrom layout codec key data fuel slot state = .error "hash_table_full" ∧
      (state.hcounter < layout.hashtblSize → layout.Passed state key layout.hashtblSize)) ?_ ?_ ?_
  · exact fun _ hpassed => .inr ⟨rfl, fun _ => hpassed⟩
  · intro fuel slot hfound
    rw [hhAddFrom]
    by_cases hkey : (state.hashtbl slot).hash = key.word
    · rw [if_pos hkey]
      refine .inl ⟨slot, hfound, ?_⟩
      rw [taken, if_neg (fun hfree => key.ne_zero (hkey.symm.trans hfree))]
    · have hfree := hfound.hash.resolve_left hkey
      rw [if_neg hkey]
      by_cases hfull : state.hcounter ≥ layout.hashtblSize
      · rw [if_pos hfull]
        exact .inr ⟨rfl, fun hlt => absurd hfull (Nat.not_le.mpr hlt)⟩
      · rw [if_neg hfull, if_pos hfree]
        refine .inl ⟨slot, hfound, ?_⟩
        rw [taken, if_pos hfree]
        rfl
  · intro fuel slot hkey hfree hrest
    rw [hhAddFrom, if_neg hkey]
    by_cases hfull : state.hcounter ≥ layout.hashtblSize
    · rw [if_pos hfull]
      exact .inr ⟨rfl, fun hlt => absurd hfull (Nat.not_le.mpr hlt)⟩
    · rw [if_neg hfull, if_neg hfree]
      split at hrest
      · rename_i hback
        rw [if_pos hback]
        exact .inr ⟨rfl, fun _ => hrest⟩
      · rename_i hback
        rw [if_neg hback]
        exact hrest

variable {layout state key}

/-- A search that returns has ended where it should. -/
theorem found_of_findSlot (h : findSlot layout key state = .ok slot) :
    Found layout state key slot := by
  rcases findSlot_cases layout state key with ⟨slot', hslot', hfound⟩ | ⟨herror, -⟩
  · rw [h] at hslot'
    cases hslot'
    exact hfound
  · rw [h] at herror
    cases herror

/-- A counter below the size of the table leaves a free slot. -/
theorem exists_free (h : nonemptySlots layout.toConfig state.table < layout.hashtblSize) :
    ∃ slot < layout.hashtblSize, (state.hashtbl slot).hash = 0 := by
  by_contra hnone
  have hall : ∀ slot ∈ Finset.range layout.hashtblSize, (state.table.hashtbl slot).hash ≠ 0 :=
    fun slot hslot hfree => hnone ⟨slot, Finset.mem_range.mp hslot, hfree⟩
  rw [nonemptySlots, Finset.filter_true_of_mem hall, Finset.card_range] at h
  exact Nat.lt_irrefl _ h

/-- A search for a key returns if the key is in the table or a slot is free. -/
theorem findSlot_ok (h : ∃ slot < layout.hashtblSize,
      (state.hashtbl slot).hash = 0 ∨ (state.hashtbl slot).hash = key.word) :
    ∃ slot, findSlot layout key state = .ok slot := by
  obtain ⟨slot, hslot, hhash⟩ := h
  rcases findSlot_cases layout state key with ⟨slot', hslot', -⟩ | ⟨-, hpassed⟩
  · exact ⟨slot', hslot'⟩
  · have hseen := not_passed hpassed hslot
    exact absurd hhash (not_or.mpr hseen)

end Found

end Pysa.MasterHeap
