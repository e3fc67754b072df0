/-
  Subject: COMPACTING THE HEAP (`hh_shared.c`, `hh_collect`).

  While the heap is compacted, the header of an entry in use is in its cell, and a pointer to the
  cell is where the header was.

  * `PartlyMarked` -- an entry whose header and pointer may have been exchanged;
  * `Marking`, `marking_run` -- the first step, slot by slot;
  * `Sliding`, `slide_run` -- the second step, block by block;
  * `collect_spec` -- **compaction succeeds; what is left are the blocks in use, next to each other,
    with the values they had**.
-/
import Pysa.Heap.HeapOperations

namespace Pysa.MasterHeap

open SharedHeap (Config Digest Cell Shared null writeInProgress slotSize aligned nonemptySlots)
open LinearProbing Results

variable {layout : Layout} {state start : State} {blocks kept rest : List Block} {block : Block}
  {slot : ℕ} {a : ℕ} {marked marked' : ℕ → Prop}

/-! ## 1. Blocks that may be marked -/

theorem addrField_lt (hslot : slot < layout.hashtblSize) :
    layout.addrField slot < ByteMemory.limit 8 := by
  have hinit := layout.heapInit_eq
  have hle := layout.heapInit_le
  have hsize : layout.hashtblSize = 1 <<< layout.pow := rfl
  have hfield : layout.addrField slot = layout.hashtbl + 16 * slot + 8 := rfl
  omega

theorem slotOf_addrField : layout.slotOf (layout.addrField slot) = slot := by
  have hslot : layout.slotOf (layout.addrField slot) =
      (layout.hashtbl + 16 * slot + 8 - layout.hashtbl - 8) / 16 := rfl
  omega

/-- A pointer is even, and a header is odd. -/
theorem addrField_even : layout.addrField slot &&& 1 = 0 := by
  have haligned := layout.hashtbl_aligned
  have hfield : layout.addrField slot = layout.hashtbl + 16 * slot + 8 := rfl
  rw [Nat.and_one_is_mod]
  omega

theorem header_odd (entry : Entry) : entry.header &&& 1 ≠ 0 := by
  rw [Nat.and_one_is_mod, entry.odd]
  exact Nat.one_ne_zero

/-- The block at the address, whose header may be in the cell of its owner. -/
structure PartlyMarked (layout : Layout) (marked : ℕ → Prop) (hashtbl : ℕ → Cell)
    (memory : ByteMemory) (a : ℕ) (block : Block) : Prop where
  data : memory.bytes (a + 8) block.entry.data.length = block.entry.data
  unowned : block.owner = none → memory.read a 8 = block.entry.header
  unmarked : ∀ slot, block.owner = some slot → ¬ marked slot →
    memory.read a 8 = block.entry.header ∧ (hashtbl slot).addr = a
  marked : ∀ slot, block.owner = some slot → marked slot →
    memory.read a 8 = layout.addrField slot ∧ (hashtbl slot).addr = block.entry.header

section PartlyMarked

variable {hashtbl hashtbl' : ℕ → Cell} {memory memory' : ByteMemory}

theorem PartlyMarked.frame (h : PartlyMarked layout marked hashtbl memory a block)
    (hmemory : ∀ b, a ≤ b → b < a + block.size → memory' b = memory b)
    (howner : ∀ slot, block.owner = some slot → (hashtbl' slot).addr = (hashtbl slot).addr)
    (hmarked : ∀ slot, block.owner = some slot → (marked' slot ↔ marked slot)) :
    PartlyMarked layout marked' hashtbl' memory' a block := by
  have hge := block.size_ge
  have hread : memory'.read a 8 = memory.read a 8 :=
    ByteMemory.read_congr fun i hi => hmemory (a + i) (by omega) (by omega)
  have hbytes : memory'.bytes (a + 8) block.entry.data.length =
      memory.bytes (a + 8) block.entry.data.length :=
    ByteMemory.bytes_congr fun i hi => hmemory (a + 8 + i) (by omega) (by omega)
  refine ⟨?_, ?_, ?_, ?_⟩
  · rw [hbytes, h.data]
  · intro hnone
    rw [hread, h.unowned hnone]
  · intro slot hslot hnot
    rw [hread, howner slot hslot]
    exact h.unmarked slot hslot fun hm => hnot ((hmarked slot hslot).mpr hm)
  · intro slot hslot hm
    rw [hread, howner slot hslot]
    exact h.marked slot hslot ((hmarked slot hslot).mp hm)

theorem Stored.partlyMarked (h : Stored hashtbl memory a block) (hnone : ∀ slot, ¬ marked slot) :
    PartlyMarked layout marked hashtbl memory a block where
  data := h.data
  unowned := fun _ => h.header
  unmarked := fun slot hslot _ => ⟨h.header, h.owner slot hslot⟩
  marked := fun slot _ hm => absurd hm (hnone slot)

/-- The address of an unmarked owner is where its block lies. -/
theorem addr_of_partlyMarked {lo hi : ℕ}
    (h : Tiled Block.size (PartlyMarked layout marked hashtbl memory) lo blocks hi)
    (hmem : block ∈ blocks) (hslot : block.owner = some slot) (hnot : ¬ marked slot) :
    lo ≤ (hashtbl slot).addr ∧ (hashtbl slot).addr < hi := by
  obtain ⟨before, after, a, -, hbefore, hblock, hafter⟩ := h.at_mem hmem
  have hge := block.size_ge
  have hlo := hbefore.le
  have hhi := hafter.le
  rw [(hblock.unmarked slot hslot hnot).2]
  omega

end PartlyMarked

/-! ## 2. Marking -/

/-- The slots below `i` have been marked. -/
structure Marking (layout : Layout) (start : State) (blocks : List Block) (i : ℕ) (state : State) :
    Prop where
  tiled : Tiled Block.size (PartlyMarked layout (· < i) state.hashtbl state.memory)
    layout.heapInit blocks start.heap
  hash : ∀ slot, (state.hashtbl slot).hash = (start.hashtbl slot).hash
  addr : ∀ slot, i ≤ slot ∨ (∀ block ∈ blocks, block.owner ≠ some slot) →
    (state.hashtbl slot).addr = (start.hashtbl slot).addr
  same : state = { start with hashtbl := state.hashtbl, memory := state.memory }

theorem Marking.none (h : Laid layout start blocks) : Marking layout start blocks 0 start where
  tiled := h.tiled.mono fun _ _ _ _ _ hstored => hstored.partlyMarked Nat.not_lt_zero
  hash := fun _ => rfl
  addr := fun _ _ => rfl
  same := rfl

theorem Marking.step {i : ℕ} (hlaid : Laid layout start blocks)
    (h : Marking layout start blocks i state) (hi : i < layout.hashtblSize) :
    ∃ next, markSlot layout state i = .ok next ∧ Marking layout start blocks (i + 1) next := by
  have hunmarked : ¬ (fun slot => slot < i) i := Nat.lt_irrefl i
  rw [markSlot]
  by_cases hnull : (state.hashtbl i).addr = null
  · rw [if_pos hnull]
    -- no block has this owner
    refine ⟨state, rfl, h.tiled.mono ?_, h.hash, ?_, h.same⟩
    · intro a block hmem _ _ hblock
      refine hblock.frame (fun _ _ _ => rfl) (fun _ _ => rfl) fun slot hslot => ?_
      have hne : slot ≠ i := by
        rintro rfl
        have hge := (addr_of_partlyMarked h.tiled hmem hslot hunmarked).1
        have hinit := layout.heapInit_gt
        have hzero : (state.hashtbl slot).addr = 0 := hnull
        omega
      show slot < i + 1 ↔ slot < i
      omega
    · intro slot hslot
      exact h.addr slot (hslot.imp_left Nat.le_of_succ_le)
  · have haddr := h.addr i (.inl (Nat.le_refl i))
    have hstart : (start.hashtbl i).addr ≠ null := by
      rw [← haddr]
      exact hnull
    obtain ⟨block, hmem, howner⟩ := hlaid.owned i hi hstart
    obtain ⟨before, after, a, rfl, hbefore, hblock, hafter⟩ := h.tiled.at_mem hmem
    obtain ⟨hheader, ha⟩ := hblock.unmarked i howner hunmarked
    have hge := block.size_ge
    have hlo := hbefore.le
    have hwriting : (state.hashtbl i).addr ≠ writeInProgress := by
      have hinit := layout.heapInit_gt
      intro hone
      have hone' : (state.hashtbl i).addr = 1 := hone
      omega
    rw [if_neg hnull, if_neg hwriting]
    refine ⟨_, rfl, ?_, ?_, ?_, ?_⟩
    · have hother : ∀ a', ∀ other ∈ before ++ after,
          (∀ slot, other.owner = some slot → slot ≠ i) → a' + other.size ≤ a ∨ a + block.size ≤ a' →
          PartlyMarked layout (· < i) state.hashtbl state.memory a' other →
          PartlyMarked layout (· < i + 1)
            (state.setAddr i (state.memory.read (state.hashtbl i).addr 8)).hashtbl
            (state.memory.write (state.hashtbl i).addr 8 (layout.addrField i)) a' other := by
        intro a' other _ hne hrange hpartly
        refine hpartly.frame ?_ ?_ ?_
        · intro b hb hb'
          rw [ha]
          rcases hrange with hrange | hrange
          · exact ByteMemory.write_of_lt (by omega)
          · exact ByteMemory.write_of_le (by omega)
        · intro slot hslot
          exact Shared.addr_setAddr_of_ne state.table _ (hne slot hslot)
        · intro slot hslot
          have hne' := hne slot hslot
          show slot < i + 1 ↔ slot < i
          omega
      refine (hbefore.mono ?_).append ⟨?_, hafter.mono ?_⟩
      · intro a' other hmem' _ hle hpartly
        refine hother a' other (List.mem_append_left _ hmem') ?_ (.inl hle) hpartly
        rintro slot hslot rfl
        have hlt := (addr_of_partlyMarked hbefore hmem' hslot hunmarked).2
        omega
      · refine ⟨?_, ?_, ?_, ?_⟩
        · rw [ha]
          have hbytes : (state.memory.write a 8 (layout.addrField i)).bytes (a + 8)
              block.entry.data.length = state.memory.bytes (a + 8) block.entry.data.length :=
            ByteMemory.bytes_congr fun j _ => ByteMemory.write_of_le (by omega)
          rw [hbytes, hblock.data]
        · intro hnone
          rw [howner] at hnone
          cases hnone
        · intro slot hslot hnot
          rw [howner] at hslot
          cases hslot
          exact absurd (Nat.lt_succ_self i) hnot
        · intro slot hslot _
          rw [howner] at hslot
          cases hslot
          refine ⟨?_, ?_⟩
          · rw [ha]
            exact ByteMemory.read_write _ _ (addrField_lt hi)
          · have hself : ((state.setAddr i
                (state.memory.read (state.hashtbl i).addr 8)).hashtbl i).addr =
                  state.memory.read (state.hashtbl i).addr 8 :=
              Shared.addr_setAddr_self state.table i _
            rw [hself, ha, hheader]
      · intro a' other hmem' hle _ hpartly
        refine hother a' other (List.mem_append_right _ hmem') ?_ (.inr hle) hpartly
        rintro slot hslot rfl
        have hge' := (addr_of_partlyMarked hafter hmem' hslot hunmarked).1
        omega
    · intro slot
      rw [← h.hash slot]
      exact Shared.hash_setAddr state.table i _ slot
    · intro slot hslot
      have hne : slot ≠ i := by
        rintro rfl
        rcases hslot with hslot | hslot
        · exact Nat.not_succ_le_self _ hslot
        · exact hslot block hmem howner
      rw [← h.addr slot (hslot.imp_left Nat.le_of_succ_le)]
      exact Shared.addr_setAddr_of_ne state.table _ hne
    · conv_lhs => rw [h.same]
      rfl

theorem marking_run (hlaid : Laid layout start blocks) {n : ℕ} (hn : n ≤ layout.hashtblSize) :
    ∃ state, (List.range n).foldlM (markSlot layout) start = .ok state ∧
      Marking layout start blocks n state := by
  induction n with
  | zero => exact ⟨start, rfl, Marking.none hlaid⟩
  | succ n ih =>
    obtain ⟨state, hrun, hmarking⟩ := ih (Nat.le_of_succ_le hn)
    obtain ⟨next, hstep, hnext⟩ := hmarking.step hlaid hn
    refine ⟨next, ?_, hnext⟩
    rw [List.range_succ, List.foldlM_append, hrun]
    show List.foldlM (markSlot layout) state [n] = .ok next
    rw [List.foldlM_cons, hstep]
    rfl

/-! ## 3. Sliding -/

/-- No slot owns two of the blocks. -/
def Distinct (blocks : List Block) : Prop :=
  blocks.Pairwise fun block other => ∀ slot, block.owner = some slot → other.owner ≠ some slot

theorem distinct_of_tiled {hashtbl : ℕ → Cell} {memory : ByteMemory} {lo hi : ℕ}
    (h : Tiled Block.size (Stored hashtbl memory) lo blocks hi) : Distinct blocks := by
  induction blocks generalizing lo with
  | nil => exact List.Pairwise.nil
  | cons block rest ih =>
    refine List.Pairwise.cons ?_ (ih h.2)
    intro other hmem slot hslot hslot'
    have hlo := h.1.owner slot hslot
    have hge := (addr_of_tiled h.2 hmem hslot').1
    have hpos := block.size_ge
    omega

/-- The blocks below `dest` are where they belong, those from `src` on are marked. -/
structure Sliding (layout : Layout) (start : State) (kept rest : List Block) (dest src : ℕ)
    (state : State) : Prop where
  below : Tiled Block.size (Stored state.hashtbl state.memory) layout.heapInit kept dest
  above : Tiled Block.size (PartlyMarked layout (· < layout.hashtblSize) state.hashtbl state.memory)
    src rest start.heap
  le : dest ≤ src
  distinct : Distinct (kept ++ rest)
  owner_lt : ∀ block ∈ rest, ∀ slot, block.owner = some slot → slot < layout.hashtblSize
  hash : ∀ slot, (state.hashtbl slot).hash = (start.hashtbl slot).hash
  addr : ∀ slot, (∀ block ∈ kept ++ rest, block.owner ≠ some slot) →
    (state.hashtbl slot).addr = (start.hashtbl slot).addr
  same : state = { start with hashtbl := state.hashtbl, memory := state.memory }

/-- The entry at `src` is in use: it is moved to `dest`, and its header and its cell are restored. -/
def moved (dest src slot : ℕ) (state : State) : State :=
  { state.setAddr slot dest with
    memory := (state.memory.write src 8 (state.hashtbl slot).addr).move dest src
      (slotSize (entrySize (state.hashtbl slot).addr)) }

section Sliding

variable {dest src : ℕ}

theorem Sliding.skip (h : Sliding layout start kept (block :: rest) dest src state)
    (howner : block.owner = none) :
    Sliding layout start kept rest dest (src + block.size) state where
  below := h.below
  above := h.above.2
  le := Nat.le_trans h.le (Nat.le_add_right _ _)
  distinct := h.distinct.sublist (List.Sublist.append_left (List.sublist_cons_self _ _) _)
  owner_lt := fun other hmem => h.owner_lt other (List.mem_cons_of_mem _ hmem)
  hash := h.hash
  addr := by
    intro slot hslot
    refine h.addr slot fun other hmem => ?_
    rcases mem_middle.mp hmem with rfl | hmem
    · rw [howner]
      intro hnone
      cases hnone
    · exact hslot other hmem
  same := h.same

theorem Sliding.move (h : Sliding layout start kept (block :: rest) dest src state)
    (howner : block.owner = some slot) :
    Sliding layout start (kept ++ [block]) rest (dest + block.size) (src + block.size)
      (moved dest src slot state) := by
  have hlt := h.owner_lt block List.mem_cons_self slot howner
  obtain ⟨-, hheader⟩ := h.above.1.marked slot howner hlt
  have hsize : slotSize (entrySize (state.hashtbl slot).addr) = block.size := by
    rw [hheader, block.entry.size_eq, Block.size]
  have hge := block.size_ge
  have hle := h.le
  have hmemory : (moved dest src slot state).memory =
      (state.memory.write src 8 block.entry.header).move dest src block.size := by
    rw [moved, hsize, hheader]
  have hbelow : ∀ b < dest, (moved dest src slot state).memory b = state.memory b := by
    intro b hb
    rw [hmemory, ByteMemory.move_of_lt hb, ByteMemory.write_of_lt (by omega)]
  have habove : ∀ b, src + block.size ≤ b →
      (moved dest src slot state).memory b = state.memory b := by
    intro b hb
    rw [hmemory, ByteMemory.move_of_le (by omega), ByteMemory.write_of_le (by omega)]
  have haddr : ∀ other, other ≠ slot →
      ((moved dest src slot state).hashtbl other).addr = (state.hashtbl other).addr :=
    fun other hne => Shared.addr_setAddr_of_ne state.table dest hne
  have hself : ((moved dest src slot state).hashtbl slot).addr = dest :=
    Shared.addr_setAddr_self state.table slot dest
  obtain ⟨-, hdistinct, hcross⟩ := List.pairwise_append.mp h.distinct
  have hne_rest := (List.pairwise_cons.mp hdistinct).1
  have hsplit : kept ++ [block] ++ rest = kept ++ block :: rest := by
    rw [List.append_assoc]
    rfl
  refine ⟨?_, ?_, by omega, ?_, ?_, ?_, ?_, ?_⟩
  · refine (h.below.mono fun a other hmem _ hle' hstored => ?_).append (Tiled.singleton ?_)
    · refine hstored.frame (fun b _ hb => hbelow b (by omega)) fun other' hother' => haddr other' ?_
      rintro rfl
      exact hcross other hmem block List.mem_cons_self other' hother' howner
    · refine ⟨?_, ?_, ?_⟩
      · have hread : ((state.memory.write src 8 block.entry.header).move dest src block.size).read
            (dest + 0) 8 = (state.memory.write src 8 block.entry.header).read (src + 0) 8 :=
          ByteMemory.read_move (by omega)
        rw [hmemory]
        rw [Nat.add_zero, Nat.add_zero, ByteMemory.read_write _ _ block.entry.lt] at hread
        exact hread
      · have hbytes : (state.memory.write src 8 block.entry.header).bytes (src + 8)
            block.entry.data.length = state.memory.bytes (src + 8) block.entry.data.length :=
          ByteMemory.bytes_congr fun j _ => ByteMemory.write_of_le (by omega)
        rw [hmemory, ByteMemory.bytes_move (by omega), hbytes, h.above.1.data]
      · intro other hother
        rw [howner] at hother
        cases hother
        exact hself
  · refine h.above.2.mono fun a other hmem hlo _ hpartly => ?_
    refine hpartly.frame (fun b hb _ => habove b (by omega)) (fun other' hother' => haddr other' ?_)
      fun _ _ => Iff.rfl
    rintro rfl
    exact hne_rest other hmem other' howner hother'
  · rw [hsplit]
    exact h.distinct
  · exact fun other hmem => h.owner_lt other (List.mem_cons_of_mem _ hmem)
  · intro other
    rw [← h.hash other]
    exact Shared.hash_setAddr state.table slot dest other
  · intro other hother
    rw [hsplit] at hother
    have hne : other ≠ slot := by
      rintro rfl
      exact hother block (List.mem_append_right _ List.mem_cons_self) howner
    rw [haddr other hne]
    exact h.addr other hother
  · conv_lhs => rw [h.same]
    rfl

/-- The second step keeps the blocks in use, and comes to the top of the heap. -/
theorem slide_run {fuel : ℕ} (h : Sliding layout start kept rest dest src state)
    (hfuel : rest.length ≤ fuel) :
    ∃ dest' state', slide layout fuel dest src state = some (dest', state') ∧
      Sliding layout start (kept ++ rest.filter Block.inUse) [] dest' start.heap state' := by
  induction rest generalizing kept dest src state fuel with
  | nil =>
    have hsrc : src = start.heap := h.above
    have hheap : state.heap = start.heap := by rw [h.same]
    have hnot : ¬ src < state.heap := by omega
    rw [List.filter_nil, List.append_nil]
    subst hsrc
    refine ⟨dest, state, ?_, h⟩
    cases fuel with
    | zero => rw [slide, if_neg hnot]
    | succ fuel => rw [slide, if_neg hnot]
  | cons block rest ih =>
    have hheap : state.heap = start.heap := by rw [h.same]
    have hge := block.size_ge
    have htop := h.above.2.le
    have hlt : src < state.heap := by omega
    obtain ⟨fuel, rfl⟩ : ∃ n, fuel = n + 1 := ⟨fuel - 1, by
      have hlength : rest.length + 1 ≤ fuel := hfuel
      omega⟩
    have hfuel' : rest.length ≤ fuel := Nat.le_of_succ_le_succ hfuel
    rw [slide, if_pos hlt]
    cases howner : block.owner with
    | none =>
      have hread := h.above.1.unowned howner
      have hodd : state.memory.read src 8 &&& 1 ≠ 0 := by
        rw [hread]
        exact header_odd block.entry
      have hsize : slotSize (entrySize (state.memory.read src 8)) = block.size := by
        rw [hread, block.entry.size_eq, Block.size]
      rw [if_pos hodd]
      dsimp only
      rw [hsize]
      have hfilter : (block :: rest).filter Block.inUse = rest.filter Block.inUse :=
        List.filter_cons_of_neg (by rw [Block.inUse, howner]; decide)
      rw [hfilter]
      exact ih (h.skip howner) hfuel'
    | some slot =>
      have hslot := h.owner_lt block List.mem_cons_self slot howner
      obtain ⟨hread, hheader⟩ := h.above.1.marked slot howner hslot
      have heven : ¬ state.memory.read src 8 &&& 1 ≠ 0 := by
        rw [hread]
        exact not_not.mpr addrField_even
      have hsize : slotSize (entrySize (state.hashtbl slot).addr) = block.size := by
        rw [hheader, block.entry.size_eq, Block.size]
      have hfilter : (block :: rest).filter Block.inUse = block :: rest.filter Block.inUse :=
        List.filter_cons_of_pos (by rw [Block.inUse, howner]; rfl)
      have hmove := ih (h.move howner) hfuel'
      rw [List.append_assoc] at hmove
      rw [if_neg heven, hread, slotOf_addrField, hfilter]
      dsimp only
      rw [hsize]
      rw [moved, hsize] at hmove
      exact hmove

end Sliding

/-! ## 4. Compaction -/

theorem mem_owned {block : Block} (hmem : block ∈ blocks) (howner : block.owner = some slot) :
    block ∈ blocks.filter Block.inUse :=
  List.mem_filter.mpr ⟨hmem, by rw [Block.inUse, howner]; rfl⟩

/-- **Compaction succeeds**: the blocks in use remain, next to each other, and nothing is wasted. -/
theorem collect_spec (h : Laid layout state blocks) :
    ∃ next, hhCollect layout state = .ok next ∧
      Laid layout next (blocks.filter Block.inUse) ∧
      (∀ slot, (next.hashtbl slot).hash = (state.hashtbl slot).hash) ∧ next.wastedHeapSize = 0 := by
  obtain ⟨middle, hmarking, hmiddle⟩ := marking_run h (Nat.le_refl _)
  have hheap : middle.heap = state.heap := by rw [hmiddle.same]
  have hstart : Sliding layout state [] blocks layout.heapInit layout.heapInit middle :=
    ⟨Tiled.nil, hmiddle.tiled, Nat.le_refl _, distinct_of_tiled h.tiled,
      fun block hmem slot howner => (h.owner block hmem slot howner).1, hmiddle.hash,
      fun slot hslot => hmiddle.addr slot (.inr hslot), hmiddle.same⟩
  have hfuel : blocks.length ≤ middle.heap - layout.heapInit := by
    have hlength := h.tiled.length_le fun block => by
      have hge := block.size_ge
      omega
    omega
  obtain ⟨dest, slid, hslide, hslid⟩ := slide_run hstart hfuel
  rw [List.nil_append] at hslid
  refine ⟨{ slid with heap := dest, wastedHeapSize := 0 }, ?_, ?_, hslid.hash, rfl⟩
  · rw [hhCollect, bind_eq_ok_iff]
    refine ⟨middle, hmarking, ?_⟩
    rw [hslide]
  · have hcounter : slid.hcounter = state.hcounter := by
      rw [hslid.same]
    refine ⟨hslid.below, ?_, ?_, h.indexed.of_hash hslid.hash hcounter, ?_⟩
    · intro block hmem slot howner
      have hold := h.owner block (List.mem_filter.mp hmem).1 slot howner
      refine ⟨hold.1, ?_⟩
      rw [← hslid.hash slot] at hold
      exact hold.2
    · intro slot hslot hne
      by_contra hnone
      have hnone' : ∀ block ∈ blocks, block.owner ≠ some slot :=
        fun block hmem howner => hnone ⟨block, mem_owned hmem howner, howner⟩
      have haddr : (slid.hashtbl slot).addr = (state.hashtbl slot).addr :=
        hslid.addr slot fun block hmem => hnone' block (by
          rw [List.append_nil] at hmem
          exact (List.mem_filter.mp hmem).1)
      exact hne (haddr.trans ((h.addr_eq_null_iff hslot).mpr hnone'))
    · have hnone : (blocks.filter Block.inUse).filter (fun block => block.owner.isNone) = [] := by
        refine List.filter_eq_nil_iff.mpr fun block hmem hisNone => ?_
        have hsome : block.owner.isSome = true := (List.mem_filter.mp hmem).2
        rw [Option.isNone_iff_eq_none.mp hisNone] at hsome
        cases hsome
      rw [wastedBytes, hnone]
      rfl

end Pysa.MasterHeap
