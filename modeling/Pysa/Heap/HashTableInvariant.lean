/-
  Subject: WHAT HOLDS OF THE HASH TABLE WHILE WORKERS FILL IT (`hh_shared.c`).

  * `Shared.slots` -- the table as one with linear probing;
  * `Later` -- what no step undoes: keys stay in their slots, and values stay where they are;
  * `Advances` -- all steps of a worker;
  * `WorkerOk` -- what a worker knows at each of its steps;
  * `Invariant`, `Invariant.run` -- what holds in every state that a run reaches.
-/
import Pysa.Heap.HashTable

namespace Pysa.SharedHeap

open LinearProbing

variable {V : Type}

/-! ## 1. The table as one with linear probing -/

namespace Config

variable (config : Config)

theorem hashtblSize_pos : 0 < config.hashtblSize := by
  rw [hashtblSize, Nat.one_shiftLeft]
  exact Nat.two_pow_pos _

theorem home_eq (hash : ℕ) : config.home hash = hash % config.hashtblSize := by
  rw [home, hashtblSize, Nat.one_shiftLeft, Nat.and_two_pow_sub_one_eq_mod]

theorem home_lt (hash : ℕ) : config.home hash < config.hashtblSize := by
  rw [home_eq]
  exact Nat.mod_lt _ config.hashtblSize_pos

theorem next_eq (slot : ℕ) : config.next slot = (slot + 1) % config.hashtblSize := by
  rw [next, hashtblSize, Nat.one_shiftLeft, Nat.and_two_pow_sub_one_eq_mod]

theorem next_probe (hash d : ℕ) :
    config.next (probe config.hashtblSize (config.home hash) d) =
      probe config.hashtblSize (config.home hash) (d + 1) := by
  rw [next_eq, probe_succ]

end Config

namespace Shared

/-- The key of each slot in use. -/
def slots (shared : Shared V) : ℕ → Option ℕ := fun i =>
  if (shared.hashtbl i).hash = 0 then none else some (shared.hashtbl i).hash

variable {shared : Shared V} {i hash : ℕ}

theorem slots_eq_free : shared.slots i = none ↔ (shared.hashtbl i).hash = 0 := by
  by_cases h : (shared.hashtbl i).hash = 0
  · simp [slots, h]
  · simp [slots, h]

theorem slots_eq_key : shared.slots i = some hash ↔ (shared.hashtbl i).hash = hash ∧ hash ≠ 0 := by
  by_cases h : (shared.hashtbl i).hash = 0
  · simp only [slots, h, if_true]
    refine iff_of_false (Option.some_ne_none _).symm ?_
    rintro ⟨rfl, hne⟩
    exact hne rfl
  · simp only [slots, h, if_false, Option.some.injEq]
    refine ⟨fun heq => ⟨heq, ?_⟩, fun heq => heq.1⟩
    rw [← heq]
    exact h

theorem slots_setHash (shared : Shared V) {hash : ℕ} (hne : hash ≠ 0) :
    (shared.setHash i hash).slots = Function.update shared.slots i (some hash) := by
  funext j
  by_cases h : j = i
  · subst h
    simp [slots, setHash, hne]
  · simp [slots, setHash, h]

theorem slots_setAddr (shared : Shared V) (i addr : ℕ) :
    (shared.setAddr i addr).slots = shared.slots := by
  funext j
  by_cases h : j = i
  · subst h
    simp [slots, setAddr]
  · simp [slots, setAddr, h]

theorem addr_setHash (shared : Shared V) (i hash j : ℕ) :
    ((shared.setHash i hash).hashtbl j).addr = (shared.hashtbl j).addr := by
  by_cases h : j = i
  · subst h
    simp [setHash]
  · simp [setHash, h]

theorem hash_setAddr (shared : Shared V) (i addr j : ℕ) :
    ((shared.setAddr i addr).hashtbl j).hash = (shared.hashtbl j).hash := by
  by_cases h : j = i
  · subst h
    simp [setAddr]
  · simp [setAddr, h]

theorem hash_setHash_self (shared : Shared V) (i hash : ℕ) :
    ((shared.setHash i hash).hashtbl i).hash = hash := by
  simp [setHash]

theorem hash_setHash_of_ne (shared : Shared V) {i j : ℕ} (hash : ℕ) (h : j ≠ i) :
    ((shared.setHash i hash).hashtbl j).hash = (shared.hashtbl j).hash := by
  simp [setHash, h]

theorem addr_setAddr_self (shared : Shared V) (i addr : ℕ) :
    ((shared.setAddr i addr).hashtbl i).addr = addr := by
  simp [setAddr]

theorem addr_setAddr_of_ne (shared : Shared V) {i j : ℕ} (addr : ℕ) (h : j ≠ i) :
    ((shared.setAddr i addr).hashtbl j).addr = (shared.hashtbl j).addr := by
  simp [setAddr, h]

/-- One more slot is in use. -/
theorem nonemptySlots_setHash {config : Config} {shared : Shared V} {slot hash : ℕ}
    (hslot : slot < config.hashtblSize) (hfree : (shared.hashtbl slot).hash = 0) (hne : hash ≠ 0) :
    nonemptySlots config (shared.setHash slot hash) = nonemptySlots config shared + 1 := by
  have hnot : slot ∉ (Finset.range config.hashtblSize).filter fun i =>
      (shared.hashtbl i).hash ≠ 0 := by
    simp [hfree]
  rw [nonemptySlots, nonemptySlots, ← Finset.card_insert_of_notMem hnot]
  refine congrArg Finset.card (Finset.ext fun i => ?_)
  rw [Finset.mem_insert, Finset.mem_filter, Finset.mem_filter, Finset.mem_range]
  by_cases heq : i = slot
  · subst heq
    simp [hash_setHash_self, hne, hslot]
  · simp [hash_setHash_of_ne shared hash heq, heq]

end Shared

/-! ## 2. What no step undoes -/

/-- Keys stay in their slots, slots stay in use, and values stay where they are. -/
structure Later (shared shared' : Shared V) : Prop where
  hash : ∀ i, (shared.hashtbl i).hash ≠ 0 → (shared'.hashtbl i).hash = (shared.hashtbl i).hash
  addr : ∀ i, (shared.hashtbl i).addr ≠ null → (shared'.hashtbl i).addr ≠ null
  entry : ∀ i, 1 < (shared.hashtbl i).addr →
    (shared'.hashtbl i).addr = (shared.hashtbl i).addr
  memory : ∀ a data, shared.memory a = some data → shared'.memory a = some data

namespace Later

variable {shared shared' shared'' : Shared V}

theorem refl (shared : Shared V) : Later shared shared :=
  ⟨fun _ _ => rfl, fun _ h => h, fun _ _ => rfl, fun _ _ h => h⟩

theorem trans (h : Later shared shared') (h' : Later shared' shared'') :
    Later shared shared'' where
  hash := by
    intro i hi
    rw [h'.hash i (by rwa [h.hash i hi]), h.hash i hi]
  addr := fun i hi => h'.addr i (h.addr i hi)
  entry := by
    intro i hi
    rw [h'.entry i (by rwa [h.entry i hi]), h.entry i hi]
  memory := fun a data ha => h'.memory a data (h.memory a data ha)

theorem grows (h : Later shared shared') : Grows shared.slots shared'.slots := by
  intro i hi
  have hne : (shared.hashtbl i).hash ≠ 0 := fun hzero => hi (Shared.slots_eq_free.mpr hzero)
  rw [Shared.slots, Shared.slots, h.hash i hne]

end Later

variable (config : Config) (size : V → ℕ)

/-! ## 3. Steps -/

/-- All steps of a worker: where it is, what the step shows, what becomes of the shared memory, and
    where the worker is next. -/
inductive Advances (shared : Shared V) : Pc V → Event V → Shared V → Pc V → Prop where
  | idle : Advances shared .idle .internal shared .idle
  | stopped : Advances shared .stopped .internal shared .stopped
  | hit {key : Digest} {data : V} {slot : ℕ} (hhash : (shared.hashtbl slot).hash = key.word) :
      Advances shared (.addLoad key data slot) .internal shared (.writeAt key data slot)
  | miss {key : Digest} {data : V} {slot : ℕ} (hhash : (shared.hashtbl slot).hash ≠ key.word) :
      Advances shared (.addLoad key data slot) .internal shared
        (.addCheck key data slot (shared.hashtbl slot).hash)
  | raise {key : Digest} {data : V} {slot slotHash : ℕ} :
      Advances shared (.addCheck key data slot slotHash) .raised shared .idle
  | attempt {key : Digest} {data : V} {slot slotHash : ℕ} (hzero : slotHash = 0) :
      Advances shared (.addCheck key data slot slotHash) .internal shared (.addGrab key data slot)
  | pass {key : Digest} {data : V} {slot slotHash : ℕ} (hzero : slotHash ≠ 0)
      (hhome : config.next slot ≠ config.home key.word) :
      Advances shared (.addCheck key data slot slotHash) .internal shared
        (.addLoad key data (config.next slot))
  | grab {key : Digest} {data : V} {slot : ℕ} (hfree : (shared.hashtbl slot).hash = 0) :
      Advances shared (.addGrab key data slot) .internal (shared.setHash slot key.word)
        (.addIncrement key data slot)
  | lose {key : Digest} {data : V} {slot : ℕ} (hzero : (shared.hashtbl slot).hash ≠ 0) :
      Advances shared (.addGrab key data slot) .internal shared (.addReload key data slot)
  | increment {key : Digest} {data : V} {slot : ℕ} :
      Advances shared (.addIncrement key data slot) .internal
        { shared with hcounter := shared.hcounter + 1 } (.writeAt key data slot)
  | overflow {key : Digest} {data : V} {slot : ℕ} (hfull : config.hashtblSize ≤ shared.hcounter) :
      Advances shared (.addIncrement key data slot) (.crashed "size < hashtbl_size")
        { shared with hcounter := shared.hcounter + 1 } .stopped
  | rehit {key : Digest} {data : V} {slot : ℕ} (hhash : (shared.hashtbl slot).hash = key.word) :
      Advances shared (.addReload key data slot) .internal shared (.writeAt key data slot)
  | repass {key : Digest} {data : V} {slot : ℕ} (hhash : (shared.hashtbl slot).hash ≠ key.word)
      (hhome : config.next slot ≠ config.home key.word) :
      Advances shared (.addReload key data slot) .internal shared
        (.addLoad key data (config.next slot))
  | reraise {key : Digest} {data : V} {slot : ℕ} :
      Advances shared (.addReload key data slot) .raised shared .idle
  | claim {key : Digest} {data : V} {slot : ℕ} (hnull : (shared.hashtbl slot).addr = null) :
      Advances shared (.writeAt key data slot) .internal (shared.setAddr slot writeInProgress)
        (.store key data slot)
  | claimed {key : Digest} {data : V} {slot : ℕ} (hnull : (shared.hashtbl slot).addr ≠ null) :
      Advances shared (.writeAt key data slot) .internal shared (.answer (.added key false))
  | full {key : Digest} {data : V} {slot : ℕ} :
      Advances shared (.store key data slot) .raised
        { shared with heap := shared.heap + slotSize (size data) } .idle
  | store {key : Digest} {data : V} {slot : ℕ} :
      Advances shared (.store key data slot) .internal
        { shared with
          heap := shared.heap + slotSize (size data)
          memory := Function.update shared.memory shared.heap (some data) }
        (.publish key data slot shared.heap)
  | publish {key : Digest} {data : V} {slot chunk : ℕ} :
      Advances shared (.publish key data slot chunk) .internal (shared.setAddr slot chunk)
        (.answer (.added key true))
  | find {look : Look} {key : Digest} {slot : ℕ} (hhash : (shared.hashtbl slot).hash = key.word) :
      Advances shared (.find look key slot) .internal shared (.found look key slot)
  | findMiss {look : Look} {key : Digest} {slot : ℕ}
      (hhash : (shared.hashtbl slot).hash ≠ key.word) :
      Advances shared (.find look key slot) .internal shared (.findFree look key slot)
  | findFree {look : Look} {key : Digest} {slot : ℕ} (hfree : (shared.hashtbl slot).hash = 0) :
      Advances shared (.findFree look key slot) .internal shared (.found look key slot)
  | findPass {look : Look} {key : Digest} {slot : ℕ} :
      Advances shared (.findFree look key slot) .internal shared (.find look key (config.next slot))
  | findRaise {look : Look} {key : Digest} {slot : ℕ}
      (hhome : config.next slot = config.home key.word) :
      Advances shared (.findFree look key slot) .raised shared .idle
  | foundMem {key : Digest} {slot : ℕ} :
      Advances shared (.found .mem key slot) .internal shared
        (.memAddr key slot ((shared.hashtbl slot).hash = key.word))
  | foundGet {key : Digest} {slot : ℕ} (hhash : (shared.hashtbl slot).hash = key.word) :
      Advances shared (.found .get key slot) .internal shared (.getAddr key slot)
  | missing {key : Digest} {slot : ℕ} (hhash : (shared.hashtbl slot).hash ≠ key.word) :
      Advances shared (.found .get key slot) (.crashed "hashtbl[slot].hash == get_hash(key)") shared
        .stopped
  | present {key : Digest} {slot : ℕ} (hnull : (shared.hashtbl slot).addr ≠ null) :
      Advances shared (.memAddr key slot true) .internal shared (.memWait key slot)
  | absent {key : Digest} {slot : ℕ} {goodHash : Bool} {status : ℤ} (hstatus : status ≠ 1)
      (hnull : goodHash = true → (shared.hashtbl slot).addr = null) :
      Advances shared (.memAddr key slot goodHash) .internal shared (.answer (.mem key status))
  | wait {key : Digest} {slot : ℕ} : Advances shared (.memWait key slot) .internal shared (.memWait key slot)
  | waited {key : Digest} {slot : ℕ} (hwritten : (shared.hashtbl slot).addr ≠ writeInProgress) :
      Advances shared (.memWait key slot) .internal shared (.answer (.mem key 1))
  | read {key : Digest} {slot : ℕ} {data : V}
      (hdata : shared.memory (shared.hashtbl slot).addr = some data) :
      Advances shared (.getAddr key slot) .internal shared (.answer (.value key data))
  | dangling {key : Digest} {slot : ℕ}
      (hnone : shared.memory (shared.hashtbl slot).addr = none) :
      Advances shared (.getAddr key slot) (.crashed "hh_deserialize") shared .stopped
  | answer {answer : Answer V} : Advances shared (.answer answer) (.returned answer) shared .idle

theorem advances (shared : Shared V) (pc : Pc V) :
    Advances config size shared pc (advance config size shared pc).1
      (advance config size shared pc).2.1 (advance config size shared pc).2.2 := by
  cases pc with
  | idle => exact .idle
  | addLoad key data slot =>
    simp only [advance]
    split
    · exact .hit ‹_›
    · exact .miss ‹_›
  | addCheck key data slot slotHash =>
    simp only [advance, nextSlot]
    split
    · exact .raise
    · split
      · exact .attempt ‹_›
      · split
        · exact .raise
        · exact .pass ‹_› ‹_›
  | addGrab key data slot =>
    simp only [advance]
    split
    · exact .grab ‹_›
    · exact .lose ‹_›
  | addIncrement key data slot =>
    simp only [advance]
    split
    · exact .increment
    · exact .overflow (Nat.le_of_not_lt ‹_›)
  | addReload key data slot =>
    simp only [advance, nextSlot]
    split
    · exact .rehit ‹_›
    · split
      · exact .reraise
      · exact .repass ‹_› ‹_›
  | writeAt key data slot =>
    simp only [advance]
    split
    · exact .claim ‹_›
    · exact .claimed ‹_›
  | store key data slot =>
    simp only [advance]
    split
    · exact .full
    · exact .store
  | publish key data slot chunk => exact .publish
  | find look key slot =>
    simp only [advance]
    split
    · exact .find ‹_›
    · exact .findMiss ‹_›
  | findFree look key slot =>
    simp only [advance, nextSlot]
    split
    · exact .findFree ‹_›
    · split
      · exact .findRaise ‹_›
      · exact .findPass
  | found look key slot =>
    cases look with
    | mem => exact .foundMem
    | get =>
      simp only [advance]
      split
      · exact .foundGet ‹_›
      · exact .missing ‹_›
  | memAddr key slot goodHash =>
    cases goodHash with
    | false => exact .absent (by decide) (fun hgood => by cases hgood)
    | true =>
      simp only [advance, if_true]
      split
      · exact .present ‹_›
      · exact .absent (by decide) fun _ => not_not.mp ‹_›
  | memWait key slot =>
    simp only [advance]
    split
    · exact .wait
    · exact .waited ‹_›
  | getAddr key slot =>
    simp only [advance]
    split
    · exact .read ‹_›
    · exact .dangling ‹_›
  | answer answer => exact .answer
  | stopped => exact .stopped

/-! ## 4. What a worker knows -/

section Knowledge

variable (shared : Shared V)

/-- The slot belongs to the key. -/
def Holds (key : Digest) (slot : ℕ) : Prop :=
  slot < config.hashtblSize ∧ (shared.hashtbl slot).hash = key.word

/-- The search for the key has come to the slot and passed all slots before. -/
def Searching (key : Digest) (slot : ℕ) : Prop :=
  ∃ d < config.hashtblSize, slot = probe config.hashtblSize (config.home key.word) d ∧
    Passed config.hashtblSize config.home shared.slots key.word d

/-- There is a value for the key, or one is on its way. -/
def Present (key : Digest) : Prop :=
  ∃ slot, Holds config shared key slot ∧ (shared.hashtbl slot).addr ≠ null

/-- The value of the key is in the heap. -/
def Stored (key : Digest) (data : V) : Prop :=
  ∃ slot, Holds config shared key slot ∧ 1 < (shared.hashtbl slot).addr ∧
    shared.memory (shared.hashtbl slot).addr = some data

/-- What a call knows when it answers. -/
def AnswerOk : Answer V → Prop
  | .added key _ => Present config shared key
  | .mem key status => status = 1 → ∃ data, Stored config shared key data
  | .value key data => Stored config shared key data

/-- What a worker knows at each access. -/
def WorkerOk : Pc V → Prop
  | .addLoad key _ slot => Searching config shared key slot
  | .addCheck key _ slot slotHash => Searching config shared key slot ∧ slotHash ≠ key.word ∧
      (slotHash ≠ 0 → (shared.hashtbl slot).hash = slotHash)
  | .addGrab key _ slot => Searching config shared key slot
  | .addIncrement key _ slot => Holds config shared key slot
  | .addReload key _ slot => Searching config shared key slot ∧ (shared.hashtbl slot).hash ≠ 0
  | .writeAt key _ slot => Holds config shared key slot
  | .store key _ slot => Holds config shared key slot ∧ (shared.hashtbl slot).addr = writeInProgress
  | .publish key data slot chunk =>
    Holds config shared key slot ∧ (shared.hashtbl slot).addr = writeInProgress ∧ 1 < chunk ∧
      shared.memory chunk = some data
  | .find _ _ slot => slot < config.hashtblSize
  | .findFree _ _ slot => slot < config.hashtblSize
  | .found _ _ slot => slot < config.hashtblSize
  | .memAddr key slot goodHash => goodHash = true → Holds config shared key slot
  | .memWait key slot => Holds config shared key slot ∧ (shared.hashtbl slot).addr ≠ null
  | .getAddr key slot => Holds config shared key slot
  | .answer answer => AnswerOk config shared answer
  | .idle => True
  | .stopped => True

end Knowledge

/-- The slot that a worker is writing the address of. -/
def Pc.writes : Pc V → Option ℕ
  | .store _ _ slot => some slot
  | .publish _ _ slot _ => some slot
  | _ => none

section Stable

variable {config} {shared shared' : Shared V} {key : Digest} {slot : ℕ}

theorem Holds.later (h : Later shared shared') (hholds : Holds config shared key slot) :
    Holds config shared' key slot := by
  obtain ⟨hslot, hhash⟩ := hholds
  have hne : (shared.hashtbl slot).hash ≠ 0 := by
    rw [hhash]
    exact key.ne_zero
  exact ⟨hslot, (h.hash slot hne).trans hhash⟩

theorem Searching.later (h : Later shared shared') (hsearching : Searching config shared key slot) :
    Searching config shared' key slot := by
  obtain ⟨d, hd, hslot, hpassed⟩ := hsearching
  exact ⟨d, hd, hslot, h.grows.passed hpassed⟩

theorem Present.later (h : Later shared shared') (hpresent : Present config shared key) :
    Present config shared' key := by
  obtain ⟨slot, hholds, haddr⟩ := hpresent
  exact ⟨slot, hholds.later h, h.addr slot haddr⟩

theorem Stored.later (h : Later shared shared') {data : V} (hstored : Stored config shared key data) :
    Stored config shared' key data := by
  obtain ⟨slot, hholds, haddr, hdata⟩ := hstored
  refine ⟨slot, hholds.later h, ?_, ?_⟩
  · rwa [h.entry slot haddr]
  · rw [h.entry slot haddr]
    exact h.memory _ _ hdata

theorem AnswerOk.later (h : Later shared shared') {answer : Answer V}
    (hok : AnswerOk config shared answer) : AnswerOk config shared' answer := by
  cases answer with
  | added key wrote => exact Present.later h hok
  | mem key status =>
    intro hstatus
    obtain ⟨data, hstored⟩ := hok hstatus
    exact ⟨data, hstored.later h⟩
  | value key data => exact Stored.later h hok

/-- What a worker knows stays true, if no other one writes the address that it is writing. -/
theorem WorkerOk.later (h : Later shared shared') {pc : Pc V}
    (haddr : ∀ slot, pc.writes = some slot →
      (shared'.hashtbl slot).addr = (shared.hashtbl slot).addr)
    (hok : WorkerOk config shared pc) : WorkerOk config shared' pc := by
  cases pc with
  | addLoad key data slot => exact Searching.later h hok
  | addCheck key data slot slotHash =>
    obtain ⟨hsearching, hne, hhash⟩ := hok
    refine ⟨hsearching.later h, hne, fun hzero => ?_⟩
    have hslot := hhash hzero
    rw [h.hash slot (by rwa [hslot]), hslot]
  | addGrab key data slot => exact Searching.later h hok
  | addIncrement key data slot => exact Holds.later h hok
  | addReload key data slot =>
    refine ⟨hok.1.later h, ?_⟩
    rw [h.hash slot hok.2]
    exact hok.2
  | writeAt key data slot => exact Holds.later h hok
  | store key data slot => exact ⟨hok.1.later h, (haddr slot rfl).trans hok.2⟩
  | publish key data slot chunk =>
    obtain ⟨hholds, hslot, hchunk, hdata⟩ := hok
    exact ⟨hholds.later h, (haddr slot rfl).trans hslot, hchunk, h.memory _ _ hdata⟩
  | memAddr key slot goodHash => exact fun hgood => (hok hgood).later h
  | memWait key slot => exact ⟨hok.1.later h, h.addr slot hok.2⟩
  | getAddr key slot => exact Holds.later h hok
  | answer answer => exact AnswerOk.later h hok
  | _ => exact hok

end Stable

/-! ## 5. The invariant -/

variable {W : Type}

structure Invariant (state : State W V) : Prop where
  probed : Probed config.hashtblSize config.home state.shared.slots
  workers : ∀ w, WorkerOk config state.shared (state.pc w)
  owners : ∀ {w w' slot}, (state.pc w).writes = some slot → (state.pc w').writes = some slot →
    w = w'
  free : ∀ slot, (state.shared.hashtbl slot).hash = 0 → (state.shared.hashtbl slot).addr = null
  heap_gt : 1 < state.shared.heap
  chunks : ∀ a data, state.shared.memory a = some data → 1 < a
  fresh : ∀ a, state.shared.heap ≤ a → state.shared.memory a = none
  entries : ∀ slot, 1 < (state.shared.hashtbl slot).addr →
    ∃ data, state.shared.memory (state.shared.hashtbl slot).addr = some data

section Effects

variable {config} {size} {shared shared' : Shared V} {pc pc' : Pc V} {event : Event V}

theorem Advances.later (h : Advances config size shared pc event shared' pc') (hok : WorkerOk config shared pc)
    (hfresh : ∀ a, shared.heap ≤ a → shared.memory a = none) : Later shared shared' := by
  cases h with
  | @grab key data slot hfree =>
    refine ⟨fun i hi => ?_, fun i hi => ?_, fun i hi => ?_, fun a data ha => ha⟩
    · have hne : i ≠ slot := by
        rintro rfl
        exact hi hfree
      exact Shared.hash_setHash_of_ne shared _ hne
    · rwa [Shared.addr_setHash]
    · exact Shared.addr_setHash shared _ _ i
  | @claim key data slot hnull =>
    have hne : ∀ {i}, (shared.hashtbl i).addr ≠ null → i ≠ slot := by
      rintro i hi rfl
      exact hi hnull
    refine ⟨fun i _ => Shared.hash_setAddr shared _ _ i, fun i hi => ?_, fun i hi => ?_,
      fun a data ha => ha⟩
    · rwa [Shared.addr_setAddr_of_ne shared _ (hne hi)]
    · have hi' : (shared.hashtbl i).addr ≠ null := by
        show (shared.hashtbl i).addr ≠ 0
        omega
      exact Shared.addr_setAddr_of_ne shared _ (hne hi')
  | store =>
    refine ⟨fun _ _ => rfl, fun _ h => h, fun _ _ => rfl, fun a data ha => ?_⟩
    have hne : a ≠ shared.heap := by
      rintro rfl
      rw [hfresh _ (Nat.le_refl _)] at ha
      cases ha
    show Function.update shared.memory shared.heap _ a = some data
    rw [Function.update_of_ne hne, ha]
  | @publish key data slot chunk =>
    obtain ⟨-, hslot, hchunk, -⟩ := hok
    refine ⟨fun i _ => Shared.hash_setAddr shared _ _ i, fun i hi => ?_, fun i hi => ?_,
      fun a data ha => ha⟩
    · by_cases heq : i = slot
      · subst heq
        rw [Shared.addr_setAddr_self]
        show chunk ≠ 0
        omega
      · rwa [Shared.addr_setAddr_of_ne shared _ heq]
    · have hne : i ≠ slot := by
        rintro rfl
        rw [hslot, writeInProgress] at hi
        omega
      exact Shared.addr_setAddr_of_ne shared _ hne
  | _ => exact ⟨fun _ _ => rfl, fun _ h => h, fun _ _ => rfl, fun _ _ h => h⟩

theorem Advances.probed (h : Advances config size shared pc event shared' pc') (hok : WorkerOk config shared pc)
    (hprobed : Probed config.hashtblSize config.home shared.slots) :
    Probed config.hashtblSize config.home shared'.slots := by
  cases h with
  | @grab key data slot hfree =>
    obtain ⟨d, hd, rfl, hpassed⟩ := hok
    rw [Shared.slots_setHash _ key.ne_zero]
    exact hprobed.insert hpassed hd (Shared.slots_eq_free.mpr hfree)
  | claim => rwa [Shared.slots_setAddr]
  | publish => rwa [Shared.slots_setAddr]
  | _ => exact hprobed

theorem Advances.free (h : Advances config size shared pc event shared' pc') (hok : WorkerOk config shared pc)
    (hnull : ∀ slot, (shared.hashtbl slot).hash = 0 → (shared.hashtbl slot).addr = null)
    (slot : ℕ) (hslot : (shared'.hashtbl slot).hash = 0) :
    (shared'.hashtbl slot).addr = null := by
  cases h with
  | @grab key data slot' hfree =>
    rw [Shared.addr_setHash]
    by_cases heq : slot = slot'
    · subst heq
      exact hnull slot hfree
    · rw [Shared.hash_setHash_of_ne shared _ heq] at hslot
      exact hnull slot hslot
  | @claim key data slot' hclaim =>
    rw [Shared.hash_setAddr] at hslot
    have hne : slot ≠ slot' := by
      rintro rfl
      exact key.ne_zero (hok.2.symm.trans hslot)
    rw [Shared.addr_setAddr_of_ne shared _ hne]
    exact hnull slot hslot
  | @publish key data slot' chunk =>
    rw [Shared.hash_setAddr] at hslot
    have hne : slot ≠ slot' := by
      rintro rfl
      exact key.ne_zero (hok.1.2.symm.trans hslot)
    rw [Shared.addr_setAddr_of_ne shared _ hne]
    exact hnull slot hslot
  | _ => exact hnull slot hslot

theorem Advances.heap_le (h : Advances config size shared pc event shared' pc') : shared.heap ≤ shared'.heap := by
  cases h with
  | full => exact Nat.le_add_right _ _
  | store => exact Nat.le_add_right _ _
  | _ => exact Nat.le_refl _

theorem slotSize_pos (size : ℕ) : 0 < slotSize size := by
  rw [slotSize, aligned]
  omega

theorem Advances.fresh (h : Advances config size shared pc event shared' pc')
    (hfresh : ∀ a, shared.heap ≤ a → shared.memory a = none) (a : ℕ) (ha : shared'.heap ≤ a) :
    shared'.memory a = none := by
  have hle := hfresh a (h.heap_le.trans ha)
  cases h with
  | @store key data slot =>
    have hpos := slotSize_pos (size data)
    have hlt : shared.heap + slotSize (size data) ≤ a := ha
    have hne : a ≠ shared.heap := by omega
    show Function.update shared.memory shared.heap _ a = none
    rw [Function.update_of_ne hne, hle]
  | _ => exact hle

theorem Advances.chunks (h : Advances config size shared pc event shared' pc') (hheap : 1 < shared.heap)
    (hchunks : ∀ a data, shared.memory a = some data → 1 < a) (a : ℕ) (data : V)
    (ha : shared'.memory a = some data) : 1 < a := by
  cases h with
  | store =>
    by_cases heq : a = shared.heap
    · rwa [heq]
    · have hmemory : Function.update shared.memory shared.heap _ a = some data := ha
      rw [Function.update_of_ne heq] at hmemory
      exact hchunks a data hmemory
  | _ => exact hchunks a data ha

theorem Advances.entries (h : Advances config size shared pc event shared' pc') (hok : WorkerOk config shared pc)
    (hfresh : ∀ a, shared.heap ≤ a → shared.memory a = none)
    (hentries : ∀ slot, 1 < (shared.hashtbl slot).addr →
      ∃ data, shared.memory (shared.hashtbl slot).addr = some data)
    (slot : ℕ) (hslot : 1 < (shared'.hashtbl slot).addr) :
    ∃ data, shared'.memory (shared'.hashtbl slot).addr = some data := by
  have hlater := h.later hok hfresh
  cases h with
  | @grab key data slot' hfree =>
    rw [Shared.addr_setHash] at hslot ⊢
    exact hentries slot hslot
  | @claim key data slot' hnull =>
    by_cases heq : slot = slot'
    · subst heq
      rw [Shared.addr_setAddr_self, writeInProgress] at hslot
      omega
    · rw [Shared.addr_setAddr_of_ne shared _ heq] at hslot ⊢
      exact hentries slot hslot
  | store =>
    obtain ⟨data, hdata⟩ := hentries slot hslot
    exact ⟨data, hlater.memory _ _ hdata⟩
  | @publish key data slot' chunk =>
    by_cases heq : slot = slot'
    · subst heq
      rw [Shared.addr_setAddr_self]
      exact ⟨data, hok.2.2.2⟩
    · rw [Shared.addr_setAddr_of_ne shared _ heq] at hslot ⊢
      exact hentries slot hslot
  | _ => exact hentries slot hslot

/-- Only its owner changes the address of a slot that is being written. -/
theorem Advances.addr (h : Advances config size shared pc event shared' pc') {slot : ℕ}
    (hslot : (shared.hashtbl slot).addr = writeInProgress) (howner : pc.writes ≠ some slot) :
    (shared'.hashtbl slot).addr = (shared.hashtbl slot).addr := by
  cases h with
  | grab => exact Shared.addr_setHash shared _ _ slot
  | @claim key data slot' hnull =>
    have hne : slot ≠ slot' := by
      rintro rfl
      rw [hnull] at hslot
      cases hslot
    exact Shared.addr_setAddr_of_ne shared _ hne
  | @publish key data slot' chunk =>
    have hne : slot ≠ slot' := by
      rintro rfl
      exact howner rfl
    exact Shared.addr_setAddr_of_ne shared _ hne
  | _ => rfl

end Effects

/-! ## 6. One step -/

section Steps

variable {config} {size} {shared shared' : Shared V} {pc pc' : Pc V} {event : Event V}

theorem searching_home (key : Digest) (shared : Shared V) :
    Searching config shared key (config.home key.word) :=
  ⟨0, config.hashtblSize_pos, (probe_zero (config.home_lt _)).symm, .zero⟩

theorem Searching.slot_lt {key : Digest} {slot : ℕ} (h : Searching config shared key slot) :
    slot < config.hashtblSize := by
  obtain ⟨d, -, rfl, -⟩ := h
  exact probe_lt config.hashtblSize_pos _ _

/-- A search that goes on from a slot that is taken by another key. -/
theorem Searching.next {key : Digest} {slot : ℕ} (h : Searching config shared key slot)
    (hfree : (shared.hashtbl slot).hash ≠ 0) (hkey : (shared.hashtbl slot).hash ≠ key.word)
    (hhome : config.next slot ≠ config.home key.word) :
    Searching config shared key (config.next slot) := by
  obtain ⟨d, hd, rfl, hpassed⟩ := h
  rw [Config.next_probe] at hhome ⊢
  have hlt : d + 1 < config.hashtblSize := by
    have hne := mt (probe_succ_eq_home_iff (config.home_lt key.word) hd).mpr hhome
    omega
  refine ⟨d + 1, hlt, rfl, hpassed.succ ?_ ?_⟩
  · rwa [ne_eq, Shared.slots_eq_free]
  · rw [ne_eq, Shared.slots_eq_key]
    exact fun heq => hkey heq.1

theorem next_lt (slot : ℕ) : config.next slot < config.hashtblSize := by
  rw [Config.next_eq]
  exact Nat.mod_lt _ config.hashtblSize_pos

/-- A worker that has made a step knows what it needs for the next one. -/
theorem Advances.workerOk (h : Advances config size shared pc event shared' pc')
    (hok : WorkerOk config shared pc) (hheap : 1 < shared.heap)
    (hchunks : ∀ a data, shared.memory a = some data → 1 < a)
    (hentries : ∀ slot, 1 < (shared.hashtbl slot).addr →
      ∃ data, shared.memory (shared.hashtbl slot).addr = some data) :
    WorkerOk config shared' pc' := by
  cases h with
  | hit hhash => exact ⟨Searching.slot_lt hok, hhash⟩
  | miss hhash => exact ⟨hok, hhash, fun _ => rfl⟩
  | attempt => exact hok.1
  | pass hzero hhome =>
    obtain ⟨hsearching, hne, hhash⟩ := hok
    have hslot := hhash hzero
    exact hsearching.next (by rwa [hslot]) (by rwa [hslot]) hhome
  | grab => exact ⟨Searching.slot_lt hok, Shared.hash_setHash_self shared _ _⟩
  | lose hzero => exact ⟨hok, hzero⟩
  | increment => exact hok
  | rehit hhash => exact ⟨Searching.slot_lt hok.1, hhash⟩
  | repass hhash hhome => exact hok.1.next hok.2 hhash hhome
  | claim =>
    refine ⟨⟨hok.1, ?_⟩, Shared.addr_setAddr_self shared _ _⟩
    rw [Shared.hash_setAddr]
    exact hok.2
  | claimed hnull => exact ⟨_, hok, hnull⟩
  | store => exact ⟨hok.1, hok.2, hheap, Function.update_self ..⟩
  | @publish key data slot chunk =>
    obtain ⟨⟨hlt, hhash⟩, -, hchunk, -⟩ := hok
    refine ⟨slot, ⟨hlt, ?_⟩, ?_⟩
    · rw [Shared.hash_setAddr, hhash]
    · rw [Shared.addr_setAddr_self]
      show chunk ≠ 0
      omega
  | find => exact hok
  | findMiss => exact hok
  | findFree => exact hok
  | findPass => exact next_lt _
  | foundMem => exact fun hgood => ⟨hok, of_decide_eq_true hgood⟩
  | foundGet hhash => exact ⟨hok, hhash⟩
  | present hnull => exact ⟨hok rfl, hnull⟩
  | absent hstatus => exact fun hone => absurd hone hstatus
  | wait => exact hok
  | @waited key slot hwritten =>
    have hgt : 1 < (shared.hashtbl slot).addr := by
      have hzero : (shared.hashtbl slot).addr ≠ 0 := hok.2
      have hone : (shared.hashtbl slot).addr ≠ 1 := hwritten
      omega
    obtain ⟨data, hdata⟩ := hentries slot hgt
    exact fun _ => ⟨data, slot, hok.1, hgt, hdata⟩
  | read hdata => exact ⟨_, hok, hchunks _ _ hdata, hdata⟩
  | _ => trivial

/-- A worker becomes the owner of an address that is null. -/
theorem Advances.writes (h : Advances config size shared pc event shared' pc') {slot : ℕ}
    (hwrites : pc'.writes = some slot) :
    pc.writes = some slot ∨ (shared.hashtbl slot).addr = null := by
  cases h with
  | claim hnull =>
    cases hwrites
    exact .inr hnull
  | store => exact .inl hwrites
  | _ => cases hwrites

theorem writes_start (config : Config) (op : Op V) : (op.start config).writes = none := by
  cases op <;> rfl

theorem workerOk_start (op : Op V) : WorkerOk config shared (op.start config) := by
  cases op with
  | add key data => exact searching_home key shared
  | mem key => exact config.home_lt key.word
  | get key => exact config.home_lt key.word

variable [DecidableEq W]

/-- A step that leaves the shared memory as it is, by a worker that owns nothing afterwards. -/
theorem Invariant.setPc {state : State W V} (h : Invariant config state) (w : W) {pc : Pc V}
    (hok : WorkerOk config state.shared pc) (hwrites : pc.writes = none) :
    Invariant config { state with pc := Function.update state.pc w pc } where
  probed := h.probed
  workers := by
    intro w'
    by_cases heq : w' = w
    · subst heq
      show WorkerOk config state.shared (Function.update state.pc w' pc w')
      rwa [Function.update_self]
    · show WorkerOk config state.shared (Function.update state.pc w pc w')
      rw [Function.update_of_ne heq]
      exact h.workers w'
  owners := by
    have howns : ∀ {w' slot}, (Function.update state.pc w pc w').writes = some slot →
        (state.pc w').writes = some slot := by
      intro w' slot hslot
      by_cases heq : w' = w
      · subst heq
        rw [Function.update_self, hwrites] at hslot
        cases hslot
      · rwa [Function.update_of_ne heq] at hslot
    intro w₁ w₂ slot h₁ h₂
    exact h.owners (howns h₁) (howns h₂)
  free := h.free
  heap_gt := h.heap_gt
  chunks := h.chunks
  fresh := h.fresh
  entries := h.entries

omit [DecidableEq W] in
theorem Invariant.addr_eq {state : State W V} (h : Invariant config state) {w : W} {slot : ℕ}
    (hslot : (state.pc w).writes = some slot) :
    (state.shared.hashtbl slot).addr = writeInProgress := by
  have hok := h.workers w
  cases hpc : state.pc w with
  | store key data slot' =>
    rw [hpc] at hok hslot
    cases hslot
    exact hok.2
  | publish key data slot' chunk =>
    rw [hpc] at hok hslot
    cases hslot
    exact hok.2.1
  | _ =>
    rw [hpc] at hslot
    cases hslot

/-- What one step of one worker keeps. -/
theorem Invariant.step {state state' : State W V} {event : W × Event V}
    (h : Invariant config state) (hstep : Step config size state event state') :
    Invariant config state' ∧ Later state.shared state'.shared := by
  cases hstep with
  | @call w op hidle => exact ⟨h.setPc w (workerOk_start op) (writes_start config op), .refl _⟩
  | @timeout w key slot hwait => exact ⟨h.setPc w trivial rfl, .refl _⟩
  | @access w hbusy =>
    have hok := h.workers w
    have heffect := advances config size state.shared (state.pc w)
    have hlater := heffect.later hok h.fresh
    refine ⟨?_, hlater⟩
    constructor
    · exact heffect.probed hok h.probed
    · intro w'
      by_cases heq : w' = w
      · subst heq
        show WorkerOk config _ (Function.update state.pc w' _ w')
        rw [Function.update_self]
        exact heffect.workerOk hok h.heap_gt h.chunks h.entries
      · show WorkerOk config _ (Function.update state.pc w _ w')
        rw [Function.update_of_ne heq]
        refine (h.workers w').later hlater fun slot hslot => ?_
        exact heffect.addr (h.addr_eq hslot) fun howner => heq (h.owners hslot howner)
    · have howns : ∀ {w' slot}, w' ≠ w →
          (Function.update state.pc w (advance config size state.shared (state.pc w)).2.2
            w').writes = some slot → (state.pc w').writes = some slot := by
        intro w' slot hne hslot
        rwa [Function.update_of_ne hne] at hslot
      have hnew : ∀ {w' slot}, w' ≠ w → (state.pc w').writes = some slot →
          (advance config size state.shared (state.pc w)).2.2.writes ≠ some slot := by
        intro w' slot hne hslot hwrites
        rcases heffect.writes hwrites with hold | hnull
        · exact hne (h.owners hslot hold)
        · have haddr := h.addr_eq hslot
          rw [hnull] at haddr
          cases haddr
      intro w₁ w₂ slot h₁ h₂
      by_cases heq₁ : w₁ = w
      · by_cases heq₂ : w₂ = w
        · exact heq₁.trans heq₂.symm
        · subst heq₁
          have hwrites : (Function.update state.pc w₁ _ w₁).writes = some slot := h₁
          rw [Function.update_self] at hwrites
          exact absurd hwrites (hnew heq₂ (howns heq₂ h₂))
      · by_cases heq₂ : w₂ = w
        · subst heq₂
          have hwrites : (Function.update state.pc w₂ _ w₂).writes = some slot := h₂
          rw [Function.update_self] at hwrites
          exact absurd hwrites (hnew heq₁ (howns heq₁ h₁))
        · exact h.owners (howns heq₁ h₁) (howns heq₂ h₂)
    · exact heffect.free hok h.free
    · exact Nat.lt_of_lt_of_le h.heap_gt heffect.heap_le
    · exact heffect.chunks h.heap_gt h.chunks
    · exact heffect.fresh h.fresh
    · exact heffect.entries hok h.fresh h.entries

omit [DecidableEq W] in
theorem Invariant.initial (config : Config) :
    Invariant config (State.initial config : State W V) where
  probed := by
    have hslots : (Shared.initial config : Shared V).slots = fun _ => none := by
      funext i
      exact Shared.slots_eq_free.mpr rfl
    show Probed config.hashtblSize config.home (Shared.initial config : Shared V).slots
    rw [hslots]
    exact Probed.empty
  workers := fun _ => trivial
  owners := fun h => by cases h
  free := fun _ _ => rfl
  heap_gt := config.heapInit_gt
  chunks := fun _ _ h => by cases h
  fresh := fun _ _ => rfl
  entries := fun _ h => absurd h (Nat.not_lt_zero _)

/-- **The invariant holds over every run**, and what is in the table stays there. -/
theorem Invariant.run {state state' : State W V} {trace : List (W × Event V)}
    (h : Invariant config state) (hrun : Run config size state trace state') :
    Invariant config state' ∧ Later state.shared state'.shared := by
  induction hrun with
  | nil => exact ⟨h, .refl _⟩
  | snoc hrun hstep ih =>
    obtain ⟨hmiddle, hlater⟩ := ih
    obtain ⟨hlast, hlater'⟩ := hmiddle.step hstep
    exact ⟨hlast, hlater.trans hlater'⟩

end Steps

end Pysa.SharedHeap
