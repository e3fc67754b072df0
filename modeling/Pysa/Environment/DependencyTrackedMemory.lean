/-
  Subject: DEPENDENCIES BETWEEN KEYS (`dependencyTrackedMemory.ml`, `sharedMemoryKeys.ml`).

  A dependency is the key of the table that is recomputed when it is triggered. The table of
  dependencies only has the codes of keys and of dependencies, which may collide; a process turns
  codes back into dependencies with those it has registered.

  * `Registry` -- the decoder of the master, and the keys that a worker has registered;
  * `collect` -- work in a worker, whose keys the master registers afterwards;
  * `Depends`, `Grows` -- what a read leaves in the table, and that it is never lost.
-/
import Pysa.Lib.AssocMap

namespace Pysa.Incremental

variable {Key : Type} [DecidableEq Key]

/-- The codes of a key that is read, and of a dependency (`EncodedDependency.make`). -/
structure Encoding (Key : Type) where
  key : Key → ℕ
  dependency : Key → ℕ

/-- The table of dependencies in shared memory, and the registries of the processes. -/
structure Dependencies (Key : Type) where
  graph : List (ℕ × ℕ)
  /-- the table of the master, from codes to dependencies -/
  master : AssocMap ℕ (List Key)
  /-- the keys registered so far, in a worker -/
  worker : Option (List Key)

namespace Dependencies

variable (encoding : Encoding Key)

def empty : Dependencies Key := ⟨[], ∅, none⟩

def addToTable (key : Key) (table : AssocMap ℕ (List Key)) : AssocMap ℕ (List Key) :=
  AssocMap.update (encoding.dependency key) (fun existing =>
    match existing with
    | some existing => if key ∈ existing then existing else key :: existing
    | none => [key]) table

def register (key : Key) (d : Dependencies Key) : Dependencies Key :=
  match d.worker with
  | none => { d with master := addToTable encoding key d.master }
  | some keys => { d with worker := some (key :: keys) }

/-- Decoding, in the master. -/
def decode (code : ℕ) (d : Dependencies Key) : List Key := (d.master.lookup code).getD []

def addDependency (key : Key) (dependency : Option Key) (d : Dependencies Key) :
    Dependencies Key :=
  match dependency with
  | none => d
  | some dependency =>
    { d with graph := (encoding.key key, encoding.dependency dependency) :: d.graph }

def getDependents (key : Key) (d : Dependencies Key) : List Key :=
  (d.graph.filter fun edge => decide (edge.1 = encoding.key key)).flatMap fun edge =>
    d.decode edge.2

/-- The keys that a worker has registered, registered by the master. -/
def merge (d : Dependencies Key) : Dependencies Key :=
  (d.worker.getD []).foldl (fun d key => d.register encoding key) { d with worker := none }

/-! ## What is registered -/

/-- The dependency can be decoded, now or after the worker's keys have been merged. -/
def Registered (d : Dependencies Key) (dependency : Key) : Prop :=
  dependency ∈ d.decode (encoding.dependency dependency) ∨
    ∃ keys, d.worker = some keys ∧ dependency ∈ keys

/-- The dependency has read the key. -/
def Depends (d : Dependencies Key) (key dependency : Key) : Prop :=
  (encoding.key key, encoding.dependency dependency) ∈ d.graph ∧ d.Registered encoding dependency

/-- A dependency is decoded from its own code only. -/
def Coded (d : Dependencies Key) : Prop :=
  ∀ code dependency, dependency ∈ d.decode code → code = encoding.dependency dependency

/-- Nothing is lost. -/
structure Grows (d d' : Dependencies Key) : Prop where
  graph : d.graph ⊆ d'.graph
  registered : ∀ dependency, d.Registered encoding dependency → d'.Registered encoding dependency
  coded : d.Coded encoding → d'.Coded encoding

variable {encoding} {d d' d'' : Dependencies Key}

omit [DecidableEq Key] in
theorem Grows.refl (d : Dependencies Key) : Grows encoding d d :=
  ⟨List.Subset.refl _, fun _ => id, id⟩

omit [DecidableEq Key] in
theorem Grows.trans (h : Grows encoding d d') (h' : Grows encoding d' d'') :
    Grows encoding d d'' :=
  ⟨List.Subset.trans h.graph h'.graph, fun _ hreg => h'.registered _ (h.registered _ hreg),
    fun hcoded => h'.coded (h.coded hcoded)⟩

omit [DecidableEq Key] in
theorem Depends.grows {key dependency : Key} (h : d.Depends encoding key dependency)
    (hgrows : Grows encoding d d') : d'.Depends encoding key dependency :=
  ⟨hgrows.graph h.1, hgrows.registered _ h.2⟩

theorem decode_addToTable (key : Key) (code : ℕ) (dependency : Key) :
    dependency ∈ { d with master := addToTable encoding key d.master }.decode code ↔
      (code = encoding.dependency key ∧ dependency = key) ∨ dependency ∈ d.decode code := by
  unfold decode addToTable
  rw [AssocMap.lookup_update]
  by_cases hcode : code = encoding.dependency key
  · rw [if_pos hcode, ← hcode]
    cases hlookup : d.master.lookup code with
    | none => simp
    | some existing =>
      simp only [Option.getD_some, true_and]
      split
      · rename_i hmem
        constructor
        · exact Or.inr
        · intro h
          rcases h with rfl | h
          · exact hmem
          · exact h
      · exact List.mem_cons
  · rw [if_neg hcode]
    simp [hcode]

theorem register_registered (key : Key) (d : Dependencies Key) :
    (d.register encoding key).Registered encoding key := by
  unfold register
  cases hworker : d.worker with
  | none => exact Or.inl ((decode_addToTable key _ key).mpr (Or.inl ⟨rfl, rfl⟩))
  | some keys => exact Or.inr ⟨_, rfl, List.mem_cons_self⟩

theorem register_grows (key : Key) (d : Dependencies Key) :
    Grows encoding d (d.register encoding key) := by
  unfold register
  cases hworker : d.worker with
  | none =>
    refine ⟨List.Subset.refl _, fun dependency h => ?_, fun hcoded code dependency h => ?_⟩
    · rcases h with h | ⟨keys, hkeys, -⟩
      · exact Or.inl ((decode_addToTable key _ dependency).mpr (Or.inr h))
      · cases hworker.symm.trans hkeys
    · rcases (decode_addToTable key code dependency).mp h with ⟨hcode, rfl⟩ | h
      · exact hcode
      · exact hcoded code dependency h
  | some keys =>
    refine ⟨List.Subset.refl _, fun dependency h => ?_, id⟩
    rcases h with h | ⟨keys', hkeys, hmem⟩
    · exact Or.inl h
    · cases hworker.symm.trans hkeys
      exact Or.inr ⟨_, rfl, List.mem_cons_of_mem _ hmem⟩

theorem register_worker (key : Key) (d : Dependencies Key) :
    (d.register encoding key).worker.isSome = d.worker.isSome := by
  unfold register
  cases hworker : d.worker with
  | none => rfl
  | some keys => rfl

omit [DecidableEq Key] in
theorem addDependency_grows (key : Key) (dependency : Option Key) (d : Dependencies Key) :
    Grows encoding d (d.addDependency encoding key dependency) := by
  cases dependency with
  | none => exact .refl d
  | some dependency => exact ⟨fun edge hedge => List.mem_cons_of_mem _ hedge, fun _ => id, id⟩

omit [DecidableEq Key] in
theorem addDependency_depends {key dependency : Key} (h : d.Registered encoding dependency) :
    (d.addDependency encoding key (some dependency)).Depends encoding key dependency :=
  ⟨List.mem_cons_self, h⟩

omit [DecidableEq Key] in
theorem addDependency_worker (key : Key) (dependency : Option Key) (d : Dependencies Key) :
    (d.addDependency encoding key dependency).worker = d.worker := by
  cases dependency <;> rfl

omit [DecidableEq Key] in
/-- **In the master, what has read a key is among its dependents**, however codes collide. -/
theorem mem_getDependents {key dependency : Key} (hmaster : d.worker = none)
    (h : d.Depends encoding key dependency) : dependency ∈ d.getDependents encoding key := by
  unfold getDependents
  refine List.mem_flatMap.mpr ⟨_, List.mem_filter.mpr ⟨h.1, decide_eq_true rfl⟩, ?_⟩
  rcases h.2 with hdecode | ⟨keys, hkeys, -⟩
  · exact hdecode
  · cases hmaster.symm.trans hkeys

omit [DecidableEq Key] in
/-- What is decoded as a dependent of a key is registered. -/
theorem registered_of_mem_getDependents {key dependency : Key} (hcoded : d.Coded encoding)
    (h : dependency ∈ d.getDependents encoding key) : d.Registered encoding dependency := by
  obtain ⟨edge, -, hdecode⟩ := List.mem_flatMap.mp h
  left
  rw [← hcoded edge.2 dependency hdecode]
  exact hdecode

variable (encoding) in
theorem foldl_register (keys : List Key) (hmaster : d.worker = none) :
    Grows encoding d (keys.foldl (fun d key => d.register encoding key) d) ∧
      (keys.foldl (fun d key => d.register encoding key) d).worker = none ∧
      ∀ key ∈ keys, (keys.foldl (fun d key => d.register encoding key) d).Registered encoding
        key := by
  induction keys generalizing d with
  | nil => exact ⟨.refl d, hmaster, fun _ h => absurd h List.not_mem_nil⟩
  | cons key rest ih =>
    have hnext : (d.register encoding key).worker = none := by
      rw [← Option.isNone_iff_eq_none, ← Option.not_isSome, register_worker, hmaster]
      rfl
    obtain ⟨hgrows, hworker, hall⟩ := ih hnext
    refine ⟨(register_grows key d).trans hgrows, hworker, fun key' hkey' => ?_⟩
    rcases List.mem_cons.mp hkey' with rfl | hkey'
    · exact hgrows.registered _ (register_registered key' d)
    · exact hall key' hkey'

variable (encoding) in
/-- The master keeps all that a worker has registered. -/
theorem merge_grows (d : Dependencies Key) :
    Grows encoding d (d.merge encoding) ∧ (d.merge encoding).worker = none := by
  have hmaster : ({ d with worker := none } : Dependencies Key).worker = none := rfl
  obtain ⟨hgrows, hworker, hall⟩ := foldl_register encoding (d.worker.getD []) hmaster
  refine ⟨⟨hgrows.graph, fun dependency h => ?_, hgrows.coded⟩, hworker⟩
  rcases h with h | ⟨keys, hkeys, hmem⟩
  · exact hgrows.registered _ (Or.inl h)
  · refine hall dependency ?_
    rw [hkeys]
    exact hmem

end Dependencies

end Pysa.Incremental
