/-
  Subject: MAP-REDUCE OVER A POOL OF WORKERS (`scheduler.ml`, `multiWorker.ml`, `worker.ml`,
    `hack_bucket.ml`).

  * `Bucket.make` -- the closure that cuts the inputs into jobs;
  * `Worker.make`, `call`, `getResult`, `select` -- the pool; a worker that is busy takes no job;
  * `dispatch`, `collect` -- jobs are sent to the workers that are free, results are merged as
    workers become ready (`Polling`, any non-empty part of those that run);
  * `Dispatched` -- the INVARIANT: a worker is free or has one job, and while an input is left
    there is a worker;
  * `mapReduce_parallel` -- **the parallel run ends with the sequential result, after at most as
    many jobs as there are chunks, which partition the inputs in order.**
-/
import Mathlib.Algebra.BigOperators.Group.List.Basic
import Mathlib.Algebra.Order.Ring.Int
import Mathlib.Data.List.Perm.Basic
import Mathlib.Data.List.Nodup
import Mathlib.Tactic.Ring

namespace Pysa

/-! ## 1. Buckets -/

inductive Bucket (A : Type) where
  | job (bucket : A)
  | wait
  | done

namespace Bucket

variable {A : Type}

/-- The variables that the closure of `make_` captures. -/
structure Maker (A : Type) where
  jobs : List A
  bucketSize : ℕ
  i : ℕ

namespace Maker

def call (maker : Maker A) : List A × Maker A :=
  let bucketSize := min (maker.jobs.length - maker.i) maker.bucketSize
  ((maker.jobs.drop maker.i).take bucketSize, { maker with i := bucketSize + maker.i })

def remaining (maker : Maker A) : List A := maker.jobs.drop maker.i

structure WellFormed (maker : Maker A) : Prop where
  bucketSize_pos : 1 ≤ maker.bucketSize
  i_le : maker.i ≤ maker.jobs.length

theorem wellFormed_call {maker : Maker A} (h : maker.WellFormed) : maker.call.2.WellFormed :=
  ⟨h.bucketSize_pos, by have := h.i_le; simp only [call]; omega⟩

theorem call_append (maker : Maker A) : maker.call.1 ++ maker.call.2.remaining = maker.remaining := by
  simp only [call, remaining, ← List.drop_drop, Nat.add_comm]
  exact List.take_append_drop _ _

theorem length_call (maker : Maker A) :
    maker.call.1.length = min maker.remaining.length maker.bucketSize := by
  simp [call, remaining]

end Maker

def makeList (numWorkers : ℤ) (jobs : List A) : Maker A :=
  ⟨jobs, (max 1 (1 + (jobs.length : ℤ).tdiv numWorkers)).toNat, 0⟩

def ofList : List A → Bucket (List A)
  | [] => done
  | workload => job workload

/-- The closure that `make` returns. -/
def next (maker : Maker A) : Bucket (List A) × Maker A := (ofList maker.call.1, maker.call.2)

theorem wellFormed_makeList (numWorkers : ℤ) (jobs : List A) :
    (makeList numWorkers jobs).WellFormed := ⟨by simp only [makeList]; omega, Nat.zero_le _⟩

@[simp] theorem remaining_makeList (numWorkers : ℤ) (jobs : List A) :
    (makeList numWorkers jobs).remaining = jobs := rfl

theorem wellFormed_next {maker : Maker A} (h : maker.WellFormed) : (next maker).2.WellFormed :=
  Maker.wellFormed_call h

theorem next_of_nil {maker : Maker A} (h : maker.remaining = []) :
    (next maker).1 = done ∧ (next maker).2.remaining = [] := by
  have happend := maker.call_append
  rw [h, List.append_eq_nil_iff] at happend
  exact ⟨by rw [next, happend.1, ofList], happend.2⟩

theorem next_of_ne_nil {maker : Maker A} (hwf : maker.WellFormed) (h : maker.remaining ≠ []) :
    ∃ bucket, (next maker).1 = job bucket ∧ bucket ≠ [] ∧
      bucket ++ (next maker).2.remaining = maker.remaining ∧
      (bucket.length = maker.bucketSize ∨ (next maker).2.remaining = []) := by
  have hlength := maker.length_call
  have happend := maker.call_append
  have hpos := hwf.bucketSize_pos
  have hne : maker.call.1 ≠ [] := by
    rw [← List.length_pos_iff] at h ⊢
    omega
  refine ⟨maker.call.1, ?_, hne, happend, ?_⟩
  · obtain ⟨x, xs, hcons⟩ := List.exists_cons_of_ne_nil hne
    rw [next, hcons, ofList]
    exact nofun
  · have hsum := congrArg List.length happend
    rw [List.length_append] at hsum
    simp only [next, ← List.length_eq_zero_iff]
    omega

end Bucket

/-! ## 2. Workers -/

namespace Scheduler

inductive Failure where
  | invalidArg (message : String)
  | failwith (message : String)
  | divisionByZero
  | workerBusy
  | outOfFuel
deriving DecidableEq

/-- The workers of a scheduler: some, and all different. -/
structure Pool (W : Type) where
  workers : List W
  ne_nil : workers ≠ []
  nodup : workers.Nodup

namespace Worker

def maxWorkers : ℕ := 1000

/-- `fork` gives a new process for each identifier. -/
def loop (workers : List ℕ) : ℕ → List ℕ
  | 0 => workers
  | n + 1 => loop ((n + 1) :: workers) n

theorem mem_loop {workers : List ℕ} {n x : ℕ} :
    x ∈ loop workers n ↔ x ∈ workers ∨ (1 ≤ x ∧ x ≤ n) := by
  induction n generalizing workers with
  | zero => exact (or_iff_left (by omega)).symm
  | succ n ih =>
    rw [loop, ih, List.mem_cons]
    constructor
    · rintro ((rfl | h) | h)
      · exact .inr (by omega)
      · exact .inl h
      · exact .inr (by omega)
    · rintro (h | h)
      · exact .inl (.inr h)
      · by_cases hx : x = n + 1
        · exact .inl (.inl hx)
        · exact .inr (by omega)

theorem nodup_loop {workers : List ℕ} {n : ℕ} (h : workers.Nodup) (hlt : ∀ x ∈ workers, n < x) :
    (loop workers n).Nodup := by
  induction n generalizing workers with
  | zero => exact h
  | succ n ih =>
    refine ih (List.nodup_cons.mpr ⟨fun hmem => (hlt _ hmem).false, h⟩) fun x hx => ?_
    rcases List.mem_cons.mp hx with rfl | hx
    · exact Nat.lt_succ_self n
    · exact Nat.lt_of_succ_lt (hlt x hx)

theorem loop_ne_nil {n : ℕ} (h : n ≠ 0) : loop [] n ≠ [] :=
  List.ne_nil_of_mem (mem_loop.mpr (.inr ⟨Nat.one_le_iff_ne_zero.mpr h, le_rfl⟩))

def make (nbrProcs : ℕ) : Except Failure (Pool ℕ) :=
  if h : nbrProcs = 0 then .error (.invalidArg "Number of workers must be positive")
  else if maxWorkers ≤ nbrProcs then .error (.failwith "Too many workers")
  else .ok ⟨loop [] nbrProcs, loop_ne_nil h, nodup_loop .nil nofun⟩

end Worker

/-- A worker with the request that has been sent to it. -/
structure Handle (W A : Type) where
  worker : W
  request : A

structure State (W S A : Type) where
  /-- The state of the closure `next`. -/
  source : S
  busy : List W
  /-- The requests so far. -/
  sent : List A
  /-- How often `select` has been called. -/
  selects : ℕ

variable {W S A B C : Type}

namespace Worker

variable [DecidableEq W]

def call (worker : W) (request : A) (state : State W S A) :
    Except Failure (Handle W A × State W S A) :=
  if worker ∈ state.busy then .error .workerBusy
  else .ok (⟨worker, request⟩,
    { state with busy := worker :: state.busy, sent := state.sent ++ [request] })

def getResult (job : A → B) (handle : Handle W A) (state : State W S A) : B × State W S A :=
  (job handle.request, { state with busy := state.busy.filter (· ≠ handle.worker) })

structure Selected (W A : Type) where
  readys : List (Handle W A)
  waiters : List (Handle W A)

def selectLoop (ready : W → Bool) (readys waiters : List (Handle W A)) :
    List (Handle W A) → Selected W A
  | [] => ⟨readys, waiters⟩
  | handle :: handles =>
    if ready handle.worker then selectLoop ready (handle :: readys) waiters handles
    else selectLoop ready readys (handle :: waiters) handles

def select (ready : W → Bool) (handles : List (Handle W A)) : Selected W A :=
  selectLoop ready [] [] handles

end Worker

/-- Which of the running workers `Unix.select` finds ready, at each of its calls. It blocks until
    there is one. -/
structure Polling (W : Type) where
  ready : ℕ → List W → W → Bool
  blocks : ∀ time workers, workers ≠ [] → ∃ worker ∈ workers, ready time workers worker = true

/-! ## 3. The run -/

section Run

variable [DecidableEq W] (polling : Polling W) (job : A → B) (merge : B → C → C)
  (next : S → Bucket A × S)

mutual

def dispatch : ℕ → State W S A → List W → List (Handle W A) → C → Except Failure (C × State W S A)
  | 0, _, _, _, _ => .error .outOfFuel
  | _ + 1, state, [], [], acc => .ok (acc, state)
  -- no worker is available
  | fuel + 1, state, [], handle :: handles, acc => collect fuel state [] (handle :: handles) acc
  | fuel + 1, state, worker :: workers, handles, acc =>
    match next state.source with
    | (.wait, source) => collect fuel { state with source } (worker :: workers) handles acc
    -- no job is left: the free workers are given up
    | (.done, source) => dispatch fuel { state with source } [] handles acc
    | (.job bucket, source) =>
      match Worker.call worker bucket { state with source } with
      | .error failure => .error failure
      | .ok (handle, state) => dispatch fuel state workers (handle :: handles) acc

def collect : ℕ → State W S A → List W → List (Handle W A) → C → Except Failure (C × State W S A)
  | 0, _, _, _, _ => .error .outOfFuel
  | fuel + 1, state, workers, handles, acc =>
    let selected := Worker.select
      (polling.ready state.selects (handles.map Handle.worker)) handles
    let result := selected.readys.foldl (fun result handle =>
      (merge (Worker.getResult job handle result.2).1 result.1,
        (Worker.getResult job handle result.2).2)) (acc, { state with selects := state.selects + 1 })
    dispatch fuel result.2 (selected.readys.map Handle.worker ++ workers) selected.waiters result.1

end

def multiThreadedCall (fuel : ℕ) (workers : List W) (neutral : C) (source : S) :
    Except Failure (C × State W S A) :=
  dispatch polling job merge next fuel ⟨source, [], [], 0⟩ workers [] neutral

end Run

end Scheduler

inductive Scheduler (W : Type) where
  | sequential
  | parallel (pool : Scheduler.Pool W)

namespace Scheduler

variable {W A B C : Type} [DecidableEq W]

def sequentialMapReduce (initial : C) (map : List A → B) (reduce : B → C → C) (inputs : List A) : C :=
  reduce (map inputs) initial

/-- The result, and the jobs that the workers were sent. A policy takes the number of workers and
    the number of tasks to the number of chunks. -/
def mapReduce (fuel : ℕ) (polling : Polling W) (scheduler : Scheduler W) (policy : ℕ → ℕ → ℤ)
    (initial : C) (map : List A → B) (reduce : B → C → C) (inputs : List A) :
    Except Failure (C × List (List A)) :=
  match scheduler with
  | sequential => .ok (sequentialMapReduce initial map reduce inputs, [])
  | parallel pool =>
    let numberOfChunks := policy pool.workers.length inputs.length
    if numberOfChunks = 0 then .error .divisionByZero
    else
      (multiThreadedCall polling map reduce Bucket.next fuel pool.workers initial
        (Bucket.makeList numberOfChunks inputs)).map fun result => (result.1, result.2.sent)

/-! ## 4. What `select` and the results leave -/

section Collect

omit [DecidableEq W] in
theorem selectLoop_perm (ready : W → Bool) (readys waiters handles : List (Handle W A)) :
    ((Worker.selectLoop ready readys waiters handles).readys ++
      (Worker.selectLoop ready readys waiters handles).waiters).Perm
      (readys ++ waiters ++ handles) := by
  induction handles generalizing readys waiters with
  | nil => rw [Worker.selectLoop, List.append_nil]
  | cons handle handles ih =>
    rw [Worker.selectLoop]
    split
    · exact (ih (handle :: readys) waiters).trans List.perm_middle.symm
    · refine (ih readys (handle :: waiters)).trans ?_
      rw [List.append_assoc, List.append_assoc]
      exact List.perm_middle.symm.append_left readys

omit [DecidableEq W] in
theorem select_perm (ready : W → Bool) (handles : List (Handle W A)) :
    ((Worker.select ready handles).readys ++ (Worker.select ready handles).waiters).Perm handles :=
  selectLoop_perm ready [] [] handles

omit [DecidableEq W] in
theorem mem_selectLoop_readys (ready : W → Bool) (readys waiters handles : List (Handle W A))
    {handle : Handle W A} (h : handle ∈ readys ∨ (handle ∈ handles ∧ ready handle.worker = true)) :
    handle ∈ (Worker.selectLoop ready readys waiters handles).readys := by
  induction handles generalizing readys waiters with
  | nil => exact h.resolve_right fun h => absurd h.1 List.not_mem_nil
  | cons head handles ih =>
    rw [Worker.selectLoop]
    split
    · refine ih _ _ ?_
      rcases h with h | ⟨h, hready⟩
      · exact .inl (List.mem_cons_of_mem _ h)
      · rcases List.mem_cons.mp h with rfl | h
        · exact .inl List.mem_cons_self
        · exact .inr ⟨h, hready⟩
    · rename_i hhead
      refine ih _ _ (h.imp_right fun h => ⟨?_, h.2⟩)
      rcases List.mem_cons.mp h.1 with rfl | hmem
      · exact absurd h.2 hhead
      · exact hmem

omit [DecidableEq W] in
theorem select_readys_ne_nil (polling : Polling W) (time : ℕ) {handles : List (Handle W A)}
    (h : handles ≠ []) :
    (Worker.select (polling.ready time (handles.map Handle.worker)) handles).readys ≠ [] := by
  obtain ⟨worker, hworker, hready⟩ := polling.blocks time (handles.map Handle.worker)
    (by rwa [Ne, List.map_eq_nil_iff])
  obtain ⟨handle, hmem, rfl⟩ := List.mem_map.mp hworker
  exact List.ne_nil_of_mem (mem_selectLoop_readys _ _ _ _ (.inr ⟨hmem, hready⟩))

variable {S M : Type} [CommMonoid M] {job : A → M}

def results (job : A → M) (handles : List (Handle W A)) : M :=
  (handles.map fun handle => job handle.request).prod

/-- What `collect` makes of the handles that are ready. -/
theorem foldl_getResult (readys : List (Handle W A)) (acc : M) (state : State W S A) :
    readys.foldl (fun result handle =>
        ((Worker.getResult job handle result.2).1 * result.1,
          (Worker.getResult job handle result.2).2)) (acc, state) =
      (results job readys * acc,
        { state with busy := state.busy.filter fun worker => worker ∉ readys.map Handle.worker }) := by
  induction readys generalizing acc state with
  | nil => simp [results]
  | cons handle readys ih =>
    have hfilter : ∀ worker, (decide (worker ∉ readys.map Handle.worker) &&
        decide (worker ≠ handle.worker)) = decide (worker ∉ (handle :: readys).map Handle.worker) := by
      intro worker
      rw [← Bool.decide_and, decide_eq_decide, List.map_cons, List.mem_cons, not_or, and_comm]
    rw [List.foldl_cons, ih]
    simp only [Worker.getResult, results, List.map_cons, List.prod_cons, List.filter_filter]
    rw [mul_left_comm, mul_assoc, ← List.map_cons]
    simp only [hfilter]

end Collect

/-! ## 5. The invariant -/

section Invariant

variable {workers : List W} {handles : List (Handle W (List A))}
  {state : State W (Bucket.Maker A) (List A)}

/-- **The invariant of a run.** A worker is free, or runs the one job that makes it busy; and as
    long as an input is left there is a worker. -/
structure Dispatched (workers : List W) (handles : List (Handle W (List A)))
    (state : State W (Bucket.Maker A) (List A)) : Prop where
  wellFormed : state.source.WellFormed
  nodup : (workers ++ handles.map Handle.worker).Nodup
  busy : ∀ worker, worker ∈ state.busy ↔ worker ∈ handles.map Handle.worker
  alive : state.source.remaining ≠ [] → workers ++ handles.map Handle.worker ≠ []

omit [DecidableEq W] in
theorem dispatched_start {source : Bucket.Maker A} (hwf : source.WellFormed) (pool : Pool W) :
    Dispatched pool.workers [] (⟨source, [], [], 0⟩ : State W (Bucket.Maker A) (List A)) where
  wellFormed := hwf
  nodup := by rw [List.map_nil, List.append_nil]; exact pool.nodup
  busy := fun _ => Iff.rfl
  alive := fun _ h => pool.ne_nil (List.append_eq_nil_iff.mp h).1

omit [DecidableEq W] in
theorem Dispatched.done {source : Bucket.Maker A} (h : Dispatched workers handles state)
    (hwf : source.WellFormed) (hsource : source.remaining = []) :
    Dispatched [] handles { state with source } where
  wellFormed := hwf
  nodup := h.nodup.of_append_right
  busy := h.busy
  alive := fun hne => absurd hsource hne

theorem Dispatched.call {worker : W} {source : Bucket.Maker A}
    (h : Dispatched (worker :: workers) handles state) (hwf : source.WellFormed) (bucket : List A) :
    Worker.call worker bucket { state with source } = .ok (⟨worker, bucket⟩,
        ⟨source, worker :: state.busy, state.sent ++ [bucket], state.selects⟩) ∧
      Dispatched workers (⟨worker, bucket⟩ :: handles)
        ⟨source, worker :: state.busy, state.sent ++ [bucket], state.selects⟩ := by
  have hperm : (worker :: workers ++ handles.map Handle.worker).Perm
      (workers ++ worker :: handles.map Handle.worker) := List.perm_middle.symm
  have hfree : worker ∉ state.busy := by
    have hnodup := h.nodup
    rw [List.cons_append, List.nodup_cons, List.mem_append, not_or] at hnodup
    exact fun hbusy => hnodup.1.2 ((h.busy worker).mp hbusy)
  refine ⟨if_neg hfree, ⟨hwf, hperm.nodup_iff.mp h.nodup, fun x => ?_, fun _ => by simp⟩⟩
  rw [List.map_cons, List.mem_cons, List.mem_cons, h.busy]

theorem Dispatched.collect {readys waiters : List (Handle W (List A))}
    (h : Dispatched workers handles state) (selects : ℕ) (hperm : (readys ++ waiters).Perm handles) :
    Dispatched (readys.map Handle.worker ++ workers) waiters
      ⟨state.source, state.busy.filter fun worker => worker ∉ readys.map Handle.worker,
        state.sent, selects⟩ := by
  have hworkers : (readys.map Handle.worker ++ waiters.map Handle.worker).Perm
      (handles.map Handle.worker) := by
    rw [← List.map_append]
    exact hperm.map Handle.worker
  have hall : (readys.map Handle.worker ++ workers ++ waiters.map Handle.worker).Perm
      (workers ++ handles.map Handle.worker) := by
    refine (List.perm_append_comm.append_right _).trans ?_
    rw [List.append_assoc]
    exact hworkers.append_left workers
  have hnodup := hworkers.nodup_iff.mpr h.nodup.of_append_right
  refine ⟨h.wellFormed, hall.nodup_iff.mpr h.nodup, fun worker => ?_, fun hne hnil => ?_⟩
  · rw [List.mem_filter, h.busy, ← hworkers.mem_iff, List.mem_append, decide_eq_true_eq]
    constructor
    · exact fun hmem => hmem.1.resolve_left hmem.2
    · exact fun hmem => ⟨.inr hmem, fun hready => List.disjoint_of_nodup_append hnodup hready hmem⟩
  · exact h.alive hne (List.perm_nil.mp (hnil ▸ hall.symm))

end Invariant

/-! ## 6. Every run ends -/

/-- `jobs` cuts `inputs` in order, all but the last of the bucket's size. -/
structure Cuts (bucketSize : ℕ) (inputs : List A) (jobs : List (List A)) : Prop where
  flatten : jobs.flatten = inputs
  ne_nil : ∀ job ∈ jobs, job ≠ []
  length : jobs.length * bucketSize < inputs.length + bucketSize

theorem Cuts.nil {bucketSize : ℕ} (h : 1 ≤ bucketSize) : Cuts bucketSize ([] : List A) [] :=
  ⟨rfl, nofun, by rw [List.length_nil, List.length_nil, Nat.zero_mul, Nat.zero_add]; exact h⟩

theorem Cuts.cons {bucketSize : ℕ} {bucket rest inputs : List A} {jobs : List (List A)}
    (h : Cuts bucketSize rest jobs) (hne : bucket ≠ []) (happend : bucket ++ rest = inputs)
    (hsize : bucket.length = bucketSize ∨ rest = []) : Cuts bucketSize inputs (bucket :: jobs) where
  flatten := by rw [List.flatten_cons, h.flatten, happend]
  ne_nil := List.forall_mem_cons.mpr ⟨hne, h.ne_nil⟩
  length := by
    have hlength := h.length
    have hinputs := congrArg List.length happend
    have hpos := List.length_pos_iff.mpr hne
    rw [List.length_append] at hinputs
    rw [List.length_cons, Nat.succ_mul]
    rcases hsize with hsize | hrest
    · omega
    · rw [hrest, List.length_nil, Nat.zero_add] at hlength
      have hjobs : jobs.length = 0 := by
        by_contra hjobs
        have := Nat.le_mul_of_pos_left bucketSize (Nat.pos_of_ne_zero hjobs)
        omega
      rw [hjobs]
      omega

section Run

variable {M : Type} [CommMonoid M] (polling : Polling W) {map : List A → M}

/-- **A run from any state of the invariant.** The induction is on the fuel; a job costs four units,
    and a handle, once it is ready, three less the one for its worker. -/
theorem dispatch_spec (hnil : map [] = 1) (happend : ∀ xs ys, map (xs ++ ys) = map xs * map ys)
    {fuel : ℕ} {workers : List W} {handles : List (Handle W (List A))}
    {state : State W (Bucket.Maker A) (List A)} (acc : M) (h : Dispatched workers handles state)
    (hfuel : 4 * state.source.remaining.length + 3 * handles.length + workers.length < fuel) :
    ∃ state' jobs, dispatch polling map (· * ·) Bucket.next fuel state workers handles acc =
        .ok (results map handles * map state.source.remaining * acc, state') ∧
      state'.sent = state.sent ++ jobs ∧
      Cuts state.source.bucketSize state.source.remaining jobs ∧ state'.busy = [] := by
  induction fuel using Nat.strong_induction_on generalizing workers handles state acc with
  | h fuel ih =>
    obtain ⟨fuel, rfl⟩ := Nat.exists_eq_add_of_lt (Nat.zero_lt_of_lt hfuel)
    rw [Nat.zero_add] at hfuel ih ⊢
    cases workers with
    | nil =>
      cases handles with
      | nil =>
        have hremaining : state.source.remaining = [] := by
          by_contra hne
          exact h.alive hne rfl
        refine ⟨state, [], ?_, (List.append_nil _).symm, ?_, ?_⟩
        · rw [dispatch, hremaining, hnil, mul_one, results, List.map_nil, List.prod_nil, one_mul]
        · rw [hremaining]
          exact .nil h.wellFormed.bucketSize_pos
        · exact List.eq_nil_iff_forall_not_mem.mpr fun worker hmem =>
            List.not_mem_nil ((h.busy worker).mp hmem)
      | cons handle handles =>
        -- some worker is ready
        obtain ⟨fuel, rfl⟩ : ∃ fuel', fuel = fuel' + 1 :=
          Nat.exists_eq_succ_of_ne_zero (by rw [List.length_cons] at hfuel; omega)
        have hne := select_readys_ne_nil polling state.selects (List.cons_ne_nil handle handles)
        have hperm := select_perm
          (polling.ready state.selects ((handle :: handles).map Handle.worker)) (handle :: handles)
        rw [dispatch, collect]
        simp only [foldl_getResult]
        generalize Worker.select (polling.ready state.selects ((handle :: handles).map Handle.worker))
          (handle :: handles) = selected at hne hperm ⊢
        have hlength := hperm.length_eq
        have hpos := List.length_pos_iff.mpr hne
        rw [List.length_append] at hlength
        obtain ⟨state', jobs, hrun, hsent, hcuts, hbusy⟩ := ih fuel (by omega)
          (results map selected.readys * acc) (h.collect (state.selects + 1) hperm) (by
            simp only [List.length_append, List.length_map, List.length_nil] at hfuel ⊢
            omega)
        refine ⟨state', jobs, hrun.trans ?_, hsent, hcuts, hbusy⟩
        have hresults : results map (handle :: handles) =
            results map selected.readys * results map selected.waiters := by
          rw [results, ← (hperm.map _).prod_eq, List.map_append, List.prod_append, results, results]
        rw [hresults]
        simp only [mul_left_comm, mul_assoc]
    | cons worker workers =>
      have hwf := Bucket.wellFormed_next h.wellFormed
      by_cases hremaining : state.source.remaining = []
      · obtain ⟨hdone, hsource⟩ := Bucket.next_of_nil hremaining
        rcases hnext : Bucket.next state.source with ⟨bucket, source⟩
        rw [hnext] at hdone hsource hwf
        obtain rfl : bucket = .done := hdone
        obtain ⟨state', jobs, hrun, hsent, hcuts, hbusy⟩ := ih fuel (by omega) acc
          (h.done hwf hsource) (by
            rw [List.length_cons] at hfuel
            simp only [hsource, List.length_nil]
            omega)
        have hsize : source.bucketSize = state.source.bucketSize := by
          rw [← congrArg (fun next => next.2.bucketSize) hnext]
          rfl
        simp only [hsource, hsize] at hrun hcuts
        rw [dispatch]
        simp only [hnext]
        rw [hremaining]
        exact ⟨state', jobs, hrun, hsent, hcuts, hbusy⟩
      · obtain ⟨bucket, hjob, hne, hcut, hsize⟩ := Bucket.next_of_ne_nil h.wellFormed hremaining
        have hsource : (Bucket.next state.source).2.bucketSize = state.source.bucketSize := rfl
        rcases hnext : Bucket.next state.source with ⟨bucket', source⟩
        rw [hnext] at hjob hcut hsize hwf hsource
        obtain rfl : bucket' = .job bucket := hjob
        obtain ⟨hcall, hinv⟩ := h.call hwf bucket
        have hlength := congrArg List.length hcut
        have hpos := List.length_pos_iff.mpr hne
        rw [List.length_append] at hlength
        obtain ⟨state', jobs, hrun, hsent, hcuts, hbusy⟩ := ih fuel (by omega) acc hinv (by
          simp only [List.length_cons] at hfuel hlength ⊢
          omega)
        rw [dispatch]
        simp only [hnext, hcall]
        refine ⟨state', bucket :: jobs, hrun.trans ?_, ?_, ?_, hbusy⟩
        · rw [← hcut, happend, results, results, List.map_cons, List.prod_cons]
          simp only [mul_left_comm, mul_assoc]
        · rw [hsent, List.append_assoc, List.singleton_append]
        · rw [hsource] at hcuts
          exact hcuts.cons hne hcut hsize

/-- The size that `make_list` rounds up leaves at most as many jobs as were asked for. -/
theorem length_le_of_cuts {numWorkers : ℤ} {inputs : List A} {jobs : List (List A)}
    (hpos : 1 ≤ numWorkers)
    (h : Cuts (Bucket.makeList numWorkers inputs).bucketSize inputs jobs) :
    (jobs.length : ℤ) ≤ numWorkers := by
  have hdiv : 0 ≤ (inputs.length : ℤ) / numWorkers :=
    Int.ediv_nonneg (Int.natCast_nonneg _) (le_trans zero_le_one hpos)
  have hsize : ((Bucket.makeList numWorkers inputs).bucketSize : ℤ) =
      (inputs.length : ℤ) / numWorkers + 1 := by
    rw [Bucket.makeList, Int.tdiv_eq_ediv_of_nonneg (Int.natCast_nonneg _)]
    simp only
    omega
  have hlength : (jobs.length : ℤ) * ((inputs.length : ℤ) / numWorkers + 1) <
      inputs.length + ((inputs.length : ℤ) / numWorkers + 1) := by
    rw [← hsize]
    exact_mod_cast h.length
  have hlt : (inputs.length : ℤ) < ((inputs.length : ℤ) / numWorkers + 1) * numWorkers :=
    Int.lt_ediv_add_one_mul_self _ hpos
  have hmul : (jobs.length : ℤ) * ((inputs.length : ℤ) / numWorkers + 1) <
      (numWorkers + 1) * ((inputs.length : ℤ) / numWorkers + 1) := by
    calc (jobs.length : ℤ) * ((inputs.length : ℤ) / numWorkers + 1)
        < inputs.length + ((inputs.length : ℤ) / numWorkers + 1) := hlength
      _ < ((inputs.length : ℤ) / numWorkers + 1) * numWorkers +
          ((inputs.length : ℤ) / numWorkers + 1) := by omega
      _ = (numWorkers + 1) * ((inputs.length : ℤ) / numWorkers + 1) := by ring
  have := lt_of_mul_lt_mul_right hmul (by omega)
  omega

/-- **Parallel and sequential map-reduce.** In whichever order the workers become ready, the run
    ends with the sequential result. The jobs are at most as many as the chunks that the policy
    asks for, none is empty, and together they are the inputs in order. -/
theorem mapReduce_parallel (hnil : map [] = 1)
    (happend : ∀ xs ys, map (xs ++ ys) = map xs * map ys) (pool : Pool W) (policy : ℕ → ℕ → ℤ)
    (initial : M) (inputs : List A) (hpolicy : 1 ≤ policy pool.workers.length inputs.length)
    (fuel : ℕ) (hfuel : 4 * inputs.length + pool.workers.length < fuel) :
    ∃ jobs, mapReduce fuel polling (.parallel pool) policy initial map (· * ·) inputs =
        .ok (sequentialMapReduce initial map (· * ·) inputs, jobs) ∧
      jobs.flatten = inputs ∧ (∀ job ∈ jobs, job ≠ []) ∧
      (jobs.length : ℤ) ≤ policy pool.workers.length inputs.length := by
  have hwf := Bucket.wellFormed_makeList (policy pool.workers.length inputs.length) inputs
  obtain ⟨state, jobs, hrun, hsent, hcuts, -⟩ := dispatch_spec polling hnil happend initial
    (dispatched_start hwf pool) hfuel
  refine ⟨jobs, ?_, hcuts.flatten, hcuts.ne_nil, length_le_of_cuts hpolicy hcuts⟩
  rw [mapReduce, if_neg (by omega), multiThreadedCall, hrun, Except.map, hsent]
  simp only [results, List.map_nil, List.prod_nil, one_mul, List.nil_append,
    Bucket.remaining_makeList, sequentialMapReduce]

/-- Two workers, always ready, multiply four numbers in three chunks. -/
theorem mapReduce_product :
    ∃ jobs, mapReduce 19
        ⟨fun _ _ _ => true, fun _ workers h => ⟨workers.head h, List.head_mem h, rfl⟩⟩
        (.parallel ⟨Worker.loop [] 2, Worker.loop_ne_nil (by decide), Worker.nodup_loop .nil nofun⟩)
        (fun _ _ => 3) 1 List.prod (· * ·) [2, 3, 5, 7] =
        .ok (sequentialMapReduce 1 List.prod (· * ·) [2, 3, 5, 7], jobs) ∧
      jobs.flatten = [2, 3, 5, 7] ∧ (∀ job ∈ jobs, job ≠ []) ∧ (jobs.length : ℤ) ≤ 3 :=
  mapReduce_parallel _ List.prod_nil (fun _ _ => List.prod_append) _ _ 1 [2, 3, 5, 7] (by decide) 19
    (by decide)

end Run

end Scheduler

end Pysa
