/-
  Subject: THE GLOBAL FIXPOINT (`fixpointAnalysis.ml`): one pass after the other over a worklist.

  * `Table` -- the current and the old values of a table in shared memory;
  * `Analysis` -- the models and their analysis, which the functor is given;
  * `analyzeCallable`, `oneAnalysisPass` -- one target, and the targets of one worker;
  * `TopologicalOrder`, `computeCallablesToReanalyze` -- the next worklist.

  The workers of a pass run side by side. `Workers` is what a run of them leaves open: how the
  worklist is cut into chunks, and what each analysis reads of the models that other workers may
  be about to replace. The results of the analysis and the messages of the log are left out.
-/
import Pysa.Interprocedural.DependencyGraph

namespace Pysa.FixpointAnalysis

variable {T : Type} [LinearOrder T] {M V : Type}

structure Step where
  epoch : ℕ
  iteration : ℕ

namespace Epoch

def predefined : ℕ := 0

def initial : ℕ := 1

end Epoch

/-- The failures of the source; each constructor quotes its message. -/
inductive Failure (T : Type)
  /-- The assertion of `hh_move`: the old value is still there. -/
  | move (key : T)
  /-- "No initial model found for `callable`" -/
  | noInitialModel (callable : T)
  /-- "During override analysis, can't find model for `override` when analyzing `callable`" -/
  | noOverrideModel (override callable : T)
  /-- "Fixpoint inconsistency: callable analyzed during epoch, but stored metadata from epoch" -/
  | inconsistency (callable : T) (epoch stored : ℕ)
  /-- "Found object `callable` in fixpoint analysis" -/
  | object (callable : T)
  /-- "Unknown type target `callable` in fixpoint analysis" -/
  | unknownType (callable : T)
  /-- An exception of the analysis of a definition. -/
  | analysis (callable : T) (message : String)
  /-- "Re-analysis in iteration determined to analyze `callable` but it is not part of epoch" -/
  | reanalysis (step : Step) (callable : T)
  /-- `Hashtbl.find_exn` in `TopologicalOrder.sort`. -/
  | topologicalIndex
  | maximumIterations (iteration : ℕ)

/-! ## 1. Tables -/

/-- A table in shared memory. -/
structure Table (T : Type) [LinearOrder T] (V : Type) where
  new : SortedMap T V
  old : SortedMap T V

namespace Table

def empty : Table T V := ⟨.empty, .empty⟩

/-- The first write to a key wins. -/
def add (key : T) (value : V) (table : Table T V) : Table T V :=
  if (table.new.find? key).isSome then table else { table with new := table.new.add key value }

/-- The new value, else the old one. -/
def get (table : Table T V) (key : T) : Option V :=
  match table.new.find? key with
  | some value => some value
  | none => table.old.find? key

/-- Moves the new value of a key to the old values. -/
def oldify (table : Table T V) (key : T) : Except (Failure T) (Table T V) :=
  match table.new.find? key with
  | some value =>
    if (table.old.find? key).isSome then .error (.move key)
    else .ok ⟨table.new.remove key, table.old.add key value⟩
  | none => .ok { table with old := table.old.remove key }

def oldifyBatch (table : Table T V) (keys : SortedSet T) : Except (Failure T) (Table T V) :=
  keys.elements.foldlM oldify table

def removeOldBatch (table : Table T V) (keys : SortedSet T) : Table T V :=
  { table with old := keys.fold SortedMap.remove table.old }

end Table

/-- `SharedModels`: the table of the models, with the list of its keys. -/
structure SharedModels (T : Type) [LinearOrder T] (M : Type) where
  table : Table T M
  keys : List T

/-- `AddOnly.add`. -/
def SharedModels.add (models : SharedModels T M) (key : T) (value : M) : SharedModels T M :=
  ⟨models.table.add key value, key :: models.keys⟩

structure MetaData where
  isPartial : Bool
  step : Step

structure State (T : Type) [LinearOrder T] (M : Type) where
  sharedModels : SharedModels T M
  sharedFixpoint : Table T MetaData

/-! ## 2. The analysis of one target -/

/-- What the functor is given: the models and the analysis of a definition. -/
structure Analysis (T M : Type) where
  analyzeDefine (callable : T) (previousModel : M) (getCalleeModel : T → Option M) :
    Except String (M × List T)
  postprocessOverrideModel : M → M
  emptyModel : M
  initialModel : M
  obscureModel : M
  lessOrEqual (callable : T) (left right : M) : Bool
  widen (iteration : ℕ) (callable : T) (previous next : M) : M
  join (iteration : ℕ) (left right : M) : M
  forOverrideModel (callable : T) (model : M) : M
  forNewDependency (getModel : T → Option M) (target : T) : M

/-- What is asked of a target, and its overrides in the override graph. -/
structure Targets (T : Type) where
  isFunctionOrMethod : T → Bool
  isObject : T → Bool
  isOverride : T → Bool
  correspondingMethod : T → T
  overrideTargets : T → Option (List T)
  shouldSkipAnalysis : T → Bool

/-- One round of `List.reduce_balanced`. -/
def pairUp {α : Type} (f : α → α → α) : List α → List α
  | a :: b :: rest => f a b :: pairUp f rest
  | rest => rest

/-- `Algorithms.fold_balanced`. -/
def foldBalanced {α : Type} (list : List α) (f : α → α → α) (init : α) : α :=
  (((pairUp f)^[list.length] (init :: list)).head?).getD init

/-- `iteration_callable_result`, without the result of the analysis. -/
structure CallableResult (T : Type) [LinearOrder T] (M : Type) where
  /-- Whether to reanalyze this and its callers. -/
  isPartial : Bool
  model : M
  additionalDependencies : TargetGraph T

variable (A : Analysis T M) (targets : Targets T)

def widenIfNecessary (step : Step) (callable : T) (previousModel newModel : M)
    (additionalDependencies : TargetGraph T) : CallableResult T M :=
  if A.lessOrEqual callable newModel previousModel then
    ⟨false, previousModel, additionalDependencies⟩
  else ⟨true, A.widen step.iteration callable previousModel newModel, additionalDependencies⟩

/-- `getModel` is what `State.get_model` answers while the other workers run. -/
def analyzeDefine (step : Step) (old : SortedMap T M) (getModel : T → Option M) (callable : T) :
    Except (Failure T) (CallableResult T M) :=
  match old.find? callable with
  | none => .error (.noInitialModel callable)
  | some previousModel =>
    match A.analyzeDefine callable previousModel getModel with
    | .error message => .error (.analysis callable message)
    | .ok (newModel, callees) =>
      .ok (widenIfNecessary A step callable previousModel newModel
        (callees.foldl (fun soFar callee => DependencyGraph.add callee callable soFar) .empty))

/-- The model of one override. -/
def lookupOverride (getModel : T → Option M) (callable override : T) : Except (Failure T) M :=
  match getModel override with
  | none => .error (.noOverrideModel override callable)
  | some model => .ok (A.forOverrideModel override model)

def analyzeOverrides (step : Step) (old : SortedMap T M) (getModel : T → Option M) (callable : T) :
    Except (Failure T) (CallableResult T M) :=
  let directCallable := targets.correspondingMethod callable
  let overrides := (targets.overrideTargets directCallable).getD []
  let directModel :=
    A.forOverrideModel directCallable ((getModel directCallable).getD A.emptyModel)
  match overrides.mapM (lookupOverride A getModel callable) with
  | .error failure => .error failure
  | .ok models =>
    let newModel :=
      A.postprocessOverrideModel (foldBalanced models (A.join step.iteration) directModel)
    match old.find? callable with
    | none => .error (.noInitialModel callable)
    | some previousModel => .ok (widenIfNecessary A step callable previousModel newModel .empty)

/-- The analysis of a target by its kind. -/
def analyzeTarget (step : Step) (old : SortedMap T M) (getModel : T → Option M) (callable : T) :
    Except (Failure T) (CallableResult T M) :=
  if targets.isFunctionOrMethod callable then analyzeDefine A step old getModel callable
  else if targets.isObject callable then .error (.object callable)
  else if targets.isOverride callable then analyzeOverrides A targets step old getModel callable
  else .error (.unknownType callable)

/-- The metadata of a target that is analysed is of the epoch of the step. -/
def verifyInvariants (step : Step) (sharedFixpoint : Table T MetaData) (callable : T) :
    Except (Failure T) Unit :=
  match sharedFixpoint.get callable with
  | none => .ok ()
  | some metaData =>
    if metaData.step.epoch ≠ step.epoch then
      .error (.inconsistency callable step.epoch metaData.step.epoch)
    else .ok ()

def analyzeCallable (step : Step) (state : State T M) (getModel : T → Option M) (callable : T) :
    Except (Failure T) (CallableResult T M) :=
  match verifyInvariants step state.sharedFixpoint callable with
  | .error failure => .error failure
  | .ok () => analyzeTarget A targets step state.sharedModels.table.old getModel callable

/-- `PreserveKeyOnly.set_new` for the model, and the metadata of the callable. -/
def setCallableResult (step : Step) (callable : T) (result : CallableResult T M)
    (state : State T M) : State T M where
  sharedModels :=
    { state.sharedModels with table := state.sharedModels.table.add callable result.model }
  sharedFixpoint := state.sharedFixpoint.add callable ⟨result.isPartial, step⟩

/-! ## 3. One pass -/

/-- `iteration_result`, without the counts and the expensive callables. -/
structure IterationResult (T : Type) [LinearOrder T] where
  additionalDependencies : TargetGraph T
  /-- Callables whose result changed and need re-analysis along with their callers. -/
  partialCallables : List T

/-- One target of a worker. -/
def passTarget (step : Step) (reads : T → T → Option M) (acc : State T M × IterationResult T)
    (callable : T) : Except (Failure T) (State T M × IterationResult T) :=
  match analyzeCallable A targets step acc.1 (reads callable) callable with
  | .error failure => .error failure
  | .ok result =>
    .ok (setCallableResult step callable result acc.1,
      { additionalDependencies :=
          DependencyGraph.merge result.additionalDependencies acc.2.additionalDependencies
        partialCallables :=
          if result.isPartial then callable :: acc.2.partialCallables
          else acc.2.partialCallables })

def oneAnalysisPass (step : Step) (reads : T → T → Option M) (state : State T M)
    (callables : List T) : Except (Failure T) (State T M × IterationResult T) :=
  callables.foldlM (passTarget A targets step reads) (state, ⟨.empty, []⟩)

def reduce (left right : IterationResult T) : IterationResult T where
  additionalDependencies :=
    DependencyGraph.merge left.additionalDependencies right.additionalDependencies
  partialCallables := left.partialCallables.reverse ++ right.partialCallables

/-- `Scheduler.map_reduce` of the passes over the chunks. -/
def mapReduce (step : Step) (reads : T → T → Option M) (state : State T M)
    (chunks : List (List T)) : Except (Failure T) (State T M × IterationResult T) :=
  chunks.foldlM
    (fun acc chunk => do
      let (state, result) ← oneAnalysisPass A targets step reads acc.1 chunk
      return (state, reduce result acc.2))
    (state, ⟨.empty, []⟩)

/-! ## 4. The next worklist -/

structure TopologicalOrder (T : Type) [LinearOrder T] where
  hashMap : SortedMap T ℕ
  nextIndex : ℕ

namespace TopologicalOrder

def create (topologicalOrder : List T) : TopologicalOrder T where
  hashMap := topologicalOrder.zipIdx.foldl (fun map entry => map.add entry.1 entry.2) .empty
  nextIndex := topologicalOrder.length

def mem (order : TopologicalOrder T) (target : T) : Bool := (order.hashMap.find? target).isSome

def registerTarget (order : TopologicalOrder T) (target : T) : TopologicalOrder T where
  hashMap := order.hashMap.add target order.nextIndex
  nextIndex := order.nextIndex + 1

def register (order : TopologicalOrder T) (targets : List T) : TopologicalOrder T :=
  targets.foldl registerTarget order

/-- The index of a target that is looked up without `find_exn`. -/
def index (order : TopologicalOrder T) (target : T) : ℕ := (order.hashMap.find? target).getD 0

/-- `sort`. Each target of a list of two or more is compared, and looked up by `find_exn`. -/
def sort (order : TopologicalOrder T) (targets : List T) : Except (Failure T) (List T) :=
  if 2 ≤ targets.length && !targets.all order.mem then .error .topologicalIndex
  else .ok (targets.mergeSort fun a b => order.index a ≤ order.index b)

end TopologicalOrder

/-- The callables that have changed, and their callers. -/
def mightChangeIfReanalyzed (dependencyGraph : TargetGraph T) (partialCallables : List T) :
    SortedSet T :=
  partialCallables.foldl
    (fun accumulator callable =>
      (DependencyGraph.dependencies dependencyGraph callable).foldl
        (fun accumulator caller => accumulator.add caller) (accumulator.add callable))
    .empty

/-- A callable that might change and is unknown has no metadata, or predefined one. -/
def checkMissing (step : Step) (sharedFixpoint : Table T MetaData) (callable : T) :
    Except (Failure T) Unit :=
  match sharedFixpoint.get callable with
  | none => .ok ()
  | some metaData =>
    if metaData.step.epoch = Epoch.predefined then .ok () else .error (.reanalysis step callable)

def computeCallablesToReanalyze (sharedFixpoint : Table T MetaData)
    (dependencyGraph : TargetGraph T) (allCallables : TopologicalOrder T)
    (partialCallables : List T) (step : Step) : Except (Failure T) (List T) :=
  let mightChange := mightChangeIfReanalyzed dependencyGraph partialCallables
  let toReanalyze := mightChange.filter allCallables.mem
  match allCallables.sort toReanalyze.elements with
  | .error failure => .error failure
  | .ok callables =>
    if toReanalyze.elements.length ≠ mightChange.elements.length then
      match (mightChange.diff toReanalyze).elements.forM (checkMissing step sharedFixpoint) with
      | .error failure => .error failure
      | .ok _ => .ok callables
    else .ok callables

/-- The models of the targets that are discovered. `reads` is what `get_model` answers. -/
def initializeNewDependencies (reads : T → T → Option M) (step : Step) (state : State T M)
    (newCallables : List T) : State T M :=
  (newCallables.filter fun target => decide (target ∉ state.sharedModels.keys)).foldl
    (fun state target =>
      { sharedModels := state.sharedModels.add target (A.forNewDependency (reads target) target)
        sharedFixpoint := state.sharedFixpoint.add target ⟨false, step⟩ })
    state

/-- The targets of the additional dependencies that are not known and not skipped. -/
def newCallables (additionalDependencies : TargetGraph T) (allCallables : TopologicalOrder T) :
    List T :=
  if additionalDependencies.isEmpty then []
  else
    (additionalDependencies.keys.filter fun target => !allCallables.mem target).filter
      fun target => !targets.shouldSkipAnalysis target

/-! ## 5. The loop -/

/-- What a run of the workers leaves open in an iteration. -/
structure Workers (T M : Type) where
  chunks : List T → List (List T)
  chunks_perm : ∀ callables, (chunks callables).flatten.Perm callables
  /-- What the analysis of one target reads of the model of another. -/
  reads : T → T → Option M
  readsNew : T → T → Option M

/-- The arguments of `iterate`. -/
structure Progress (T : Type) [LinearOrder T] (M : Type) where
  iteration : ℕ
  dependencyGraph : TargetGraph T
  allCallables : TopologicalOrder T
  state : State T M
  callablesToAnalyze : List T

variable (epoch : ℕ)

def oldify (state : State T M) (callables : List T) : Except (Failure T) (State T M) :=
  let callableSet := SortedSet.ofList callables
  match state.sharedModels.table.oldifyBatch callableSet with
  | .error failure => .error failure
  | .ok table =>
    match state.sharedFixpoint.oldifyBatch callableSet with
    | .error failure => .error failure
    | .ok sharedFixpoint => .ok ⟨{ state.sharedModels with table := table }, sharedFixpoint⟩

def removeOld (state : State T M) (callables : List T) : State T M :=
  let callableSet := SortedSet.ofList callables
  ⟨{ state.sharedModels with table := state.sharedModels.table.removeOldBatch callableSet },
    state.sharedFixpoint.removeOldBatch callableSet⟩

/-- One iteration of the loop, over a worklist that is not empty. -/
def iterateOnce (workers : Workers T M) (p : Progress T M) : Except (Failure T) (Progress T M) := do
  let step : Step := ⟨epoch, p.iteration⟩
  let state ← oldify p.state p.callablesToAnalyze
  let (state, result) ←
    mapReduce A targets step workers.reads state (workers.chunks p.callablesToAnalyze)
  let state := removeOld state p.callablesToAnalyze
  let callablesToAnalyze ← computeCallablesToReanalyze state.sharedFixpoint p.dependencyGraph
    p.allCallables result.partialCallables step
  let newCallables := newCallables targets result.additionalDependencies p.allCallables
  let state := initializeNewDependencies A workers.readsNew step state newCallables
  return {
    iteration := p.iteration + 1
    dependencyGraph := DependencyGraph.merge p.dependencyGraph result.additionalDependencies
    allCallables := p.allCallables.register newCallables
    state := state
    callablesToAnalyze := newCallables.reverse ++ callablesToAnalyze }

/-- `iterate`, with the number of iterations that are left. -/
def iterate (workers : ℕ → Workers T M) (errorOnMaxIterations : Bool) :
    ℕ → Progress T M → Except (Failure T) (Progress T M)
  | remaining, p =>
    if p.callablesToAnalyze.length = 0 then .ok p
    else
      match remaining with
      | 0 => if errorOnMaxIterations then .error (.maximumIterations p.iteration) else .ok p
      | remaining + 1 =>
        match iterateOnce A targets epoch (workers p.iteration) p with
        | .error failure => .error failure
        | .ok next => iterate workers errorOnMaxIterations remaining next

/-- The start of `compute`. -/
def start (dependencyGraph : TargetGraph T) (state : State T M)
    (initialCallablesToAnalyze : List T) : Progress T M :=
  let callables :=
    initialCallablesToAnalyze.filter fun target => !targets.shouldSkipAnalysis target
  ⟨0, dependencyGraph, .create callables, state, callables⟩

def compute (workers : ℕ → Workers T M) (maxIterations : ℕ) (errorOnMaxIterations : Bool)
    (dependencyGraph : TargetGraph T) (state : State T M) (callablesToAnalyze : List T) :
    Except (Failure T) (Progress T M) :=
  iterate A targets epoch workers errorOnMaxIterations maxIterations
    (start targets dependencyGraph state callablesToAnalyze)

/-- Adds one model for the targets that have none. -/
def addModelsForTargets (model : M) (state : State T M) (list : List T) : State T M :=
  (list.filter fun target => decide (target ∉ state.sharedModels.keys)).foldl
    (fun state target =>
      { sharedModels := state.sharedModels.add target model
        sharedFixpoint := state.sharedFixpoint.add target ⟨false, ⟨Epoch.initial, 0⟩⟩ })
    state

/-- The tables before the first iteration. -/
def recordInitialModels (initialModels : SharedModels T M)
    (callablesToAnalyze stubs overrideTargets : List T) : State T M :=
  let sharedFixpoint := initialModels.keys.foldl
    (fun table target => table.add target ⟨false, ⟨Epoch.initial, 0⟩⟩) .empty
  let state : State T M := ⟨initialModels, sharedFixpoint⟩
  let state := addModelsForTargets A.initialModel state callablesToAnalyze
  let state := addModelsForTargets A.obscureModel state stubs
  addModelsForTargets A.emptyModel state overrideTargets

end Pysa.FixpointAnalysis
