/-
  Subject: THE WORKLIST OF THE GLOBAL FIXPOINT, from any state that a run reaches.

  * `Ends` -- a computation that may fail: what its result is like, and that a failure is none of
    those that the invariant excludes;
  * `Table.oldifyBatch_spec`, `Passed` -- what oldifying and a pass do to the tables;
  * `Inv` -- the invariant between two iterations: the worklist is known, a known callable and a
    key of the table have a model, and there are no old values;
  * `iterateOnce_spec` -- one iteration keeps it, and says what the next worklist is;
  * `worklist_sound` -- **the next worklist is what may have changed and what is new, each once,
    and every callable of it has an old model when it is analysed.**
-/
import Pysa.Interprocedural.FixpointAnalysis

namespace Pysa.FixpointAnalysis

variable {T α β : Type}

/-! ## 1. Computations that may fail -/

/-- The failures that a run may end with. -/
def Failure.Possible : Failure T → Prop
  | .move _ => False
  | .noInitialModel _ => False
  | .topologicalIndex => False
  | _ => True

/-- The result has the property, or the failure is a possible one. -/
def Ends (x : Except (Failure T) α) (P : α → Prop) : Prop :=
  match x with
  | .ok a => P a
  | .error failure => failure.Possible

theorem Ends.bind {x : Except (Failure T) α} {f : α → Except (Failure T) β} {P : α → Prop}
    {Q : β → Prop} (hx : Ends x P) (hf : ∀ a, P a → Ends (f a) Q) : Ends (x >>= f) Q := by
  cases x with
  | error failure => exact hx
  | ok a => exact hf a hx

theorem Ends.mono {x : Except (Failure T) α} {P Q : α → Prop} (hx : Ends x P)
    (h : ∀ a, P a → Q a) : Ends x Q := by
  cases x with
  | error failure => exact hx
  | ok a => exact h a hx

/-- The rule for a fold: `P` relates the elements that were seen to the state. -/
theorem Ends.foldlM {f : α → β → Except (Failure T) α} {P : List β → α → Prop} {list : List β}
    (hf : ∀ seen b a, b ∈ list → P seen a → Ends (f a b) (P (seen ++ [b]))) {init : α}
    (hinit : P [] init) : Ends (list.foldlM f init) (P list) := by
  have key (seen rest : List β) (hrest : ∀ b ∈ rest, b ∈ list) (a : α) (ha : P seen a) :
      Ends (rest.foldlM f a) (P (seen ++ rest)) := by
    induction rest generalizing seen a with
    | nil =>
      rw [List.append_nil]
      exact ha
    | cons b rest ih =>
      rw [List.foldlM_cons, List.append_cons]
      exact (hf seen b a (hrest b List.mem_cons_self) ha).bind fun a' ha' =>
        ih (seen ++ [b]) (fun b' hb' => hrest b' (List.mem_cons_of_mem _ hb')) a' ha'
  exact key [] list (fun _ => id) init hinit

/-! ## 2. The tables -/

variable [LinearOrder T] {M V : Type}

namespace Table

variable {table : Table T V} {x key : T}

theorem add_old (key : T) (value : V) (table : Table T V) : (table.add key value).old = table.old := by
  unfold add
  split <;> rfl

theorem isSome_add (key : T) (value : V) (table : Table T V) :
    ((table.add key value).new.find? x).isSome = true ↔
      x = key ∨ (table.new.find? x).isSome = true := by
  unfold add
  split
  · rename_i hkey
    refine (or_iff_right_of_imp fun hx => ?_).symm
    rw [hx]
    exact hkey
  · rw [SortedMap.find?_add]
    by_cases hx : x = key
    · simp [hx]
    · simp [hx]

/-- The keys of the batch lose their new value, and have it as their old one. -/
theorem oldifyBatch_spec (keys : SortedSet T) (hold : ∀ x, table.old.find? x = none) :
    ∃ table', table.oldifyBatch keys = .ok table' ∧
      ∀ x, table'.new.find? x = (if x ∈ keys then none else table.new.find? x) ∧
        table'.old.find? x = if x ∈ keys then table.new.find? x else none := by
  have key (elements : List T) (hnodup : elements.Nodup) (table : Table T V)
      (hold : ∀ x ∈ elements, table.old.find? x = none) :
      ∃ table', elements.foldlM oldify table = .ok table' ∧
        ∀ x, table'.new.find? x = (if x ∈ elements then none else table.new.find? x) ∧
          table'.old.find? x = if x ∈ elements then table.new.find? x else table.old.find? x := by
    induction elements generalizing table with
    | nil => exact ⟨table, rfl, fun x => by simp⟩
    | cons first rest ih =>
      rw [List.nodup_cons] at hnodup
      obtain ⟨next, hnext, hnew, hold'⟩ : ∃ next, oldify table first = .ok next ∧
          (∀ x, next.new.find? x = if x = first then none else table.new.find? x) ∧
          ∀ x, next.old.find? x =
            if x = first then table.new.find? first else table.old.find? x := by
        unfold oldify
        have hfree := hold first List.mem_cons_self
        cases hvalue : table.new.find? first with
        | none =>
          refine ⟨_, rfl, fun x => ?_, fun x => SortedMap.find?_remove first x _⟩
          by_cases hx : x = first
          · rw [if_pos hx, hx]
            exact hvalue
          · rw [if_neg hx]
        | some value =>
          dsimp only
          rw [hfree, if_neg (by simp)]
          exact ⟨_, rfl, fun x => SortedMap.find?_remove first x _,
            fun x => SortedMap.find?_add first x value _⟩
      have hrest (x : T) (hx : x ∈ rest) : x ≠ first := fun heq => hnodup.1 (heq ▸ hx)
      obtain ⟨table', htable', hspec⟩ := ih hnodup.2 next fun x hx => by
        rw [hold', if_neg (hrest x hx)]
        exact hold x (List.mem_cons_of_mem _ hx)
      refine ⟨table', ?_, fun x => ?_⟩
      · rw [List.foldlM_cons, hnext]
        exact htable'
      · obtain ⟨hx, hx'⟩ := hspec x
        rw [hx, hx', hnew, hold']
        by_cases hfirst : x = first
        · subst hfirst
          simp [hnodup.1]
        · simp [hfirst]
  obtain ⟨table', htable', hspec⟩ := key keys.elements keys.nodup table fun x _ => hold x
  refine ⟨table', htable', fun x => ?_⟩
  obtain ⟨hnew, hold'⟩ := hspec x
  rw [hold x] at hold'
  exact ⟨hnew, hold'⟩

theorem removeOldBatch_old (keys : SortedSet T) (x : T) :
    (table.removeOldBatch keys).old.find? x = if x ∈ keys then none else table.old.find? x := by
  have key (elements : List T) (map : SortedMap T V) :
      (elements.foldl (fun map k => SortedMap.remove k map) map).find? x =
        if x ∈ elements then none else map.find? x := by
    induction elements generalizing map with
    | nil => simp
    | cons first rest ih =>
      rw [List.foldl_cons, ih, SortedMap.find?_remove]
      by_cases hfirst : x = first
      · simp [hfirst]
      · simp [hfirst]
  exact key keys.elements table.old

end Table

/-! ## 3. One pass -/

theorem mem_keys_merge {left right : TargetGraph T} {x : T} :
    x ∈ (DependencyGraph.merge left right).keys ↔ x ∈ left.keys ∨ x ∈ right.keys := by
  unfold DependencyGraph.merge
  rw [← SortedMap.isSome_find?, SortedMap.find?_union, ← SortedMap.isSome_find?,
    ← SortedMap.isSome_find? (m := right)]
  cases left.find? x <;> cases right.find? x <;> simp

variable {A : Analysis T M} {targets : Targets T} {step : Step} {old : SortedMap T M}
  {reads : T → T → Option M} {state state' : State T M} {result result' : IterationResult T}
  {callables callables' : List T}

/-- The analysis of `callable` in a pass gives `r`. -/
def Analysed (A : Analysis T M) (targets : Targets T) (step : Step) (old : SortedMap T M)
    (reads : T → T → Option M) (callable : T) (r : CallableResult T M) : Prop :=
  analyzeTarget A targets step old (reads callable) callable = .ok r

/-- The new model of `callable` is not below its old one. -/
def Changed (A : Analysis T M) (targets : Targets T) (step : Step) (old : SortedMap T M)
    (reads : T → T → Option M) (callable : T) : Prop :=
  ∃ r, Analysed A targets step old reads callable r ∧ r.isPartial = true

/-- The analysis of `callable` finds that it calls `callee`. -/
def Discovers (A : Analysis T M) (targets : Targets T) (step : Step) (old : SortedMap T M)
    (reads : T → T → Option M) (callable callee : T) : Prop :=
  ∃ r, Analysed A targets step old reads callable r ∧ callee ∈ r.additionalDependencies.keys

/-- With an old model the analysis of a target does not fail for want of one. -/
theorem analyzeTarget_ends (callable : T) (hold : (old.find? callable).isSome = true) :
    Ends (analyzeTarget A targets step old (reads callable) callable)
      (Analysed A targets step old reads callable) := by
  obtain ⟨previousModel, hprevious⟩ := Option.isSome_iff_exists.mp hold
  have hends : Ends (analyzeTarget A targets step old (reads callable) callable) fun _ => True := by
    unfold analyzeTarget
    split
    · unfold analyzeDefine
      rw [hprevious]
      dsimp only
      cases A.analyzeDefine callable previousModel (reads callable) <;> exact trivial
    · split
      · exact trivial
      · split
        · unfold analyzeOverrides
          dsimp only
          rw [hprevious]
          have hmodels : Ends (((targets.overrideTargets (targets.correspondingMethod callable)).getD
              []).mapM (lookupOverride A (reads callable) callable)) fun _ => True := by
            generalize (targets.overrideTargets (targets.correspondingMethod callable)).getD [] = l
            induction l with
            | nil => exact trivial
            | cons override rest ih =>
              rw [List.mapM_cons]
              refine Ends.bind (P := fun _ => True) ?_ fun _ _ =>
                Ends.bind ih fun _ _ => trivial
              unfold lookupOverride
              cases reads callable override <;> exact trivial
          cases hmapM : ((targets.overrideTargets (targets.correspondingMethod callable)).getD
              []).mapM (lookupOverride A (reads callable) callable) with
          | error failure =>
            rw [hmapM] at hmodels
            exact hmodels
          | ok models => exact trivial
        · exact trivial
  unfold Analysed
  cases h : analyzeTarget A targets step old (reads callable) callable with
  | error failure =>
    rw [h] at hends
    exact hends
  | ok r => rfl

/-- What the analysis of `callables` does to the state and to the result. -/
structure Passed (A : Analysis T M) (targets : Targets T) (step : Step) (reads : T → T → Option M)
    (callables : List T) (state state' : State T M) (result result' : IterationResult T) : Prop where
  oldModels : state'.sharedModels.table.old = state.sharedModels.table.old
  oldFixpoint : state'.sharedFixpoint.old = state.sharedFixpoint.old
  keys : state'.sharedModels.keys = state.sharedModels.keys
  newModels : ∀ x, (state'.sharedModels.table.new.find? x).isSome = true ↔
    x ∈ callables ∨ (state.sharedModels.table.new.find? x).isSome = true
  changed : ∀ x, x ∈ result'.partialCallables ↔ x ∈ result.partialCallables ∨
    x ∈ callables ∧ Changed A targets step state.sharedModels.table.old reads x
  discovered : ∀ y, y ∈ result'.additionalDependencies.keys ↔
    y ∈ result.additionalDependencies.keys ∨
      ∃ x ∈ callables, Discovers A targets step state.sharedModels.table.old reads x y

theorem Passed.nil : Passed A targets step reads [] state state result result := by
  constructor <;> simp

theorem Passed.append {state'' : State T M} {result'' : IterationResult T}
    (h : Passed A targets step reads callables state state' result result')
    (h' : Passed A targets step reads callables' state' state'' result' result'') :
    Passed A targets step reads (callables ++ callables') state state'' result result'' where
  oldModels := h'.oldModels.trans h.oldModels
  oldFixpoint := h'.oldFixpoint.trans h.oldFixpoint
  keys := h'.keys.trans h.keys
  newModels := fun x => by
    rw [h'.newModels, h.newModels, List.mem_append]
    tauto
  changed := fun x => by
    rw [h'.changed, h.changed, h.oldModels, List.mem_append]
    tauto
  discovered := fun y => by
    rw [h'.discovered, h.discovered, h.oldModels, or_assoc, ← exists_or]
    refine or_congr Iff.rfl (exists_congr fun x => ?_)
    rw [List.mem_append]
    tauto

/-- One target of a worker. -/
theorem passTarget_ends (callable : T)
    (hold : (state.sharedModels.table.old.find? callable).isSome = true) :
    Ends (passTarget A targets step reads (state, result) callable) fun next =>
      Passed A targets step reads [callable] state next.1 result next.2 := by
  have hanalyze : Ends (analyzeCallable A targets step state (reads callable) callable)
      (Analysed A targets step state.sharedModels.table.old reads callable) := by
    unfold analyzeCallable verifyInvariants
    cases state.sharedFixpoint.get callable with
    | none => exact analyzeTarget_ends callable hold
    | some metaData =>
      dsimp only
      split
      · rename_i h
        split at h
        · cases h
          exact trivial
        · cases h
      · exact analyzeTarget_ends callable hold
  unfold passTarget
  cases h : analyzeCallable A targets step state (reads callable) callable with
  | error failure =>
    rw [h] at hanalyze
    exact hanalyze
  | ok r =>
    rw [h] at hanalyze
    have hunique {r' : CallableResult T M}
        (h' : Analysed A targets step state.sharedModels.table.old reads callable r') : r' = r :=
      Except.ok.inj (h'.symm.trans hanalyze)
    have hchanged :
        Changed A targets step state.sharedModels.table.old reads callable ↔ r.isPartial = true :=
      ⟨fun ⟨r', h', hpartial⟩ => hunique h' ▸ hpartial, fun hpartial => ⟨r, hanalyze, hpartial⟩⟩
    have hdiscovers (y : T) :
        Discovers A targets step state.sharedModels.table.old reads callable y ↔
          y ∈ r.additionalDependencies.keys :=
      ⟨fun ⟨r', h', hy⟩ => hunique h' ▸ hy, fun hy => ⟨r, hanalyze, hy⟩⟩
    refine ⟨Table.add_old _ _ _, Table.add_old _ _ _, rfl, fun x => ?_, fun x => ?_, fun y => ?_⟩
    · rw [List.mem_singleton]
      exact Table.isSome_add _ _ _
    · dsimp only
      rw [List.mem_singleton]
      split
      · rename_i hpartial
        rw [List.mem_cons]
        constructor
        · rintro (rfl | hx)
          · exact Or.inr ⟨rfl, hchanged.mpr hpartial⟩
          · exact Or.inl hx
        · exact fun hx => hx.symm.imp And.left id
      · rename_i hpartial
        refine (or_iff_left ?_).symm
        rintro ⟨rfl, hx⟩
        exact hpartial (hchanged.mp hx)
    · dsimp only
      rw [mem_keys_merge, or_comm]
      refine or_congr Iff.rfl ?_
      simp [hdiscovers]

theorem oneAnalysisPass_ends
    (hold : ∀ x ∈ callables, (state.sharedModels.table.old.find? x).isSome = true) :
    Ends (oneAnalysisPass A targets step reads state callables) fun next =>
      Passed A targets step reads callables state next.1 ⟨.empty, []⟩ next.2 := by
  refine Ends.foldlM (P := fun seen (next : State T M × IterationResult T) =>
    Passed A targets step reads seen state next.1 ⟨.empty, []⟩ next.2) ?_ .nil
  intro seen callable acc hcallable hseen
  refine (passTarget_ends callable ?_).mono fun next hnext => hseen.append hnext
  rw [hseen.oldModels]
  exact hold callable hcallable

theorem mapReduce_ends {chunks : List (List T)}
    (hold : ∀ x ∈ chunks.flatten, (state.sharedModels.table.old.find? x).isSome = true) :
    Ends (mapReduce A targets step reads state chunks) fun next =>
      Passed A targets step reads chunks.flatten state next.1 ⟨.empty, []⟩ next.2 := by
  refine Ends.foldlM (P := fun seen (next : State T M × IterationResult T) =>
    Passed A targets step reads seen.flatten state next.1 ⟨.empty, []⟩ next.2) ?_ .nil
  intro seen chunk acc hchunk hseen
  have hpass : Ends (oneAnalysisPass A targets step reads acc.1 chunk) fun next =>
      Passed A targets step reads chunk acc.1 next.1 ⟨.empty, []⟩ next.2 := by
    refine oneAnalysisPass_ends fun x hx => ?_
    rw [hseen.oldModels]
    exact hold x (List.mem_flatten.mpr ⟨chunk, hchunk, hx⟩)
  refine hpass.bind fun next hnext => ?_
  · -- the result of the chunk is merged into what the others gave
    have hmerged : Passed A targets step reads chunk acc.1 next.1 acc.2 (reduce next.2 acc.2) := by
      refine ⟨hnext.oldModels, hnext.oldFixpoint, hnext.keys, hnext.newModels, fun x => ?_,
        fun y => ?_⟩
      · unfold reduce
        dsimp only
        rw [List.mem_append, List.mem_reverse, hnext.changed, or_comm]
        exact or_congr Iff.rfl (or_iff_right List.not_mem_nil)
      · unfold reduce
        dsimp only
        rw [mem_keys_merge, hnext.discovered, or_comm]
        exact or_congr Iff.rfl (or_iff_right List.not_mem_nil)
    show Passed A targets step reads (seen ++ [chunk]).flatten state next.1 _ _
    rw [List.flatten_append, List.flatten_singleton]
    exact hseen.append hmerged

/-! ## 4. The next worklist -/

namespace TopologicalOrder

variable {order : TopologicalOrder T} {x : T}

theorem mem_register (list : List T) : (order.register list).mem x = true ↔
    order.mem x = true ∨ x ∈ list := by
  unfold register
  induction list generalizing order with
  | nil => simp
  | cons first rest ih =>
    have hfirst : (order.registerTarget first).mem x = true ↔ order.mem x = true ∨ x = first := by
      unfold mem registerTarget
      dsimp only
      rw [SortedMap.find?_add]
      by_cases hx : x = first <;> simp [hx]
    rw [List.foldl_cons, ih, hfirst, List.mem_cons, or_assoc]

theorem mem_create (list : List T) : (create list).mem x = true ↔ x ∈ list := by
  have key (entries : List (T × ℕ)) (map : SortedMap T ℕ) :
      ((entries.foldl (fun map entry => map.add entry.1 entry.2) map).find? x).isSome = true ↔
        (map.find? x).isSome = true ∨ x ∈ entries.map (·.1) := by
    induction entries generalizing map with
    | nil => simp
    | cons first rest ih =>
      rw [List.foldl_cons, ih, SortedMap.find?_add, List.map_cons, List.mem_cons]
      by_cases hx : x = first.1 <;> simp [hx]
  refine (key list.zipIdx .empty).trans ?_
  rw [List.zipIdx_map_fst, SortedMap.find?_empty]
  exact or_iff_right Bool.false_ne_true

/-- Sorting known targets does not fail. -/
theorem sort_ends {list : List T} (h : ∀ x ∈ list, order.mem x = true) :
    Ends (order.sort list) fun sorted => sorted.Perm list := by
  unfold sort
  have hall : list.all order.mem = true := List.all_eq_true.mpr h
  rw [hall, Bool.not_true, Bool.and_false, if_neg Bool.false_ne_true]
  exact List.mergeSort_perm _ _

end TopologicalOrder

theorem mem_mightChange {dependencyGraph : TargetGraph T} {partialCallables : List T} {x : T} :
    x ∈ mightChangeIfReanalyzed dependencyGraph partialCallables ↔
      ∃ p ∈ partialCallables, x = p ∨ x ∈ DependencyGraph.dependencies dependencyGraph p := by
  have key (list : List T) (set : SortedSet T) :
      x ∈ list.foldl (fun accumulator callable =>
        (DependencyGraph.dependencies dependencyGraph callable).foldl
          (fun accumulator caller => accumulator.add caller) (accumulator.add callable)) set ↔
        x ∈ set ∨ ∃ p ∈ list, x = p ∨ x ∈ DependencyGraph.dependencies dependencyGraph p := by
    induction list generalizing set with
    | nil => simp
    | cons first rest ih =>
      have hcallers : x ∈ (DependencyGraph.dependencies dependencyGraph first).foldl
          (fun accumulator caller => accumulator.add caller) (set.add first) ↔
          (x = first ∨ x ∈ DependencyGraph.dependencies dependencyGraph first) ∨ x ∈ set := by
        refine SortedSet.mem_addAll.trans ?_
        rw [SortedSet.mem_add]
        tauto
      rw [List.foldl_cons, ih, hcallers]
      simp only [List.mem_cons, exists_eq_or_imp]
      exact or_assoc.trans or_left_comm
  exact (key partialCallables .empty).trans (or_iff_right (SortedSet.notMem_empty x))

/-- The callables to reanalyze are the known ones that might change, each once. -/
theorem computeCallablesToReanalyze_ends (sharedFixpoint : Table T MetaData)
    (dependencyGraph : TargetGraph T) (order : TopologicalOrder T) (partialCallables : List T)
    (step : Step) :
    Ends (computeCallablesToReanalyze sharedFixpoint dependencyGraph order partialCallables step)
      fun next => next.Nodup ∧ ∀ x, x ∈ next ↔ order.mem x = true ∧
        ∃ p ∈ partialCallables, x = p ∨ x ∈ DependencyGraph.dependencies dependencyGraph p := by
  have hmem (x : T) : x ∈ (mightChangeIfReanalyzed dependencyGraph partialCallables).filter
      order.mem ↔ order.mem x = true ∧
        ∃ p ∈ partialCallables, x = p ∨ x ∈ DependencyGraph.dependencies dependencyGraph p := by
    rw [SortedSet.mem_filter, mem_mightChange, and_comm]
  have hsort := TopologicalOrder.sort_ends fun x hx => ((hmem x).mp hx).1
  have hmissing (elements : List T) :
      Ends (elements.forM (checkMissing step sharedFixpoint)) fun _ => True := by
    induction elements with
    | nil => exact trivial
    | cons first rest ih =>
      refine Ends.bind (x := checkMissing step sharedFixpoint first) (P := fun _ => True) ?_
        fun _ _ => ih
      unfold checkMissing
      cases sharedFixpoint.get first with
      | none => exact trivial
      | some metaData =>
        dsimp only
        split <;> exact trivial
  unfold computeCallablesToReanalyze
  dsimp only
  cases hsorted : order.sort ((mightChangeIfReanalyzed dependencyGraph partialCallables).filter
      order.mem).elements with
  | error failure =>
    rw [hsorted] at hsort
    exact hsort
  | ok sorted =>
    rw [hsorted] at hsort
    have hperm : sorted.Perm _ := hsort
    have hnext : sorted.Nodup ∧ ∀ x, x ∈ sorted ↔ order.mem x = true ∧
        ∃ p ∈ partialCallables, x = p ∨ x ∈ DependencyGraph.dependencies dependencyGraph p :=
      ⟨hperm.nodup_iff.mpr (SortedSet.nodup _), fun x => hperm.mem_iff.trans (hmem x)⟩
    dsimp only
    split
    · have hcheck := hmissing ((mightChangeIfReanalyzed dependencyGraph partialCallables).diff
        ((mightChangeIfReanalyzed dependencyGraph partialCallables).filter order.mem)).elements
      split
      · rename_i hfailure
        rw [hfailure] at hcheck
        exact hcheck
      · exact hnext
    · exact hnext

theorem mem_newCallables {additionalDependencies : TargetGraph T} {order : TopologicalOrder T}
    {x : T} : x ∈ newCallables targets additionalDependencies order ↔
      x ∈ additionalDependencies.keys ∧ order.mem x = false ∧
        targets.shouldSkipAnalysis x = false := by
  unfold newCallables
  split
  · rename_i hempty
    refine iff_of_false List.not_mem_nil fun h => ?_
    have hx := SortedMap.isEmpty_iff.mp hempty x
    exact SortedMap.find?_eq_none.mp hx h.1
  · rw [List.mem_filter, List.mem_filter, Bool.not_eq_true', Bool.not_eq_true', and_assoc]

theorem nodup_newCallables {additionalDependencies : TargetGraph T} {order : TopologicalOrder T} :
    (newCallables targets additionalDependencies order).Nodup := by
  unfold newCallables
  split
  · exact List.nodup_nil
  · exact ((additionalDependencies.sorted.imp ne_of_lt).filter _).filter _

/-! ## 5. Adding models -/

/-- A fold that adds one model for each target of a list. -/
theorem foldl_addModel {f : State T M → T → State T M} {model : T → M}
    (hmodels : ∀ state target,
      (f state target).sharedModels = state.sharedModels.add target (model target))
    (hfixpoint : ∀ state target, (f state target).sharedFixpoint.old = state.sharedFixpoint.old)
    (list : List T) (state : State T M) :
    let state' := list.foldl f state
    state'.sharedModels.table.old = state.sharedModels.table.old ∧
      state'.sharedFixpoint.old = state.sharedFixpoint.old ∧
      (∀ x, (state'.sharedModels.table.new.find? x).isSome = true ↔
        x ∈ list ∨ (state.sharedModels.table.new.find? x).isSome = true) ∧
      ∀ x, x ∈ state'.sharedModels.keys ↔ x ∈ list ∨ x ∈ state.sharedModels.keys := by
  induction list generalizing state with
  | nil => simp
  | cons first rest ih =>
    obtain ⟨hold, hfix, hnew, hkeys⟩ := ih (f state first)
    rw [hmodels] at hold hnew hkeys
    refine ⟨hold.trans (Table.add_old _ _ _), hfix.trans (hfixpoint state first), fun x => ?_,
      fun x => ?_⟩
    · refine (hnew x).trans ((or_congr Iff.rfl (Table.isSome_add _ _ _)).trans ?_)
      rw [List.mem_cons, or_left_comm, or_assoc]
    · refine (hkeys x).trans ?_
      unfold SharedModels.add
      rw [List.mem_cons, List.mem_cons, or_left_comm, or_assoc]

/-- The models of a state: what is needed of it between two iterations. -/
structure State.Ready (state : State T M) : Prop where
  keys : ∀ k ∈ state.sharedModels.keys, (state.sharedModels.table.new.find? k).isSome = true
  oldModels : ∀ x, state.sharedModels.table.old.find? x = none
  oldFixpoint : ∀ x, state.sharedFixpoint.old.find? x = none

/-- Adding models for the targets that are no keys leaves each target of the list with one. -/
theorem State.Ready.addModels {f : State T M → T → State T M} {model : T → M}
    (hmodels : ∀ state target,
      (f state target).sharedModels = state.sharedModels.add target (model target))
    (hfixpoint : ∀ state target, (f state target).sharedFixpoint.old = state.sharedFixpoint.old)
    (h : state.Ready) (list : List T) :
    let state' := (list.filter fun target => decide (target ∉ state.sharedModels.keys)).foldl f state
    state'.Ready ∧ ∀ x, x ∈ list ∨ (state.sharedModels.table.new.find? x).isSome = true →
      (state'.sharedModels.table.new.find? x).isSome = true := by
  obtain ⟨hold, hfix, hnew, hkeys⟩ := foldl_addModel hmodels hfixpoint
    (list.filter fun target => decide (target ∉ state.sharedModels.keys)) state
  refine ⟨⟨fun k hk => (hnew k).mpr (((hkeys k).mp hk).imp id (h.keys k)), fun x => ?_,
    fun x => ?_⟩, fun x hx => (hnew x).mpr ?_⟩
  · rw [hold]
    exact h.oldModels x
  · rw [hfix]
    exact h.oldFixpoint x
  · rcases hx with hx | hx
    · by_cases hkey : x ∈ state.sharedModels.keys
      · exact Or.inr (h.keys x hkey)
      · exact Or.inl (List.mem_filter.mpr ⟨hx, decide_eq_true hkey⟩)
    · exact Or.inr hx

theorem State.Ready.initializeNewDependencies {readsNew : T → T → Option M} (h : state.Ready)
    (list : List T) :
    (initializeNewDependencies A readsNew step state list).Ready ∧
      ∀ x, x ∈ list ∨ (state.sharedModels.table.new.find? x).isSome = true →
        ((initializeNewDependencies A readsNew step state list).sharedModels.table.new.find?
          x).isSome = true :=
  h.addModels (fun _ _ => rfl) (fun _ _ => Table.add_old _ _ _) list

theorem State.Ready.addModelsForTargets (h : state.Ready) (model : M) (list : List T) :
    (addModelsForTargets model state list).Ready ∧
      ∀ x, x ∈ list ∨ (state.sharedModels.table.new.find? x).isSome = true →
        ((FixpointAnalysis.addModelsForTargets model state list).sharedModels.table.new.find?
          x).isSome = true :=
  State.Ready.addModels (fun _ _ => rfl) (fun _ _ => Table.add_old _ _ _) h list

/-! ## 6. One iteration -/

variable {epoch : ℕ} {p : Progress T M}

/-- The invariant between two iterations. -/
structure Inv (p : Progress T M) : Prop where
  ready : p.state.Ready
  known : ∀ c ∈ p.callablesToAnalyze, p.allCallables.mem c = true
  models : ∀ c, p.allCallables.mem c = true →
    (p.state.sharedModels.table.new.find? c).isSome = true

/-- Oldifying succeeds, and gives every callable of the worklist an old model. -/
theorem oldify_spec (h : p.state.Ready) (callables : List T) :
    ∃ state', oldify p.state callables = .ok state' ∧
      state'.sharedModels.keys = p.state.sharedModels.keys ∧
      ∀ x, state'.sharedModels.table.new.find? x =
          (if x ∈ callables then none else p.state.sharedModels.table.new.find? x) ∧
        state'.sharedModels.table.old.find? x =
          (if x ∈ callables then p.state.sharedModels.table.new.find? x else none) ∧
        state'.sharedFixpoint.old.find? x =
          if x ∈ callables then p.state.sharedFixpoint.new.find? x else none := by
  obtain ⟨table, htable, hmodels⟩ := Table.oldifyBatch_spec (.ofList callables) h.oldModels
  obtain ⟨fixpoint, hfixpoint, hmeta⟩ := Table.oldifyBatch_spec (.ofList callables) h.oldFixpoint
  simp only [SortedSet.mem_ofList] at hmodels hmeta
  refine ⟨⟨{ p.state.sharedModels with table := table }, fixpoint⟩, ?_, rfl, fun x =>
    ⟨(hmodels x).1, (hmodels x).2, (hmeta x).2⟩⟩
  unfold oldify
  dsimp only
  rw [htable]
  dsimp only
  rw [hfixpoint]

/-- What the next iteration analyses, by what this one found out of the old models. -/
structure NextWorklist (A : Analysis T M) (targets : Targets T) (step : Step)
    (old : SortedMap T M) (reads : T → T → Option M) (p : Progress T M) (next : List T) : Prop where
  nodup : next.Nodup
  mem : ∀ c, c ∈ next ↔
    (p.allCallables.mem c = true ∧ ∃ x ∈ p.callablesToAnalyze, Changed A targets step old reads x ∧
      (c = x ∨ c ∈ DependencyGraph.dependencies p.dependencyGraph x)) ∨
    (p.allCallables.mem c = false ∧ targets.shouldSkipAnalysis c = false ∧
      ∃ x ∈ p.callablesToAnalyze, Discovers A targets step old reads x c)

/-- **One iteration.** -/
theorem iterateOnce_spec (A : Analysis T M) (targets : Targets T) (epoch : ℕ) (h : Inv p)
    (workers : Workers T M) :
    ∃ state, oldify p.state p.callablesToAnalyze = .ok state ∧
      (∀ c ∈ p.callablesToAnalyze, (state.sharedModels.table.old.find? c).isSome = true) ∧
      Ends (iterateOnce A targets epoch workers p) fun next => Inv next ∧
        NextWorklist A targets ⟨epoch, p.iteration⟩ state.sharedModels.table.old workers.reads p
          next.callablesToAnalyze := by
  obtain ⟨state, hstate, hkeys, hfind⟩ := oldify_spec h.ready p.callablesToAnalyze
  have hold : ∀ c ∈ p.callablesToAnalyze,
      (state.sharedModels.table.old.find? c).isSome = true := by
    intro c hc
    rw [(hfind c).2.1, if_pos hc]
    exact h.models c (h.known c hc)
  have hperm := workers.chunks_perm p.callablesToAnalyze
  refine ⟨state, hstate, hold, ?_⟩
  unfold iterateOnce
  refine Ends.bind (P := fun s => s = state) (by rw [hstate]; exact rfl) ?_
  rintro _ rfl
  refine Ends.bind (mapReduce_ends fun x hx => hold x (hperm.mem_iff.mp hx)) ?_
  rintro ⟨passed, result⟩ hpassed
  have hnew (x : T) : (passed.sharedModels.table.new.find? x).isSome = true ↔
      (p.state.sharedModels.table.new.find? x).isSome = true := by
    rw [hpassed.newModels, hperm.mem_iff, (hfind x).1]
    by_cases hx : x ∈ p.callablesToAnalyze
    · simp [hx, h.models x (h.known x hx)]
    · simp [hx]
  -- the old values are those that are removed again
  have hready : (removeOld passed p.callablesToAnalyze).Ready := by
    refine ⟨fun k hk => (hnew k).mpr (h.ready.keys k ?_), fun x => ?_, fun x => ?_⟩
    · rw [← hkeys, ← hpassed.keys]
      exact hk
    · refine (Table.removeOldBatch_old _ x).trans ?_
      rw [hpassed.oldModels, (hfind x).2.1]
      by_cases hx : x ∈ p.callablesToAnalyze <;> simp [hx]
    · refine (Table.removeOldBatch_old _ x).trans ?_
      rw [hpassed.oldFixpoint, (hfind x).2.2]
      by_cases hx : x ∈ p.callablesToAnalyze <;> simp [hx]
  refine Ends.bind (computeCallablesToReanalyze_ends _ _ _ _ _) ?_
  rintro callables ⟨hnodup, hmem⟩
  obtain ⟨hready', hadded⟩ :=
    hready.initializeNewDependencies (newCallables targets result.additionalDependencies
      p.allCallables)
  have hmemNew (x : T) := @mem_newCallables _ _ targets result.additionalDependencies
    p.allCallables x
  refine ⟨⟨hready', fun c hc => ?_, fun c hc => ?_⟩, ?_, fun c => ?_⟩
  · refine (TopologicalOrder.mem_register _).mpr ?_
    rcases List.mem_append.mp hc with hc | hc
    · exact Or.inr (List.mem_reverse.mp hc)
    · exact Or.inl ((hmem c).mp hc).1
  · refine hadded c ?_
    rcases (TopologicalOrder.mem_register _).mp hc with hc | hc
    · exact Or.inr ((hnew c).mpr (h.models c hc))
    · exact Or.inl hc
  · refine List.nodup_append.mpr ⟨List.nodup_reverse.mpr nodup_newCallables, hnodup, ?_⟩
    rintro a ha _ hb rfl
    have hunknown := ((hmemNew a).mp (List.mem_reverse.mp ha)).2.1
    rw [((hmem a).mp hb).1] at hunknown
    cases hunknown
  · rw [List.mem_append, List.mem_reverse, hmemNew, hmem, or_comm]
    refine or_congr (and_congr_right fun _ => ?_) ?_
    · refine exists_congr fun x => ?_
      rw [hpassed.changed, or_iff_right List.not_mem_nil, hperm.mem_iff, and_assoc]
    · have hempty : c ∉ (SortedMap.empty : TargetGraph T).keys := List.not_mem_nil
      refine (and_congr_left' ((hpassed.discovered c).trans (or_iff_right hempty))).trans ?_
      rw [and_comm, and_assoc]
      simp only [hperm.mem_iff]

/-! ## 7. Runs -/

/-- The states between the iterations of a run. -/
inductive Reachable (A : Analysis T M) (targets : Targets T) (epoch : ℕ) (initial : Progress T M) :
    Progress T M → Prop
  | start : Reachable A targets epoch initial initial
  | step {p next : Progress T M} (workers : Workers T M) : Reachable A targets epoch initial p →
      p.callablesToAnalyze ≠ [] → iterateOnce A targets epoch workers p = .ok next →
      Reachable A targets epoch initial next

theorem Reachable.inv {initial : Progress T M} (h : Reachable A targets epoch initial p)
    (hinitial : Inv initial) : Inv p := by
  induction h with
  | start => exact hinitial
  | @step p next workers _ _ hnext ih =>
    obtain ⟨_, _, _, hends⟩ := iterateOnce_spec A targets epoch ih workers
    rw [hnext] at hends
    exact hends.1

/-- The whole loop ends with a result or with a possible failure. -/
theorem iterate_ends (workers : ℕ → Workers T M) (errorOnMaxIterations : Bool) (remaining : ℕ)
    (h : Inv p) :
    Ends (iterate A targets epoch workers errorOnMaxIterations remaining p) Inv := by
  induction remaining generalizing p with
  | zero =>
    unfold iterate
    split
    · exact h
    · dsimp only
      split
      · exact trivial
      · exact h
  | succ remaining ih =>
    unfold iterate
    split
    · exact h
    · obtain ⟨_, _, _, hends⟩ := iterateOnce_spec A targets epoch h (workers p.iteration)
      dsimp only
      cases hnext : iterateOnce A targets epoch (workers p.iteration) p with
      | error failure =>
        rw [hnext] at hends
        exact hends
      | ok next =>
        rw [hnext] at hends
        exact ih hends.1

/-- The handle of the initial models: every key has a model, and there are no old ones. -/
structure SharedModels.Fresh (models : SharedModels T M) : Prop where
  keys : ∀ k ∈ models.keys, (models.table.new.find? k).isSome = true
  old : ∀ x, models.table.old.find? x = none

/-- The initial tables have a model for every key, callable, stub and override. -/
theorem recordInitialModels_ready (A : Analysis T M) {initialModels : SharedModels T M}
    (h : initialModels.Fresh) (callables stubs overrideTargets : List T) :
    (recordInitialModels A initialModels callables stubs overrideTargets).Ready ∧
      ∀ x, x ∈ callables ∨ x ∈ stubs ∨ x ∈ overrideTargets ∨ x ∈ initialModels.keys →
        ((recordInitialModels A initialModels callables stubs
          overrideTargets).sharedModels.table.new.find? x).isSome = true := by
  have hfixpoint (keys : List T) (table : Table T MetaData) (htable : table.old = .empty) :
      (keys.foldl (fun table target => table.add target ⟨false, ⟨Epoch.initial, 0⟩⟩)
        table).old = .empty := by
    induction keys generalizing table with
    | nil => exact htable
    | cons key rest ih => exact ih _ ((Table.add_old _ _ _).trans htable)
  let state₀ : State T M := ⟨initialModels, initialModels.keys.foldl
    (fun table target => table.add target ⟨false, ⟨Epoch.initial, 0⟩⟩) .empty⟩
  have hready₀ : state₀.Ready := ⟨h.keys, h.old, fun x => by
    rw [show state₀.sharedFixpoint.old = .empty from hfixpoint _ _ rfl, SortedMap.find?_empty]⟩
  obtain ⟨hready₁, h₁⟩ := hready₀.addModelsForTargets A.initialModel callables
  obtain ⟨hready₂, h₂⟩ := hready₁.addModelsForTargets A.obscureModel stubs
  obtain ⟨hready₃, h₃⟩ := hready₂.addModelsForTargets A.emptyModel overrideTargets
  refine ⟨hready₃, fun x hx => ?_⟩
  rcases hx with hx | hx | hx | hx
  · exact h₃ x (Or.inr (h₂ x (Or.inr (h₁ x (Or.inl hx)))))
  · exact h₃ x (Or.inr (h₂ x (Or.inl hx)))
  · exact h₃ x (Or.inl hx)
  · exact h₃ x (Or.inr (h₂ x (Or.inr (h₁ x (Or.inr (h.keys x hx))))))

/-- A run starts with the invariant when every callable to analyse has an initial model. -/
theorem inv_start {dependencyGraph : TargetGraph T} {callables : List T} (h : state.Ready)
    (hcover : ∀ c ∈ callables, (state.sharedModels.table.new.find? c).isSome = true) :
    Inv (start targets dependencyGraph state callables) := by
  refine ⟨h, fun c hc => (TopologicalOrder.mem_create _).mpr hc, fun c hc => ?_⟩
  exact hcover c (List.mem_filter.mp ((TopologicalOrder.mem_create _).mp hc)).1

variable (targets) in
/-- The arguments of the first iteration, over the models that are recorded before it. -/
def initialProgress (A : Analysis T M) (initialModels : SharedModels T M)
    (callables stubs overrideTargets : List T) (dependencyGraph : TargetGraph T)
    (callablesToAnalyze : List T) : Progress T M :=
  start targets dependencyGraph
    (recordInitialModels A initialModels callables stubs overrideTargets) callablesToAnalyze

/-- **The worklist of the global fixpoint.** The initial models cover what is analysed. Before
    every iteration of a run, oldifying gives each callable of the worklist an old model; the next
    worklist is what changed with its known callers, and what is new and not skipped, each once;
    and no failure is a missing model, a missing topological index or a failed move. -/
theorem worklist_sound (A : Analysis T M) (targets : Targets T) (epoch : ℕ)
    (initialModels : SharedModels T M) (hfresh : initialModels.Fresh)
    (callables stubs overrideTargets : List T) (dependencyGraph : TargetGraph T)
    (callablesToAnalyze : List T)
    (hcover : ∀ c ∈ callablesToAnalyze,
      c ∈ callables ∨ c ∈ stubs ∨ c ∈ overrideTargets ∨ c ∈ initialModels.keys) :
    let initial := initialProgress targets A initialModels callables stubs overrideTargets
      dependencyGraph callablesToAnalyze
    (∀ p, Reachable A targets epoch initial p → ∀ workers : Workers T M,
      ∃ state, oldify p.state p.callablesToAnalyze = .ok state ∧
        (∀ c ∈ p.callablesToAnalyze, (state.sharedModels.table.old.find? c).isSome = true) ∧
        Ends (iterateOnce A targets epoch workers p) fun next =>
          NextWorklist A targets ⟨epoch, p.iteration⟩ state.sharedModels.table.old workers.reads p
            next.callablesToAnalyze) ∧
      ∀ (workers : ℕ → Workers T M) (maxIterations : ℕ) (errorOnMaxIterations : Bool),
        Ends (compute A targets epoch workers maxIterations errorOnMaxIterations dependencyGraph
          (recordInitialModels A initialModels callables stubs overrideTargets)
          callablesToAnalyze) fun _ => True := by
  intro initial
  obtain ⟨hready, hmodels⟩ :=
    recordInitialModels_ready A hfresh callables stubs overrideTargets
  have hinitial : Inv initial := inv_start hready fun c hc => hmodels c (hcover c hc)
  refine ⟨fun p hp workers => ?_, fun workers maxIterations errorOnMaxIterations => ?_⟩
  · obtain ⟨state, hstate, hold, hends⟩ :=
      iterateOnce_spec A targets epoch (hp.inv hinitial) workers
    exact ⟨state, hstate, hold, hends.mono fun _ hnext => hnext.2⟩
  · exact (iterate_ends workers errorOnMaxIterations maxIterations hinitial).mono fun _ _ => trivial

/-- An analysis where target 0 calls the targets 1 and 3 and gets a new model. -/
def zeroCallsOne : Analysis ℕ ℕ where
  analyzeDefine callable _ _ := .ok (if callable = 0 then (1, [1, 3]) else (0, []))
  postprocessOverrideModel := id
  emptyModel := 0
  initialModel := 0
  obscureModel := 0
  lessOrEqual _ left right := decide (left ≤ right)
  widen _ _ previous next := max previous next
  join _ := max
  forOverrideModel _ model := model
  forNewDependency _ _ := 0

/-- Every target is a function, and target 1 is not to be analysed. -/
def skipOne : Targets ℕ where
  isFunctionOrMethod _ := true
  isObject _ := false
  isOverride _ := false
  correspondingMethod := id
  overrideTargets _ := none
  shouldSkipAnalysis target := decide (target = 1)

def singleWorker : Workers ℕ ℕ where
  chunks callables := [callables]
  chunks_perm callables := by rw [List.flatten_singleton]
  reads _ _ := none
  readsNew _ _ := none

/-- The run from target 0 and its caller, target 2. -/
def fromZero : Progress ℕ ℕ :=
  initialProgress skipOne zeroCallsOne ⟨.empty, []⟩ [0, 2] [] [] (.singleton 0 [2]) [0, 2]

theorem iterateOnce_fromZero : ∃ next,
    iterateOnce zeroCallsOne skipOne Epoch.initial singleWorker fromZero = .ok next ∧
      next.callablesToAnalyze = [3, 0, 2] := by
  have hsort : [0, 2].mergeSort (fun a b => decide (fromZero.allCallables.index a ≤
      fromZero.allCallables.index b)) = [0, 2] := List.mergeSort_of_pairwise (by decide +kernel)
  exact ⟨_, rfl, congrArg ([3] ++ ·) hsort⟩

/-- Target 0 has changed, so it is analysed again with its caller; target 3 is new. -/
theorem worklist_sound_fromZero : ∃ next,
    iterateOnce zeroCallsOne skipOne Epoch.initial singleWorker fromZero = .ok next ∧
      next.callablesToAnalyze = [3, 0, 2] ∧ next.callablesToAnalyze.Nodup := by
  obtain ⟨_, _, _, hends⟩ := (worklist_sound zeroCallsOne skipOne Epoch.initial
    ⟨.empty, []⟩ ⟨by simp, fun _ => rfl⟩ [0, 2] [] [] (.singleton 0 [2]) [0, 2] (by simp)).1
      fromZero .start singleWorker
  obtain ⟨next, h, hnext⟩ := iterateOnce_fromZero
  rw [h] at hends
  exact ⟨next, h, hnext, hends.nodup⟩

/-- A callable that is discovered and skipped is not analysed in the next iteration. -/
theorem skipped_not_analysed : ∃ state next,
    oldify fromZero.state fromZero.callablesToAnalyze = .ok state ∧
      Discovers zeroCallsOne skipOne ⟨Epoch.initial, 0⟩ state.sharedModels.table.old
        singleWorker.reads 0 1 ∧
      fromZero.allCallables.mem 1 = false ∧
      iterateOnce zeroCallsOne skipOne Epoch.initial singleWorker fromZero = .ok next ∧
      1 ∉ next.callablesToAnalyze := by
  obtain ⟨next, h, hnext⟩ := iterateOnce_fromZero
  refine ⟨_, next, rfl, ⟨_, rfl, by decide +kernel⟩, by decide +kernel, h, ?_⟩
  rw [hnext]
  decide

end Pysa.FixpointAnalysis
