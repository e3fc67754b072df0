/-
  Subject: WHAT A DOTTED NAME REFERS TO (`resolve_exports` of `unannotatedGlobalEnvironment.ml`).

  * `Export`, `ExportMap.lookup`, `Metadata.getExport` -- what a module exports;
  * `resolveModuleAlias`, `resolveExports` -- the resolution. It remembers in which modules it has
    looked up which names, and gives up when it would look up one name in one module again;
  * `resolutionStep`, `Resolves` -- the same steps without this memory;
  * `LooksUpAgain` -- the steps look one name up in one module twice. They need not go in a cycle:
    fewer names may be left the second time;
  * `resolveExports_exact_iff` -- **the resolution ends, and it finds what the steps come to, unless
    they come to something after looking a name up in a module again**.
-/
import Pysa.Interprocedural.QualifiedNames
import Pysa.Lib.AssocMap
import Pysa.Lib.GuardedRun

namespace Pysa.ResolveExports

open Pysa.ModuleQualifiers (Reference)
open Pysa.QualifiedNames.FullyQualifiedName (combine)

/-! ## 1. Exports -/

/-- `Export.Name.t`. -/
inductive ExportName where
  | classExport
  | define (isGetattrAny : Bool)
  | globalVariable
deriving DecidableEq

/-- `Export.t`. -/
inductive Export where
  | nameAlias (source : Reference) (name : String)
  | module (name : Reference)
  | name (symbol : ExportName)
deriving DecidableEq

abbrev ExportMap := AssocMap String Export

def ExportMap.lookup (map : ExportMap) (name : String) : Option Export :=
  match AList.lookup name map with
  | some found => some found
  | none =>
    if name ∈ ["__doc__", "__file__", "__name__", "__package__", "__path__", "__dict__"] then
      some (.name .globalVariable)
    else none

/-- `Metadata.t`. -/
inductive Metadata where
  | explicit (exports : ExportMap)
  | implicit

def Metadata.exports : Metadata → ExportMap
  | explicit exports => exports
  | implicit => ∅

def Metadata.getExport (consideredModule : Metadata) (name : String) : Option Export :=
  ExportMap.lookup consideredModule.exports name

/-- The modules of a project. -/
abbrev Modules := AssocMap Reference Metadata

/-- `ResolvedReference.export`. -/
inductive ResolvedExport where
  | fromModuleGetattr
  | exported (symbol : ExportName)
deriving DecidableEq

inductive ResolvedReference where
  | module (name : Reference)
  | moduleAttribute (source : Reference) (name : String) (symbol : ResolvedExport)
      (remaining : List String)
deriving DecidableEq

/-- `Reference.create`, with a prefix. -/
def createUnder (pre : Reference) (name : String) : Reference :=
  combine pre (ModuleQualifiers.Reference.create name)

/-! ## 2. The resolution -/

structure ResolveExportItem where
  currentModule : Reference
  name : String
deriving DecidableEq

/-- The module and the names with which the resolution goes on. -/
structure Target where
  currentModule : Reference
  namesToResolve : List String

open GuardedRun (Outcome)

/-- Looking `nextName` up in the globals of a module. -/
def lookUpName (moduleMetadata : Metadata) (currentModule : Reference) (nextName : String)
    (restNames : List String) : Outcome Target ResolvedReference :=
  match moduleMetadata.getExport nextName with
  | none =>
    match moduleMetadata.getExport "__getattr__" with
    | some (.name (.define true)) =>
      -- all lookups resolve through `__getattr__`
      .answer (.moduleAttribute currentModule nextName .fromModuleGetattr restNames)
    | _ =>
      -- a module deeper in the package may contain the names that are left
      .next ⟨combine currentModule (ModuleQualifiers.Reference.create nextName), restNames⟩
  | some (.nameAlias source name) =>
    if currentModule ≠ source then .next ⟨source, name :: restNames⟩
    else .next ⟨combine source (ModuleQualifiers.Reference.create name), restNames⟩
  | some (.module name) => .next ⟨name, restNames⟩
  | some (.name symbol) =>
    .answer (.moduleAttribute currentModule nextName (.exported symbol) restNames)

/-- `resolve_module_alias`, with fuel; `visitedSet` is the set of the items so far. -/
def resolveModuleAlias (modules : Modules) : ℕ → Finset ResolveExportItem → Reference →
    List String → Option (Option ResolvedReference)
  | 0, _, _, _ => none
  | fuel + 1, visitedSet, currentModule, namesToResolve =>
    match modules.lookup currentModule with
    | none =>
      match namesToResolve with
      | head :: tail =>
        resolveModuleAlias modules fuel visitedSet (createUnder currentModule head) tail
      | [] => some none
    | some moduleMetadata =>
      match namesToResolve with
      | [] => some (some (.module currentModule))
      | nextName :: restNames =>
        let item := ResolveExportItem.mk currentModule nextName
        if item ∈ visitedSet then some none
        else
          match lookUpName moduleMetadata currentModule nextName restNames with
          | .next target =>
            resolveModuleAlias modules fuel (insert item visitedSet) target.currentModule
              target.namesToResolve
          | .answer resolved => some (some resolved)
          | .fail => some none

def resolveExports (modules : Modules) (fuel : ℕ) (start reference : Reference) :
    Option (Option ResolvedReference) :=
  resolveModuleAlias modules fuel ∅ start reference

/-! ## 3. The steps -/

variable (modules : Modules)

/-- A step of the resolution, without the set of the visited items. -/
def resolutionStep (target : Target) : Outcome Target ResolvedReference :=
  match modules.lookup target.currentModule, target.namesToResolve with
  | none, head :: tail => .next ⟨createUnder target.currentModule head, tail⟩
  | none, [] => .fail
  | some _, [] => .answer (.module target.currentModule)
  | some moduleMetadata, nextName :: restNames =>
    lookUpName moduleMetadata target.currentModule nextName restNames

/-- The name that a step looks up in a module. -/
def itemOf (target : Target) : Option ResolveExportItem :=
  match modules.lookup target.currentModule, target.namesToResolve with
  | some _, nextName :: _ => some ⟨target.currentModule, nextName⟩
  | _, _ => none

/-- After finitely many steps the reference is resolved. -/
def Resolves (start reference : Reference) (resolved : ResolvedReference) : Prop :=
  GuardedRun.Comes (resolutionStep modules) ⟨start, reference⟩ resolved

/-- The steps look one name up in one module twice. -/
def LooksUpAgain (start reference : Reference) : Prop :=
  GuardedRun.Repeats (resolutionStep modules) (itemOf modules) ⟨start, reference⟩

/-- The resolution is the run of the steps, guarded by the items. -/
theorem resolveModuleAlias_eq (fuel : ℕ) (visitedSet : Finset ResolveExportItem)
    (currentModule : Reference) (namesToResolve : List String) :
    resolveModuleAlias modules fuel visitedSet currentModule namesToResolve =
      GuardedRun.run (resolutionStep modules) (itemOf modules) fuel visitedSet
        ⟨currentModule, namesToResolve⟩ := by
  induction fuel generalizing visitedSet currentModule namesToResolve with
  | zero => rfl
  | succ fuel ih =>
    rw [resolveModuleAlias.eq_def, GuardedRun.run, GuardedRun.remember, itemOf, resolutionStep]
    dsimp only
    cases modules.lookup currentModule with
    | none =>
      cases namesToResolve with
      | nil => rfl
      | cons head tail => exact ih _ _ _
    | some moduleMetadata =>
      cases namesToResolve with
      | nil => rfl
      | cons nextName restNames =>
        dsimp only
        split
        · rfl
        · dsimp only
          cases lookUpName moduleMetadata currentModule nextName restNames with
          | next target => exact ih _ _ _
          | answer resolved => rfl
          | fail => rfl

/-! ## 4. The resolution ends -/

/-- The names that the aliases of a module are resolved to. -/
def aliasNames (exports : ExportMap) : List String :=
  exports.entries.filterMap fun entry =>
    match entry.2 with
    | .nameAlias _ name => some name
    | _ => none

/-- The names that may be looked up: those of the reference, and those of the aliases. -/
def possibleNames (reference : List String) : List String :=
  reference ++ modules.entries.flatMap fun entry => aliasNames entry.2.exports

/-- The items that may be visited. -/
def possibleItems (reference : List String) : Finset ResolveExportItem :=
  (modules.keys.flatMap fun name =>
    (possibleNames modules reference).map (ResolveExportItem.mk name)).toFinset

variable {modules}

theorem lookup_of_getExport {metadata : Metadata} {name target : String} {source : Reference}
    (h : metadata.getExport name = some (.nameAlias source target)) :
    AList.lookup name metadata.exports = some (.nameAlias source target) := by
  unfold Metadata.getExport ExportMap.lookup at h
  cases hlookup : AList.lookup name metadata.exports with
  | some found =>
    rw [hlookup] at h
    exact h
  | none =>
    rw [hlookup] at h
    dsimp only at h
    split at h
    · cases h
    · cases h

theorem mem_possibleNames {reference : List String} {currentModule source : Reference}
    {metadata : Metadata} {name target : String}
    (hmodule : modules.lookup currentModule = some metadata)
    (h : metadata.getExport name = some (.nameAlias source target)) :
    target ∈ possibleNames modules reference := by
  refine List.mem_append_right _ (List.mem_flatMap.mpr ⟨⟨currentModule, metadata⟩, ?_, ?_⟩)
  · exact AList.mem_lookup_iff.mp hmodule
  · refine List.mem_filterMap.mpr ⟨⟨name, .nameAlias source target⟩, ?_, rfl⟩
    exact AList.mem_lookup_iff.mp (lookup_of_getExport h)

/-- What a lookup goes on with: no more names, all but the first of which are the old ones. -/
theorem lookUpName_next {metadata : Metadata} {currentModule : Reference} {nextName : String}
    {restNames : List String} {target : Target}
    (h : lookUpName metadata currentModule nextName restNames = .next target) :
    target.namesToResolve = restNames ∨
      ∃ source name, metadata.getExport nextName = some (.nameAlias source name) ∧
        target.namesToResolve = name :: restNames := by
  unfold lookUpName at h
  cases hexport : metadata.getExport nextName with
  | none =>
    rw [hexport] at h
    dsimp only at h
    split at h
    · cases h
    · cases h
      exact Or.inl rfl
  | some found =>
    rw [hexport] at h
    cases found with
    | nameAlias source name =>
      dsimp only at h
      split at h
      · cases h
        exact Or.inr ⟨source, name, rfl, rfl⟩
      · cases h
        exact Or.inl rfl
    | module name =>
      cases h
      exact Or.inl rfl
    | name symbol => cases h

/-- A step keeps the names among the possible ones, and drops one of them unless it is a lookup. -/
theorem resolutionStep_next {reference : List String} {target target' : Target}
    (h : resolutionStep modules target = .next target')
    (hnames : ∀ name ∈ target.namesToResolve, name ∈ possibleNames modules reference) :
    (∀ name ∈ target'.namesToResolve, name ∈ possibleNames modules reference) ∧
      target'.namesToResolve.length ≤ target.namesToResolve.length ∧
        (itemOf modules target = none →
          target'.namesToResolve.length < target.namesToResolve.length) := by
  obtain ⟨currentModule, namesToResolve⟩ := target
  unfold resolutionStep at h
  unfold itemOf
  dsimp only at h hnames ⊢
  cases hmodule : modules.lookup currentModule with
  | none =>
    rw [hmodule] at h
    cases namesToResolve with
    | nil => cases h
    | cons head tail =>
      cases h
      refine ⟨fun name hname => hnames name (List.mem_cons_of_mem _ hname), ?_, fun _ => ?_⟩
      · exact Nat.le_succ _
      · exact Nat.lt_succ_self _
  | some metadata =>
    rw [hmodule] at h
    cases namesToResolve with
    | nil => cases h
    | cons nextName restNames =>
      dsimp only at h
      rcases lookUpName_next h with hsame | ⟨source, name, hexport, hsame⟩
      · rw [hsame]
        refine ⟨fun name hname => hnames name (List.mem_cons_of_mem _ hname), ?_, ?_⟩
        · exact Nat.le_succ _
        · intro hnone
          cases hnone
      · rw [hsame]
        refine ⟨fun name' hname => ?_, le_rfl, fun hnone => ?_⟩
        · rcases List.mem_cons.mp hname with rfl | hname
          · exact mem_possibleNames hmodule hexport
          · exact hnames name' (List.mem_cons_of_mem _ hname)
        · cases hnone

theorem mem_possibleItems {reference : List String} {target : Target} {item : ResolveExportItem}
    (hnames : ∀ name ∈ target.namesToResolve, name ∈ possibleNames modules reference)
    (h : itemOf modules target = some item) : item ∈ possibleItems modules reference := by
  unfold itemOf at h
  cases hmodule : modules.lookup target.currentModule with
  | none =>
    rw [hmodule] at h
    cases h
  | some metadata =>
    rw [hmodule] at h
    cases hsame : target.namesToResolve with
    | nil =>
      rw [hsame] at h
      cases h
    | cons nextName restNames =>
      rw [hsame] at h
      cases h
      refine List.mem_toFinset.mpr (List.mem_flatMap.mpr ⟨target.currentModule, ?_, ?_⟩)
      · exact AList.mem_keys.mp (AList.lookup_isSome.mp (by rw [hmodule]; rfl))
      · exact List.mem_map_of_mem (hnames nextName (hsame ▸ List.mem_cons_self))

/-- Each step uses up an item or a name. -/
theorem shrinks (reference : List String) :
    GuardedRun.Shrinks (resolutionStep modules) (itemOf modules)
      (fun target => ∀ name ∈ target.namesToResolve, name ∈ possibleNames modules reference)
      (possibleItems modules reference) fun target => target.namesToResolve.length where
  keeps _ _ hnames hstep := (resolutionStep_next hstep hnames).1
  mem _ _ hnames hitem := mem_possibleItems hnames hitem
  le _ _ hnames hstep := (resolutionStep_next hstep hnames).2.1
  lt _ _ hnames hstep hitem := (resolutionStep_next hstep hnames).2.2 hitem

theorem resolveExports_returns (modules : Modules) (start reference : Reference) :
    ∃ answer steps, ∀ fuel, steps ≤ fuel →
      resolveExports modules fuel start reference = some answer := by
  have hnames : ∀ name ∈ (Target.mk start reference).namesToResolve,
      name ∈ possibleNames modules reference := fun name hname => List.mem_append_left _ hname
  obtain ⟨answer, hrun⟩ := GuardedRun.run_returns ∅ (shrinks reference) hnames
  refine ⟨answer, (possibleItems modules reference \ ∅).card + reference.length + 1, ?_⟩
  intro fuel hfuel
  rw [resolveExports, resolveModuleAlias_eq]
  exact hrun fuel (Nat.lt_of_succ_le hfuel)

/-! ## 5. What the resolution finds -/

theorem resolveExports_eq_some_iff {start reference : Reference} {resolved : ResolvedReference} :
    (∃ fuel, resolveExports modules fuel start reference = some (some resolved)) ↔
      Resolves modules start reference resolved ∧ ¬ LooksUpAgain modules start reference := by
  simp only [resolveExports, resolveModuleAlias_eq]
  exact GuardedRun.answers_iff

/-- The resolution always ends. It finds what the steps come to if and only if these look no name
    up in a module again, or come to nothing. -/
theorem resolveExports_exact_iff (modules : Modules) (start reference : Reference) :
    ∃ answer steps,
      (∀ fuel, steps ≤ fuel → resolveExports modules fuel start reference = some answer) ∧
        ((∀ resolved, answer = some resolved ↔ Resolves modules start reference resolved) ↔
          ((∃ resolved, Resolves modules start reference resolved) →
            ¬ LooksUpAgain modules start reference)) := by
  obtain ⟨answer, steps, hrun⟩ := resolveExports_returns modules start reference
  have hanswer (resolved : ResolvedReference) : answer = some resolved ↔
      Resolves modules start reference resolved ∧ ¬ LooksUpAgain modules start reference := by
    rw [← resolveExports_eq_some_iff]
    constructor
    · intro hsome
      exact ⟨steps, hsome ▸ hrun steps le_rfl⟩
    · intro hreturns
      obtain ⟨fuel, hfuel⟩ := hreturns
      have hlast := hrun (max steps fuel) (le_max_left _ _)
      rw [resolveExports, resolveModuleAlias_eq] at hfuel hlast
      rw [GuardedRun.run_mono (le_max_right _ _) hfuel] at hlast
      exact (Option.some.inj hlast).symm
  refine ⟨answer, steps, hrun, ?_⟩
  constructor
  · intro hexact hresolves
    obtain ⟨resolved, hresolved⟩ := hresolves
    exact ((hanswer resolved).mp ((hexact resolved).mpr hresolved)).2
  · intro honce resolved
    rw [hanswer]
    exact ⟨fun h => h.1, fun h => ⟨h, honce ⟨resolved, h⟩⟩⟩

namespace Sample

/-- A module `a` that imports itself, and defines a class. -/
def selfImport : Modules :=
  AList.insert ["a"]
    (.explicit (AList.insert "a" (.module ["a"]) (AList.insert "C" (.name .classExport) ∅))) ∅

theorem resolveExports_selfImport :
    resolveExports selfImport 5 [] ["a", "a", "a", "C"] = some none := by
  decide

theorem resolves_selfImport :
    Resolves selfImport [] ["a", "a", "a", "C"]
      (.moduleAttribute ["a"] "C" (.exported .classExport) []) := by
  refine ⟨⟨["a"], ["C"]⟩, ?_, rfl⟩
  have hmodule : GuardedRun.Step (resolutionStep selfImport) ⟨[], ["a", "a", "a", "C"]⟩
    ⟨["a"], ["a", "a", "C"]⟩ := rfl
  have hself : GuardedRun.Step (resolutionStep selfImport) ⟨["a"], ["a", "a", "C"]⟩
    ⟨["a"], ["a", "C"]⟩ := rfl
  have hagain : GuardedRun.Step (resolutionStep selfImport) ⟨["a"], ["a", "C"]⟩
    ⟨["a"], ["C"]⟩ := rfl
  exact ((Relation.ReflTransGen.single hmodule).tail hself).tail hagain

/-- `a.a.a.C` is given up, although its steps come to the class `C` of `a`. -/
theorem resolveExports_not_exact :
    ¬ ∀ (modules : Modules) (start reference : Reference), ∃ answer steps,
      (∀ fuel, steps ≤ fuel → resolveExports modules fuel start reference = some answer) ∧
        ∀ resolved, answer = some resolved ↔ Resolves modules start reference resolved := by
  intro h
  obtain ⟨answer, steps, hrun, hexact⟩ := h selfImport [] ["a", "a", "a", "C"]
  have hanswer := (hexact _).mpr resolves_selfImport
  have hmore := hrun (max steps 5) (le_max_left _ _)
  have hgivenUp := resolveExports_selfImport
  rw [resolveExports, resolveModuleAlias_eq] at hmore hgivenUp
  rw [GuardedRun.run_mono (le_max_right _ _) hgivenUp, hanswer] at hmore
  cases hmore

end Sample

end Pysa.ResolveExports
