/-
  Subject: THE MODULES THAT A BATCH OF FILE EVENTS CHANGES (`moduleTracker.ml`).

  * `ExplicitModules` -- the lists of files, and an update where the first file of one changes;
  * `ImplicitModules` -- the files below a package, and an update where there are some for the
    first time, or none any more;
  * `update` -- both, the explicit updates shadowing the implicit ones.
-/
import Mathlib.Data.Finset.Basic
import Pysa.Analysis.ModuleTracker
import Pysa.Lib.AssocMap
import Pysa.Lib.Results

namespace Pysa

open ModulePath Results

namespace ModuleTracker

/-! ## 1. The files of the modules -/

/-- `ModulePaths.Update`: what has happened to a file. -/
inductive PathUpdate where
  | newOrChanged (path : ModulePath)
  | remove (path : ModulePath)
deriving DecidableEq

def PathUpdate.modulePath : PathUpdate → ModulePath
  | newOrChanged path => path
  | remove path => path

namespace ExplicitModules

inductive Update where
  | new (path : ModulePath)
  | changed (path : ModulePath)
  | delete (qualifier : Reference)
deriving DecidableEq

def Update.qualifier : Update → Reference
  | new path => path.qualifier
  | changed path => path.qualifier
  | delete qualifier => qualifier

abbrev Table := AssocMap Reference (List ModulePath)

/-- What a removal leaves is an empty list, so the module is not new when it comes back. -/
def Table.remove (qualifier : Reference) (table : Table) : Table := table.insert qualifier []

def processModulePathUpdate (configuration : Configuration) (table : Table) :
    PathUpdate → Except Failure (Table × Option Update)
  | .newOrChanged path =>
    match table.lookup path.qualifier with
    | none => .ok (table.insert path.qualifier [path], some (.new path))
    | some paths => do
      let newPaths ← insertModulePath configuration path paths
      pure (table.insert path.qualifier newPaths,
        if newPaths.head? = some path then some (.changed path) else none)
  | .remove path =>
    match table.lookup path.qualifier with
    | none => .ok (table, none)
    | some [] => .ok (table.remove path.qualifier, none)
    | some (oldPath :: rest) => do
      match ← removeModulePath configuration path (oldPath :: rest) with
      | [] => pure (table.remove path.qualifier, some (.delete path.qualifier))
      | newPath :: left =>
        pure (table.insert path.qualifier (newPath :: left),
          if oldPath = newPath then none else some (.changed newPath))

def processModulePathUpdates (configuration : Configuration) (table : Table) :
    List PathUpdate → Except Failure (Table × List Update)
  | [] => .ok (table, [])
  | pathUpdate :: rest => do
    let (table, update) ← processModulePathUpdate configuration table pathUpdate
    let (table, updates) ← processModulePathUpdates configuration table rest
    pure (table, update.toList ++ updates)

/-- What the update of a module becomes after an earlier one in the same batch. -/
def mergeUpdate (update : Update) : Option Update → Except Failure Update
  | none => .ok update
  | some earlier =>
    match update, earlier with
    | .new path, .delete _ => .ok (.changed path)
    | .new path, .new _ => .error (.illegalState "Illegal state: double new module" path.qualifier)
    | .new path, .changed _ =>
      .error (.illegalState "Illegal state: new after changed module" path.qualifier)
    | .changed path, .changed _ => .ok (.changed path)
    | .changed path, .new _ => .ok (.new path)
    | .changed path, .delete _ =>
      .error (.illegalState "Illegal state: changing a deleted module" path.qualifier)
    | .delete qualifier, .changed _ => .ok (.delete qualifier)
    | .delete qualifier, .new _ =>
      .error (.illegalState "Illegal state: delete after new module" qualifier)
    | .delete qualifier, .delete _ =>
      .error (.illegalState "Illegal state: double delete module" qualifier)

def processUpdate (merged : AssocMap Reference Update) (update : Update) :
    Except Failure (AssocMap Reference Update) := do
  let next ← mergeUpdate update (merged.lookup update.qualifier)
  pure (merged.insert update.qualifier next)

/-- One update for each module; the order of a hash table is left open. -/
def mergeUpdates (updates : List Update) : Except Failure (List Update) := do
  let merged ← updates.foldlM processUpdate ∅
  pure (merged.entries.map Sigma.snd)

def updateModulePaths (configuration : Configuration) (pathUpdates : List PathUpdate)
    (table : Table) : Except Failure (Table × List Update) := do
  let (table, updates) ← processModulePathUpdates configuration table pathUpdates
  pure (table, ← mergeUpdates updates)

def processModulePath (configuration : Configuration) (table : Table) (path : ModulePath) :
    Except Failure Table :=
  match table.lookup path.qualifier with
  | none => .ok (table.insert path.qualifier [path])
  | some paths => do
    pure (table.insert path.qualifier (← insertModulePath configuration path paths))

/-- The files that the finder has found. -/
def create (configuration : Configuration) (files : List ModulePath) : Except Failure Table :=
  files.foldlM (processModulePath configuration) ∅

end ExplicitModules

/-! ## 2. The files below a package -/

/-- `Reference.prefix`. -/
def prefixOf : Reference → Option Reference
  | [] => none
  | part :: parts => some (part :: parts).dropLast

def parentQualifierAndRaw (path : ModulePath) : Option (Reference × Raw) :=
  (prefixOf path.qualifier).map fun parent => (parent, path.raw)

namespace ImplicitModules

inductive Update where
  | new (qualifier : Reference)
  | delete (qualifier : Reference)
deriving DecidableEq

def Update.qualifier : Update → Reference
  | new qualifier => qualifier
  | delete qualifier => qualifier

abbrev Table := AssocMap Reference (Finset Raw)

def shouldTreatAsImportable (explicitChildren : Finset Raw) : Bool := explicitChildren ≠ ∅

structure Existence where
  existedBefore : Bool
  existsAfter : Bool

def Existence.toUpdate (qualifier : Reference) : Existence → Option Update
  | ⟨false, true⟩ => some (.new qualifier)
  | ⟨true, false⟩ => some (.delete qualifier)
  | _ => none

def children (table : Table) (qualifier : Reference) : Finset Raw :=
  (table.lookup qualifier).getD ∅

def nextChildren (rawChild : Raw) (previous : Finset Raw) : PathUpdate → Finset Raw
  | .newOrChanged _ => insert rawChild previous
  | .remove _ => previous.erase rawChild

def processModulePathUpdate (state : Table × AssocMap Reference Existence)
    (pathUpdate : PathUpdate) : Table × AssocMap Reference Existence :=
  match parentQualifierAndRaw pathUpdate.modulePath with
  | none => state
  | some (qualifier, rawChild) =>
    let previous := children state.1 qualifier
    let next := nextChildren rawChild previous pathUpdate
    (state.1.insert qualifier next,
      AssocMap.update qualifier (fun existence =>
        ⟨existence.elim (shouldTreatAsImportable previous) Existence.existedBefore,
          shouldTreatAsImportable next⟩) state.2)

def updateModulePaths (pathUpdates : List PathUpdate) (table : Table) : Table × List Update :=
  let (table, existence) := pathUpdates.foldl processModulePathUpdate (table, ∅)
  (table, existence.entries.filterMap fun entry => entry.2.toUpdate entry.1)

/-- The files of all modules, each at the package it is in. -/
def create (explicitModules : ExplicitModules.Table) : Table :=
  (explicitModules.entries.flatMap Sigma.snd).foldl (fun table path =>
    match parentQualifierAndRaw path with
    | none => table
    | some (parent, raw) => AssocMap.update parent (fun paths => insert raw (paths.getD ∅)) table) ∅

end ImplicitModules

/-! ## 3. Both -/

/-- The eager layout. -/
structure Layouts where
  explicitModules : ExplicitModules.Table
  implicitModules : ImplicitModules.Table

inductive ModuleUpdate where
  | newExplicit (path : ModulePath)
  | newImplicit (qualifier : Reference)
  | delete (qualifier : Reference)
deriving DecidableEq

def ModuleUpdate.qualifier : ModuleUpdate → Reference
  | newExplicit path => path.qualifier
  | newImplicit qualifier => qualifier
  | delete qualifier => qualifier

def processExplicitUpdate : ExplicitModules.Update → ModuleUpdate
  | .new path => .newExplicit path
  | .changed path => .newExplicit path
  | .delete qualifier => .delete qualifier

def processImplicitUpdate : ImplicitModules.Update → ModuleUpdate
  | .new qualifier => .newImplicit qualifier
  | .delete qualifier => .delete qualifier

/-- Explicit updates shadow implicit updates. -/
def combineExplicitsAndImplicitModuleUpdates (explicitUpdates : List ExplicitModules.Update)
    (implicitUpdates : List ImplicitModules.Update) : List ModuleUpdate :=
  explicitUpdates.map processExplicitUpdate ++
    (implicitUpdates.filter fun update =>
      update.qualifier ∉ explicitUpdates.map ExplicitModules.Update.qualifier).map
        processImplicitUpdate

def update (configuration : Configuration) (pathUpdates : List PathUpdate) (layouts : Layouts) :
    Except Failure (Layouts × List ModuleUpdate) := do
  let (explicitModules, explicitUpdates) ←
    ExplicitModules.updateModulePaths configuration pathUpdates layouts.explicitModules
  let (implicitModules, implicitUpdates) :=
    ImplicitModules.updateModulePaths pathUpdates layouts.implicitModules
  pure (⟨explicitModules, implicitModules⟩,
    combineExplicitsAndImplicitModuleUpdates explicitUpdates implicitUpdates)

def create (configuration : Configuration) (files : List ModulePath) : Except Failure Layouts := do
  let explicitModules ← ExplicitModules.create configuration files
  pure ⟨explicitModules, ImplicitModules.create explicitModules⟩

inductive ModuleLookup where
  | explicit (path : ModulePath)
  | implicit
  | notFound
deriving DecidableEq

def modulePathOfQualifier (table : ExplicitModules.Table) (qualifier : Reference) :
    Option ModulePath :=
  (table.lookup qualifier).bind List.head?

def lookUpQualifier (layouts : Layouts) (qualifier : Reference) : ModuleLookup :=
  match modulePathOfQualifier layouts.explicitModules qualifier with
  | some path => .explicit path
  | none =>
    if ImplicitModules.shouldTreatAsImportable
        (ImplicitModules.children layouts.implicitModules qualifier) then .implicit
    else .notFound

/-! ## 4. The first file of a module -/

namespace ExplicitModules

/-- The files of a module are its own, with valid suffixes, and sorted. -/
structure WellFormed (configuration : Configuration) (table : Table) : Prop where
  filed : ∀ qualifier paths, table.lookup qualifier = some paths →
    ∀ path ∈ paths, path.qualifier = qualifier ∧
      isValidFilenameRaw configuration path.raw.relative = true
  sorted : ∀ qualifier paths, table.lookup qualifier = some paths →
    (paths.map ModulePath.raw).Pairwise (Before configuration)

/-- The event leaves the first file of its module where and as it is: what is created or changed
    comes later, or is that file with another flag; what is removed is another file. -/
def Quiet (configuration : Configuration) : Option ModulePath → PathUpdate → Prop
  | some first, .newOrChanged path =>
    0 < sameModuleCompare configuration path first ∨ (path.raw = first.raw ∧ path ≠ first)
  | some first, .remove path => path.raw ≠ first.raw
  | none, .newOrChanged _ => False
  | none, .remove _ => True

/-- The file that an update says is the first one. -/
def Update.first : Update → Option ModulePath
  | new path => some path
  | changed path => some path
  | delete _ => none

theorem WellFormed.insert {configuration : Configuration} {table : Table} {qualifier : Reference}
    {paths : List ModulePath} (h : WellFormed configuration table)
    (hfiled : ∀ path ∈ paths, path.qualifier = qualifier ∧
      isValidFilenameRaw configuration path.raw.relative = true)
    (hsorted : (paths.map ModulePath.raw).Pairwise (Before configuration)) :
    WellFormed configuration (table.insert qualifier paths) := by
  refine ⟨fun other others hlookup => ?_, fun other others hlookup => ?_⟩
  all_goals
    by_cases hsame : other = qualifier
    · subst hsame
      rw [AList.lookup_insert] at hlookup
      obtain rfl := Option.some.inj hlookup
      assumption
    · rw [AList.lookup_insert_ne hsame] at hlookup
      first
        | exact h.filed other others hlookup
        | exact h.sorted other others hlookup

theorem modulePathOfQualifier_insert {table : Table} {qualifier other : Reference}
    {paths : List ModulePath} :
    modulePathOfQualifier (table.insert qualifier paths) other =
      if other = qualifier then paths.head? else modulePathOfQualifier table other := by
  rw [modulePathOfQualifier]
  split_ifs with hsame
  · rw [hsame, AList.lookup_insert]
    rfl
  · rw [AList.lookup_insert_ne hsame]
    rfl

theorem sameModuleCompare_of_raw {configuration : Configuration} {left right : ModulePath}
    (hleft : isValidFilenameRaw configuration left.raw.relative = true)
    (hraw : left.raw = right.raw) : sameModuleCompare configuration left right = 0 := by
  have hfiles : ∀ file ∈ [left, right],
      isValidFilenameRaw configuration file.raw.relative = true := by
    intro file hfile
    rcases List.mem_pair.mp hfile with rfl | rfl
    · exact hleft
    · exact hraw ▸ hleft
  rw [sameModuleCompare_zero hfiles (by simp) (by simp), hraw]

theorem insertBefore_first {configuration : Configuration} {path first : ModulePath}
    {rest paths : List ModulePath}
    (hvalid : isValidFilenameRaw configuration path.raw.relative = true)
    (h : insertBefore configuration path (first :: rest) = .ok paths) :
    (Quiet configuration (some first) (.newOrChanged path) ∧
        paths.head? = some first ∧ first ≠ path) ∨
      (¬Quiet configuration (some first) (.newOrChanged path) ∧ paths.head? = some path) := by
  have hzero : path.raw = first.raw → sameModuleCompare configuration path first = 0 :=
    sameModuleCompare_of_raw hvalid
  obtain ⟨hcompare, hraw, rfl⟩ | ⟨hneg, rfl⟩ | ⟨hpos, inserted, -, rfl⟩ := insertBefore_cases h
  · by_cases hsame : path = first
    · subst hsame
      refine .inr ⟨?_, rfl⟩
      rintro (hpos | ⟨-, hne⟩)
      · omega
      · exact hne rfl
    · exact .inl ⟨.inr ⟨hraw, hsame⟩, rfl, Ne.symm hsame⟩
  · refine .inr ⟨?_, rfl⟩
    rintro (hpos | ⟨hraw, -⟩)
    · omega
    · have := hzero hraw
      omega
  · refine .inl ⟨.inl hpos, rfl, ?_⟩
    rintro rfl
    have := hzero rfl
    omega

theorem removeOne_first {configuration : Configuration} {path first : ModulePath}
    {rest paths : List ModulePath}
    (hvalid : isValidFilenameRaw configuration path.raw.relative = true)
    (hsorted : ((first :: rest).map ModulePath.raw).Pairwise (Before configuration))
    (h : removeOne configuration path (first :: rest) = .ok paths) :
    (Quiet configuration (some first) (.remove path) ∧ paths.head? = some first) ∨
      (¬Quiet configuration (some first) (.remove path) ∧ paths.head? ≠ some first) := by
  have hzero : path.raw = first.raw → sameModuleCompare configuration path first = 0 :=
    sameModuleCompare_of_raw hvalid
  obtain ⟨-, hraw, rfl⟩ | ⟨hneg, rfl⟩ | ⟨hpos, left, -, rfl⟩ := removeOne_cases h
  · refine .inr ⟨fun hquiet => hquiet hraw, fun hhead => ?_⟩
    have hmem : first ∈ paths := List.mem_of_mem_head? hhead
    have hself := (List.pairwise_cons.mp hsorted).1 first.raw (List.mem_map_of_mem hmem)
    exact before_asymm hself hself
  · refine .inl ⟨fun hraw => ?_, rfl⟩
    have := hzero hraw
    omega
  · refine .inl ⟨fun hraw => ?_, rfl⟩
    have := hzero hraw
    omega

/-- What one event does: it is quiet and no update comes, or an update comes with what is then the
    first file. -/
def Effect (configuration : Configuration) (pathUpdate : PathUpdate) (first next : Option ModulePath)
    (emitted : Option Update) : Prop :=
  (Quiet configuration first pathUpdate ∧ emitted = none ∧ next = first) ∨
    (¬Quiet configuration first pathUpdate ∧ ∃ update, emitted = some update ∧
      update.qualifier = pathUpdate.modulePath.qualifier ∧ update.first = next)

section Step

variable {configuration : Configuration} {table table' : Table} {emitted : Option Update}

theorem newOrChanged_effect (hwell : WellFormed configuration table) {path : ModulePath}
    (hvalid : isValidFilenameRaw configuration path.raw.relative = true)
    (h : processModulePathUpdate configuration table (.newOrChanged path) = .ok (table', emitted)) :
    ∃ paths, table' = table.insert path.qualifier paths ∧
      WellFormed configuration table' ∧
        Effect configuration (.newOrChanged path) (modulePathOfQualifier table path.qualifier)
          paths.head? emitted := by
  rw [processModulePathUpdate] at h
  cases hlookup : table.lookup path.qualifier with
  | none =>
    rw [hlookup] at h
    obtain ⟨rfl, rfl⟩ := Prod.mk.inj (Except.ok.inj h)
    refine ⟨[path], rfl, hwell.insert (fun file hfile => ?_) (List.pairwise_singleton _ _), .inr ?_⟩
    · rw [List.mem_singleton.mp hfile]
      exact ⟨rfl, hvalid⟩
    · rw [modulePathOfQualifier, hlookup]
      exact ⟨id, _, rfl, rfl, rfl⟩
  | some paths =>
    simp only [hlookup, insertModulePath_eq] at h
    cases hinsert : insertBefore configuration path paths with
    | error failure => rw [hinsert] at h; cases h
    | ok newPaths =>
      rw [hinsert] at h
      obtain ⟨rfl, rfl⟩ := Prod.mk.inj (Except.ok.inj h)
      have hfiled := hwell.filed _ _ hlookup
      have hfiles : ∀ file ∈ path :: paths,
          isValidFilenameRaw configuration file.raw.relative = true := by
        intro file hfile
        rcases List.mem_cons.mp hfile with rfl | hold
        · exact hvalid
        · exact (hfiled file hold).2
      refine ⟨newPaths, rfl, hwell.insert (fun file hfile => ?_)
        (pairwise_insertBefore hfiles List.mem_cons_self (List.subset_cons_self _ _)
          (hwell.sorted _ _ hlookup) hinsert), ?_⟩
      · rcases (mem_insertBefore hinsert).1 file hfile with rfl | hold
        · exact ⟨rfl, hvalid⟩
        · exact hfiled file hold
      · rw [modulePathOfQualifier, hlookup]
        cases paths with
        | nil =>
          obtain rfl := Except.ok.inj hinsert
          exact .inr ⟨id, .changed path, if_pos rfl, rfl, rfl⟩
        | cons first rest =>
          rcases insertBefore_first hvalid hinsert with ⟨hquiet, hhead, hne⟩ | ⟨hquiet, hhead⟩
          · refine .inl ⟨hquiet, if_neg fun heq => ?_, hhead⟩
            exact hne (Option.some.inj (hhead.symm.trans heq))
          · exact .inr ⟨hquiet, .changed path, if_pos hhead, rfl, hhead.symm⟩

theorem remove_effect (hwell : WellFormed configuration table) {path : ModulePath}
    (hvalid : isValidFilenameRaw configuration path.raw.relative = true)
    (h : processModulePathUpdate configuration table (.remove path) = .ok (table', emitted)) :
    (table' = table ∧ table.lookup path.qualifier = none ∧ emitted = none) ∨
      ∃ paths, table' = table.insert path.qualifier paths ∧
        WellFormed configuration table' ∧
          Effect configuration (.remove path) (modulePathOfQualifier table path.qualifier)
            paths.head? emitted := by
  rw [processModulePathUpdate] at h
  cases hlookup : table.lookup path.qualifier with
  | none =>
    rw [hlookup] at h
    obtain ⟨rfl, rfl⟩ := Prod.mk.inj (Except.ok.inj h)
    exact .inl ⟨rfl, rfl, rfl⟩
  | some paths =>
    right
    cases paths with
    | nil =>
      rw [hlookup] at h
      obtain ⟨rfl, rfl⟩ := Prod.mk.inj (Except.ok.inj h)
      refine ⟨[], rfl, hwell.insert
        (fun _ hfile => absurd hfile List.not_mem_nil) List.Pairwise.nil, .inl ?_⟩
      rw [modulePathOfQualifier, hlookup]
      exact ⟨trivial, rfl, rfl⟩
    | cons first rest =>
      simp only [hlookup, removeModulePath_eq] at h
      cases hremove : removeOne configuration path (first :: rest) with
      | error failure => rw [hremove] at h; cases h
      | ok left =>
        rw [hremove] at h
        have hsub := removeOne_sublist hremove
        have hsorted := hwell.sorted _ _ hlookup
        have hwell' : WellFormed configuration (table.insert path.qualifier left) :=
          hwell.insert (fun file hfile => hwell.filed _ _ hlookup file (hsub.subset hfile))
            (hsorted.sublist (hsub.map _))
        have hfirst := removeOne_first hvalid hsorted hremove
        have hmodule : modulePathOfQualifier table path.qualifier = some first := by
          rw [modulePathOfQualifier, hlookup]
          rfl
        rw [hmodule]
        cases left with
        | nil =>
          obtain ⟨rfl, rfl⟩ := Prod.mk.inj (Except.ok.inj h)
          refine ⟨[], rfl, hwell', .inr ?_⟩
          rcases hfirst with ⟨-, hhead⟩ | ⟨hquiet, -⟩
          · cases hhead
          · exact ⟨hquiet, _, rfl, rfl, rfl⟩
        | cons newPath left =>
          obtain ⟨rfl, rfl⟩ := Prod.mk.inj (Except.ok.inj h)
          refine ⟨newPath :: left, rfl, hwell', ?_⟩
          rcases hfirst with ⟨hquiet, hhead⟩ | ⟨hquiet, hhead⟩
          · exact .inl ⟨hquiet, if_pos (Option.some.inj hhead).symm, hhead⟩
          · have hne : first ≠ newPath := fun heq => hhead (congrArg some heq.symm)
            have hqualifier := (hwell'.filed _ _ (AList.lookup_insert _) newPath
              List.mem_cons_self).1
            exact .inr ⟨hquiet, .changed newPath, if_neg hne, hqualifier, rfl⟩

/-- **One event**: nothing changes for other modules, and for its own what `Effect` says. -/
theorem processModulePathUpdate_effect (hwell : WellFormed configuration table)
    {pathUpdate : PathUpdate}
    (hvalid : isValidFilenameRaw configuration pathUpdate.modulePath.raw.relative = true)
    (h : processModulePathUpdate configuration table pathUpdate = .ok (table', emitted)) :
    WellFormed configuration table' ∧
      (∀ other, other ≠ pathUpdate.modulePath.qualifier →
        modulePathOfQualifier table' other = modulePathOfQualifier table other) ∧
      Effect configuration pathUpdate
        (modulePathOfQualifier table pathUpdate.modulePath.qualifier)
        (modulePathOfQualifier table' pathUpdate.modulePath.qualifier) emitted := by
  have hinsert : ∀ paths, table' = table.insert pathUpdate.modulePath.qualifier paths →
      (∀ other, other ≠ pathUpdate.modulePath.qualifier →
        modulePathOfQualifier table' other = modulePathOfQualifier table other) ∧
      modulePathOfQualifier table' pathUpdate.modulePath.qualifier = paths.head? := by
    rintro paths rfl
    refine ⟨fun other hother => ?_, ?_⟩
    · rw [modulePathOfQualifier_insert, if_neg hother]
    · rw [modulePathOfQualifier_insert, if_pos rfl]
  cases pathUpdate with
  | newOrChanged path =>
    obtain ⟨paths, htable, hwell', heffect⟩ := newOrChanged_effect hwell hvalid h
    obtain ⟨hother, hown⟩ := hinsert paths htable
    exact ⟨hwell', hother, hown ▸ heffect⟩
  | remove path =>
    rcases remove_effect hwell hvalid h with ⟨rfl, hlookup, rfl⟩ | ⟨paths, htable, hwell', heffect⟩
    · refine ⟨hwell, fun _ _ => rfl, .inl ⟨?_, rfl, rfl⟩⟩
      simp only [PathUpdate.modulePath, modulePathOfQualifier] at hlookup ⊢
      rw [hlookup]
      trivial
    · obtain ⟨hother, hown⟩ := hinsert paths htable
      exact ⟨hwell', hother, hown ▸ heffect⟩

theorem processModulePath_eq (path : ModulePath) :
    processModulePath configuration table path =
      Prod.fst <$> processModulePathUpdate configuration table (.newOrChanged path) := by
  rw [processModulePath, processModulePathUpdate]
  cases table.lookup path.qualifier with
  | none => rfl
  | some paths =>
    dsimp only
    cases insertModulePath configuration path paths <;> rfl

theorem wellFormed_processModulePath (hwell : WellFormed configuration table) {path : ModulePath}
    (hvalid : isValidFilenameRaw configuration path.raw.relative = true)
    (h : processModulePath configuration table path = .ok table') :
    WellFormed configuration table' := by
  rw [processModulePath_eq] at h
  cases hstep : processModulePathUpdate configuration table (.newOrChanged path) with
  | error failure => rw [hstep] at h; cases h
  | ok step =>
    rw [hstep] at h
    obtain rfl := Except.ok.inj h
    obtain ⟨-, -, hwell', -⟩ := newOrChanged_effect hwell hvalid hstep
    exact hwell'

end Step

theorem wellFormed_create {configuration : Configuration} {files : List ModulePath} {table : Table}
    (hvalid : ∀ file ∈ files, isValidFilenameRaw configuration file.raw.relative = true)
    (h : create configuration files = .ok table) : WellFormed configuration table := by
  have hfold : ∀ start, WellFormed configuration start →
      files.foldlM (processModulePath configuration) start = .ok table →
        WellFormed configuration table := by
    clear h
    induction files with
    | nil =>
      intro start hstart h
      obtain rfl := Except.ok.inj h
      exact hstart
    | cons file rest ih =>
      intro start hstart h
      rw [List.foldlM_cons] at h
      obtain ⟨next, hnext, h⟩ := bind_eq_ok_iff.mp h
      exact ih (fun other hother => hvalid other (List.mem_cons_of_mem _ hother)) next
        (wellFormed_processModulePath hstart (hvalid file List.mem_cons_self) hnext) h
  exact hfold ∅ ⟨fun _ _ hlookup => (by cases hlookup), fun _ _ hlookup => (by cases hlookup)⟩ h

/-- All events of the module are quiet. -/
def QuietBatch (configuration : Configuration) (first : Option ModulePath) (qualifier : Reference)
    (pathUpdates : List PathUpdate) : Prop :=
  ∀ pathUpdate ∈ pathUpdates, pathUpdate.modulePath.qualifier = qualifier →
    Quiet configuration first pathUpdate

/-- The last update of a module. -/
def lastOf (qualifier : Reference) (updates : List Update) : Option Update :=
  (updates.filter (·.qualifier = qualifier)).getLast?

theorem lastOf_cons (qualifier : Reference) (update : Update) (updates : List Update) :
    lastOf qualifier (update :: updates) =
      (lastOf qualifier updates).or (if update.qualifier = qualifier then some update else none) := by
  rw [lastOf, lastOf, List.filter_cons]
  split_ifs with hdecide hqualifier hqualifier
  · rw [List.getLast?_cons]
    cases (updates.filter (·.qualifier = qualifier)).getLast? <;> rfl
  · exact absurd (of_decide_eq_true hdecide) hqualifier
  · exact absurd (decide_eq_true hqualifier) hdecide
  · exact Option.or_none.symm

section Batch

variable {configuration : Configuration}

/-- **The events of a batch**: for each module either all are quiet and no update comes, or the last
    update has what is then the first file. -/
theorem processModulePathUpdates_effect {pathUpdates : List PathUpdate} {table table' : Table}
    {updates : List Update} (hwell : WellFormed configuration table)
    (hvalid : ∀ pathUpdate ∈ pathUpdates,
      isValidFilenameRaw configuration pathUpdate.modulePath.raw.relative = true)
    (h : processModulePathUpdates configuration table pathUpdates = .ok (table', updates)) :
    WellFormed configuration table' ∧ ∀ qualifier,
      (QuietBatch configuration (modulePathOfQualifier table qualifier) qualifier pathUpdates ∧
        lastOf qualifier updates = none ∧
          modulePathOfQualifier table' qualifier = modulePathOfQualifier table qualifier) ∨
      (¬QuietBatch configuration (modulePathOfQualifier table qualifier) qualifier pathUpdates ∧
        ∃ update, lastOf qualifier updates = some update ∧
          update.first = modulePathOfQualifier table' qualifier) := by
  induction pathUpdates generalizing table updates with
  | nil =>
    obtain ⟨rfl, rfl⟩ := Prod.mk.inj (Except.ok.inj h)
    exact ⟨hwell, fun qualifier =>
      .inl ⟨fun _ hmem => absurd hmem List.not_mem_nil, rfl, rfl⟩⟩
  | cons pathUpdate rest ih =>
    rw [processModulePathUpdates] at h
    obtain ⟨⟨middle, emitted⟩, hstep, h⟩ := bind_eq_ok_iff.mp h
    obtain ⟨⟨table'', later⟩, hrest, h⟩ := bind_eq_ok_iff.mp h
    obtain ⟨rfl, rfl⟩ := Prod.mk.inj (Except.ok.inj h)
    obtain ⟨hmiddle, hother, heffect⟩ :=
      processModulePathUpdate_effect hwell (hvalid pathUpdate List.mem_cons_self) hstep
    obtain ⟨hwell', hlater⟩ :=
      ih hmiddle (fun next hnext => hvalid next (List.mem_cons_of_mem _ hnext)) hrest
    refine ⟨hwell', fun qualifier => ?_⟩
    have hcons : ∀ first, QuietBatch configuration first qualifier (pathUpdate :: rest) ↔
        (pathUpdate.modulePath.qualifier = qualifier →
          Quiet configuration first pathUpdate) ∧
        QuietBatch configuration first qualifier rest := fun first => List.forall_mem_cons
    have hspec := hlater qualifier
    by_cases hown : pathUpdate.modulePath.qualifier = qualifier
    · rw [hown] at heffect
      rcases heffect with ⟨hquiet, rfl, hsame⟩ | ⟨hloud, update, rfl, hqualifier, hfirst⟩
      · rw [hsame] at hspec
        rw [hcons, Option.toList_none, List.nil_append]
        exact hspec.imp (And.imp_left fun hrest => ⟨fun _ => hquiet, hrest⟩)
          (And.imp_left fun hrest hboth => hrest hboth.2)
      · rw [Option.toList_some, List.singleton_append, lastOf_cons,
          if_pos (hqualifier.trans hown)]
        refine .inr ⟨fun hboth => hloud (((hcons _).mp hboth).1 hown), ?_⟩
        rcases hspec with ⟨-, hnone, hsame⟩ | ⟨-, later, hlast, hlaterFirst⟩
        · exact ⟨update, by rw [hnone]; rfl, hfirst.trans hsame.symm⟩
        · exact ⟨later, by rw [hlast]; rfl, hlaterFirst⟩
    · have hemitted : lastOf qualifier (emitted.toList ++ later) = lastOf qualifier later := by
        rcases heffect with ⟨-, rfl, -⟩ | ⟨-, update, rfl, hqualifier, -⟩
        · rfl
        · rw [Option.toList_some, List.singleton_append, lastOf_cons,
            if_neg (hqualifier ▸ hown), Option.or_none]
      rw [hother qualifier (Ne.symm hown)] at hspec
      rw [hcons, hemitted]
      exact hspec.imp (And.imp_left fun hrest => ⟨fun h => absurd h hown, hrest⟩)
        (And.imp_left fun hrest hboth => hrest hboth.2)

theorem mergeUpdate_spec {update next : Update} {earlier : Option Update}
    (hearlier : ∀ old, earlier = some old → old.qualifier = update.qualifier)
    (h : mergeUpdate update earlier = .ok next) :
    next.first = update.first ∧ next.qualifier = update.qualifier := by
  cases earlier with
  | none =>
    obtain rfl := Except.ok.inj h
    exact ⟨rfl, rfl⟩
  | some old =>
    cases update <;> cases old <;>
      first
        | (obtain rfl := Except.ok.inj h; exact ⟨rfl, rfl⟩)
        | cases h

/-- Merging keeps the first file of each module's last update. -/
theorem foldlM_processUpdate {updates : List Update} {merged merged' : AssocMap Reference Update}
    (hkeyed : ∀ qualifier update, merged.lookup qualifier = some update →
      update.qualifier = qualifier)
    (h : updates.foldlM processUpdate merged = .ok merged') :
    (∀ qualifier update, merged'.lookup qualifier = some update → update.qualifier = qualifier) ∧
      ∀ qualifier, (merged'.lookup qualifier).map Update.first =
        ((lastOf qualifier updates).map Update.first).or
          ((merged.lookup qualifier).map Update.first) := by
  induction updates generalizing merged with
  | nil =>
    obtain rfl := Except.ok.inj h
    exact ⟨hkeyed, fun _ => rfl⟩
  | cons update rest ih =>
    rw [List.foldlM_cons, processUpdate] at h
    cases hmerge : mergeUpdate update (merged.lookup update.qualifier) with
    | error failure => rw [hmerge] at h; cases h
    | ok next =>
      rw [hmerge] at h
      obtain ⟨hfirst, hqualifier⟩ := mergeUpdate_spec (hkeyed _) hmerge
      have hkeyed' : ∀ qualifier value,
          (merged.insert update.qualifier next).lookup qualifier = some value →
            value.qualifier = qualifier := by
        intro qualifier value hlookup
        by_cases hsame : qualifier = update.qualifier
        · subst hsame
          rw [AList.lookup_insert] at hlookup
          exact Option.some.inj hlookup ▸ hqualifier
        · rw [AList.lookup_insert_ne hsame] at hlookup
          exact hkeyed qualifier value hlookup
      obtain ⟨hresult, hlast⟩ := ih hkeyed' h
      refine ⟨hresult, fun qualifier => ?_⟩
      rw [hlast, lastOf_cons]
      by_cases hsame : update.qualifier = qualifier
      · subst hsame
        rw [AList.lookup_insert, if_pos rfl, Option.map_some, hfirst]
        cases lastOf update.qualifier rest <;> rfl
      · rw [AList.lookup_insert_ne (Ne.symm hsame), if_neg hsame, Option.or_none]

/-- **The explicit updates**: at most one for each module, with its first file afterwards, and none
    if and only if all events of the module are quiet. -/
theorem updateModulePaths_effect {pathUpdates : List PathUpdate} {table table' : Table}
    {updates : List Update} (hwell : WellFormed configuration table)
    (hvalid : ∀ pathUpdate ∈ pathUpdates,
      isValidFilenameRaw configuration pathUpdate.modulePath.raw.relative = true)
    (h : updateModulePaths configuration pathUpdates table = .ok (table', updates)) :
    WellFormed configuration table' ∧ (updates.map Update.qualifier).Nodup ∧
      (∀ update ∈ updates, update.first = modulePathOfQualifier table' update.qualifier) ∧
      ∀ qualifier,
        (QuietBatch configuration (modulePathOfQualifier table qualifier) qualifier pathUpdates →
          qualifier ∉ updates.map Update.qualifier ∧
            modulePathOfQualifier table' qualifier = modulePathOfQualifier table qualifier) ∧
        (¬QuietBatch configuration (modulePathOfQualifier table qualifier) qualifier pathUpdates →
          qualifier ∈ updates.map Update.qualifier) := by
  rw [updateModulePaths] at h
  obtain ⟨⟨last, emitted⟩, hprocess, h⟩ := bind_eq_ok_iff.mp h
  obtain ⟨merged', hmerged, h⟩ := bind_eq_ok_iff.mp h
  obtain ⟨rfl, rfl⟩ := Prod.mk.inj (Except.ok.inj h)
  rw [mergeUpdates] at hmerged
  obtain ⟨merged, hmerge, h⟩ := bind_eq_ok_iff.mp hmerged
  obtain rfl := Except.ok.inj h
  obtain ⟨hwell', heffect⟩ := processModulePathUpdates_effect hwell hvalid hprocess
  obtain ⟨hkeyed, hlast⟩ := foldlM_processUpdate (fun _ _ hlookup => by cases hlookup) hmerge
  have hentry : ∀ entry ∈ merged.entries, entry.2.qualifier = entry.1 := fun entry hmem =>
    hkeyed entry.1 entry.2 (AList.mem_lookup_iff.mpr hmem)
  have hkeys : (merged.entries.map Sigma.snd).map Update.qualifier = merged.keys := by
    rw [List.map_map]
    exact List.map_congr_left hentry
  have hlookup : ∀ qualifier, (merged.lookup qualifier).map Update.first =
      (lastOf qualifier emitted).map Update.first := fun qualifier => by
    rw [hlast]
    exact Option.or_none
  refine ⟨hwell', hkeys ▸ merged.keys_nodup, fun update hupdate => ?_, fun qualifier => ?_⟩
  · obtain ⟨⟨key, value⟩, hmem, rfl⟩ := List.mem_map.mp hupdate
    have hfound := AList.mem_lookup_iff.mpr hmem
    have hfirst := hlookup key
    rw [hfound] at hfirst
    rw [hentry _ hmem]
    rcases heffect key with ⟨-, hnone, -⟩ | ⟨-, later, hlater, hlaterFirst⟩
    · rw [hnone] at hfirst
      cases hfirst
    · rw [hlater] at hfirst
      exact (Option.some.inj hfirst).trans hlaterFirst
  · have hmem : qualifier ∈ (merged.entries.map Sigma.snd).map Update.qualifier ↔
        (lastOf qualifier emitted).isSome := by
      rw [hkeys, ← AList.mem_keys, ← AList.lookup_isSome, ← Option.isSome_map, hlookup,
        Option.isSome_map]
    rw [hmem]
    rcases heffect qualifier with ⟨hquiet, hnone, hsame⟩ | ⟨hloud, later, hlater, -⟩
    · rw [hnone]
      exact ⟨fun _ => ⟨Bool.false_ne_true, hsame⟩, fun hloud => absurd hquiet hloud⟩
    · rw [hlater]
      exact ⟨fun hquiet => absurd hquiet hloud, fun _ => rfl⟩

end Batch

end ExplicitModules

/-! ## 5. The children of a package -/

namespace ImplicitModules

/-- The flags are those of the children at the start and now. -/
def Tracks (initial : Table) (state : Table × AssocMap Reference Existence) : Prop :=
  ∀ qualifier,
    (state.2.lookup qualifier = none → children state.1 qualifier = children initial qualifier) ∧
      ∀ existence, state.2.lookup qualifier = some existence →
        existence = ⟨shouldTreatAsImportable (children initial qualifier),
          shouldTreatAsImportable (children state.1 qualifier)⟩

theorem children_insert (table : Table) (qualifier other : Reference) (raws : Finset Raw) :
    children (table.insert qualifier raws) other =
      if other = qualifier then raws else children table other := by
  rw [children]
  split_ifs with hsame
  · rw [hsame, AList.lookup_insert]
    rfl
  · rw [AList.lookup_insert_ne hsame]
    rfl

theorem tracks_step {initial : Table} {state : Table × AssocMap Reference Existence}
    (h : Tracks initial state) (pathUpdate : PathUpdate) :
    Tracks initial (processModulePathUpdate state pathUpdate) := by
  rw [processModulePathUpdate]
  split
  · exact h
  · rename_i parent rawChild hparent
    intro qualifier
    rw [AssocMap.lookup_update, children_insert]
    split_ifs with hsame
    · subst hsame
      refine ⟨fun hnone => (by cases hnone), fun existence hexistence => ?_⟩
      obtain ⟨hnone, hsome⟩ := h qualifier
      obtain rfl := Option.some.inj hexistence
      congr 1
      cases hlookup : state.2.lookup qualifier with
      | none => rw [Option.elim_none, hnone hlookup]
      | some earlier => rw [Option.elim_some, hsome earlier hlookup]
    · exact h qualifier

theorem tracks_foldl {initial : Table} (pathUpdates : List PathUpdate)
    {state : Table × AssocMap Reference Existence} (h : Tracks initial state) :
    Tracks initial (pathUpdates.foldl processModulePathUpdate state) := by
  induction pathUpdates generalizing state with
  | nil => exact h
  | cons pathUpdate rest ih => exact ih (tracks_step h pathUpdate)

theorem toUpdate_qualifier {qualifier : Reference} {existence : Existence} {update : Update}
    (h : existence.toUpdate qualifier = some update) : update.qualifier = qualifier := by
  obtain ⟨before, after⟩ := existence
  cases before <;> cases after <;> cases h <;> rfl

theorem toUpdate_isSome (qualifier : Reference) (existence : Existence) :
    (existence.toUpdate qualifier).isSome ↔ existence.existedBefore ≠ existence.existsAfter := by
  obtain ⟨before, after⟩ := existence
  cases before <;> cases after <;> simp [Existence.toUpdate]

/-- **The implicit updates**: at most one for each package, and one if and only if it has got its
    first child or lost its last one. -/
theorem updateModulePaths_effect (pathUpdates : List PathUpdate) (table : Table) :
    ((updateModulePaths pathUpdates table).2.map Update.qualifier).Nodup ∧
      ∀ qualifier, qualifier ∈ (updateModulePaths pathUpdates table).2.map Update.qualifier ↔
        shouldTreatAsImportable (children table qualifier) ≠
          shouldTreatAsImportable
            (children (updateModulePaths pathUpdates table).1 qualifier) := by
  have htracks : Tracks table (pathUpdates.foldl processModulePathUpdate (table, ∅)) :=
    tracks_foldl pathUpdates fun _ => ⟨fun _ => rfl, fun _ hlookup => by cases hlookup⟩
  rw [updateModulePaths]
  generalize pathUpdates.foldl processModulePathUpdate (table, ∅) = state at htracks ⊢
  constructor
  · exact AssocMap.nodup_filterMap fun entry _ update hupdate => toUpdate_qualifier hupdate
  · intro qualifier
    obtain ⟨hnone, hsome⟩ := htracks qualifier
    constructor
    · intro hmem
      obtain ⟨update, hupdate, rfl⟩ := List.mem_map.mp hmem
      obtain ⟨⟨key, existence⟩, hentry, hto⟩ := List.mem_filterMap.mp hupdate
      obtain rfl := toUpdate_qualifier hto
      have hlookup := AList.mem_lookup_iff.mpr hentry
      have hne := (toUpdate_isSome _ existence).mp (Option.isSome_iff_exists.mpr ⟨_, hto⟩)
      rw [hsome existence hlookup] at hne
      exact hne
    · intro hne
      cases hlookup : state.2.lookup qualifier with
      | none => exact absurd (by rw [hnone hlookup]) hne
      | some existence =>
        have hexistence := hsome existence hlookup
        have hto := (toUpdate_isSome qualifier existence).mpr (by rw [hexistence]; exact hne)
        obtain ⟨update, hupdate⟩ := Option.isSome_iff_exists.mp hto
        exact List.mem_map.mpr ⟨update, List.mem_filterMap.mpr
          ⟨⟨qualifier, existence⟩, AList.mem_lookup_iff.mp hlookup, hupdate⟩,
          toUpdate_qualifier hupdate⟩

theorem mem_children_step {state : Table × AssocMap Reference Existence}
    {pathUpdate : PathUpdate} {qualifier : Reference} {raw : Raw} :
    raw ∈ children (processModulePathUpdate state pathUpdate).1 qualifier ↔
      (∃ path, pathUpdate = .newOrChanged path ∧
          parentQualifierAndRaw path = some (qualifier, raw)) ∨
        (raw ∈ children state.1 qualifier ∧
          ∀ path, pathUpdate = .remove path →
            parentQualifierAndRaw path ≠ some (qualifier, raw)) := by
  rw [processModulePathUpdate]
  cases pathUpdate with
  | newOrChanged path =>
    simp only [PathUpdate.modulePath, PathUpdate.newOrChanged.injEq, exists_eq_left', reduceCtorEq,
      IsEmpty.forall_iff, implies_true, and_true]
    cases hparent : parentQualifierAndRaw path with
    | none => simp
    | some parent =>
      obtain ⟨package, rawChild⟩ := parent
      simp only [children_insert, nextChildren, Option.some.injEq, Prod.mk.injEq]
      split_ifs with hsame
      · rw [hsame, Finset.mem_insert, eq_comm]
        simp
      · simp [Ne.symm hsame]
  | remove path =>
    simp only [PathUpdate.modulePath, PathUpdate.remove.injEq, forall_eq', reduceCtorEq,
      false_and, exists_false, false_or]
    cases hparent : parentQualifierAndRaw path with
    | none => simp
    | some parent =>
      obtain ⟨package, rawChild⟩ := parent
      simp only [children_insert, nextChildren, Ne, Option.some.injEq, Prod.mk.injEq]
      split_ifs with hsame
      · rw [hsame, Finset.mem_erase, and_comm]
        simp [eq_comm]
      · simp [Ne.symm hsame]

/-- A file is a child afterwards if it is created, or was one and is not removed. -/
theorem mem_children_foldl {pathUpdates : List PathUpdate}
    (hdistinct : (pathUpdates.map (·.modulePath.raw)).Nodup)
    (state : Table × AssocMap Reference Existence) {qualifier : Reference} {raw : Raw} :
    raw ∈ children (pathUpdates.foldl processModulePathUpdate state).1 qualifier ↔
      (∃ path, .newOrChanged path ∈ pathUpdates ∧
          parentQualifierAndRaw path = some (qualifier, raw)) ∨
        (raw ∈ children state.1 qualifier ∧ ∀ path, .remove path ∈ pathUpdates →
          parentQualifierAndRaw path ≠ some (qualifier, raw)) := by
  induction pathUpdates generalizing state with
  | nil => simp
  | cons pathUpdate rest ih =>
    obtain ⟨hfirst, hrest⟩ := List.nodup_cons.mp hdistinct
    have hraw : ∀ path, parentQualifierAndRaw path = some (qualifier, raw) → path.raw = raw := by
      intro path hpath
      obtain ⟨parent, -, hpair⟩ := Option.map_eq_some_iff.mp hpath
      exact (Prod.mk.inj hpair).2
    have hapart : ∀ path, parentQualifierAndRaw path = some (qualifier, raw) →
        pathUpdate.modulePath.raw = raw → .remove path ∉ rest := fun path hpath hown hmem =>
      hfirst (List.mem_map.mpr ⟨_, hmem, (hraw path hpath).trans hown.symm⟩)
    rw [List.foldl_cons, ih hrest, mem_children_step]
    constructor
    · rintro (⟨path, hmem, hpath⟩ | ⟨⟨path, rfl, hpath⟩ | ⟨hold, hkeep⟩, hleft⟩)
      · exact .inl ⟨path, List.mem_cons_of_mem _ hmem, hpath⟩
      · exact .inl ⟨path, List.mem_cons_self, hpath⟩
      · refine .inr ⟨hold, fun path hmem hpath => ?_⟩
        rcases List.mem_cons.mp hmem with heq | hmem
        · exact hkeep path heq.symm hpath
        · exact hleft path hmem hpath
    · rintro (⟨path, hmem, hpath⟩ | ⟨hold, hkeep⟩)
      · rcases List.mem_cons.mp hmem with heq | hmem
        · refine .inr ⟨.inl ⟨path, heq.symm, hpath⟩, fun other hother hparent => ?_⟩
          exact hapart other hparent (heq ▸ hraw path hpath) hother
        · exact .inl ⟨path, hmem, hpath⟩
      · exact .inr ⟨.inr ⟨hold, fun path heq => hkeep path (heq ▸ List.mem_cons_self)⟩,
          fun path hmem => hkeep path (List.mem_cons_of_mem _ hmem)⟩

end ImplicitModules

end ModuleTracker

end Pysa
