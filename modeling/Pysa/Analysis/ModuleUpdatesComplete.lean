/-
  Subject: WHEN THE UPDATES OF A BATCH ARE COMPLETE (`moduleTracker.ml`).

  * `Complete` -- every module that changes is in the list, once, with its file if it has one;
  * `Steady` -- where the first file of a module stays, it keeps its flag, and the package does not
    get its first child or lose its last one;
  * `complete_iff` -- in every reachable state the one is the other.
-/
import Pysa.Analysis.ModuleUpdates

namespace Pysa.ModuleTracker

open ModulePath

/-- Events for files with valid suffixes, at most one for each path. -/
structure Batch (configuration : Configuration) where
  pathUpdates : List PathUpdate
  valid : ∀ pathUpdate ∈ pathUpdates,
    isValidFilenameRaw configuration pathUpdate.modulePath.raw.relative = true
  distinct : (pathUpdates.map (·.modulePath.raw)).Nodup

/-- The states of the tracker. -/
inductive Reachable (configuration : Configuration) : Layouts → Prop where
  | create {files : List ModulePath} {layouts : Layouts}
      (hvalid : ∀ file ∈ files, isValidFilenameRaw configuration file.raw.relative = true)
      (hcreate : ModuleTracker.create configuration files = .ok layouts) :
      Reachable configuration layouts
  | update {layouts next : Layouts} {updates : List ModuleUpdate}
      (h : Reachable configuration layouts) (batch : Batch configuration)
      (hupdate : ModuleTracker.update configuration batch.pathUpdates layouts =
        .ok (next, updates)) :
      Reachable configuration next

/-- What the list of updates is to say. -/
structure Complete (layouts next : Layouts) (pathUpdates : List PathUpdate)
    (updates : List ModuleUpdate) : Prop where
  changed : ∀ qualifier, lookUpQualifier next qualifier ≠ lookUpQualifier layouts qualifier →
    qualifier ∈ updates.map ModuleUpdate.qualifier
  touched : ∀ path first, .newOrChanged path ∈ pathUpdates →
    lookUpQualifier next path.qualifier = .explicit first → path.raw = first.raw →
      path.qualifier ∈ updates.map ModuleUpdate.qualifier
  explicit : ∀ update ∈ updates, ∀ first,
    lookUpQualifier next update.qualifier = .explicit first → update = .newExplicit first
  once : (updates.map ModuleUpdate.qualifier).Nodup

/-- After the events there is a file below the package. -/
def KeepsChild (layouts : Layouts) (pathUpdates : List PathUpdate) (qualifier : Reference) : Prop :=
  ∃ raw, (∃ path, .newOrChanged path ∈ pathUpdates ∧
      parentQualifierAndRaw path = some (qualifier, raw)) ∨
    (raw ∈ ImplicitModules.children layouts.implicitModules qualifier ∧
      ∀ path, .remove path ∈ pathUpdates → parentQualifierAndRaw path ≠ some (qualifier, raw))

/-- A module whose first file stays where it is: the file does not come with another flag, and
    whether there are files below it stays the same. -/
def Steady (configuration : Configuration) (layouts : Layouts) (pathUpdates : List PathUpdate) :
    Prop :=
  ∀ qualifier first, modulePathOfQualifier layouts.explicitModules qualifier = some first →
    ExplicitModules.QuietBatch configuration (some first) qualifier pathUpdates →
      (∀ path, .newOrChanged path ∈ pathUpdates → path.qualifier = qualifier →
        path.raw ≠ first.raw) ∧
      ((ImplicitModules.children layouts.implicitModules qualifier).Nonempty ↔
        KeepsChild layouts pathUpdates qualifier)

theorem wellFormed_of_reachable {configuration : Configuration} {layouts : Layouts}
    (h : Reachable configuration layouts) :
    ExplicitModules.WellFormed configuration layouts.explicitModules := by
  induction h with
  | create hvalid hcreate =>
    obtain ⟨table, htable, h⟩ := Results.bind_eq_ok_iff.mp hcreate
    obtain rfl := Except.ok.inj h
    exact ExplicitModules.wellFormed_create hvalid htable
  | update _ batch hupdate ih =>
    obtain ⟨⟨table, updates⟩, htable, h⟩ := Results.bind_eq_ok_iff.mp hupdate
    obtain ⟨rfl, -⟩ := Prod.mk.inj (Except.ok.inj h)
    exact (ExplicitModules.updateModulePaths_effect ih batch.valid htable).1

/-! ## The list of updates -/

theorem processExplicitUpdate_qualifier (update : ExplicitModules.Update) :
    (processExplicitUpdate update).qualifier = update.qualifier := by
  cases update <;> rfl

theorem processImplicitUpdate_qualifier (update : ImplicitModules.Update) :
    (processImplicitUpdate update).qualifier = update.qualifier := by
  cases update <;> rfl

theorem qualifiers_combine (explicitUpdates : List ExplicitModules.Update)
    (implicitUpdates : List ImplicitModules.Update) :
    (combineExplicitsAndImplicitModuleUpdates explicitUpdates implicitUpdates).map
        ModuleUpdate.qualifier =
      explicitUpdates.map ExplicitModules.Update.qualifier ++
        (implicitUpdates.map ImplicitModules.Update.qualifier).filter
          (· ∉ explicitUpdates.map ExplicitModules.Update.qualifier) := by
  rw [combineExplicitsAndImplicitModuleUpdates, List.map_append, List.map_map, List.map_map,
    List.filter_map]
  congr 1
  · exact List.map_congr_left fun update _ => processExplicitUpdate_qualifier update
  · exact List.map_congr_left fun update _ => processImplicitUpdate_qualifier update

theorem shouldTreatAsImportable_iff {raws : Finset Raw} :
    ImplicitModules.shouldTreatAsImportable raws = true ↔ raws.Nonempty := by
  rw [ImplicitModules.shouldTreatAsImportable, decide_eq_true_iff, Finset.nonempty_iff_ne_empty]

theorem lookUpQualifier_eq_explicit {layouts : Layouts} {qualifier : Reference}
    {first : ModulePath} :
    lookUpQualifier layouts qualifier = .explicit first ↔
      modulePathOfQualifier layouts.explicitModules qualifier = some first := by
  rw [lookUpQualifier]
  cases modulePathOfQualifier layouts.explicitModules qualifier with
  | none => dsimp only; split_ifs <;> simp
  | some path => simp

/-- The parts that one update of the tracker is made of. -/
theorem update_parts {configuration : Configuration} {layouts next : Layouts}
    {pathUpdates : List PathUpdate} {updates : List ModuleUpdate}
    (h : update configuration pathUpdates layouts = .ok (next, updates)) :
    ∃ explicitUpdates,
      ExplicitModules.updateModulePaths configuration pathUpdates layouts.explicitModules =
          .ok (next.explicitModules, explicitUpdates) ∧
        next.implicitModules =
          (ImplicitModules.updateModulePaths pathUpdates layouts.implicitModules).1 ∧
        updates = combineExplicitsAndImplicitModuleUpdates explicitUpdates
          (ImplicitModules.updateModulePaths pathUpdates layouts.implicitModules).2 := by
  obtain ⟨⟨table, explicitUpdates⟩, htable, h⟩ := Results.bind_eq_ok_iff.mp h
  obtain ⟨rfl, rfl⟩ := Prod.mk.inj (Except.ok.inj h)
  exact ⟨explicitUpdates, htable, rfl, rfl⟩

theorem keepsChild_iff {layouts : Layouts} {pathUpdates : List PathUpdate}
    (hdistinct : (pathUpdates.map (·.modulePath.raw)).Nodup) {qualifier : Reference} :
    KeepsChild layouts pathUpdates qualifier ↔
      (ImplicitModules.children (ImplicitModules.updateModulePaths pathUpdates
        layouts.implicitModules).1 qualifier).Nonempty := by
  rw [KeepsChild, ImplicitModules.updateModulePaths]
  exact exists_congr fun _ =>
    (ImplicitModules.mem_children_foldl hdistinct (layouts.implicitModules, ∅)).symm

/-- **The updates are complete**: in every reachable state, for every batch, if and only if the
    modules whose first files stay are steady. -/
theorem complete_iff {configuration : Configuration} {layouts next : Layouts}
    {updates : List ModuleUpdate} (hreachable : Reachable configuration layouts)
    (batch : Batch configuration)
    (hupdate : update configuration batch.pathUpdates layouts = .ok (next, updates)) :
    Complete layouts next batch.pathUpdates updates ↔
      Steady configuration layouts batch.pathUpdates := by
  obtain ⟨explicitUpdates, hexplicit, himplicit, rfl⟩ := update_parts hupdate
  obtain ⟨-, hnodup, hfirst, hquiet⟩ := ExplicitModules.updateModulePaths_effect
    (wellFormed_of_reachable hreachable) batch.valid hexplicit
  obtain ⟨hnodup', himplicits⟩ :=
    ImplicitModules.updateModulePaths_effect batch.pathUpdates layouts.implicitModules
  rw [← himplicit] at himplicits
  have htoggle : ∀ qualifier, qualifier ∈ ((ImplicitModules.updateModulePaths batch.pathUpdates
      layouts.implicitModules).2.map ImplicitModules.Update.qualifier) ↔
      ¬((ImplicitModules.children layouts.implicitModules qualifier).Nonempty ↔
        KeepsChild layouts batch.pathUpdates qualifier) := fun qualifier => by
    rw [himplicits, keepsChild_iff batch.distinct, ← himplicit, ← shouldTreatAsImportable_iff,
      ← shouldTreatAsImportable_iff, Ne, Bool.eq_iff_iff]
  have hmem : ∀ qualifier, qualifier ∈ (combineExplicitsAndImplicitModuleUpdates explicitUpdates
      (ImplicitModules.updateModulePaths batch.pathUpdates layouts.implicitModules).2).map
        ModuleUpdate.qualifier ↔
      qualifier ∈ explicitUpdates.map ExplicitModules.Update.qualifier ∨
        ¬((ImplicitModules.children layouts.implicitModules qualifier).Nonempty ↔
          KeepsChild layouts batch.pathUpdates qualifier) := fun qualifier => by
    rw [qualifiers_combine, List.mem_append, List.mem_filter, htoggle, decide_eq_true_iff]
    tauto
  have hstays : ∀ qualifier,
      qualifier ∉ explicitUpdates.map ExplicitModules.Update.qualifier →
        ExplicitModules.QuietBatch configuration
            (modulePathOfQualifier layouts.explicitModules qualifier) qualifier
            batch.pathUpdates ∧
          modulePathOfQualifier next.explicitModules qualifier =
            modulePathOfQualifier layouts.explicitModules qualifier := by
    intro qualifier hnot
    have hbatch := not_not.mp fun hloud => hnot ((hquiet qualifier).2 hloud)
    exact ⟨hbatch, ((hquiet qualifier).1 hbatch).2⟩
  constructor
  · intro hcomplete qualifier first hsome hbatch
    obtain ⟨hnot, hsame⟩ := (hquiet qualifier).1 (hsome ▸ hbatch)
    have hlook : lookUpQualifier next qualifier = .explicit first :=
      lookUpQualifier_eq_explicit.mpr (hsame.trans hsome)
    -- an update of this module would be an implicit one
    have habsent : qualifier ∉ (combineExplicitsAndImplicitModuleUpdates explicitUpdates
        (ImplicitModules.updateModulePaths batch.pathUpdates layouts.implicitModules).2).map
          ModuleUpdate.qualifier := by
      intro hpresent
      obtain ⟨update, hupdate, rfl⟩ := List.mem_map.mp hpresent
      have hnew := hcomplete.explicit update hupdate first hlook
      rcases List.mem_append.mp hupdate with h | h
      · obtain ⟨e, he, rfl⟩ := List.mem_map.mp h
        rw [processExplicitUpdate_qualifier] at hnot
        exact hnot (List.mem_map_of_mem he)
      · obtain ⟨e, -, rfl⟩ := List.mem_map.mp h
        cases e <;> cases hnew
    refine ⟨fun path hpath hqualifier hraw => ?_, ?_⟩
    · subst hqualifier
      exact habsent (hcomplete.touched path first hpath hlook hraw)
    · by_contra htoggled
      exact habsent ((hmem qualifier).mpr (.inr htoggled))
  · intro hsteady
    refine ⟨fun qualifier hchanged => ?_, fun path first hpath hlook hraw => ?_,
      fun update hupdate first hlook => ?_, ?_⟩
    · by_contra habsent
      rw [hmem, not_or, not_not] at habsent
      obtain ⟨hnot, hkeeps⟩ := habsent
      obtain ⟨-, hsame⟩ := hstays qualifier hnot
      rw [keepsChild_iff batch.distinct, ← himplicit, ← shouldTreatAsImportable_iff,
        ← shouldTreatAsImportable_iff, ← Bool.eq_iff_iff] at hkeeps
      rw [lookUpQualifier, lookUpQualifier, hsame, hkeeps] at hchanged
      exact hchanged rfl
    · by_contra habsent
      rw [hmem, not_or] at habsent
      obtain ⟨hbatch, hsame⟩ := hstays path.qualifier habsent.1
      have hsome := hsame.symm.trans (lookUpQualifier_eq_explicit.mp hlook)
      rw [hsome] at hbatch
      exact (hsteady path.qualifier first hsome hbatch).1 path hpath rfl hraw
    · rcases List.mem_append.mp hupdate with h | h
      · obtain ⟨e, he, rfl⟩ := List.mem_map.mp h
        rw [processExplicitUpdate_qualifier] at hlook
        have hown := (hfirst e he).trans (lookUpQualifier_eq_explicit.mp hlook)
        cases e with
        | new path => rw [processExplicitUpdate, Option.some.inj hown]
        | changed path => rw [processExplicitUpdate, Option.some.inj hown]
        | delete qualifier => cases hown
      · obtain ⟨e, he, rfl⟩ := List.mem_map.mp h
        obtain ⟨he, hnot⟩ := List.mem_filter.mp he
        rw [processImplicitUpdate_qualifier] at hlook
        obtain ⟨hbatch, hsame⟩ := hstays e.qualifier (of_decide_eq_true hnot)
        have hsome := hsame.symm.trans (lookUpQualifier_eq_explicit.mp hlook)
        rw [hsome] at hbatch
        exact absurd (hsteady e.qualifier first hsome hbatch).2
          ((htoggle e.qualifier).mp (List.mem_map_of_mem he))
    · rw [qualifiers_combine]
      exact hnodup.append (hnodup'.filter _) fun qualifier hleft hright =>
        of_decide_eq_true (List.mem_filter.mp hright).2 hleft

/-- A stub comes before the file of a package. -/
theorem complete_iff_of_stub :
    ∃ (layouts next : Layouts) (updates : List ModuleUpdate) (batch : Batch []),
      Reachable [] layouts ∧ update [] batch.pathUpdates layouts = .ok (next, updates) ∧
        (Complete layouts next batch.pathUpdates updates ↔ Steady [] layouts batch.pathUpdates) := by
  have hvalid : ∀ file ∈ [(⟨⟨"q/__init__.py", 0⟩, ["q"], true⟩ : ModulePath)],
      isValidFilenameRaw [] file.raw.relative = true := by
    decide
  let batch : Batch [] :=
    ⟨[.newOrChanged ⟨⟨"q/__init__.pyi", 0⟩, ["q"], true⟩], by decide, by decide⟩
  have hok : (create [] [⟨⟨"q/__init__.py", 0⟩, ["q"], true⟩] >>=
      update [] batch.pathUpdates).isOk = true := by
    decide +kernel
  cases hrun : create [] [⟨⟨"q/__init__.py", 0⟩, ["q"], true⟩] >>= update [] batch.pathUpdates with
  | error failure =>
    rw [hrun] at hok
    cases hok
  | ok result =>
    obtain ⟨layouts, hcreate, hupdate⟩ := Results.bind_eq_ok_iff.mp hrun
    exact ⟨layouts, result.1, result.2, batch, .create hvalid hcreate, hupdate,
      complete_iff (.create hvalid hcreate) batch hupdate⟩

/-- A package with an `__init__` file whose last other file goes is reported as deleted, and its
    `__init__` file with another flag is not reported. -/
theorem package_updates_not_complete :
    (∃ (layouts next : Layouts) (updates : List ModuleUpdate) (batch : Batch []),
      Reachable [] layouts ∧ update [] batch.pathUpdates layouts = .ok (next, updates) ∧
        .delete ["q"] ∈ updates ∧
          lookUpQualifier next ["q"] = .explicit ⟨⟨"q/__init__.py", 0⟩, ["q"], true⟩) ∧
    ∃ (layouts next : Layouts) (updates : List ModuleUpdate) (batch : Batch []) (path : ModulePath),
      Reachable [] layouts ∧ update [] batch.pathUpdates layouts = .ok (next, updates) ∧
        batch.pathUpdates = [.newOrChanged path] ∧ updates = [] ∧
          lookUpQualifier next ["q"] = .explicit ⟨⟨"q/__init__.py", 0⟩, ["q"], true⟩ ∧
            path.raw = ⟨"q/__init__.py", 0⟩ := by
  constructor
  · have hvalid : ∀ file ∈ [(⟨⟨"q/__init__.py", 0⟩, ["q"], true⟩ : ModulePath),
        ⟨⟨"q/a.py", 0⟩, ["q", "a"], true⟩], isValidFilenameRaw [] file.raw.relative = true := by
      decide
    exact ⟨_, _, _, ⟨[.remove ⟨⟨"q/a.py", 0⟩, ["q", "a"], true⟩], by decide, by decide⟩,
      .create hvalid rfl, rfl, by decide, by decide⟩
  · have hvalid : ∀ file ∈ [(⟨⟨"q/__init__.py", 0⟩, ["q"], true⟩ : ModulePath)],
        isValidFilenameRaw [] file.raw.relative = true := by
      decide
    exact ⟨_, _, _, ⟨[.newOrChanged ⟨⟨"q/__init__.py", 0⟩, ["q"], false⟩], by decide, by decide⟩,
      ⟨⟨"q/__init__.py", 0⟩, ["q"], false⟩, .create hvalid rfl, rfl, rfl, rfl, by decide, rfl⟩

end Pysa.ModuleTracker
