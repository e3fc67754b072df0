/-
  Subject: THE BUCK BUILD SYSTEM OF A SERVER (`buildSystem.ml`, `BuckBuildSystem` and
    `Initializer.buck`).

  * `update` -- an incremental update. The new build map is installed when the update succeeds; the
    next difference is taken from the map that is installed;
  * `World`, `step` -- the server and the link tree: builds, loads of a saved state, updates;
  * `Observation` -- what a run leaves: the links after the last success, and the artifacts whose
    link a failed update has changed and that no success has reported since;
  * `Follows` -- the invariant: every other artifact has the link of the installed map;
  * `linkTree_follows` -- **after each success the links are those of the map, and the changed ones
    were reported, except at these artifacts**; without a failure in the link tree there are none;
  * `Sample.linkTree_not_follows` -- a link of a failed update stays when its target is reverted.
-/
import Mathlib.Data.List.Induction
import Mathlib.Data.Set.Basic
import Pysa.Ast.Identifier
import Pysa.Buck.LinkTree
import Pysa.Lib.Text

namespace Pysa.Buck

namespace BuildSystem

/-! ## 1. Updates -/

/-- `SourcePath.Event.Kind.t`. -/
inductive SourceKind where
  | createdOrChanged
  | deleted
deriving DecidableEq

structure SourceEvent where
  kind : SourceKind
  /-- The absolute path. -/
  path : String

/-- `BuckBuildSystem.State.t`. -/
structure State where
  targets : List String
  normalizedTargets : List String
  buildMap : BuildMap

def isBuckFile (event : SourceEvent) : Bool :=
  let fileName := (Text.split '/' event.path).getLastD event.path
  fileName = "TARGETS" || fileName = "BUCK"

def shouldRenormalize (paths : List SourceEvent) : Bool := paths.any isBuckFile

/-- `PyrePath.get_relative_to_root`. -/
def getRelativeToRoot (root path : String) : Option String :=
  Identifier.chopPrefix (if Identifier.hasSuffix "/" root then root else root ++ "/") path

/-- `Indexed.lookup_artifact`: the artifacts of a source. -/
def indexedArtifacts (buildMap : BuildMap) (source : String) : List String :=
  buildMap.entries.filterMap fun entry => if entry.2 = source then some entry.1 else none

def lookupArtifact (builder : Builder) (buildMap : BuildMap) (path : String) : List RelativePath :=
  match getRelativeToRoot builder.sourceRoot path with
  | none => []
  | some relativeSourcePath =>
    (indexedArtifacts buildMap relativeSourcePath).map fun relative =>
      ⟨builder.artifactRoot, relative⟩

def shouldReconstructBuildMap (builder : Builder) (state : State) (paths : List String) : Bool :=
  paths.any fun path => (lookupArtifact builder state.buildMap path).isEmpty

variable (builder : Builder) (environment : Environment)

/-- `rebuild_and_update_state`: the state changes only if the rebuild succeeds. -/
def rebuildAndUpdateState (targets : List String) (state : State) (links : Links) :
    Except Failure (List ArtifactEvent) × State × Links :=
  match fullIncrementalBuild builder environment state.buildMap targets links with
  | (.error failure, links) => (.error failure, state, links)
  | (.ok result, links) =>
    (.ok result.changedArtifacts,
      { state with normalizedTargets := result.targets, buildMap := result.buildMap }, links)

def update (sourcePathEvents : List SourceEvent) (state : State) (links : Links) :
    Except Failure (List ArtifactEvent) × State × Links :=
  if shouldRenormalize sourcePathEvents then
    rebuildAndUpdateState builder environment state.targets state links
  else
    let changedPaths :=
      (sourcePathEvents.filter (·.kind = .createdOrChanged)).map SourceEvent.path
    let removedPaths := (sourcePathEvents.filter (·.kind = .deleted)).map SourceEvent.path
    if removedPaths.isEmpty && !shouldReconstructBuildMap builder state changedPaths then
      (.ok [], state, links)
    else rebuildAndUpdateState builder environment state.normalizedTargets state links

/-! ## 2. Runs -/

/-- The build system, if it was initialized, and the links under the artifact root. -/
structure World where
  system : Option State
  links : Links

/-- What is asked of the build system. -/
inductive Request where
  | createFromScratch (targets : List String)
  | createFromSavedState (targets normalizedTargets : List String) (buildMap : BuildMap)
  | update (sourcePathEvents : List SourceEvent)

/-- `ensure_directory_exist_and_clean`. -/
def cleanLinks : Links := fun _ => none

/-- One request. The answer to an update is the list of the changed artifacts. -/
def step (world : World) : Request → Except Failure (List ArtifactEvent) × World
  | .createFromScratch targets =>
    match build builder environment targets cleanLinks with
    | (.error failure, links) => (.error failure, ⟨none, links⟩)
    | (.ok result, links) => (.ok [], ⟨some ⟨targets, result.targets, result.buildMap⟩, links⟩)
  | .createFromSavedState targets normalizedTargets buildMap =>
    match restore builder environment buildMap cleanLinks with
    | (.error failure, links) => (.error failure, ⟨none, links⟩)
    | (.ok (), links) => (.ok [], ⟨some ⟨targets, normalizedTargets, buildMap⟩, links⟩)
  | .update sourcePathEvents =>
    match world.system with
    | none => (.ok [], world)
    | some state =>
      match update builder environment sourcePathEvents state world.links with
      | (answer, state, links) => (answer, ⟨some state, links⟩)

/-- A request, and what happens outside while it is worked on. -/
structure Event where
  request : Request
  environment : Environment

/-- What a run leaves. -/
structure Observation where
  world : World
  /-- The links after the last success. -/
  previous : Links
  /-- The artifacts whose link a failed update has changed, and that were not reported since. -/
  astray : Set String

def startsOver : Request → Prop
  | .createFromScratch _ => True
  | .createFromSavedState _ _ _ => True
  | .update _ => False

/-- The observation after one more event. -/
def observe (observation : Observation) (event : Event) : Observation :=
  match step builder event.environment observation.world event.request with
  | (.ok changedArtifacts, world) =>
    { world := world
      previous := world.links
      astray := {artifact | ¬ startsOver event.request ∧ artifact ∈ observation.astray ∧
        ¬ Reported builder changedArtifacts artifact} }
  | (.error _, world) =>
    { world := world
      previous := observation.previous
      astray := {artifact | artifact ∈ observation.astray ∨
        world.links artifact ≠ observation.world.links artifact} }

def start (links : Links) : Observation := ⟨⟨none, links⟩, links, ∅⟩

def run (links : Links) (events : List Event) : Observation :=
  events.foldl (observe builder) (start links)

/-! ## 3. The invariant -/

variable {builder environment}

/-- Except at the artifacts that went astray, the links are those of the installed map, and were so
    after the last success. -/
def Follows (builder : Builder) (observation : Observation) : Prop :=
  ∀ state, observation.world.system = some state → ∀ artifact, artifact ∉ observation.astray →
    observation.world.links artifact = described builder state.buildMap artifact ∧
      observation.previous artifact = described builder state.buildMap artifact

theorem build_ok {targets : List String} {result : BuildResult} {links : Links}
    (h : build builder environment targets cleanLinks = (.ok result, links)) (artifact : String) :
    links artifact = described builder result.buildMap artifact := by
  unfold build at h
  split at h
  · cases h
  · rename_i buildMap _
    cases hrun : populate builder environment buildMap cleanLinks with
    | mk outcome links₁ =>
      rw [hrun] at h
      cases outcome with
      | error message => cases h
      | ok _ =>
        cases h
        exact (populate_ok hrun artifact).trans (Option.or_none ..)

theorem restore_ok {buildMap : BuildMap} {links : Links}
    (h : restore builder environment buildMap cleanLinks = (.ok (), links)) (artifact : String) :
    links artifact = described builder buildMap artifact := by
  unfold restore at h
  cases hrun : populate builder environment buildMap cleanLinks with
  | mk outcome links₁ =>
    rw [hrun] at h
    cases outcome with
    | error message => cases h
    | ok _ =>
      cases h
      exact (populate_ok hrun artifact).trans (Option.or_none ..)

/-- What an update that succeeds does: the reported artifacts get the links of the new map; the
    others keep theirs, and the two maps agree on them. -/
def Updates (builder : Builder) (changedArtifacts : List ArtifactEvent) (state state' : State)
    (links links' : Links) (artifact : String) : Prop :=
  Reported builder changedArtifacts artifact ∧
      links' artifact = described builder state'.buildMap artifact ∨
    ¬ Reported builder changedArtifacts artifact ∧ links' artifact = links artifact ∧
      described builder state.buildMap artifact = described builder state'.buildMap artifact

theorem rebuildAndUpdateState_ok {targets : List String} {state state' : State}
    {links links' : Links} {changedArtifacts : List ArtifactEvent}
    (h : rebuildAndUpdateState builder environment targets state links =
      (.ok changedArtifacts, state', links')) (artifact : String) :
    Updates builder changedArtifacts state state' links links' artifact := by
  unfold rebuildAndUpdateState at h
  cases hrun : fullIncrementalBuild builder environment state.buildMap targets links with
  | mk outcome links₁ =>
    rw [hrun] at h
    cases outcome with
    | error failure => cases h
    | ok result =>
      cases h
      exact fullIncrementalBuild_ok hrun artifact

theorem update_ok {sourcePathEvents : List SourceEvent} {state state' : State}
    {links links' : Links} {changedArtifacts : List ArtifactEvent}
    (h : update builder environment sourcePathEvents state links =
      (.ok changedArtifacts, state', links')) (artifact : String) :
    Updates builder changedArtifacts state state' links links' artifact := by
  unfold update at h
  split at h
  · exact rebuildAndUpdateState_ok h artifact
  · dsimp only at h
    split at h
    · -- nothing is rebuilt
      cases h
      refine Or.inr ⟨fun hreported => ?_, rfl, rfl⟩
      obtain ⟨event, hevent, -⟩ := hreported
      cases hevent
    · exact rebuildAndUpdateState_ok h artifact

/-- A failed update installs nothing. -/
theorem rebuildAndUpdateState_error {targets : List String} {state state' : State}
    {links links' : Links} {failure : Failure}
    (h : rebuildAndUpdateState builder environment targets state links =
      (.error failure, state', links')) : state' = state := by
  unfold rebuildAndUpdateState at h
  split at h
  · cases h
    rfl
  · cases h

theorem update_error {sourcePathEvents : List SourceEvent} {state state' : State}
    {links links' : Links} {failure : Failure}
    (h : update builder environment sourcePathEvents state links =
      (.error failure, state', links')) : state' = state := by
  unfold update at h
  split at h
  · exact rebuildAndUpdateState_error h
  · dsimp only at h
    split at h
    · cases h
    · exact rebuildAndUpdateState_error h

/-- What a request that succeeds leaves, if the invariant held before. -/
theorem step_ok {observation : Observation} (h : Follows builder observation) {request : Request}
    {changedArtifacts : List ArtifactEvent} {world : World} {state : State}
    (hstep : step builder environment observation.world request = (.ok changedArtifacts, world))
    (hsystem : world.system = some state) {artifact : String}
    (hastray : ¬ (¬ startsOver request ∧ artifact ∈ observation.astray ∧
      ¬ Reported builder changedArtifacts artifact)) :
    world.links artifact = described builder state.buildMap artifact ∧
      (¬ startsOver request → world.links artifact ≠ observation.previous artifact →
        Reported builder changedArtifacts artifact) := by
  cases request with
  | createFromScratch targets =>
    rw [step] at hstep
    split at hstep
    · cases hstep
    · rename_i result links hbuild
      cases hstep
      cases hsystem
      exact ⟨build_ok hbuild artifact, fun hupdate => absurd trivial hupdate⟩
  | createFromSavedState targets normalizedTargets buildMap =>
    rw [step] at hstep
    split at hstep
    · cases hstep
    · rename_i links hrestore
      cases hstep
      cases hsystem
      exact ⟨restore_ok hrestore artifact, fun hupdate => absurd trivial hupdate⟩
  | update sourcePathEvents =>
    rw [step] at hstep
    cases hold : observation.world.system with
    | none =>
      rw [hold] at hstep
      cases hstep
      rw [hold] at hsystem
      cases hsystem
    | some old =>
      rw [hold] at hstep
      dsimp only at hstep
      cases hrun : update builder environment sourcePathEvents old observation.world.links with
      | mk answer rest =>
        rw [hrun] at hstep
        obtain ⟨hanswer, hworld⟩ := Prod.mk.inj hstep
        dsimp only at hanswer hworld
        subst hanswer hworld
        cases hsystem
        rcases update_ok hrun artifact with ⟨hreported, hlink⟩ | ⟨hreported, hlink, hmaps⟩
        · exact ⟨hlink, fun _ _ => hreported⟩
        · have hclean : artifact ∉ observation.astray := fun hmem =>
            hastray ⟨fun hstarts => hstarts, hmem, hreported⟩
          obtain ⟨hlinks, hprevious⟩ := h old hold artifact hclean
          refine ⟨hlink.trans (hlinks.trans hmaps), fun _ hne => ?_⟩
          exact absurd (hlink.trans (hlinks.trans hprevious.symm)) hne

/-- A request that fails leaves the installed map, or no build system. -/
theorem step_error {world world' : World} {request : Request} {failure : Failure}
    (hstep : step builder environment world request = (.error failure, world')) :
    world'.system = none ∨ world'.system = world.system := by
  cases request with
  | createFromScratch targets =>
    rw [step] at hstep
    split at hstep
    · cases hstep
      exact Or.inl rfl
    · cases hstep
  | createFromSavedState targets normalizedTargets buildMap =>
    rw [step] at hstep
    split at hstep
    · cases hstep
      exact Or.inl rfl
    · cases hstep
  | update sourcePathEvents =>
    rw [step] at hstep
    cases hold : world.system with
    | none =>
      rw [hold] at hstep
      cases hstep
    | some old =>
      rw [hold] at hstep
      dsimp only at hstep
      cases hrun : update builder environment sourcePathEvents old world.links with
      | mk answer rest =>
        rw [hrun] at hstep
        obtain ⟨hanswer, hworld⟩ := Prod.mk.inj hstep
        dsimp only at hanswer hworld
        subst hanswer hworld
        exact Or.inr (congrArg some (update_error hrun))

theorem Follows.observe {observation : Observation} (h : Follows builder observation)
    (event : Event) : Follows builder (observe builder observation event) := by
  unfold BuildSystem.observe
  cases hstep : step builder event.environment observation.world event.request with
  | mk answer world =>
    cases answer with
    | ok changedArtifacts =>
      intro state hsystem artifact hastray
      have hlinks := (step_ok h hstep hsystem hastray).1
      exact ⟨hlinks, hlinks⟩
    | error failure =>
      intro state hsystem artifact hastray
      dsimp only at hsystem hastray ⊢
      obtain ⟨hclean, hsame⟩ := not_or.mp hastray
      rcases step_error hstep with hnone | hold
      · rw [hnone] at hsystem
        cases hsystem
      · obtain ⟨hlinks, hprevious⟩ := h state (hold ▸ hsystem) artifact hclean
        exact ⟨(not_not.mp hsame).trans hlinks, hprevious⟩

theorem follows_run (builder : Builder) (links : Links) (events : List Event) :
    Follows builder (run builder links events) := by
  have hfold (observation : Observation) (h : Follows builder observation) :
      Follows builder (events.foldl (observe builder) observation) := by
    induction events generalizing observation with
    | nil => exact h
    | cons event events ih => exact ih _ (h.observe event)
  exact hfold _ fun state hsystem => by cases hsystem

theorem run_append (builder : Builder) (links : Links) (events : List Event) (event : Event) :
    run builder links (events ++ [event]) = observe builder (run builder links events) event := by
  rw [run, List.foldl_append]
  rfl

/-! ## 4. Runs without a failure in the link tree -/

/-- No request failed while links were made. -/
def LinkTreeKept (builder : Builder) (links : Links) (events : List Event) : Prop :=
  ∀ before event after, events = before ++ event :: after → ∀ message world,
    step builder event.environment (run builder links before).world event.request ≠
      (.error (.linkTreeConstructionError message), world)

theorem rebuildAndUpdateState_buckError {targets : List String} {state state' : State}
    {links links' : Links} {message : String}
    (h : rebuildAndUpdateState builder environment targets state links =
      (.error (.buckError message), state', links')) : links' = links := by
  unfold rebuildAndUpdateState fullIncrementalBuild doIncrementalBuild updateArtifacts at h
  cases hbuck : environment.constructBuildMap targets with
  | error message' =>
    rw [hbuck] at h
    cases h
    rfl
  | ok buildMap =>
    rw [hbuck] at h
    dsimp only at h
    cases hrun : Buck.update builder environment (difference state.buildMap buildMap) links with
    | mk outcome links₁ =>
      rw [hrun] at h
      cases outcome with
      | error message' => cases h
      | ok _ => cases h

/-- Where Buck fails, there is no build system, or the links are kept. -/
theorem step_buckError {world world' : World} {request : Request} {message : String}
    (hstep : step builder environment world request = (.error (.buckError message), world')) :
    world'.system = none ∨ world'.links = world.links := by
  cases request with
  | createFromScratch targets =>
    rw [step] at hstep
    split at hstep
    · cases hstep
      exact Or.inl rfl
    · cases hstep
  | createFromSavedState targets normalizedTargets buildMap =>
    rw [step] at hstep
    split at hstep
    · cases hstep
      exact Or.inl rfl
    · cases hstep
  | update sourcePathEvents =>
    rw [step] at hstep
    cases hold : world.system with
    | none =>
      rw [hold] at hstep
      cases hstep
    | some old =>
      rw [hold] at hstep
      dsimp only at hstep
      cases hrun : update builder environment sourcePathEvents old world.links with
      | mk answer rest =>
        rw [hrun] at hstep
        obtain ⟨hanswer, hworld⟩ := Prod.mk.inj hstep
        dsimp only at hanswer hworld
        subst hanswer hworld
        right
        unfold update at hrun
        split at hrun
        · exact rebuildAndUpdateState_buckError hrun
        · dsimp only at hrun
          split at hrun
          · cases hrun
          · exact rebuildAndUpdateState_buckError hrun

/-- Until a link operation fails, nothing goes astray. -/
theorem astray_of_kept {links : Links} {events : List Event}
    (h : LinkTreeKept builder links events) :
    (run builder links events).world.system = none ∨ (run builder links events).astray = ∅ := by
  induction events using List.reverseRecOn with
  | nil => exact Or.inl rfl
  | append_singleton events event ih =>
    have hold := ih fun before event' after heq =>
      h before event' (after ++ [event]) (by rw [heq, List.append_assoc, List.cons_append])
    have hlast := h events event [] rfl
    rw [run_append, observe]
    cases hstep : step builder event.environment (run builder links events).world
        event.request with
    | mk answer world =>
      cases answer with
      | ok changedArtifacts =>
        rcases hold with hnone | hempty
        · cases hrequest : event.request with
          | createFromScratch targets =>
            exact Or.inr (Set.eq_empty_of_forall_notMem fun artifact hmem =>
              hmem.1 trivial)
          | createFromSavedState targets normalizedTargets buildMap =>
            exact Or.inr (Set.eq_empty_of_forall_notMem fun artifact hmem =>
              hmem.1 trivial)
          | update sourcePathEvents =>
            rw [hrequest, step, hnone] at hstep
            cases hstep
            exact Or.inl hnone
        · refine Or.inr (Set.eq_empty_of_forall_notMem fun artifact hmem => ?_)
          exact Set.notMem_empty artifact (hempty ▸ hmem.2.1)
      | error failure =>
        cases failure with
        | linkTreeConstructionError message => exact absurd hstep (hlast message world)
        | buckError message =>
          rcases hold with hnone | hempty
          · exact Or.inl ((step_error hstep).elim id fun hsame => hsame.trans hnone)
          · refine (step_buckError hstep).imp_right fun hlinks => ?_
            refine Set.eq_empty_of_forall_notMem fun artifact hmem => ?_
            rcases hmem with hmem | hmem
            · exact Set.notMem_empty artifact (hempty ▸ hmem)
            · exact hmem (congrFun hlinks artifact)

/-- After each success the links are those of the installed map, and the ones that changed since
    the last success are reported, except at the artifacts that a failed update led astray; and
    there are none of these as long as no link operation has failed. -/
theorem linkTree_follows (builder : Builder) (links : Links) (events : List Event) (event : Event)
    (changedArtifacts : List ArtifactEvent) (world : World) (state : State)
    (hstep : step builder event.environment (run builder links events).world event.request =
      (.ok changedArtifacts, world))
    (hsystem : world.system = some state) :
    (∀ artifact, artifact ∉ (run builder links (events ++ [event])).astray →
      world.links artifact = described builder state.buildMap artifact ∧
        (¬ startsOver event.request →
          world.links artifact ≠ (run builder links events).previous artifact →
            Reported builder changedArtifacts artifact)) ∧
      (LinkTreeKept builder links (events ++ [event]) →
        (run builder links (events ++ [event])).astray = ∅) := by
  constructor
  · intro artifact hastray
    rw [run_append, observe, hstep] at hastray
    exact step_ok (follows_run builder links events) hstep hsystem hastray
  · intro hkept
    rcases astray_of_kept hkept with hnone | hempty
    · rw [run_append, observe, hstep] at hnone
      dsimp only at hnone
      rw [hnone] at hsystem
      cases hsystem
    · exact hempty

/-! ## 5. A target that is reverted -/

namespace Sample

def project : Builder := ⟨"/source", "/artifact"⟩

/-- Buck answers with the artifacts `a.py` and `b.py`. -/
def twoArtifacts : BuildMap := (AList.insert "a.py" "a.py" ∅).insert "b.py" "b.py"

def answering (buildMap : BuildMap) (fault : String → Option Fault) : Environment where
  constructBuildMap _ := .ok buildMap
  directoryExists _ := true
  fault := fault
  message := "No space left on device"

/-- A removed source, for which everything is rebuilt. -/
def removal : Request := .update [⟨.deleted, "/source/x.py"⟩]

/-- An empty build, and an update whose link `b.py` cannot be made. -/
def failedUpdate : List Event :=
  [⟨.createFromScratch [], answering ∅ fun _ => none⟩,
    ⟨removal, answering twoArtifacts fun artifact =>
      if artifact = "b.py" then some .symlink else none⟩]

/-- The next update, after the target is reverted. -/
def revert : Event := ⟨removal, answering ∅ fun _ => none⟩

theorem step_revert :
    step project revert.environment (run project cleanLinks failedUpdate).world revert.request =
      (.ok [], (run project cleanLinks (failedUpdate ++ [revert])).world) := by
  rfl

theorem system_revert :
    (run project cleanLinks (failedUpdate ++ [revert])).world.system = some ⟨[], [], ∅⟩ := by
  rfl

/-- The link `a.py` of the failed update stays, although no build map describes it. -/
theorem links_revert :
    (run project cleanLinks (failedUpdate ++ [revert])).world.links "a.py" =
      some ⟨"/source", "a.py"⟩ := by
  rfl

theorem linkTree_not_follows :
    ¬ ∀ (builder : Builder) (links : Links) (events : List Event) (event : Event)
      (changedArtifacts : List ArtifactEvent) (world : World) (state : State),
      step builder event.environment (run builder links events).world event.request =
        (.ok changedArtifacts, world) →
      world.system = some state →
      (∀ artifact, world.links artifact = described builder state.buildMap artifact) ∧
        (¬ startsOver event.request → ∀ artifact,
          world.links artifact ≠ (run builder links events).previous artifact →
            Reported builder changedArtifacts artifact) := by
  intro h
  have hlink := (h project cleanLinks failedUpdate revert [] _ _ step_revert system_revert).1 "a.py"
  rw [links_revert] at hlink
  cases hlink

theorem linkTree_follows_revert :
    (∀ artifact, artifact ∉ (run project cleanLinks (failedUpdate ++ [revert])).astray →
      (run project cleanLinks (failedUpdate ++ [revert])).world.links artifact =
          described project ∅ artifact ∧
        (¬ startsOver revert.request →
          (run project cleanLinks (failedUpdate ++ [revert])).world.links artifact ≠
              (run project cleanLinks failedUpdate).previous artifact →
            Reported project [] artifact)) ∧
      (LinkTreeKept project cleanLinks (failedUpdate ++ [revert]) →
        (run project cleanLinks (failedUpdate ++ [revert])).astray = ∅) :=
  linkTree_follows project cleanLinks failedUpdate revert [] _ ⟨[], [], ∅⟩ step_revert system_revert

end Sample

end BuildSystem

end Pysa.Buck
