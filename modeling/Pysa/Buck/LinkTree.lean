/-
  Subject: THE LINK TREE OF A BUCK BUILD (`buildMap.ml`, `artifacts.ml`, `builder.ml`).

  A build map says which source each artifact stands for; under the artifact root there is a
  symbolic link for each artifact.

  * `difference`, `lookup_difference` -- what changes from one build map to the next;
  * `Environment` -- what a build does outside: the map that Buck answers with, and the link
    operations that fail. All the others are carried out, also when the build fails as a whole;
  * `populate`, `update` -- creating the links of a map, and making those of a difference;
  * `update_ok` -- an update that succeeds made every link of the difference;
  * `fullIncrementalBuild_ok` -- **what a rebuild that succeeds leaves, artifact by artifact**.
-/
import Pysa.Lib.AssocMap

namespace Pysa.Buck

/-! ## 1. Build maps -/

/-- The source of each artifact. -/
abbrev BuildMap := AssocMap String String

/-- `Difference.Kind.t`. -/
inductive DifferenceKind where
  | new (source : String)
  | deleted
  | changed (source : String)
deriving DecidableEq

abbrev Difference := AssocMap String DifferenceKind

def scanOriginalItem (current : BuildMap) (result : Difference)
    (item : Sigma fun _ : String => String) : Difference :=
  match current.lookup item.1 with
  | none => result.insert item.1 .deleted
  | some currentData =>
    if item.2 ≠ currentData then result.insert item.1 (.changed currentData) else result

def scanCurrentItem (original : BuildMap) (result : Difference)
    (item : Sigma fun _ : String => String) : Difference :=
  match original.lookup item.1 with
  | none => result.insert item.1 (.new item.2)
  | some _ => result

def difference (original current : BuildMap) : Difference :=
  current.entries.foldl (scanCurrentItem original)
    (original.entries.foldl (scanOriginalItem current) ∅)

/-- What the difference of two maps says of an artifact that they map so. -/
def differenceAt : Option String → Option String → Option DifferenceKind
  | none, none => none
  | some _, none => some .deleted
  | none, some current => some (.new current)
  | some original, some current => if original ≠ current then some (.changed current) else none

theorem lookup_difference (original current : BuildMap) (artifact : String) :
    (difference original current).lookup artifact =
      differenceAt (original.lookup artifact) (current.lookup artifact) := by
  have hscan (item : Sigma fun _ : String => String) (result : Difference) (key : String)
      (hkey : key ≠ item.1) : (scanOriginalItem current result item).lookup key =
        result.lookup key := by
    unfold scanOriginalItem
    split
    · exact AList.lookup_insert_ne hkey
    · split
      · exact AList.lookup_insert_ne hkey
      · rfl
  have hself (item : Sigma fun _ : String => String) (result : Difference) :
      (scanOriginalItem current result item).lookup item.1 =
        (differenceAt (some item.2) (current.lookup item.1)).or (result.lookup item.1) := by
    unfold scanOriginalItem differenceAt
    cases current.lookup item.1 with
    | none => exact AList.lookup_insert _
    | some data =>
      dsimp only
      split
      · exact AList.lookup_insert _
      · rfl
  have hscan' (item : Sigma fun _ : String => String) (result : Difference) (key : String)
      (hkey : key ≠ item.1) : (scanCurrentItem original result item).lookup key =
        result.lookup key := by
    unfold scanCurrentItem
    split
    · exact AList.lookup_insert_ne hkey
    · rfl
  have hself' (item : Sigma fun _ : String => String) (result : Difference) :
      (scanCurrentItem original result item).lookup item.1 =
        if original.lookup item.1 = none then some (.new item.2) else result.lookup item.1 := by
    unfold scanCurrentItem
    cases original.lookup item.1 with
    | none => exact AList.lookup_insert _
    | some data => rfl
  rw [difference, AssocMap.foldl_entries_read (fun map key => AList.lookup key map)
      (g := fun key data old => if original.lookup key = none then some (.new data) else old)
      hscan' hself',
    AssocMap.foldl_entries_read (fun map key => AList.lookup key map)
      (g := fun key data old => (differenceAt (some data) (current.lookup key)).or old)
      hscan hself]
  cases original.lookup artifact with
  | none => cases current.lookup artifact <;> rfl
  | some data =>
    cases current.lookup artifact with
    | none => rfl
    | some data' => simp [differenceAt]

/-! ## 2. Links -/

/-- A path under a root: `PyrePath.create_relative`. -/
structure RelativePath where
  root : String
  relative : String
deriving DecidableEq

/-- What each link under the artifact root points to. -/
abbrev Links := String → Option RelativePath

/-- The operation on a link that fails: its removal, or its creation and that of its directory. -/
inductive Fault where
  | unlink
  | symlink
deriving DecidableEq

/-- What happens outside while a build runs. -/
structure Environment where
  /-- `Interface.construct_build_map`. -/
  constructBuildMap : List String → Except String BuildMap
  directoryExists : String → Bool
  /-- The operation that fails for an artifact. -/
  fault : String → Option Fault
  /-- What the failed operations say. -/
  message : String

structure Builder where
  sourceRoot : String
  artifactRoot : String

variable (builder : Builder) (environment : Environment)

def createParentDirectoryAndSymlink (fault : Option Fault) (target : RelativePath)
    (link : Option RelativePath) : Bool × Option RelativePath :=
  if fault = some .symlink ∨ link ≠ none then (false, link) else (true, some target)

def createSymlink (artifact source : String) (link : Option RelativePath) :
    Bool × Option RelativePath :=
  createParentDirectoryAndSymlink (environment.fault artifact) ⟨builder.sourceRoot, source⟩ link

def replaceLink (artifact source : String) (link : Option RelativePath) :
    Bool × Option RelativePath :=
  if environment.fault artifact = some .unlink then (false, link)
  else
    createParentDirectoryAndSymlink (environment.fault artifact) ⟨builder.sourceRoot, source⟩ none

def processUpdate (artifact : String) (kind : DifferenceKind) (link : Option RelativePath) :
    Bool × Option RelativePath :=
  match kind with
  | .deleted => if environment.fault artifact = some .unlink then (false, link) else (true, none)
  | .new source => replaceLink builder environment artifact source link
  | .changed source => replaceLink builder environment artifact source link

/-- `Lwt.join`: every artifact is processed, also when another one fails. -/
def join {V : Type} (process : String → V → Option RelativePath → Bool × Option RelativePath)
    (map : AssocMap String V) (links : Links) : Bool × Links :=
  map.entries.foldl (fun sofar entry =>
    let result := process entry.1 entry.2 (sofar.2 entry.1)
    (sofar.1 && result.1, Function.update sofar.2 entry.1 result.2)) (true, links)

/-- `catch_errors`. -/
def catchErrors (result : Bool × Links) : Except String Unit × Links :=
  (if result.1 then .ok () else .error environment.message, result.2)

/-- The check of the roots that `populate` and `update` start with. -/
def checkRoots (run : Except String Unit × Links) (links : Links) : Except String Unit × Links :=
  if !environment.directoryExists builder.sourceRoot then
    (.error ("Source root is not a directory: " ++ builder.sourceRoot), links)
  else if !environment.directoryExists builder.artifactRoot then
    (.error ("Artifact root is not a directory: " ++ builder.artifactRoot), links)
  else run

def populate (buildMap : BuildMap) (links : Links) : Except String Unit × Links :=
  checkRoots builder environment
    (catchErrors environment (join (createSymlink builder environment) buildMap links)) links

def update (difference : Difference) (links : Links) : Except String Unit × Links :=
  checkRoots builder environment
    (catchErrors environment (join (processUpdate builder environment) difference links)) links

/-! ## 3. Builds -/

/-- `ArtifactPath.Event.Kind.t`. -/
inductive EventKind where
  | createdOrChanged
  | deleted
deriving DecidableEq

structure ArtifactEvent where
  kind : EventKind
  path : RelativePath
deriving DecidableEq

inductive Failure where
  | buckError (message : String)
  | linkTreeConstructionError (message : String)
deriving DecidableEq

structure BuildResult where
  targets : List String
  buildMap : BuildMap

structure IncrementalBuildResult where
  buildMap : BuildMap
  targets : List String
  changedArtifacts : List ArtifactEvent

def DifferenceKind.eventKind : DifferenceKind → EventKind
  | .new _ => .createdOrChanged
  | .changed _ => .createdOrChanged
  | .deleted => .deleted

def toArtifactPath (entry : Sigma fun _ : String => DifferenceKind) : ArtifactEvent :=
  ⟨entry.2.eventKind, ⟨builder.artifactRoot, entry.1⟩⟩

def updateArtifacts (difference : Difference) (links : Links) :
    Except Failure (List ArtifactEvent) × Links :=
  match update builder environment difference links with
  | (.error message, links) => (.error (.linkTreeConstructionError message), links)
  | (.ok (), links) => (.ok (difference.entries.map (toArtifactPath builder)), links)

def doIncrementalBuild (oldBuildMap newBuildMap : BuildMap) (links : Links) :
    Except Failure (List ArtifactEvent) × Links :=
  updateArtifacts builder environment (difference oldBuildMap newBuildMap) links

/-- `Eager.restore`. -/
def restore (buildMap : BuildMap) (links : Links) : Except Failure Unit × Links :=
  match populate builder environment buildMap links with
  | (.error message, links) => (.error (.linkTreeConstructionError message), links)
  | (.ok (), links) => (.ok (), links)

/-- `Eager.build`. -/
def build (targets : List String) (links : Links) : Except Failure BuildResult × Links :=
  match environment.constructBuildMap targets with
  | .error message => (.error (.buckError message), links)
  | .ok buildMap =>
    match populate builder environment buildMap links with
    | (.error message, links) => (.error (.linkTreeConstructionError message), links)
    | (.ok (), links) => (.ok ⟨targets, buildMap⟩, links)

/-- `full_incremental_build`; the fast build and the one with normalized targets are the same. -/
def fullIncrementalBuild (oldBuildMap : BuildMap) (targets : List String) (links : Links) :
    Except Failure IncrementalBuildResult × Links :=
  match environment.constructBuildMap targets with
  | .error message => (.error (.buckError message), links)
  | .ok buildMap =>
    match doIncrementalBuild builder environment oldBuildMap buildMap links with
    | (.error failure, links) => (.error failure, links)
    | (.ok changedArtifacts, links) => (.ok ⟨buildMap, targets, changedArtifacts⟩, links)

/-! ## 4. What is done to each link -/

variable {builder environment}

theorem join_links {V : Type}
    (process : String → V → Option RelativePath → Bool × Option RelativePath)
    (map : AssocMap String V) (links : Links) (artifact : String) :
    (join process map links).2 artifact =
      (map.lookup artifact).elim (links artifact) fun value =>
        (process artifact value (links artifact)).2 := by
  refine AssocMap.foldl_entries_read (fun (sofar : Bool × Links) key => sofar.2 key)
    (g := fun key value link => (process key value link).2) ?_ ?_ map (true, links) artifact
  · exact fun entry sofar key hkey => Function.update_of_ne hkey _ _
  · exact fun entry sofar => Function.update_self _ _ _

theorem join_ok {V : Type}
    {process : String → V → Option RelativePath → Bool × Option RelativePath}
    {map : AssocMap String V} {links : Links} (h : (join process map links).1 = true)
    {artifact : String} {value : V} (hvalue : map.lookup artifact = some value) :
    (process artifact value (links artifact)).1 = true := by
  have hlist (entries : List (Sigma fun _ : String => V)) (hnodup : entries.NodupKeys)
      (sofar : Bool × Links)
      (hfold : (entries.foldl (fun (sofar : Bool × Links) entry =>
        (sofar.1 && (process entry.1 entry.2 (sofar.2 entry.1)).1,
          Function.update sofar.2 entry.1 (process entry.1 entry.2 (sofar.2 entry.1)).2))
        sofar).1 = true) :
      sofar.1 = true ∧
        ∀ entry ∈ entries, (process entry.1 entry.2 (sofar.2 entry.1)).1 = true := by
    induction entries generalizing sofar with
    | nil => exact ⟨hfold, fun entry hentry => absurd hentry List.not_mem_nil⟩
    | cons first rest ih =>
      obtain ⟨hfirst, hrest⟩ := List.nodupKeys_cons.mp hnodup
      obtain ⟨hok, hprocessed⟩ := ih hrest _ hfold
      obtain ⟨hsofar, hself⟩ := Bool.and_eq_true_iff.mp hok
      refine ⟨hsofar, fun entry hentry => ?_⟩
      rcases List.mem_cons.mp hentry with rfl | hentry
      · exact hself
      · have hne : entry.1 ≠ first.1 := fun heq =>
          hfirst (heq ▸ List.mem_keys_of_mem hentry)
        have hentry := hprocessed entry hentry
        dsimp only at hentry
        rwa [Function.update_of_ne hne] at hentry
  exact (hlist map.entries map.nodupKeys (true, links) h).2 ⟨artifact, value⟩
    (AList.mem_lookup_iff.mp hvalue)

/-- The link that the map describes. -/
def described (builder : Builder) (buildMap : BuildMap) (artifact : String) : Option RelativePath :=
  (buildMap.lookup artifact).map fun source => ⟨builder.sourceRoot, source⟩

/-- The link that a difference asks for. -/
def DifferenceKind.link (builder : Builder) : DifferenceKind → Option RelativePath
  | .new source => some ⟨builder.sourceRoot, source⟩
  | .changed source => some ⟨builder.sourceRoot, source⟩
  | .deleted => none

theorem createParentDirectoryAndSymlink_ok {fault : Option Fault} {target : RelativePath}
    {link : Option RelativePath}
    (h : (createParentDirectoryAndSymlink fault target link).1 = true) :
    (createParentDirectoryAndSymlink fault target link).2 = some target := by
  unfold createParentDirectoryAndSymlink at h ⊢
  split
  · rename_i hfault
    rw [if_pos hfault] at h
    cases h
  · rfl

theorem replaceLink_ok {artifact source : String} {link : Option RelativePath}
    (h : (replaceLink builder environment artifact source link).1 = true) :
    (replaceLink builder environment artifact source link).2 =
      some ⟨builder.sourceRoot, source⟩ := by
  unfold replaceLink at h ⊢
  split
  · rename_i hfault
    rw [if_pos hfault] at h
    cases h
  · rename_i hfault
    rw [if_neg hfault] at h
    exact createParentDirectoryAndSymlink_ok h

theorem processUpdate_ok {artifact : String} {kind : DifferenceKind} {link : Option RelativePath}
    (h : (processUpdate builder environment artifact kind link).1 = true) :
    (processUpdate builder environment artifact kind link).2 = kind.link builder := by
  cases kind with
  | new source => exact replaceLink_ok h
  | changed source => exact replaceLink_ok h
  | deleted =>
    unfold processUpdate at h ⊢
    dsimp only at h ⊢
    split
    · rename_i hfault
      rw [if_pos hfault] at h
      cases h
    · rfl

theorem checkRoots_ok {run : Except String Unit × Links} {links links' : Links}
    (h : checkRoots builder environment run links = (.ok (), links')) : run = (.ok (), links') := by
  unfold checkRoots at h
  split at h
  · cases h
  · split at h
    · cases h
    · exact h

theorem catchErrors_ok {result : Bool × Links} {links' : Links}
    (h : catchErrors environment result = (.ok (), links')) :
    result.1 = true ∧ result.2 = links' := by
  unfold catchErrors at h
  split at h
  · rename_i hok
    exact ⟨hok, (Prod.mk.inj h).2⟩
  · cases h

/-- An update that succeeds makes every link of the difference, and leaves the others. -/
theorem update_ok {difference : Difference} {links links' : Links}
    (h : update builder environment difference links = (.ok (), links')) (artifact : String) :
    links' artifact =
      (difference.lookup artifact).elim (links artifact) (DifferenceKind.link builder) := by
  obtain ⟨hok, rfl⟩ := catchErrors_ok (checkRoots_ok h)
  rw [join_links]
  cases hkind : difference.lookup artifact with
  | none => rfl
  | some kind => exact processUpdate_ok (join_ok hok hkind)

theorem populate_ok {buildMap : BuildMap} {links links' : Links}
    (h : populate builder environment buildMap links = (.ok (), links')) (artifact : String) :
    links' artifact = (described builder buildMap artifact).or (links artifact) := by
  obtain ⟨hok, rfl⟩ := catchErrors_ok (checkRoots_ok h)
  rw [join_links, described]
  cases hsource : buildMap.lookup artifact with
  | none => rfl
  | some source => exact createParentDirectoryAndSymlink_ok (join_ok hok hsource)

/-! ## 5. What a build leaves -/

/-- The artifact is among the changed ones. -/
def Reported (builder : Builder) (changedArtifacts : List ArtifactEvent) (artifact : String) :
    Prop :=
  ∃ event ∈ changedArtifacts, event.path = ⟨builder.artifactRoot, artifact⟩

theorem mem_changed_iff {difference : Difference} {artifact : String} :
    Reported builder (difference.entries.map (toArtifactPath builder)) artifact ↔
      difference.lookup artifact ≠ none := by
  unfold Reported
  constructor
  · intro h
    obtain ⟨event, hevent, hpath⟩ := h
    obtain ⟨entry, hentry, rfl⟩ := List.mem_map.mp hevent
    have hkey : entry.1 = artifact := (RelativePath.mk.inj hpath).2
    rw [← hkey, AList.mem_lookup_iff.mpr hentry]
    exact Option.some_ne_none _
  · intro h
    obtain ⟨kind, hkind⟩ := Option.ne_none_iff_exists'.mp h
    exact ⟨_, List.mem_map_of_mem (AList.mem_lookup_iff.mp hkind), rfl⟩

theorem link_of_differenceAt {original current : BuildMap} {artifact : String}
    {kind : DifferenceKind}
    (h : differenceAt (original.lookup artifact) (current.lookup artifact) = some kind) :
    kind.link builder = described builder current artifact := by
  unfold described
  cases horiginal : original.lookup artifact with
  | none =>
    cases hcurrent : current.lookup artifact with
    | none =>
      rw [horiginal, hcurrent] at h
      cases h
    | some data =>
      rw [horiginal, hcurrent] at h
      cases h
      rfl
  | some data =>
    cases hcurrent : current.lookup artifact with
    | none =>
      rw [horiginal, hcurrent] at h
      cases h
      rfl
    | some data' =>
      rw [horiginal, hcurrent, differenceAt] at h
      split at h
      · cases h
        rfl
      · cases h

theorem eq_of_differenceAt {original current : Option String}
    (h : differenceAt original current = none) : original = current := by
  cases original with
  | none =>
    cases current with
    | none => rfl
    | some data => cases h
  | some data =>
    cases current with
    | none => cases h
    | some data' =>
      rw [differenceAt] at h
      split at h
      · cases h
      · rename_i heq
        exact congrArg some (not_not.mp heq)

/-- A rebuild that succeeds: the reported artifacts have the links of the new map; the others have
    the links that they had, and the maps agree on them. -/
theorem fullIncrementalBuild_ok {oldBuildMap : BuildMap} {targets : List String}
    {links links' : Links} {result : IncrementalBuildResult}
    (h : fullIncrementalBuild builder environment oldBuildMap targets links = (.ok result, links'))
    (artifact : String) :
    Reported builder result.changedArtifacts artifact ∧
        links' artifact = described builder result.buildMap artifact ∨
      ¬ Reported builder result.changedArtifacts artifact ∧
        links' artifact = links artifact ∧
          described builder oldBuildMap artifact = described builder result.buildMap artifact := by
  unfold fullIncrementalBuild at h
  split at h
  · cases h
  · rename_i buildMap _
    unfold doIncrementalBuild updateArtifacts at h
    cases hrun : update builder environment (difference oldBuildMap buildMap) links with
    | mk outcome links₁ =>
      rw [hrun] at h
      cases outcome with
      | error message => cases h
      | ok _ =>
        cases h
        have hlink := update_ok hrun artifact
        rw [mem_changed_iff, lookup_difference]
        rw [lookup_difference] at hlink
        cases hkind : differenceAt (oldBuildMap.lookup artifact) (buildMap.lookup artifact) with
        | some kind =>
          rw [hkind] at hlink
          exact Or.inl ⟨Option.some_ne_none kind, hlink.trans (link_of_differenceAt hkind)⟩
        | none =>
          rw [hkind] at hlink
          refine Or.inr ⟨fun hne => hne rfl, hlink, ?_⟩
          unfold described
          rw [eq_of_differenceAt hkind]

end Pysa.Buck
