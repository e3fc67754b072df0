/-
  Subject: THE ISSUES THAT ARE REPORTED (`taintReporting.ml`, `issue.ml`).

  * `mergeIssuesByCanonicalHandle` -- one issue for each canonical handle, the join of all of them;
  * `extractErrors` -- over all callables;
  * `issuesToNewlineDelimitedJson` -- for one callable and its parameterized versions;
  * `reported_iff` -- both give the same handles once each, if and only if different callables have
    no canonical handle in common.

  The flows are those of any two domains. What an issue becomes as JSON is left out, and so is the
  order that the lines are sorted by.
-/
import Pysa.Domains.AbstractDomain
import Pysa.Interprocedural.FixpointAnalysis
import Pysa.Lib.AssocMap
import Pysa.Taint.IssueHandle

namespace Pysa.TaintReporting

open IssueHandle

/-! ## 1. Issues -/

structure Flow (SourceTaint SinkTaint : Type) where
  sourceTaint : SourceTaint
  sinkTaint : SinkTaint

structure Issue (Callee SinkKind SourceTaint SinkTaint ModuleId Location : Type) where
  flow : Flow SourceTaint SinkTaint
  handle : Handle Callee SinkKind
  moduleId : ModuleId
  locations : Finset Location
  defineLocation : Location

section Join

variable {Callee SinkKind SourceTaint SinkTaint ModuleId Location : Type} [DecidableEq Location]
variable (forward : AbstractDomain SourceTaint) (backward : AbstractDomain SinkTaint)

def Flow.join (left right : Flow SourceTaint SinkTaint) : Flow SourceTaint SinkTaint :=
  ⟨forward.join left.sourceTaint right.sourceTaint, backward.join left.sinkTaint right.sinkTaint⟩

def Issue.join (left right : Issue Callee SinkKind SourceTaint SinkTaint ModuleId Location) :
    Issue Callee SinkKind SourceTaint SinkTaint ModuleId Location :=
  ⟨left.flow.join forward backward right.flow, left.handle, left.moduleId,
    left.locations ∪ right.locations, left.defineLocation⟩

/-- The issues of one handle as one. -/
def mergeGroup : List (Issue Callee SinkKind SourceTaint SinkTaint ModuleId Location) →
    Option (Issue Callee SinkKind SourceTaint SinkTaint ModuleId Location)
  | [] => none
  | [issue] => some issue
  | head :: tail => some (FixpointAnalysis.foldBalanced tail (Issue.join forward backward) head)

end Join

section Report

variable {CallableId ModuleId ClassId SinkKind SourceTaint SinkTaint Location : Type}
  [DecidableEq CallableId] [DecidableEq ModuleId] [DecidableEq ClassId] [DecidableEq SinkKind]
  [DecidableEq Location]

/-- An issue of the analysis. -/
abbrev RawIssue (CallableId ModuleId ClassId SinkKind SourceTaint SinkTaint Location : Type) :=
  Issue (Target CallableId ModuleId ClassId) SinkKind SourceTaint SinkTaint ModuleId Location

/-- An issue with its canonical handle. -/
abbrev CanonicalIssue (SinkKind SourceTaint SinkTaint ModuleId Location : Type) :=
  Issue String SinkKind SourceTaint SinkTaint ModuleId Location

variable (displayApi : DisplayApi CallableId ModuleId ClassId)
  (forward : AbstractDomain SourceTaint) (backward : AbstractDomain SinkTaint)

def withCanonicalHandle
    (issue : RawIssue CallableId ModuleId ClassId SinkKind SourceTaint SinkTaint Location) :
    CanonicalIssue SinkKind SourceTaint SinkTaint ModuleId Location :=
  { issue with handle := canonicalHandle displayApi issue.handle }

def groupByStrippedHandle
    (map : AssocMap (Handle String SinkKind)
      (List (CanonicalIssue SinkKind SourceTaint SinkTaint ModuleId Location)))
    (issue : RawIssue CallableId ModuleId ClassId SinkKind SourceTaint SinkTaint Location) :
    AssocMap (Handle String SinkKind)
      (List (CanonicalIssue SinkKind SourceTaint SinkTaint ModuleId Location)) :=
  AssocMap.update (canonicalHandle displayApi issue.handle)
    (fun existing => withCanonicalHandle displayApi issue :: existing.getD []) map

/-- The order of the handles in the map is left open. -/
def mergeIssuesByCanonicalHandle
    (issues : List (RawIssue CallableId ModuleId ClassId SinkKind SourceTaint SinkTaint Location)) :
    List (CanonicalIssue SinkKind SourceTaint SinkTaint ModuleId Location) :=
  (issues.foldl (groupByStrippedHandle displayApi) ∅).entries.filterMap fun entry =>
    mergeGroup forward backward entry.2

/-- `get_result` of the fixpoint: the issues of a callable. -/
abbrev Results (CallableId ModuleId ClassId SinkKind SourceTaint SinkTaint Location : Type) :=
  Target CallableId ModuleId ClassId →
    List (RawIssue CallableId ModuleId ClassId SinkKind SourceTaint SinkTaint Location)

variable
  (results : Results CallableId ModuleId ClassId SinkKind SourceTaint SinkTaint Location)

/-- The order in which the chunks come back is left open, the merge does not depend on it. -/
def extractErrors (callables : List (Target CallableId ModuleId ClassId)) :
    List (CanonicalIssue SinkKind SourceTaint SinkTaint ModuleId Location) :=
  mergeIssuesByCanonicalHandle displayApi forward backward (callables.flatMap results)

/-- `CallableToParameters`: the parameterized versions of a callable. -/
abbrev CallableToParameters (CallableId ModuleId ClassId : Type) :=
  AssocMap (Target CallableId ModuleId ClassId) (List (Target CallableId ModuleId ClassId))

def CallableToParameters.add (sofar : CallableToParameters CallableId ModuleId ClassId)
    (target : Target CallableId ModuleId ClassId) :
    CallableToParameters CallableId ModuleId ClassId :=
  AssocMap.update target.stripParameters (fun existing => target :: existing.getD []) sofar

def CallableToParameters.fromCallables (callables : List (Target CallableId ModuleId ClassId)) :
    CallableToParameters CallableId ModuleId ClassId :=
  (callables.filter Target.isParameterized).foldl CallableToParameters.add ∅

def CallableToParameters.get (map : CallableToParameters CallableId ModuleId ClassId)
    (target : Target CallableId ModuleId ClassId) : List (Target CallableId ModuleId ClassId) :=
  (map.lookup target).getD []

/-- The issues that are written for a callable. `deterministicLe` is the order of the handles. -/
def issuesToNewlineDelimitedJson
    (deterministicLe : Handle String SinkKind → Handle String SinkKind → Bool)
    (callableToParameters : CallableToParameters CallableId ModuleId ClassId) (sorted : Bool)
    (callable : Target CallableId ModuleId ClassId) :
    List (CanonicalIssue SinkKind SourceTaint SinkTaint ModuleId Location) :=
  if callable.isParameterized then []
  else
    let callables := callable :: callableToParameters.get callable
    let issues :=
      mergeIssuesByCanonicalHandle displayApi forward backward (callables.flatMap results)
    if sorted then issues.mergeSort fun left right => deterministicLe left.handle right.handle
    else issues

end Report

/-! ## 2. Joining a list in pairs -/

section Balanced

open FixpointAnalysis

variable {α : Type} {f : α → α → α}

theorem forall_pairUp {bound : α → Prop} (hbound : ∀ a b, bound (f a b) ↔ bound a ∧ bound b)
    (list : List α) : (∀ x ∈ pairUp f list, bound x) ↔ ∀ x ∈ list, bound x := by
  fun_induction pairUp f list with
  | case1 a b rest ih =>
    rw [List.forall_mem_cons, List.forall_mem_cons, List.forall_mem_cons, ih, hbound, and_assoc]
  | case2 => exact Iff.rfl

theorem mem_pairUp {kept : α → Prop} (hkept : ∀ a b, kept a → kept b → kept (f a b))
    {list : List α} (hlist : ∀ x ∈ list, kept x) : ∀ x ∈ pairUp f list, kept x := by
  fun_induction pairUp f list with
  | case1 a b rest ih =>
    rw [List.forall_mem_cons, List.forall_mem_cons] at hlist
    exact List.forall_mem_cons.mpr ⟨hkept a b hlist.1 hlist.2.1, ih hlist.2.2⟩
  | case2 => exact hlist

theorem length_pairUp (list : List α) : (pairUp f list).length = (list.length + 1) / 2 := by
  fun_induction pairUp f list with
  | case1 a b rest ih =>
    rw [List.length_cons, List.length_cons, List.length_cons, ih]
    omega
  | case2 list hshort =>
    cases list with
    | nil => simp
    | cons a rest =>
      cases rest with
      | nil => simp
      | cons b rest => exact absurd rfl (hshort a b rest)

/-- After enough rounds one element is left; it has what all have, and is bounded as all are. -/
theorem iterate_pairUp {bound kept : α → Prop} (hbound : ∀ a b, bound (f a b) ↔ bound a ∧ bound b)
    (hkept : ∀ a b, kept a → kept b → kept (f a b)) {rounds : ℕ} {list : List α}
    (hne : list ≠ []) (hlength : list.length ≤ rounds + 1) (hlist : ∀ x ∈ list, kept x) :
    ∃ x, (pairUp f)^[rounds] list = [x] ∧ (bound x ↔ ∀ y ∈ list, bound y) ∧ kept x := by
  induction rounds generalizing list with
  | zero =>
    have hpos := List.length_pos_iff.mpr hne
    obtain ⟨x, rfl⟩ := List.length_eq_one_iff.mp (by omega : list.length = 1)
    refine ⟨x, rfl, ?_, hlist x List.mem_cons_self⟩
    rw [List.forall_mem_singleton]
  | succ rounds ih =>
    have hpos := List.length_pos_iff.mpr hne
    have hlength' : (pairUp f list).length = (list.length + 1) / 2 := length_pairUp list
    have hne' : pairUp f list ≠ [] := List.ne_nil_of_length_pos (by omega)
    obtain ⟨x, hx, hiff, hk⟩ := ih hne' (by omega) (mem_pairUp hkept hlist)
    exact ⟨x, hx, hiff.trans (forall_pairUp hbound list), hk⟩

theorem foldBalanced_spec {bound kept : α → Prop}
    (hbound : ∀ a b, bound (f a b) ↔ bound a ∧ bound b)
    (hkept : ∀ a b, kept a → kept b → kept (f a b)) {list : List α} {start : α}
    (hlist : ∀ x ∈ start :: list, kept x) :
    (bound (foldBalanced list f start) ↔ ∀ x ∈ start :: list, bound x) ∧
      kept (foldBalanced list f start) := by
  obtain ⟨x, hx, hiff, hk⟩ := iterate_pairUp hbound hkept (List.cons_ne_nil start list)
    (le_refl (list.length + 1)) hlist
  rw [foldBalanced, hx]
  exact ⟨hiff, hk⟩

end Balanced

/-! ## 3. One issue for each handle -/

/-- `whole` is made of `parts` by joins: what bounds a join if and only if it bounds both of its
    sides bounds `whole` if and only if it bounds all of `parts`. -/
def IsJoinOf {α : Type} (join : α → α → α) (parts : Set α) (whole : α) : Prop :=
  ∀ bound : α → Prop, (∀ a b, bound (join a b) ↔ bound a ∧ bound b) →
    (bound whole ↔ ∀ part ∈ parts, bound part)

theorem isJoinOf_map {α β : Type} {joinLeft : α → α → α} {joinRight : β → β → β} {g : α → β}
    (hg : ∀ a b, g (joinLeft a b) = joinRight (g a) (g b)) {parts : Set α} {whole : α}
    (h : IsJoinOf joinLeft parts whole) : IsJoinOf joinRight {b | ∃ a ∈ parts, g a = b} (g whole) := by
  intro bound hbound
  have hparts := h (fun a => bound (g a)) fun a b => by rw [hg, hbound]
  rw [hparts]
  constructor
  · rintro hall _ ⟨a, ha, rfl⟩
    exact hall a ha
  · exact fun hall a ha => hall (g a) ⟨a, ha, rfl⟩

theorem isJoinOf_locations {Callee SinkKind SourceTaint SinkTaint ModuleId Location : Type}
    [DecidableEq Location] {forward : AbstractDomain SourceTaint}
    {backward : AbstractDomain SinkTaint}
    {parts : Set (Issue Callee SinkKind SourceTaint SinkTaint ModuleId Location)}
    {whole : Issue Callee SinkKind SourceTaint SinkTaint ModuleId Location}
    (h : IsJoinOf (Issue.join forward backward) parts whole) (location : Location) :
    location ∈ whole.locations ↔ ∃ issue ∈ parts, location ∈ issue.locations := by
  have hnot := h (fun issue => location ∉ issue.locations) fun a b => by
    rw [Issue.join, Finset.mem_union, not_or]
  rw [← not_iff_not, hnot]
  push Not
  rfl

section Merge

variable {CallableId ModuleId ClassId SinkKind SourceTaint SinkTaint Location : Type}
  [DecidableEq SinkKind]
variable {displayApi : DisplayApi CallableId ModuleId ClassId}
  {forward : AbstractDomain SourceTaint} {backward : AbstractDomain SinkTaint}

/-- The groups are those of the issues with one canonical handle. -/
def Groups (displayApi : DisplayApi CallableId ModuleId ClassId)
    (issues : List (RawIssue CallableId ModuleId ClassId SinkKind SourceTaint SinkTaint Location))
    (map : AssocMap (Handle String SinkKind)
      (List (CanonicalIssue SinkKind SourceTaint SinkTaint ModuleId Location))) : Prop :=
  ∀ handle,
    (map.lookup handle = none →
      ∀ issue ∈ issues, canonicalHandle displayApi issue.handle ≠ handle) ∧
    ∀ group, map.lookup handle = some group → group ≠ [] ∧ ∀ result, result ∈ group ↔
      ∃ issue ∈ issues, canonicalHandle displayApi issue.handle = handle ∧
        withCanonicalHandle displayApi issue = result

theorem groups_step
    {issues : List (RawIssue CallableId ModuleId ClassId SinkKind SourceTaint SinkTaint Location)}
    {map : AssocMap (Handle String SinkKind)
      (List (CanonicalIssue SinkKind SourceTaint SinkTaint ModuleId Location))}
    (h : Groups displayApi issues map)
    (issue : RawIssue CallableId ModuleId ClassId SinkKind SourceTaint SinkTaint Location) :
    Groups displayApi (issues ++ [issue]) (groupByStrippedHandle displayApi map issue) := by
  intro handle
  obtain ⟨hnone, hsome⟩ := h handle
  have hmem : ∀ result, (∃ other ∈ issues ++ [issue],
      canonicalHandle displayApi other.handle = handle ∧
        withCanonicalHandle displayApi other = result) ↔
      (∃ other ∈ issues, canonicalHandle displayApi other.handle = handle ∧
        withCanonicalHandle displayApi other = result) ∨
      (canonicalHandle displayApi issue.handle = handle ∧
        withCanonicalHandle displayApi issue = result) := fun result => by
    simp only [List.mem_append, List.mem_singleton, or_and_right, exists_or, exists_eq_left]
  rw [groupByStrippedHandle, AssocMap.lookup_update]
  split_ifs with hsame
  · subst hsame
    refine ⟨fun h => (by cases h), fun group hgroup => ?_⟩
    obtain rfl := Option.some.inj hgroup
    refine ⟨List.cons_ne_nil _ _, fun result => ?_⟩
    rw [hmem, List.mem_cons, eq_self, true_and, eq_comm, or_comm]
    refine or_congr_left ?_
    cases hlookup : map.lookup (canonicalHandle displayApi issue.handle) with
    | none =>
      refine iff_of_false List.not_mem_nil ?_
      rintro ⟨other, hother, hcanonical, -⟩
      exact hnone hlookup other hother hcanonical
    | some group => exact (hsome group hlookup).2 result
  · refine ⟨fun hlookup other hother => ?_, fun group hlookup => ?_⟩
    · rcases List.mem_append.mp hother with hold | hnew
      · exact hnone hlookup other hold
      · exact List.mem_singleton.mp hnew ▸ Ne.symm hsame
    · obtain ⟨hne, hgroup⟩ := hsome group hlookup
      refine ⟨hne, fun result => ?_⟩
      rw [hmem, hgroup]
      exact (or_iff_left fun hnew => hsame hnew.1.symm).symm

theorem groups_foldl
    (issues : List (RawIssue CallableId ModuleId ClassId SinkKind SourceTaint SinkTaint Location)) :
    Groups displayApi issues (issues.foldl (groupByStrippedHandle displayApi) ∅) := by
  have hrun : ∀ (rest before : List
      (RawIssue CallableId ModuleId ClassId SinkKind SourceTaint SinkTaint Location)) map,
      Groups displayApi before map →
        Groups displayApi (before ++ rest) (rest.foldl (groupByStrippedHandle displayApi) map) := by
    intro rest
    induction rest with
    | nil =>
      intro before map h
      rw [List.append_nil]
      exact h
    | cons issue rest ih =>
      intro before map h
      have hnext := ih (before ++ [issue]) _ (groups_step h issue)
      rw [List.append_assoc] at hnext
      exact hnext
  exact hrun issues [] ∅ fun handle =>
    ⟨fun _ _ hmem => absurd hmem List.not_mem_nil, fun _ hlookup => (by cases hlookup)⟩

variable [DecidableEq Location]

omit [DecidableEq SinkKind] in
/-- The issue of a group has the handle of its members, and their flows and locations. -/
theorem mergeGroup_spec
    {group : List (CanonicalIssue SinkKind SourceTaint SinkTaint ModuleId Location)}
    (hne : group ≠ []) {handle : Handle String SinkKind}
    (hhandle : ∀ issue ∈ group, issue.handle = handle) :
    ∃ result, mergeGroup forward backward group = some result ∧ result.handle = handle ∧
      IsJoinOf (Issue.join forward backward) {issue | issue ∈ group} result := by
  cases group with
  | nil => exact absurd rfl hne
  | cons head tail =>
    cases tail with
    | nil =>
      refine ⟨head, rfl, hhandle head List.mem_cons_self, fun bound _ => ?_⟩
      exact ⟨fun h issue hissue => List.mem_singleton.mp hissue ▸ h,
        fun h => h head List.mem_cons_self⟩
    | cons next rest =>
      have hkept : ∀ a b : CanonicalIssue SinkKind SourceTaint SinkTaint ModuleId Location,
          a.handle = handle → b.handle = handle → (a.join forward backward b).handle = handle :=
        fun a b ha _ => ha
      refine ⟨_, rfl, ?_, fun bound hbound => (foldBalanced_spec hbound hkept hhandle).1⟩
      exact (@foldBalanced_spec _ _ (fun _ => True) _
        (fun _ _ => ⟨fun _ => ⟨trivial, trivial⟩, fun _ => trivial⟩) hkept _ _ hhandle).2

/-- One issue for each canonical handle, with all flows and locations of those that have it. -/
structure Merged (displayApi : DisplayApi CallableId ModuleId ClassId)
    (forward : AbstractDomain SourceTaint) (backward : AbstractDomain SinkTaint)
    (issues : List (RawIssue CallableId ModuleId ClassId SinkKind SourceTaint SinkTaint Location))
    (merged : List (CanonicalIssue SinkKind SourceTaint SinkTaint ModuleId Location)) : Prop where
  once : (merged.map Issue.handle).Nodup
  handles : ∀ handle, handle ∈ merged.map Issue.handle ↔
    ∃ issue ∈ issues, canonicalHandle displayApi issue.handle = handle
  flow : ∀ result ∈ merged, IsJoinOf (Flow.join forward backward)
    {flow | ∃ issue ∈ issues, canonicalHandle displayApi issue.handle = result.handle ∧
      issue.flow = flow} result.flow
  locations : ∀ result ∈ merged, ∀ location, location ∈ result.locations ↔
    ∃ issue ∈ issues, canonicalHandle displayApi issue.handle = result.handle ∧
      location ∈ issue.locations

/-- **The merge**: one issue for each canonical handle, whatever the order. -/
theorem merged_mergeIssues
    (issues : List (RawIssue CallableId ModuleId ClassId SinkKind SourceTaint SinkTaint Location)) :
    Merged displayApi forward backward issues
      (mergeIssuesByCanonicalHandle displayApi forward backward issues) := by
  have hgroups : Groups displayApi issues _ := groups_foldl issues
  rw [mergeIssuesByCanonicalHandle]
  generalize issues.foldl (groupByStrippedHandle displayApi) ∅ = map at hgroups ⊢
  -- the result of each entry has its key and joins its group
  have hentry : ∀ handle group, map.lookup handle = some group →
      ∃ result, mergeGroup forward backward group = some result ∧ result.handle = handle ∧
        IsJoinOf (Issue.join forward backward) {issue | issue ∈ group} result := by
    intro handle group hlookup
    obtain ⟨hne, hmem⟩ := (hgroups handle).2 group hlookup
    refine mergeGroup_spec hne fun issue hissue => ?_
    obtain ⟨raw, -, hcanonical, rfl⟩ := (hmem issue).mp hissue
    exact hcanonical
  have hresult : ∀ result, result ∈ map.entries.filterMap (fun entry =>
      mergeGroup forward backward entry.2) →
        ∃ group, map.lookup result.handle = some group ∧
          IsJoinOf (Issue.join forward backward) {issue | issue ∈ group} result := by
    intro result hmem
    obtain ⟨⟨handle, group⟩, hgroup, hmerge⟩ := List.mem_filterMap.mp hmem
    have hlookup := AList.mem_lookup_iff.mpr hgroup
    obtain ⟨result', hmerge', hhandle, hjoin⟩ := hentry handle group hlookup
    obtain rfl := Option.some.inj (hmerge.symm.trans hmerge')
    exact ⟨group, hhandle.symm ▸ hlookup, hjoin⟩
  refine ⟨AssocMap.nodup_filterMap fun entry hmem result hmerge => ?_, fun handle => ?_,
    fun result hmem => ?_, fun result hmem location => ?_⟩
  · obtain ⟨result', hmerge', hhandle, -⟩ := hentry entry.1 entry.2 (AList.mem_lookup_iff.mpr hmem)
    obtain rfl := Option.some.inj (hmerge.symm.trans hmerge')
    exact hhandle
  · constructor
    · intro hmem
      obtain ⟨result, hresultMem, rfl⟩ := List.mem_map.mp hmem
      obtain ⟨group, hlookup, -⟩ := hresult result hresultMem
      obtain ⟨hne, hgroup⟩ := (hgroups result.handle).2 group hlookup
      obtain ⟨issue, hissue⟩ := List.exists_mem_of_ne_nil group hne
      obtain ⟨raw, hraw, hcanonical, -⟩ := (hgroup issue).mp hissue
      exact ⟨raw, hraw, hcanonical⟩
    · rintro ⟨issue, hissue, hcanonical⟩
      cases hlookup : map.lookup handle with
      | none => exact absurd hcanonical ((hgroups handle).1 hlookup issue hissue)
      | some group =>
        obtain ⟨result, hmerge, hhandle, -⟩ := hentry handle group hlookup
        exact List.mem_map.mpr ⟨result, List.mem_filterMap.mpr
          ⟨⟨handle, group⟩, AList.mem_lookup_iff.mp hlookup, hmerge⟩, hhandle⟩
  · obtain ⟨group, hlookup, hjoin⟩ := hresult result hmem
    have hgroup := ((hgroups result.handle).2 group hlookup).2
    have hflow : IsJoinOf (Flow.join forward backward)
        {flow | ∃ issue ∈ {issue | issue ∈ group}, issue.flow = flow} result.flow :=
      isJoinOf_map (fun _ _ => rfl) hjoin
    refine (congrArg (IsJoinOf _ · result.flow) (Set.ext fun flow => ?_)).mp hflow
    constructor
    · rintro ⟨issue, hissue, rfl⟩
      obtain ⟨raw, hraw, hcanonical, rfl⟩ := (hgroup issue).mp hissue
      exact ⟨raw, hraw, hcanonical, rfl⟩
    · rintro ⟨raw, hraw, hcanonical, rfl⟩
      exact ⟨_, (hgroup _).mpr ⟨raw, hraw, hcanonical, rfl⟩, rfl⟩
  · obtain ⟨group, hlookup, hjoin⟩ := hresult result hmem
    have hgroup := ((hgroups result.handle).2 group hlookup).2
    rw [isJoinOf_locations hjoin]
    constructor
    · rintro ⟨issue, hissue, hlocation⟩
      obtain ⟨raw, hraw, hcanonical, rfl⟩ := (hgroup issue).mp hissue
      exact ⟨raw, hraw, hcanonical, hlocation⟩
    · rintro ⟨raw, hraw, hcanonical, hlocation⟩
      exact ⟨_, (hgroup _).mpr ⟨raw, hraw, hcanonical, rfl⟩, hlocation⟩

end Merge

/-! ## 4. The issues of all callables -/

section Reported

variable {CallableId ModuleId ClassId SinkKind SourceTaint SinkTaint Location : Type}
  [DecidableEq CallableId] [DecidableEq ModuleId] [DecidableEq ClassId] [DecidableEq SinkKind]
  [DecidableEq Location]

/-- A set of callables, with each one the one without parameters. -/
structure Callables (CallableId ModuleId ClassId : Type) where
  list : List (Target CallableId ModuleId ClassId)
  nodup : list.Nodup
  closed : ∀ callable ∈ list, callable.stripParameters ∈ list

theorem stripParameters_eq_self {CallableId ModuleId ClassId : Type}
    {target : Target CallableId ModuleId ClassId} (h : target.isParameterized = false) :
    target.stripParameters = target := by
  cases target with
  | regular base => rfl
  | parameterized base parameters => cases h

theorem mem_get_fromCallables (callables : List (Target CallableId ModuleId ClassId))
    (callable target : Target CallableId ModuleId ClassId) :
    target ∈ (CallableToParameters.fromCallables callables).get callable ↔
      target ∈ callables ∧ target.isParameterized = true ∧ target.stripParameters = callable := by
  have hfold : ∀ (rest : List (Target CallableId ModuleId ClassId))
      (map : CallableToParameters CallableId ModuleId ClassId),
      target ∈ CallableToParameters.get (rest.foldl CallableToParameters.add map) callable ↔
        (target ∈ rest ∧ target.stripParameters = callable) ∨ target ∈ map.get callable := by
    intro rest
    induction rest with
    | nil => simp
    | cons next rest ih =>
      intro map
      rw [List.foldl_cons, ih]
      have hstep : target ∈ CallableToParameters.get (map.add next) callable ↔
          (target = next ∧ next.stripParameters = callable) ∨ target ∈ map.get callable := by
        rw [CallableToParameters.get, CallableToParameters.add, AssocMap.lookup_update]
        split_ifs with hsame
        · rw [hsame, Option.getD_some, List.mem_cons, eq_self, and_true]
          rfl
        · rw [← CallableToParameters.get]
          exact (or_iff_right fun hboth => hsame hboth.2.symm).symm
      rw [hstep, List.mem_cons]
      constructor
      · rintro (⟨hrest, hstrip⟩ | ⟨rfl, hstrip⟩ | hold)
        · exact .inl ⟨.inr hrest, hstrip⟩
        · exact .inl ⟨.inl rfl, hstrip⟩
        · exact .inr hold
      · rintro (⟨rfl | hrest, hstrip⟩ | hold)
        · exact .inr (.inl ⟨rfl, hstrip⟩)
        · exact .inl ⟨hrest, hstrip⟩
        · exact .inr (.inr hold)
  rw [CallableToParameters.fromCallables, hfold, List.mem_filter, and_assoc]
  exact or_iff_left List.not_mem_nil

variable (displayApi : DisplayApi CallableId ModuleId ClassId)
  (forward : AbstractDomain SourceTaint) (backward : AbstractDomain SinkTaint)
  (results : Results CallableId ModuleId ClassId SinkKind SourceTaint SinkTaint Location)
  (deterministicLe : Handle String SinkKind → Handle String SinkKind → Bool) (sorted : Bool)

/-- The handles that are written for a callable. -/
def writtenHandles (callables : Callables CallableId ModuleId ClassId)
    (callable : Target CallableId ModuleId ClassId) : List (Handle String SinkKind) :=
  (issuesToNewlineDelimitedJson displayApi forward backward results deterministicLe
    (CallableToParameters.fromCallables callables.list) sorted callable).map Issue.handle

/-- What is reported: each list of issues is merged, and over all callables each handle of the
    errors is written, once. -/
structure Reported (callables : Callables CallableId ModuleId ClassId) : Prop where
  merged : ∀ issues : List
      (RawIssue CallableId ModuleId ClassId SinkKind SourceTaint SinkTaint Location),
    Merged displayApi forward backward issues
      (mergeIssuesByCanonicalHandle displayApi forward backward issues)
  once : (callables.list.flatMap (writtenHandles displayApi forward backward results
    deterministicLe sorted callables)).Nodup
  same : ∀ handle, handle ∈ callables.list.flatMap (writtenHandles displayApi forward backward
      results deterministicLe sorted callables) ↔
    handle ∈ (extractErrors displayApi forward backward results callables.list).map Issue.handle

/-- Issues of callables that differ by more than their parameters have different codes, sinks or
    names of the callable, without parameters and path prefixes. -/
def SeparateHandles (callables : Callables CallableId ModuleId ClassId) : Prop :=
  ∀ left ∈ callables.list, ∀ right ∈ callables.list,
    ∀ issue ∈ results left, ∀ issue' ∈ results right,
      canonicalHandle displayApi issue.handle = canonicalHandle displayApi issue'.handle →
        left.stripParameters = right.stripParameters

variable {displayApi forward backward results deterministicLe sorted}
  {callables : Callables CallableId ModuleId ClassId}

theorem nodup_writtenHandles (callable : Target CallableId ModuleId ClassId) :
    (writtenHandles displayApi forward backward results deterministicLe sorted callables
      callable).Nodup := by
  rw [writtenHandles, issuesToNewlineDelimitedJson]
  split_ifs
  · exact List.nodup_nil
  · exact ((List.mergeSort_perm _ _).map _).nodup_iff.mpr (merged_mergeIssues _).once
  · exact (merged_mergeIssues _).once

/-- The handles of a callable and of its parameterized versions. -/
theorem mem_writtenHandles {callable : Target CallableId ModuleId ClassId}
    (hcallable : callable ∈ callables.list) {handle : Handle String SinkKind} :
    handle ∈ writtenHandles displayApi forward backward results deterministicLe sorted callables
        callable ↔
      callable.isParameterized = false ∧ ∃ target ∈ callables.list,
        target.stripParameters = callable ∧
          ∃ issue ∈ results target, canonicalHandle displayApi issue.handle = handle := by
  rw [writtenHandles, issuesToNewlineDelimitedJson]
  have hmem : callable.isParameterized = false →
      (handle ∈ (mergeIssuesByCanonicalHandle displayApi forward backward
          ((callable :: (CallableToParameters.fromCallables callables.list).get callable).flatMap
            results)).map Issue.handle ↔
        ∃ target ∈ callables.list, target.stripParameters = callable ∧
          ∃ issue ∈ results target, canonicalHandle displayApi issue.handle = handle) := by
    intro hregular
    rw [(merged_mergeIssues _).handles]
    constructor
    · rintro ⟨issue, hissue, hcanonical⟩
      obtain ⟨target, htarget, hresult⟩ := List.mem_flatMap.mp hissue
      rcases List.mem_cons.mp htarget with heq | htarget
      · exact ⟨target, heq ▸ hcallable, (stripParameters_eq_self (heq ▸ hregular)).trans heq,
          issue, hresult, hcanonical⟩
      · obtain ⟨hlist, -, hstrip⟩ := (mem_get_fromCallables _ _ _).mp htarget
        exact ⟨target, hlist, hstrip, issue, hresult, hcanonical⟩
    · rintro ⟨target, htarget, hstrip, issue, hissue, hcanonical⟩
      refine ⟨issue, List.mem_flatMap.mpr ⟨target, ?_, hissue⟩, hcanonical⟩
      cases hparameterized : target.isParameterized with
      | false =>
        rw [← hstrip, stripParameters_eq_self hparameterized]
        exact List.mem_cons_self
      | true =>
        exact List.mem_cons_of_mem _
          ((mem_get_fromCallables _ _ _).mpr ⟨htarget, hparameterized, hstrip⟩)
  split_ifs with hparameterized
  · simp [hparameterized]
  · have hregular := Bool.eq_false_iff.mpr hparameterized
    rw [((List.mergeSort_perm _ _).map _).mem_iff, hmem hregular]
    exact (and_iff_right hregular).symm
  · have hregular := Bool.eq_false_iff.mpr hparameterized
    rw [hmem hregular]
    exact (and_iff_right hregular).symm

/-- **The reported issues**: none is lost, and none is written twice if and only if different
    callables have different canonical handles. -/
theorem reported_iff (callables : Callables CallableId ModuleId ClassId) :
    Reported displayApi forward backward results deterministicLe sorted callables ↔
      SeparateHandles displayApi results callables := by
  have hregular : ∀ target : Target CallableId ModuleId ClassId,
      target.stripParameters.isParameterized = false := fun _ => rfl
  have hwritten : ∀ target ∈ callables.list, ∀ issue ∈ results target,
      canonicalHandle displayApi issue.handle ∈ writtenHandles displayApi forward backward results
        deterministicLe sorted callables target.stripParameters := fun target htarget issue hissue =>
    (mem_writtenHandles (callables.closed target htarget)).mpr
      ⟨hregular target, target, htarget, rfl, issue, hissue, rfl⟩
  constructor
  · intro hreported left hleft right hright issue hissue issue' hissue' hsame
    by_contra hne
    have hsymm : Std.Symm (Function.onFun List.Disjoint (writtenHandles displayApi forward backward
        results deterministicLe sorted callables)) := ⟨fun _ _ h => List.Disjoint.symm h⟩
    have hdisjoint := (List.nodup_flatMap.mp hreported.once).2.forall
      (callables.closed left hleft) (callables.closed right hright) hne
    exact hdisjoint (hwritten left hleft issue hissue)
      (hsame ▸ hwritten right hright issue' hissue')
  · intro hseparate
    refine ⟨merged_mergeIssues, List.nodup_flatMap.mpr ⟨fun callable _ =>
      nodup_writtenHandles callable, ?_⟩, fun handle => ?_⟩
    · refine callables.nodup.imp_of_mem fun {left right} hleft hright hne handle hl hr => hne ?_
      obtain ⟨-, target, htarget, rfl, issue, hissue, hcanonical⟩ :=
        (mem_writtenHandles hleft).mp hl
      obtain ⟨-, target', htarget', rfl, issue', hissue', hcanonical'⟩ :=
        (mem_writtenHandles hright).mp hr
      exact hseparate target htarget target' htarget' issue hissue issue' hissue'
        (hcanonical.trans hcanonical'.symm)
    · rw [extractErrors, (merged_mergeIssues _).handles]
      constructor
      · intro hmem
        obtain ⟨callable, hcallable, hhandle⟩ := List.mem_flatMap.mp hmem
        obtain ⟨-, target, htarget, -, issue, hissue, hcanonical⟩ :=
          (mem_writtenHandles hcallable).mp hhandle
        exact ⟨issue, List.mem_flatMap.mpr ⟨target, htarget, hissue⟩, hcanonical⟩
      · rintro ⟨issue, hmem, rfl⟩
        obtain ⟨target, htarget, hissue⟩ := List.mem_flatMap.mp hmem
        exact List.mem_flatMap.mpr ⟨target.stripParameters, callables.closed target htarget,
          hwritten target htarget issue hissue⟩

/-- Functions of one name in two files whose modules have one name: the paths are stripped, and the
    issues of both are written under one handle. -/
theorem same_names_not_reported :
    ¬∀ (displayApi : DisplayApi Bool Unit Unit) (domain : AbstractDomain Unit)
      (results : Results Bool Unit Unit Unit Unit Unit ℕ) (callables : Callables Bool Unit Unit),
      Reported displayApi domain domain results (fun _ _ => true) false callables := by
  intro h
  let name (callable : Bool) : Reference := [if callable then "a/m.py:m" else "b/m.py:m", "f"]
  let displayApi : DisplayApi Bool Unit Unit := ⟨name, name, fun _ => [], fun _ => []⟩
  let domain : AbstractDomain Unit :=
    ⟨(), fun _ => true, fun _ _ => (), fun _ _ => (), fun _ _ => true, fun _ _ _ => (),
      fun _ _ => ()⟩
  let callables : Callables Bool Unit Unit :=
    ⟨[.regular (.function true), .regular (.function false)], by decide, by decide⟩
  let results : Results Bool Unit Unit Unit Unit Unit ℕ := fun callable =>
    [⟨⟨(), ()⟩, ⟨5001, callable, .return⟩, (), {7}, 6⟩]
  exact absurd (h displayApi domain results callables).once (by decide +kernel)

end Reported

end Pysa.TaintReporting
