/-
  Subject: THE PRUNING OF NAMED TRANSFORMS keeps what a rule needs, and nothing longer.

  * `Kept` -- the test of `prependNameTransform`; one step of `addTransform` changes the named
    transforms only where it holds;
  * `AddTransformResult.Sound` -- the invariant of adding a list of transforms;
  * `View` -- what the runs of operations on a kind need of sources and sinks;
  * `pruning` -- **completeness and convergence**.
-/
import Pysa.Taint.SourceSinkFilterSpec
import Pysa.Taint.TransformOperation

namespace Pysa.Taint

/-! ## 1. One transform -/

namespace KindArg

variable {T : Type} (K : KindArg T) (filter : SourceSinkFilter) (base : T)

/-- The test that a kind with these named transforms must pass. -/
def Kept (named : TaintTransforms) : Prop :=
  if K.isTito base = true then named ∈ filter.possibleTitoTransforms
  else (K.matchingSanitizeTransforms filter named base).isSome = true

variable {K filter base}

theorem prependNameTransform_isSome {named : TaintTransforms} (transforms : TaintTransforms)
    {t : TaintTransform} :
    (K.prependNameTransform filter base named transforms t).isSome = true ↔
      K.Kept filter base (t :: named) := by
  unfold prependNameTransform Kept
  by_cases htito : K.isTito base = true
  · by_cases hmem : t :: named ∈ filter.possibleTitoTransforms <;> simp [htito, hmem]
  · cases hmatch : K.matchingSanitizeTransforms filter (t :: named) base <;> simp [htito, hmatch]

theorem getNamedTransforms_prependName {named transforms result : TaintTransforms} {name : String}
    (h : K.prependNameTransform filter base named transforms (.named name) = some result) :
    result.getNamedTransforms = .named name :: transforms.getNamedTransforms := by
  cases htito : K.isTito base with
  | false =>
    simp only [prependNameTransform, htito] at h
    obtain ⟨-, rfl⟩ : _ ∧ _ = result := by simpa using h
    simp
  | true =>
    simp only [prependNameTransform, htito] at h
    obtain ⟨-, rfl⟩ : _ ∧ _ = result := by simpa using h
    simp

theorem prependSanitizeTransforms_spec {named transforms result : TaintTransforms}
    {globalSanitizers sanitizers : SanitizeTransformSet}
    (h : K.prependSanitizeTransforms filter base named globalSanitizers transforms sanitizers =
      some result) :
    result.getNamedTransforms = transforms.getNamedTransforms ∧
      (transforms ≠ [] → result ≠ []) := by
  unfold prependSanitizeTransforms at h
  by_cases hsources : sanitizers.sources.isAll = true
  · rw [if_pos hsources] at h
    cases h
  by_cases hsinks : sanitizers.sinks.isAll = true
  · rw [if_neg hsources, if_pos hsinks] at h
    cases h
  rw [if_neg hsources, if_neg hsinks] at h
  by_cases hbase : (named.isEmpty && (K.baseAsSanitizer base).any sanitizers.mem) = true
  · rw [if_pos hbase] at h
    cases h
  rw [if_neg hbase] at h
  dsimp only at h
  generalize (K.preserveSanitizers base sanitizers).diff globalSanitizers = rest at h
  by_cases hrest : rest.isEmpty = true
  · rw [if_pos hrest] at h
    cases h
    exact ⟨rfl, id⟩
  rw [if_neg hrest] at h
  have hadd : ∀ (matchingKinds : Option MatchingSanitizeTransforms)
      (sanitizers : SanitizeTransformSet),
      (if sanitizers.isEmpty = true then some transforms
      else if K.shouldKeepSanitized base matchingKinds
          (sanitizers.join transforms.splitSanitizers.1) globalSanitizers = true then
        some (.sanitize (sanitizers.join transforms.splitSanitizers.1) ::
          transforms.splitSanitizers.2)
      else none) = some result →
      result.getNamedTransforms = transforms.getNamedTransforms ∧
        (transforms ≠ [] → result ≠ []) := by
    intro matchingKinds sanitizers h
    split at h
    · cases h
      exact ⟨rfl, id⟩
    split at h
    · cases h
      exact ⟨by simp, fun _ => List.cons_ne_nil _ _⟩
    · cases h
  exact hadd _ _ h

/-- A transform that is added is a named one that passes the test, or it leaves the named
    transforms as they are. -/
theorem addTransform_spec {named transforms result : TaintTransforms} {t : TaintTransform}
    {globalSanitizers : SanitizeTransformSet} {insertLocation : InsertLocation}
    {next : AddTransformResult}
    (h : K.addTransform filter base named globalSanitizers insertLocation transforms t = .ok next)
    (hresult : next.transforms = some result) :
    (transforms ≠ [] → result ≠ []) ∧
      ((next.namedTransforms = t :: named ∧ K.Kept filter base (t :: named) ∧
        result.getNamedTransforms = t :: transforms.getNamedTransforms) ∨
      next.namedTransforms = named ∧
        result.getNamedTransforms = transforms.getNamedTransforms) := by
  cases t with
  | named name =>
    cases h
    have hnamed := getNamedTransforms_prependName hresult
    have hkept := (prependNameTransform_isSome transforms).mp (Option.isSome_of_mem hresult)
    refine ⟨fun _ hnil => ?_, Or.inl ⟨rfl, hkept, hnamed⟩⟩
    rw [hnil] at hnamed
    cases hnamed
  | sanitize sanitizers =>
    unfold addTransform at h
    dsimp only at h
    cases hadd : K.addSanitizeTransformsInternal filter base named globalSanitizers
        insertLocation transforms sanitizers with
    | error e =>
      rw [hadd] at h
      cases h
    | ok added =>
      rw [hadd] at h
      cases h
      obtain rfl : added = some result := hresult
      cases insertLocation with
      | front =>
        obtain ⟨hnamed, hne⟩ := prependSanitizeTransforms_spec (Except.ok.inj hadd)
        exact ⟨hne, Or.inr ⟨rfl, hnamed⟩⟩
      | back =>
        unfold addSanitizeTransformsInternal at hadd
        dsimp only at hadd
        split at hadd
        · obtain ⟨reversed, hreversed, rfl⟩ := Option.map_eq_some_iff.mp
            (Except.ok.inj hadd)
          obtain ⟨hnamed, hne⟩ := prependSanitizeTransforms_spec hreversed
          refine ⟨fun h => ?_, Or.inr ⟨rfl, ?_⟩⟩
          · simpa using hne (by simpa using h)
          · simpa using congrArg List.reverse hnamed
        · cases hadd
  | triggeredPartialSink _ => cases h

/-! ## 2. A list of transforms -/

/-- What holds of the transforms added so far: `named` lists the named transforms, and either none
    was added or the last one passed the test. -/
structure AddTransformResult.Sound (K : KindArg T) (filter : SourceSinkFilter) (base : T)
    (localPart globalPart : TaintTransforms) (sofar : AddTransformResult)
    (transforms : TaintTransforms) : Prop where
  named : sofar.namedTransforms = transforms.getNamedTransforms ++ globalPart.getNamedTransforms
  kept : sofar.namedTransforms = localPart.getNamedTransforms ++ globalPart.getNamedTransforms ∨
    sofar.namedTransforms ≠ [] ∧ K.Kept filter base sofar.namedTransforms
  nonempty : localPart ≠ [] → transforms ≠ []

variable {localPart globalPart : TaintTransforms} {insertLocation : InsertLocation}

theorem AddTransformResult.Sound.step {sofar next : AddTransformResult}
    {transforms result : TaintTransforms} {t : TaintTransform}
    (hsound : sofar.Sound K filter base localPart globalPart transforms)
    (h : K.addTransform filter base sofar.namedTransforms sofar.globalSanitizers insertLocation
      transforms t = .ok next) (hresult : next.transforms = some result) :
    next.Sound K filter base localPart globalPart result := by
  obtain ⟨hne, ⟨hnext, hkept, hnamed⟩ | ⟨hnext, hnamed⟩⟩ := addTransform_spec h hresult
  · refine ⟨?_, Or.inr ?_, fun h => hne (hsound.nonempty h)⟩
    · rw [hnext, hnamed, hsound.named]
      rfl
    · rw [hnext]
      exact ⟨List.cons_ne_nil _ _, hkept⟩
  · refine ⟨?_, ?_, fun h => hne (hsound.nonempty h)⟩
    · rw [hnext, hnamed, hsound.named]
    · rw [hnext]
      exact hsound.kept

theorem addFromLeft_sound {toAdd : TaintTransforms} {sofar next : AddTransformResult}
    (hsound : ∀ transforms, sofar.transforms = some transforms →
      sofar.Sound K filter base localPart globalPart transforms)
    (h : K.addFromLeft filter base insertLocation sofar toAdd = .ok next) :
    ∀ transforms, next.transforms = some transforms →
      next.Sound K filter base localPart globalPart transforms := by
  induction toAdd generalizing sofar with
  | nil =>
    cases h
    exact hsound
  | cons head tail ih =>
    unfold addFromLeft at h
    cases htransforms : sofar.transforms with
    | none =>
      rw [htransforms] at h
      cases h
      intro transforms hsome
      rw [htransforms] at hsome
      cases hsome
    | some transforms =>
      rw [htransforms] at h
      dsimp only at h
      cases hadd : K.addTransform filter base sofar.namedTransforms sofar.globalSanitizers
          insertLocation transforms head with
      | error e =>
        rw [hadd] at h
        cases h
      | ok added =>
        rw [hadd] at h
        exact ih (fun result hresult =>
          (hsound transforms htransforms).step hadd hresult) h

theorem addFromRight_sound {toAdd : TaintTransforms} {sofar next : AddTransformResult}
    (hsound : ∀ transforms, sofar.transforms = some transforms →
      sofar.Sound K filter base localPart globalPart transforms)
    (h : K.addFromRight filter base insertLocation sofar toAdd = .ok next) :
    ∀ transforms, next.transforms = some transforms →
      next.Sound K filter base localPart globalPart transforms := by
  induction toAdd generalizing next with
  | nil =>
    cases h
    exact hsound
  | cons head tail ih =>
    unfold addFromRight at h
    cases hrest : K.addFromRight filter base insertLocation sofar tail with
    | error e =>
      rw [hrest] at h
      cases h
    | ok rest =>
      rw [hrest] at h
      have hrestSound := ih hrest
      cases htransforms : rest.transforms with
      | none =>
        simp only [bind, Except.bind, htransforms] at h
        cases h
        exact hrestSound
      | some transforms =>
        simp only [bind, Except.bind, htransforms] at h
        exact fun result hresult =>
          (hrestSound transforms htransforms).step h hresult

/-- The named transforms after a list of them was added. -/
def extend (K : KindArg T) (toAdd named : TaintTransforms) : TaintTransforms :=
  match K.order with
  | .forward => toAdd.reverse ++ named
  | .backward => toAdd ++ named

theorem addTransform_kept (insertLocation : InsertLocation) {sofar : AddTransformResult}
    (transforms : TaintTransforms) {t : TaintTransform} (ht : t.isNamedTransform = true)
    (hkept : K.Kept filter base (t :: sofar.namedTransforms)) :
    ∃ next result, K.addTransform filter base sofar.namedTransforms sofar.globalSanitizers
      insertLocation transforms t = .ok next ∧ next.transforms = some result ∧
      next.namedTransforms = t :: sofar.namedTransforms := by
  cases t with
  | sanitize _ => exact absurd ht Bool.false_ne_true
  | triggeredPartialSink _ => exact absurd ht Bool.false_ne_true
  | named name =>
    obtain ⟨result, hresult⟩ := Option.isSome_iff_exists.mp
      ((prependNameTransform_isSome transforms).mpr hkept)
    exact ⟨_, result, rfl, hresult, rfl⟩

/-- From the left nothing is dropped when every list of named transforms on the way is kept. -/
theorem addFromLeft_kept (insertLocation : InsertLocation) {toAdd : TaintTransforms}
    (htoAdd : ∀ t ∈ toAdd, t.isNamedTransform = true) (sofar : AddTransformResult)
    {transforms : TaintTransforms} (htransforms : sofar.transforms = some transforms)
    (hkept : ∀ part, part <:+ toAdd.reverse ++ sofar.namedTransforms →
      sofar.namedTransforms.length < part.length → K.Kept filter base part) :
    ∃ next result, K.addFromLeft filter base insertLocation sofar toAdd = .ok next ∧
      next.transforms = some result ∧
      next.namedTransforms = toAdd.reverse ++ sofar.namedTransforms := by
  induction toAdd generalizing sofar transforms with
  | nil => exact ⟨sofar, transforms, rfl, htransforms, rfl⟩
  | cons head tail ih =>
    have hhead : K.Kept filter base (head :: sofar.namedTransforms) :=
      hkept _ ⟨tail.reverse, by simp⟩ (Nat.lt_succ_self _)
    obtain ⟨added, result, hadded, hresult, hnamed⟩ := addTransform_kept insertLocation transforms
      (htoAdd head List.mem_cons_self) hhead
    obtain ⟨next, result', hnext, hresult', hnamed'⟩ := ih
      (fun t ht => htoAdd t (List.mem_cons_of_mem _ ht)) added hresult fun part hpart hlength =>
        hkept part (by rw [hnamed] at hpart; simpa using hpart)
          (lt_trans (by rw [hnamed]; exact Nat.lt_succ_self _) hlength)
    refine ⟨next, result', ?_, hresult', ?_⟩
    · unfold addFromLeft
      rw [htransforms]
      dsimp only
      rw [hadded]
      exact hnext
    · rw [hnamed', hnamed]
      simp

theorem addFromRight_kept (insertLocation : InsertLocation) {toAdd : TaintTransforms}
    (htoAdd : ∀ t ∈ toAdd, t.isNamedTransform = true) (sofar : AddTransformResult)
    {transforms : TaintTransforms} (htransforms : sofar.transforms = some transforms)
    (hkept : ∀ part, part <:+ toAdd ++ sofar.namedTransforms →
      sofar.namedTransforms.length < part.length → K.Kept filter base part) :
    ∃ next result, K.addFromRight filter base insertLocation sofar toAdd = .ok next ∧
      next.transforms = some result ∧
      next.namedTransforms = toAdd ++ sofar.namedTransforms := by
  induction toAdd with
  | nil => exact ⟨sofar, transforms, rfl, htransforms, rfl⟩
  | cons head tail ih =>
    obtain ⟨rest, result, hrest, hresult, hnamed⟩ := ih
      (fun t ht => htoAdd t (List.mem_cons_of_mem _ ht)) fun part hpart =>
        hkept part (hpart.trans (List.suffix_cons _ _))
    have hhead : K.Kept filter base (head :: rest.namedTransforms) := by
      rw [hnamed]
      refine hkept _ (List.suffix_refl _) ?_
      rw [List.length_cons, List.length_append]
      omega
    obtain ⟨next, result', hnext, hresult', hnamed'⟩ := addTransform_kept insertLocation result
      (htoAdd head List.mem_cons_self) hhead
    refine ⟨next, result', ?_, hresult', ?_⟩
    · unfold addFromRight
      rw [hrest]
      simp only [bind, Except.bind, hresult]
      exact hnext
    · rw [hnamed', hnamed]
      rfl

/-- The state of the loop at a local and a global part. -/
def AddTransformResult.start (localPart globalPart : TaintTransforms) : AddTransformResult :=
  ⟨some localPart, getNamedTransforms localPart globalPart,
    getGlobalSanitizers localPart globalPart⟩

theorem AddTransformResult.sound_start (transforms : TaintTransforms)
    (h : (some localPart : Option TaintTransforms) = some transforms) :
    Sound K filter base localPart globalPart (.start localPart globalPart) transforms := by
  cases h
  exact ⟨rfl, Or.inl rfl, id⟩

/-- What `addTransforms` returns carries the named transforms of the kind, or a list that passed
    the test. -/
theorem addTransforms_sound {toAdd result : TaintTransforms}
    (h : K.addTransforms filter base localPart globalPart K.order insertLocation toAdd .backward =
      .ok (some result)) :
    (result.getNamedTransforms = localPart.getNamedTransforms ∨
      result.getNamedTransforms ++ globalPart.getNamedTransforms ≠ [] ∧
      K.Kept filter base (result.getNamedTransforms ++ globalPart.getNamedTransforms)) ∧
      (localPart ≠ [] → result ≠ []) := by
  have hsound : ∃ next : AddTransformResult, next.transforms = some result ∧
      next.Sound K filter base localPart globalPart result := by
    unfold addTransforms at h
    cases horder : K.order with
    | forward =>
      rw [horder] at h
      simp only [addBackwardIntoForwardTransforms] at h
      rw [← AddTransformResult.start] at h
      cases hadd : K.addFromLeft filter base insertLocation (.start localPart globalPart) toAdd with
      | error e =>
        rw [hadd] at h
        cases h
      | ok next =>
        rw [hadd] at h
        have hnext : next.transforms = some result := Except.ok.inj h
        exact ⟨next, hnext, addFromLeft_sound AddTransformResult.sound_start hadd result hnext⟩
    | backward =>
      rw [horder] at h
      simp only [addBackwardIntoBackwardTransforms] at h
      rw [← AddTransformResult.start] at h
      cases hadd : K.addFromRight filter base insertLocation (.start localPart globalPart) toAdd with
      | error e =>
        rw [hadd] at h
        cases h
      | ok next =>
        rw [hadd] at h
        have hnext : next.transforms = some result := Except.ok.inj h
        exact ⟨next, hnext, addFromRight_sound AddTransformResult.sound_start hadd result hnext⟩
  obtain ⟨next, -, hnamed, hkept, hne⟩ := hsound
  refine ⟨?_, hne⟩
  rw [hnamed] at hkept
  exact hkept.imp_left List.append_cancel_right

/-- Named transforms are added when every list of named transforms on the way is kept. -/
theorem addTransforms_kept (insertLocation : InsertLocation) {toAdd : TaintTransforms}
    (htoAdd : ∀ t ∈ toAdd, t.isNamedTransform = true)
    (hkept : ∀ part, part <:+ K.extend toAdd (getNamedTransforms localPart globalPart) →
      (getNamedTransforms localPart globalPart).length < part.length → K.Kept filter base part) :
    ∃ result, K.addTransforms filter base localPart globalPart K.order insertLocation toAdd
        .backward = .ok (some result) ∧
      result.getNamedTransforms ++ globalPart.getNamedTransforms =
        K.extend toAdd (getNamedTransforms localPart globalPart) := by
  unfold extend at hkept
  unfold addTransforms extend
  cases horder : K.order with
  | forward =>
    rw [horder] at hkept
    obtain ⟨next, result, hadd, hresult, hnamed⟩ := addFromLeft_kept insertLocation htoAdd
      (.start localPart globalPart) rfl hkept
    refine ⟨result, ?_, ?_⟩
    · simp only [addBackwardIntoForwardTransforms]
      rw [← AddTransformResult.start, hadd, ← hresult]
      rfl
    · rw [← (addFromLeft_sound AddTransformResult.sound_start hadd result hresult).named]
      exact hnamed
  | backward =>
    rw [horder] at hkept
    obtain ⟨next, result, hadd, hresult, hnamed⟩ := addFromRight_kept insertLocation htoAdd
      (.start localPart globalPart) rfl hkept
    refine ⟨result, ?_, ?_⟩
    · simp only [addBackwardIntoBackwardTransforms]
      rw [← AddTransformResult.start, hadd, ← hresult]
      rfl
    · rw [← (addFromRight_sound AddTransformResult.sound_start hadd result hresult).named]
      exact hnamed

/-! ## 3. Kinds -/

/-- Named transforms, base and call of the kinds that `K` operates on. -/
structure View (K : KindArg T) where
  named : T → TaintTransforms
  base : T → T
  call : T → T
  base_spec : ∀ {kind b}, K.deconstruct kind = .base b →
    b = kind ∧ named kind = [] ∧ base kind = kind ∧ call kind = kind
  transformed_spec : ∀ {kind localPart globalPart b},
    K.deconstruct kind = .transformed localPart globalPart b →
      named kind = localPart.getNamedTransforms ++ globalPart.getNamedTransforms ∧
        base kind = b ∧ K.deconstruct (call kind) = .transformed [] (localPart ++ globalPart) b
  nonTransformable_spec : ∀ {kind k}, K.deconstruct kind = .nonTransformable k →
    k = kind ∧ call kind = kind
  make_nil : ∀ b, K.makeTransform [] [] b = b
  make_spec : ∀ {localPart globalPart b}, localPart ++ globalPart ≠ [] →
    K.deconstruct (K.makeTransform localPart globalPart b) = .transformed localPart globalPart b

/-- The invariant of a kind with transforms: there is at least one. -/
def WellFormed (K : KindArg T) (kind : T) : Prop :=
  ∀ localPart globalPart b, K.deconstruct kind = .transformed localPart globalPart b →
    localPart ++ globalPart ≠ []

def Transformable (K : KindArg T) (kind : T) : Prop :=
  ∀ k, K.deconstruct kind ≠ .nonTransformable k

variable (V : View K) {kind : T}

/-- What a kind is put together from; a base has no transforms. -/
def Parts (K : KindArg T) (kind : T) (localPart globalPart : TaintTransforms) (b : T) : Prop :=
  (K.deconstruct kind = .transformed localPart globalPart b ∧ localPart ++ globalPart ≠ []) ∨
    (K.deconstruct b = .base b ∧ kind = b ∧ localPart = [] ∧ globalPart = [])

theorem View.exists_parts (hkind : K.WellFormed kind) (htransformable : K.Transformable kind) :
    ∃ localPart globalPart, K.Parts kind localPart globalPart (V.base kind) := by
  cases hdeconstruct : K.deconstruct kind with
  | nonTransformable k => exact absurd hdeconstruct (htransformable k)
  | base b =>
    obtain ⟨rfl, -, hb, -⟩ := V.base_spec hdeconstruct
    rw [hb]
    exact ⟨[], [], Or.inr ⟨hdeconstruct, rfl, rfl, rfl⟩⟩
  | transformed localPart globalPart b =>
    obtain ⟨-, rfl, -⟩ := V.transformed_spec hdeconstruct
    exact ⟨localPart, globalPart, Or.inl ⟨hdeconstruct, hkind _ _ _ hdeconstruct⟩⟩

variable {b : T}

include V in
/-- A new local part, which is empty only if the old one is. -/
theorem View.parts_make {localPart' : TaintTransforms} (h : K.Parts kind localPart globalPart b)
    (hne : localPart ≠ [] → localPart' ≠ []) :
    K.Parts (K.makeTransform localPart' globalPart b) localPart' globalPart b := by
  by_cases hempty : localPart' ++ globalPart = []
  · obtain ⟨rfl, rfl⟩ := List.append_eq_nil_iff.mp hempty
    obtain rfl : localPart = [] := by
      by_contra hl
      exact hne hl rfl
    rcases h with ⟨-, h⟩ | ⟨hbase, -⟩
    · exact absurd rfl h
    · exact Or.inr ⟨hbase, V.make_nil b, rfl, rfl⟩
  · exact Or.inl ⟨V.make_spec hempty, hempty⟩

theorem View.parts_spec (h : K.Parts kind localPart globalPart b) :
    V.named kind = getNamedTransforms localPart globalPart ∧ V.base kind = b ∧
      K.WellFormed kind ∧ K.Transformable kind := by
  rcases h with ⟨hdeconstruct, hne⟩ | ⟨hdeconstruct, rfl, rfl, rfl⟩
  · obtain ⟨hnamed, hb, -⟩ := V.transformed_spec hdeconstruct
    refine ⟨hnamed, hb, fun l g b' h => ?_, fun k h => ?_⟩ <;> rw [hdeconstruct] at h <;> cases h
    exact hne
  · obtain ⟨-, hnamed, hb, -⟩ := V.base_spec hdeconstruct
    refine ⟨hnamed, hb, fun l g b' h => ?_, fun k h => ?_⟩ <;> rw [hdeconstruct] at h <;> cases h

/-- On a kind with parts, the transforms are added to the local part. -/
theorem Parts.apply_eq (h : K.Parts kind localPart globalPart b) (toAdd : TaintTransforms)
    (order : TaintTransforms.Order) :
    K.applyTransforms filter toAdd insertLocation order kind =
      (K.addTransforms filter b localPart globalPart K.order insertLocation toAdd order).map
        (Option.map (K.makeTransform · globalPart b)) := by
  rcases h with ⟨hdeconstruct, -⟩ | ⟨hdeconstruct, rfl, rfl, rfl⟩
  · rw [applyTransforms, hdeconstruct]
    dsimp only
    cases K.addTransforms filter b localPart globalPart K.order insertLocation toAdd order <;> rfl
  · rw [applyTransforms, hdeconstruct]
    dsimp only
    cases K.addTransforms filter kind [] [] K.order insertLocation toAdd order <;> rfl

/-- **The step lemma**: a kind that `applyTransforms` keeps has the named transforms of before, or
    a list that passed the test. -/
theorem View.apply_sound {toAdd : TaintTransforms} {result : T} (hkind : K.WellFormed kind)
    (h : K.applyTransforms filter toAdd insertLocation .backward kind = .ok (some result)) :
    K.WellFormed result ∧ V.base result = V.base kind ∧
      (V.named result = V.named kind ∨
        V.named result ≠ [] ∧ K.Kept filter (V.base kind) (V.named result)) := by
  by_cases htransformable : K.Transformable kind
  · obtain ⟨localPart, globalPart, hparts⟩ := V.exists_parts hkind htransformable
    rw [hparts.apply_eq] at h
    cases hadd : K.addTransforms filter (V.base kind) localPart globalPart K.order insertLocation
        toAdd .backward with
    | error e =>
      rw [hadd] at h
      cases h
    | ok added =>
      cases added with
      | none =>
        rw [hadd] at h
        cases h
      | some transforms =>
        rw [hadd] at h
        obtain rfl : K.makeTransform transforms globalPart (V.base kind) = result :=
          Option.some.inj (Except.ok.inj h)
        obtain ⟨hkept, hne⟩ := addTransforms_sound hadd
        obtain ⟨hnamed, hbase, hwf, -⟩ := V.parts_spec (V.parts_make hparts hne)
        refine ⟨hwf, hbase, ?_⟩
        rw [hnamed, (V.parts_spec hparts).1]
        exact hkept.imp_left fun heq => by unfold getNamedTransforms; rw [heq]
  · obtain ⟨k, hk⟩ : ∃ k, K.deconstruct kind = .nonTransformable k := by
      by_contra hne
      exact htransformable fun k hk => hne ⟨k, hk⟩
    obtain ⟨rfl, -⟩ := V.nonTransformable_spec hk
    rw [applyTransforms, hk] at h
    obtain rfl := Option.some.inj (Except.ok.inj h)
    exact ⟨hkind, rfl, Or.inl rfl⟩

theorem View.apply_kept (insertLocation : InsertLocation) {toAdd : TaintTransforms}
    (hkind : K.WellFormed kind) (htransformable : K.Transformable kind)
    (htoAdd : ∀ t ∈ toAdd, t.isNamedTransform = true)
    (hkept : ∀ part, part <:+ K.extend toAdd (V.named kind) →
      (V.named kind).length < part.length → K.Kept filter (V.base kind) part) :
    ∃ result, K.applyTransforms filter toAdd insertLocation .backward kind = .ok (some result) ∧
      V.named result = K.extend toAdd (V.named kind) ∧ V.base result = V.base kind ∧
      K.WellFormed result ∧ K.Transformable result := by
  obtain ⟨localPart, globalPart, hparts⟩ := V.exists_parts hkind htransformable
  have hnamed := (V.parts_spec hparts).1
  rw [hnamed] at hkept
  obtain ⟨transforms, hadd, hextend⟩ := addTransforms_kept insertLocation htoAdd hkept
  obtain ⟨-, hne⟩ := addTransforms_sound hadd
  obtain ⟨hnamed', hbase, hwf, htransformable'⟩ := V.parts_spec (V.parts_make hparts hne)
  refine ⟨K.makeTransform transforms globalPart (V.base kind), ?_, ?_, hbase, hwf,
    htransformable'⟩
  · rw [hparts.apply_eq, hadd]
    rfl
  · rw [hnamed', hnamed, ← hextend]
    rfl

/-! ## 4. Runs -/

/-- What happens to a kind: transforms are applied to it, or it crosses a call. -/
inductive Operation where
  | apply (toAdd : TaintTransforms) (insertLocation : InsertLocation)
  | call

/-- The operations in their order. -/
def View.applyAll (V : View K) (filter : SourceSinkFilter) :
    List Operation → T → Except String (Option T)
  | [], kind => .ok (some kind)
  | .call :: rest, kind => applyAll V filter rest (V.call kind)
  | .apply toAdd insertLocation :: rest, kind => do
    match ← K.applyTransforms filter toAdd insertLocation .backward kind with
    | none => return none
    | some kind => applyAll V filter rest kind

/-- The named transforms after all operations. -/
def extendAll (K : KindArg T) : List Operation → TaintTransforms → TaintTransforms
  | [], named => named
  | .call :: rest, named => extendAll K rest named
  | .apply toAdd _ :: rest, named => extendAll K rest (K.extend toAdd named)

def Operation.IsNamed : Operation → Prop
  | .apply toAdd _ => ∀ t ∈ toAdd, t.isNamedTransform = true
  | .call => True

theorem suffix_extend (toAdd named : TaintTransforms) : named <:+ K.extend toAdd named := by
  unfold extend
  cases K.order <;> exact List.suffix_append _ _

theorem suffix_extendAll (operations : List Operation) (named : TaintTransforms) :
    named <:+ K.extendAll operations named := by
  induction operations generalizing named with
  | nil => exact List.suffix_refl named
  | cons operation rest ih =>
    cases operation with
    | call => exact ih named
    | apply toAdd _ => exact (suffix_extend toAdd named).trans (ih _)

/-- A call moves transforms to the global part and changes none. -/
theorem View.call_spec (hkind : K.WellFormed kind) :
    V.named (V.call kind) = V.named kind ∧ V.base (V.call kind) = V.base kind ∧
      K.WellFormed (V.call kind) ∧ (K.Transformable kind → K.Transformable (V.call kind)) := by
  cases hdeconstruct : K.deconstruct kind with
  | nonTransformable k =>
    rw [(V.nonTransformable_spec hdeconstruct).2]
    exact ⟨rfl, rfl, hkind, id⟩
  | base b =>
    rw [(V.base_spec hdeconstruct).2.2.2]
    exact ⟨rfl, rfl, hkind, id⟩
  | transformed localPart globalPart b =>
    obtain ⟨hnamed, hb, hcall⟩ := V.transformed_spec hdeconstruct
    obtain ⟨hnamed', hb', -⟩ := V.transformed_spec hcall
    refine ⟨?_, hb'.trans hb.symm, fun l g b' h => ?_, fun _ k h => ?_⟩
    · rw [hnamed', hnamed]
      simp
    · rw [hcall] at h
      cases h
      exact hkind localPart globalPart b hdeconstruct
    · rw [hcall] at h
      cases h

/-- **The run lemma**: whatever is kept after a run carries the named transforms it began with, or a
    list that passed the test. -/
theorem View.applyAll_sound {operations : List Operation} {result : T}
    (hkind : K.WellFormed kind) (h : V.applyAll filter operations kind = .ok (some result)) :
    V.named result = V.named kind ∨
      V.named result ≠ [] ∧ K.Kept filter (V.base kind) (V.named result) := by
  induction operations generalizing kind with
  | nil =>
    obtain rfl := Option.some.inj (Except.ok.inj h)
    exact Or.inl rfl
  | cons operation rest ih =>
    cases operation with
    | call =>
      obtain ⟨hnamed, hbase, hwf, -⟩ := V.call_spec hkind
      have := ih hwf h
      rwa [hnamed, hbase] at this
    | apply toAdd insertLocation =>
      unfold View.applyAll at h
      cases happly : K.applyTransforms filter toAdd insertLocation .backward kind with
      | error e =>
        rw [happly] at h
        cases h
      | ok next =>
        rw [happly] at h
        cases next with
        | none => cases h
        | some next =>
          obtain ⟨hwf, hbase, hnext⟩ := V.apply_sound hkind happly
          have hrest := ih hwf h
          rw [hbase] at hrest
          rcases hrest with heq | hkept
          · rw [heq]
            exact hnext
          · exact Or.inr hkept

theorem View.applyAll_kept (filter : SourceSinkFilter) {operations : List Operation} (hkind : K.WellFormed kind)
    (htransformable : K.Transformable kind)
    (hoperations : ∀ operation ∈ operations, operation.IsNamed)
    (hkept : ∀ part, part <:+ K.extendAll operations (V.named kind) →
      (V.named kind).length < part.length → K.Kept filter (V.base kind) part) :
    ∃ result, V.applyAll filter operations kind = .ok (some result) ∧
      V.named result = K.extendAll operations (V.named kind) ∧ V.base result = V.base kind := by
  induction operations generalizing kind with
  | nil => exact ⟨kind, rfl, rfl, rfl⟩
  | cons operation rest ih =>
    have hrest := fun operation h => hoperations operation (List.mem_cons_of_mem _ h)
    cases operation with
    | call =>
      obtain ⟨hnamed, hbase, hwf, hcall⟩ := V.call_spec hkind
      rw [extendAll, ← hnamed, ← hbase] at hkept
      obtain ⟨result, happly, hresult, hb⟩ := ih hwf (hcall htransformable) hrest hkept
      exact ⟨result, happly, by rw [hresult, hnamed]; rfl, hb.trans hbase⟩
    | apply toAdd insertLocation =>
      have hsuffix := suffix_extendAll (K := K) rest (K.extend toAdd (V.named kind))
      obtain ⟨next, happly, hnamed, hbase, hwf, htransformable'⟩ := V.apply_kept
        insertLocation hkind htransformable
        (hoperations _ List.mem_cons_self) fun part hpart => hkept part (hpart.trans hsuffix)
      have hlength : (V.named kind).length ≤ (V.named next).length :=
        hnamed ▸ (suffix_extend toAdd (V.named kind)).length_le
      rw [extendAll, ← hnamed, ← hbase] at hkept
      obtain ⟨result, hall, hresult, hb⟩ := ih hwf htransformable' hrest
        fun part hpart hlt => hkept part hpart (lt_of_le_of_lt hlength hlt)
      refine ⟨result, ?_, by rw [hresult, hnamed]; rfl, hb.trans hbase⟩
      unfold View.applyAll
      rw [happly]
      exact hall

/-- From a base, it is enough that every end of the final list passes the test. -/
theorem View.applyAll_base {operations : List Operation} {named : TaintTransforms}
    (hbase : K.deconstruct kind = .base kind)
    (hoperations : ∀ operation ∈ operations, operation.IsNamed)
    (hextend : K.extendAll operations [] = named)
    (hkept : ∀ part ≠ [], part <:+ named → K.Kept filter kind part) :
    ∃ result, V.applyAll filter operations kind = .ok (some result) ∧
      V.named result = named ∧ V.base result = kind := by
  obtain ⟨-, hnamed, hb, -⟩ := V.base_spec hbase
  have hwf : K.WellFormed kind := fun l g b h => by
    rw [hbase] at h
    cases h
  have htransformable : K.Transformable kind := fun k h => by
    rw [hbase] at h
    cases h
  obtain ⟨result, hall, hresult, hdiscard⟩ := V.applyAll_kept filter hwf htransformable hoperations
    fun part hpart hlength => by
      rw [hnamed] at hlength hpart
      rw [hb]
      exact hkept part (List.length_pos_iff.mp hlength) (hextend ▸ hpart)
  rw [hnamed, hextend] at hresult
  exact ⟨result, hall, hresult, hdiscard.trans hb⟩

end KindArg

/-! ## 5. Completeness and convergence -/

def Source.view : KindArg.View Source.kindArg where
  named := getNamedTransforms
  base := discardTransforms
  call := applyCall
  base_spec {kind b} h := by cases kind <;> cases h <;> exact ⟨rfl, rfl, rfl, rfl⟩
  transformed_spec {kind localPart globalPart b} h := by
    cases kind <;> cases h
    exact ⟨TaintTransforms.getNamedTransforms_append _ _, rfl, rfl⟩
  nonTransformable_spec {kind k} h := by cases kind <;> cases h; exact ⟨rfl, rfl⟩
  make_nil b := rfl
  make_spec {localPart globalPart b} h := by
    cases localPart <;> cases globalPart <;> first | rfl | exact absurd rfl h

def Sink.view : KindArg.View Sink.kindArg where
  named := getNamedTransforms
  base := discardTransforms
  call := applyCall
  base_spec {kind b} h := by cases kind <;> cases h <;> exact ⟨rfl, rfl, rfl, rfl⟩
  transformed_spec {kind localPart globalPart b} h := by
    cases kind <;> cases h
    exact ⟨TaintTransforms.getNamedTransforms_append _ _, rfl, rfl⟩
  nonTransformable_spec {kind k} h := by cases kind <;> cases h <;> exact ⟨rfl, rfl⟩
  make_nil b := rfl
  make_spec {localPart globalPart b} h := by
    cases localPart <;> cases globalPart <;> first | rfl | exact absurd rfl h

/-- A source that may carry these transforms: the reversed beginning of a rule. -/
theorem Source.kept_iff {rules : List Rule} {filter : SourceSinkFilter}
    (hfilter : SourceSinkFilter.FilterOf rules filter) {base : Source} {named : TaintTransforms}
    (hne : named ≠ []) : Source.kindArg.Kept filter base named ↔
      ∃ rule ∈ rules, base.discardSubkind ∈ rule.sources ∧ named.reverse <+: rule.transforms :=
  hfilter.source hne

/-- A sink that may carry these transforms: the end of a rule, or on tito and subtraces any part of
    a rule. -/
theorem Sink.kept_iff {rules : List Rule} {filter : SourceSinkFilter}
    (hfilter : SourceSinkFilter.FilterOf rules filter) {base : Sink} {named : TaintTransforms}
    (hne : named ≠ []) : Sink.kindArg.Kept filter base named ↔
      if base.isTito = true then ∃ rule ∈ rules, named <:+: rule.transforms
      else (∃ rule ∈ rules, base.discardSubkind ∈ rule.sinks ∧ named <:+ rule.transforms) ∨
        base = .extraTraceSink ∧ ∃ rule ∈ rules, named <:+: rule.transforms := by
  unfold KindArg.Kept
  rw [show Sink.kindArg.isTito = Sink.isTito from rfl]
  split
  · exact hfilter.tito
  · exact hfilter.sink hne

/-- Every kind that a rule needs is kept, in whatever groups its transforms are applied. -/
structure Complete (rules : List Rule) (filter : SourceSinkFilter) : Prop where
  source {rule before after operations base} : rule ∈ rules →
    rule.transforms = before ++ after → base.discardSubkind ∈ rule.sources →
    (∀ operation ∈ operations, operation.IsNamed) →
    Source.kindArg.extendAll operations [] = before.reverse →
    ∃ kind, Source.view.applyAll filter operations base = .ok (some kind) ∧
      kind.getNamedTransforms = before.reverse ∧ kind.discardTransforms = base
  sink {rule before after operations base} : rule ∈ rules →
    rule.transforms = before ++ after → base.discardSubkind ∈ rule.sinks →
    (∀ operation ∈ operations, operation.IsNamed) →
    Sink.kindArg.extendAll operations [] = after →
    ∃ kind, Sink.view.applyAll filter operations base = .ok (some kind) ∧
      kind.getNamedTransforms = after ∧ kind.discardTransforms = base
  tito {rule part operations base} : rule ∈ rules → part <:+: rule.transforms →
    (base = .localReturn ∨ ∃ root, base = .parameterUpdate root) →
    (∀ operation ∈ operations, operation.IsNamed) →
    Sink.kindArg.extendAll operations [] = part →
    ∃ kind, Sink.view.applyAll filter operations base = .ok (some kind) ∧
      kind.getNamedTransforms = part ∧ kind.discardTransforms = base

def longest (rules : List Rule) : Nat := (rules.map (·.transforms.length)).foldr max 0

theorem length_le_longest {rules : List Rule} {rule : Rule} (h : rule ∈ rules) :
    rule.transforms.length ≤ longest rules := by
  induction rules with
  | nil => cases h
  | cons first rest ih =>
    rw [longest, List.map_cons, List.foldr_cons]
    rcases List.mem_cons.mp h with rfl | h
    · exact le_max_left _ _
    · exact le_trans (ih h) (le_max_right _ _)

/-- A kind that is kept has the named transforms of before, or a part of a rule: its reversed
    beginning on a source, its end on a sink, any part on tito and subtraces. So the transforms that
    collect on a base are never longer than the longest rule. -/
structure Convergent (rules : List Rule) (filter : SourceSinkFilter) : Prop where
  source {kind result toAdd insertLocation} : Source.kindArg.WellFormed kind →
    Source.kindArg.applyTransforms filter toAdd insertLocation .backward kind =
      .ok (some result) →
    result.getNamedTransforms = kind.getNamedTransforms ∨
      ∃ rule ∈ rules, result.getNamedTransforms.reverse <+: rule.transforms
  sink {kind result toAdd insertLocation} : Sink.kindArg.WellFormed kind →
    Sink.kindArg.applyTransforms filter toAdd insertLocation .backward kind =
      .ok (some result) →
    result.getNamedTransforms = kind.getNamedTransforms ∨
      if kind.discardTransforms.isTito = true ∨ kind.discardTransforms = .extraTraceSink then
        ∃ rule ∈ rules, result.getNamedTransforms <:+: rule.transforms
      else ∃ rule ∈ rules, result.getNamedTransforms <:+ rule.transforms
  sourceLength {operations base kind} : Source.kindArg.WellFormed base →
    base.getNamedTransforms = [] → Source.view.applyAll filter operations base = .ok (some kind) →
    kind.getNamedTransforms.length ≤ longest rules
  sinkLength {operations base kind} : Sink.kindArg.WellFormed base →
    base.getNamedTransforms = [] → Sink.view.applyAll filter operations base = .ok (some kind) →
    kind.getNamedTransforms.length ≤ longest rules

/-- What a sink may carry is a part of a rule, the end of one unless it is tito or a subtrace. -/
theorem Sink.part_of_kept {rules : List Rule} {filter : SourceSinkFilter}
    (hfilter : SourceSinkFilter.FilterOf rules filter) {base : Sink} {named : TaintTransforms}
    (hne : named ≠ []) (h : Sink.kindArg.Kept filter base named) :
    if base.isTito = true ∨ base = .extraTraceSink then
      ∃ rule ∈ rules, named <:+: rule.transforms
    else ∃ rule ∈ rules, named <:+ rule.transforms := by
  rw [Sink.kept_iff hfilter hne] at h
  by_cases htito : base.isTito = true
  · rw [if_pos htito] at h
    rw [if_pos (Or.inl htito)]
    exact h
  · rw [if_neg htito] at h
    by_cases hextra : base = .extraTraceSink
    · rw [if_pos (Or.inr hextra)]
      rcases h with ⟨rule, hrule, -, hpart⟩ | ⟨-, h⟩
      · exact ⟨rule, hrule, hpart.isInfix⟩
      · exact h
    · rw [if_neg (not_or.mpr ⟨htito, hextra⟩)]
      rcases h with ⟨rule, hrule, -, hpart⟩ | ⟨hbase, -⟩
      · exact ⟨rule, hrule, hpart⟩
      · exact absurd hbase hextra

theorem complete {rules : List Rule} (hrules : ∀ rule ∈ rules, rule.IsNamed)
    {filter : SourceSinkFilter} (hfilter : SourceSinkFilter.FilterOf rules filter) :
    Complete rules filter := by
  constructor
  case source =>
    intro rule before after operations base hrule hsplit hsource hoperations hextend
    have hbase : Source.kindArg.deconstruct base = .base base := by
      obtain ⟨name, hname⟩ := (hrules rule hrule).sources _ hsource
      cases base <;> cases hname <;> rfl
    refine Source.view.applyAll_base hbase hoperations hextend fun part hne hpart => ?_
    have hreverse : part.reverse <+: before :=
      List.reverse_suffix.mp (by rwa [List.reverse_reverse])
    exact (Source.kept_iff hfilter hne).mpr ⟨rule, hrule, hsource,
      hreverse.trans (hsplit ▸ List.prefix_append before after)⟩
  case sink =>
    intro rule before after operations base hrule hsplit hsink hoperations hextend
    obtain ⟨hbase, htito⟩ : Sink.kindArg.deconstruct base = .base base ∧
        ¬ base.isTito = true := by
      obtain ⟨name, hname⟩ := (hrules rule hrule).sinks _ hsink
      cases base <;> cases hname <;> exact ⟨rfl, Bool.false_ne_true⟩
    refine Sink.view.applyAll_base hbase hoperations hextend fun part hne hpart => ?_
    rw [Sink.kept_iff hfilter hne, if_neg htito]
    exact Or.inl ⟨rule, hrule, hsink, hpart.trans (hsplit ▸ List.suffix_append before after)⟩
  case tito =>
    intro rule part operations base hrule hpart hbase hoperations hextend
    obtain ⟨hbase, htito⟩ : Sink.kindArg.deconstruct base = .base base ∧ base.isTito = true := by
      rcases hbase with rfl | ⟨root, rfl⟩ <;> exact ⟨rfl, rfl⟩
    refine Sink.view.applyAll_base hbase hoperations hextend fun part' hne hpart' => ?_
    rw [Sink.kept_iff hfilter hne, if_pos htito]
    exact ⟨rule, hrule, hpart'.isInfix.trans hpart⟩

theorem convergent {rules : List Rule} {filter : SourceSinkFilter}
    (hfilter : SourceSinkFilter.FilterOf rules filter) : Convergent rules filter := by
  constructor
  case source =>
    intro kind result toAdd insertLocation hkind h
    obtain ⟨-, -, heq | ⟨hne, hkept⟩⟩ := Source.view.apply_sound hkind h
    · exact Or.inl heq
    · obtain ⟨rule, hrule, -, hpart⟩ := (Source.kept_iff hfilter hne).mp hkept
      exact Or.inr ⟨rule, hrule, hpart⟩
  case sink =>
    intro kind result toAdd insertLocation hkind h
    obtain ⟨-, -, heq | ⟨hne, hkept⟩⟩ := Sink.view.apply_sound hkind h
    · exact Or.inl heq
    · exact Or.inr (Sink.part_of_kept hfilter hne hkept)
  case sourceLength =>
    intro operations base kind hbase hnamed h
    show (Source.view.named kind).length ≤ longest rules
    rcases Source.view.applyAll_sound hbase h with heq | ⟨hne, hkept⟩
    · rw [heq, show Source.view.named base = [] from hnamed]
      exact Nat.zero_le _
    · obtain ⟨rule, hrule, -, hpart⟩ := (Source.kept_iff hfilter hne).mp hkept
      have hlength := hpart.length_le
      rw [List.length_reverse] at hlength
      exact le_trans hlength (length_le_longest hrule)
  case sinkLength =>
    intro operations base kind hbase hnamed h
    show (Sink.view.named kind).length ≤ longest rules
    rcases Sink.view.applyAll_sound hbase h with heq | ⟨hne, hkept⟩
    · rw [heq, show Sink.view.named base = [] from hnamed]
      exact Nat.zero_le _
    · have hpart := Sink.part_of_kept hfilter hne hkept
      split at hpart
      · obtain ⟨rule, hrule, hpart⟩ := hpart
        exact le_trans hpart.length_le (length_le_longest hrule)
      · obtain ⟨rule, hrule, hpart⟩ := hpart
        exact le_trans hpart.length_le (length_le_longest hrule)

/-- **The filter of named rules keeps every kind that a rule needs, and no kind that is no part of a
    rule.** -/
theorem pruning (rules : List Rule) (options : SourceSinkFilter.Options)
    (hrules : ∀ rule ∈ rules, rule.IsNamed) :
    ∃ filter, SourceSinkFilter.create rules options = .ok filter ∧
      Complete (SourceSinkFilter.filterRules options rules) filter ∧
      Convergent (SourceSinkFilter.filterRules options rules) filter := by
  obtain ⟨filter, hcreate, hfilter⟩ := SourceSinkFilter.create_spec hrules options
  exact ⟨filter, hcreate, complete (SourceSinkFilter.filterRules_named options hrules) hfilter,
    convergent hfilter⟩

/-- `A -> T -> U -> B`. -/
def twoTransforms : Rule :=
  ⟨[.namedSource "A"], [.namedSink "B"], [.named "T", .named "U"], 1⟩

theorem pruning_twoTransforms :
    ∃ filter, SourceSinkFilter.create [twoTransforms] {} = .ok filter ∧
      ∃ kind, Source.view.applyAll filter [.apply [.named "T"] .front, .call,
          .apply [.named "U"] .front] (.namedSource "A") = .ok (some kind) ∧
        kind.getNamedTransforms = [.named "U", .named "T"] := by
  have hnamed : ∀ rule ∈ [twoTransforms], rule.IsNamed := by
    intro rule hrule
    obtain rfl := List.mem_singleton.mp hrule
    exact ⟨by simp [twoTransforms], by simp [twoTransforms], by decide⟩
  obtain ⟨filter, hfilter, hcomplete, -⟩ := pruning [twoTransforms] {} hnamed
  have hoperations : ∀ operation ∈ [KindArg.Operation.apply [.named "T"] .front, .call,
      .apply [.named "U"] .front], operation.IsNamed := by
    simp [KindArg.Operation.IsNamed, TaintTransform.isNamedTransform]
  have hsplit : twoTransforms.transforms = [.named "T", .named "U"] ++ [] := rfl
  have hsource : (Source.namedSource "A").discardSubkind ∈ twoTransforms.sources :=
    List.mem_cons_self
  obtain ⟨kind, hall, hkind, -⟩ := hcomplete.source List.mem_cons_self hsplit hsource hoperations
    (by rfl)
  exact ⟨filter, hfilter, kind, hall, hkind⟩

/-- A subtrace keeps `T`, which is not the end of the rule; without a named transform to add nothing
    is tested. -/
theorem applyTransforms_extraTraceSink :
    (SourceSinkFilter.create [twoTransforms] {}).bind (fun filter =>
      Sink.kindArg.applyTransforms filter [.named "T"] .front .backward .extraTraceSink) =
      .ok (some (.transform [.named "T"] [] .extraTraceSink)) ∧
    ¬ [TaintTransform.named "T"] <:+ twoTransforms.transforms ∧
    (SourceSinkFilter.create [twoTransforms] {}).bind (fun filter =>
      Source.kindArg.applyTransforms filter [] .front .backward
        (.transform [.named "V"] [] (.namedSource "A"))) =
      .ok (some (.transform [.named "V"] [] (.namedSource "A"))) ∧
    ¬ [TaintTransform.named "V"].reverse <+: twoTransforms.transforms := by
  decide

end Pysa.Taint
