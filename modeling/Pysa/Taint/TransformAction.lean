/-
  Subject: TRANSFORMS ACT ON KINDS: a list is applied at once or in two parts.

  * `addTransform_start`, `addFromLeft_start`, `addFromRight_start` -- what is threaded through the
    loop is what the local and the global part start it with;
  * `addFromLeft_append`, `addFromRight_append` -- the two parts in the two orders;
  * `applyTransforms_append` -- **the action on sources and on sinks**.
-/
import Pysa.Taint.TransformPruning

namespace Pysa.Taint

namespace KindArg

variable {T : Type} {K : KindArg T} {filter : SourceSinkFilter} {base : T}
  {insertLocation : InsertLocation} {localPart globalPart : TaintTransforms}

/-! ## 1. What is threaded through the loop -/

theorem any_isNamedTransform (transforms : TaintTransforms) :
    transforms.any TaintTransform.isNamedTransform = !transforms.getNamedTransforms.isEmpty := by
  induction transforms with
  | nil => rfl
  | cons transform rest ih => cases transform <;> simp_all [TaintTransform.isNamedTransform]

/-- The global sanitizers depend on the named transforms of the local part only. -/
theorem getGlobalSanitizers_congr {localPart' : TaintTransforms}
    (h : localPart.getNamedTransforms = localPart'.getNamedTransforms) :
    getGlobalSanitizers localPart globalPart = getGlobalSanitizers localPart' globalPart := by
  unfold getGlobalSanitizers
  rw [any_isNamedTransform, any_isNamedTransform, h]

theorem getGlobalSanitizers_of_named {localPart' : TaintTransforms} {name : String}
    (h : localPart.getNamedTransforms = .named name :: localPart') :
    getGlobalSanitizers localPart globalPart = .empty := by
  unfold getGlobalSanitizers
  rw [any_isNamedTransform, h]
  rfl

/-- The two names that an added transform may leave to its result. -/
theorem addTransform_globalSanitizers {named transforms : TaintTransforms}
    {globalSanitizers : SanitizeTransformSet} {t : TaintTransform} {next : AddTransformResult}
    (h : K.addTransform filter base named globalSanitizers insertLocation transforms t =
      .ok next) :
    next.globalSanitizers = if t.isNamedTransform then .empty else globalSanitizers := by
  cases t with
  | named name =>
    cases h
    rfl
  | sanitize sanitizers =>
    unfold addTransform at h
    dsimp only at h
    cases hadd : K.addSanitizeTransformsInternal filter base named globalSanitizers
        insertLocation transforms sanitizers with
    | error e =>
      rw [hadd] at h
      cases h
    | ok added =>
      rw [hadd] at h
      cases h
      rfl
  | triggeredPartialSink _ => cases h

/-- **The step lemma**: after a transform the threaded values are those of the new local part. -/
theorem addTransform_start {t : TaintTransform} {next : AddTransformResult}
    {result : TaintTransforms}
    (h : K.addTransform filter base (getNamedTransforms localPart globalPart)
      (getGlobalSanitizers localPart globalPart) insertLocation localPart t = .ok next)
    (hresult : next.transforms = some result) : next = .start result globalPart := by
  have hglobal := addTransform_globalSanitizers h
  obtain ⟨-, hspec⟩ := addTransform_spec h hresult
  cases t with
  | named name =>
    obtain rfl := Except.ok.inj h
    have hnamed := getNamedTransforms_prependName hresult
    rw [AddTransformResult.start, getGlobalSanitizers_of_named hnamed]
    unfold getNamedTransforms
    rw [hnamed, ← hresult]
    rfl
  | sanitize sanitizers =>
    obtain ⟨hnext, hnamed⟩ : next.namedTransforms = getNamedTransforms localPart globalPart ∧
        result.getNamedTransforms = localPart.getNamedTransforms := by
      rcases hspec with ⟨-, -, hnamed⟩ | hspec
      · have hmem : .sanitize sanitizers ∈ result.getNamedTransforms :=
          hnamed ▸ List.mem_cons_self
        exact absurd (List.of_mem_filter hmem) Bool.false_ne_true
      · exact hspec
    obtain ⟨transforms, named, globalSanitizers⟩ := next
    obtain rfl : transforms = some result := hresult
    obtain rfl : named = getNamedTransforms localPart globalPart := hnext
    obtain rfl : globalSanitizers = getGlobalSanitizers localPart globalPart := hglobal
    rw [AddTransformResult.start, getGlobalSanitizers_congr hnamed]
    unfold getNamedTransforms
    rw [hnamed]
  | triggeredPartialSink _ => cases h

/-- **The run lemma** from the left. -/
theorem addFromLeft_start {toAdd result : TaintTransforms} {next : AddTransformResult}
    (h : K.addFromLeft filter base insertLocation (.start localPart globalPart) toAdd = .ok next)
    (hresult : next.transforms = some result) : next = .start result globalPart := by
  induction toAdd generalizing localPart with
  | nil =>
    obtain rfl := Except.ok.inj h
    rw [Option.some.inj hresult]
  | cons head tail ih =>
    unfold addFromLeft at h
    dsimp only [AddTransformResult.start] at h
    cases hadd : K.addTransform filter base (getNamedTransforms localPart globalPart)
        (getGlobalSanitizers localPart globalPart) insertLocation localPart head with
    | error e =>
      rw [hadd] at h
      cases h
    | ok added =>
      rw [hadd] at h
      change K.addFromLeft filter base insertLocation added tail = .ok next at h
      cases htransforms : added.transforms with
      | none =>
        have hstop : next = added := by cases tail <;> simp_all [addFromLeft]
        rw [hstop, htransforms] at hresult
        cases hresult
      | some transforms =>
        rw [addTransform_start hadd htransforms] at h
        exact ih h

/-- The run lemma from the right. -/
theorem addFromRight_start {toAdd result : TaintTransforms} {next : AddTransformResult}
    (h : K.addFromRight filter base insertLocation (.start localPart globalPart) toAdd = .ok next)
    (hresult : next.transforms = some result) : next = .start result globalPart := by
  induction toAdd generalizing next result with
  | nil =>
    obtain rfl := Except.ok.inj h
    rw [Option.some.inj hresult]
  | cons head tail ih =>
    unfold addFromRight at h
    cases hrest : K.addFromRight filter base insertLocation (.start localPart globalPart) tail with
    | error e =>
      rw [hrest] at h
      cases h
    | ok rest =>
      rw [hrest] at h
      cases htransforms : rest.transforms with
      | none =>
        simp only [bind, Except.bind, htransforms] at h
        obtain rfl := Except.ok.inj h
        rw [htransforms] at hresult
        cases hresult
      | some transforms =>
        simp only [bind, Except.bind, htransforms] at h
        rw [ih hrest htransforms] at h
        exact addTransform_start h hresult

/-! ## 2. Two parts of a list -/

theorem addFromLeft_none {sofar : AddTransformResult} (hnone : sofar.transforms = none)
    (toAdd : TaintTransforms) :
    K.addFromLeft filter base insertLocation sofar toAdd = .ok sofar := by
  cases toAdd with
  | nil => rfl
  | cons head tail =>
    unfold addFromLeft
    rw [hnone]

theorem addFromLeft_append (sofar : AddTransformResult) (first second : TaintTransforms) :
    K.addFromLeft filter base insertLocation sofar (first ++ second) =
      K.addFromLeft filter base insertLocation sofar first >>= fun sofar =>
        K.addFromLeft filter base insertLocation sofar second := by
  induction first generalizing sofar with
  | nil => rfl
  | cons head tail ih =>
    cases htransforms : sofar.transforms with
    | none =>
      rw [addFromLeft_none htransforms, addFromLeft_none htransforms]
      exact (addFromLeft_none htransforms second).symm
    | some transforms =>
      rw [List.cons_append, addFromLeft, addFromLeft, htransforms]
      simp only [ih, bind_assoc]

theorem addFromRight_none {sofar : AddTransformResult} (hnone : sofar.transforms = none)
    (toAdd : TaintTransforms) :
    K.addFromRight filter base insertLocation sofar toAdd = .ok sofar := by
  induction toAdd with
  | nil => rfl
  | cons head tail ih =>
    unfold addFromRight
    rw [ih]
    simp only [bind, Except.bind, hnone]
    rfl

theorem addFromRight_append (sofar : AddTransformResult) (first second : TaintTransforms) :
    K.addFromRight filter base insertLocation sofar (first ++ second) =
      K.addFromRight filter base insertLocation sofar second >>= fun sofar =>
        K.addFromRight filter base insertLocation sofar first := by
  induction first with
  | nil => exact (bind_pure _).symm
  | cons head tail ih =>
    rw [List.cons_append, addFromRight, ih, bind_assoc]
    rfl

/-! ## 3. Kinds -/

/-- One operation after another: a taint that was dropped stays dropped, a failure stays one. -/
def andThen (first : Except String (Option T)) (second : T → Except String (Option T)) :
    Except String (Option T) :=
  first >>= fun
    | none => .ok none
    | some kind => second kind

/-- The loop in the order of the kind. -/
def addAll (K : KindArg T) (filter : SourceSinkFilter) (base : T) (insertLocation : InsertLocation)
    (sofar : AddTransformResult) (toAdd : TaintTransforms) : Except String AddTransformResult :=
  match K.order with
  | .forward => K.addFromLeft filter base insertLocation sofar toAdd
  | .backward => K.addFromRight filter base insertLocation sofar toAdd

/-- The part of a list that is applied first, and the other one. -/
def firstPart (K : KindArg T) (left right : TaintTransforms) : TaintTransforms :=
  match K.order with
  | .forward => left
  | .backward => right

def secondPart (K : KindArg T) (left right : TaintTransforms) : TaintTransforms :=
  match K.order with
  | .forward => right
  | .backward => left

theorem addTransforms_eq (toAdd : TaintTransforms) :
    K.addTransforms filter base localPart globalPart K.order insertLocation toAdd .backward =
      K.addAll filter base insertLocation (.start localPart globalPart) toAdd >>= fun result =>
        .ok result.transforms := by
  unfold addTransforms addAll
  cases K.order <;> rfl

theorem addAll_append (sofar : AddTransformResult) (left right : TaintTransforms) :
    K.addAll filter base insertLocation sofar (left ++ right) =
      K.addAll filter base insertLocation sofar (K.firstPart left right) >>= fun sofar =>
        K.addAll filter base insertLocation sofar (K.secondPart left right) := by
  unfold addAll firstPart secondPart
  cases K.order
  · exact addFromLeft_append sofar left right
  · exact addFromRight_append sofar left right

theorem addAll_none {sofar : AddTransformResult} (hnone : sofar.transforms = none)
    (toAdd : TaintTransforms) :
    K.addAll filter base insertLocation sofar toAdd = .ok sofar := by
  unfold addAll
  cases K.order
  · exact addFromLeft_none hnone toAdd
  · exact addFromRight_none hnone toAdd

/-- **What is threaded through the loop is what the resulting parts give.** -/
theorem addAll_start {toAdd result : TaintTransforms} {next : AddTransformResult}
    (h : K.addAll filter base insertLocation (.start localPart globalPart) toAdd = .ok next)
    (hresult : next.transforms = some result) : next = .start result globalPart := by
  unfold addAll at h
  cases horder : K.order with
  | forward =>
    rw [horder] at h
    exact addFromLeft_start h hresult
  | backward =>
    rw [horder] at h
    exact addFromRight_start h hresult

/-- The second part finds what the first one left, as the loop does. -/
theorem addTransforms_append (left right : TaintTransforms) :
    K.addTransforms filter base localPart globalPart K.order insertLocation (left ++ right)
        .backward =
      K.addTransforms filter base localPart globalPart K.order insertLocation
        (K.firstPart left right) .backward >>= fun
        | none => .ok none
        | some transforms => K.addTransforms filter base transforms globalPart K.order
            insertLocation (K.secondPart left right) .backward := by
  rw [addTransforms_eq, addTransforms_eq, addAll_append, bind_assoc, bind_assoc]
  cases hfirst : K.addAll filter base insertLocation (.start localPart globalPart)
      (K.firstPart left right) with
  | error e => rfl
  | ok sofar =>
    change (K.addAll filter base insertLocation sofar (K.secondPart left right) >>= fun result =>
      .ok result.transforms) = _
    cases htransforms : sofar.transforms with
    | none =>
      rw [addAll_none htransforms]
      simp only [bind, Except.bind, htransforms]
    | some transforms =>
      rw [addAll_start hfirst htransforms, ← addTransforms_eq]
      rfl

/-- Adding transforms empties no local part. -/
theorem ne_nil_of_addTransforms {toAdd result : TaintTransforms} (hne : localPart ≠ [])
    (h : K.addTransforms filter base localPart globalPart K.order insertLocation toAdd .backward =
      .ok (some result)) : result ≠ [] :=
  (addTransforms_sound h).2 hne

/-- A list applied at once, or in two parts. -/
theorem View.apply_append (V : View K) {kind : T} (hkind : K.WellFormed kind)
    (left right : TaintTransforms) (order : TaintTransforms.Order) :
    K.applyTransforms filter (left ++ right) insertLocation order kind =
      andThen (K.applyTransforms filter (K.firstPart left right) insertLocation order kind)
        (K.applyTransforms filter (K.secondPart left right) insertLocation order) := by
  by_cases htransformable : K.Transformable kind
  · obtain ⟨localPart, globalPart, hparts⟩ := V.exists_parts hkind htransformable
    rw [hparts.apply_eq, hparts.apply_eq]
    cases order with
    | forward => cases horder : K.order <;> rfl
    | backward =>
      rw [addTransforms_append]
      cases hfirst : K.addTransforms filter (V.base kind) localPart globalPart K.order
          insertLocation (K.firstPart left right) .backward with
      | error e => rfl
      | ok added =>
        cases added with
        | none => rfl
        | some transforms =>
          have hparts' := V.parts_make hparts fun hne => ne_nil_of_addTransforms hne hfirst
          exact (hparts'.apply_eq (K.secondPart left right) .backward).symm
  · obtain ⟨k, hk⟩ : ∃ k, K.deconstruct kind = .nonTransformable k := by
      by_contra hne
      exact htransformable fun k hk => hne ⟨k, hk⟩
    obtain ⟨rfl, -⟩ := V.nonTransformable_spec hk
    have hfix : ∀ toAdd, K.applyTransforms filter toAdd insertLocation order k = .ok (some k) :=
      fun toAdd => by rw [applyTransforms, hk]
    rw [hfix, hfix]
    exact (hfix _).symm

end KindArg

/-! ## 4. Sources and sinks -/

open KindArg

/-- **Transforms act on kinds.** On a source the first list of two is applied first, on a sink the
    second one; however the transforms of the kind are split into a local and a global part, the
    loop threads what the resulting parts give. A kind with transforms has at least one, as
    `makeTransform` builds it. -/
theorem applyTransforms_append (filter : SourceSinkFilter) (insertLocation : InsertLocation)
    (order : TaintTransforms.Order) (left right : TaintTransforms) :
    (∀ source, Source.kindArg.WellFormed source →
      Source.kindArg.applyTransforms filter (left ++ right) insertLocation order source =
        KindArg.andThen (Source.kindArg.applyTransforms filter left insertLocation order source)
          (Source.kindArg.applyTransforms filter right insertLocation order)) ∧
    (∀ sink, Sink.kindArg.WellFormed sink →
      Sink.kindArg.applyTransforms filter (left ++ right) insertLocation order sink =
        KindArg.andThen (Sink.kindArg.applyTransforms filter right insertLocation order sink)
          (Sink.kindArg.applyTransforms filter left insertLocation order)) ∧
    (∀ base localPart globalPart next result,
      Source.kindArg.addFromLeft filter base insertLocation
        ⟨some localPart, getNamedTransforms localPart globalPart,
          getGlobalSanitizers localPart globalPart⟩ left = .ok next →
      next.transforms = some result →
      next.namedTransforms = getNamedTransforms result globalPart ∧
        next.globalSanitizers = getGlobalSanitizers result globalPart) ∧
    ∀ base localPart globalPart next result,
      Sink.kindArg.addFromRight filter base insertLocation
        ⟨some localPart, getNamedTransforms localPart globalPart,
          getGlobalSanitizers localPart globalPart⟩ left = .ok next →
      next.transforms = some result →
      next.namedTransforms = getNamedTransforms result globalPart ∧
        next.globalSanitizers = getGlobalSanitizers result globalPart := by
  refine ⟨fun source hsource => ?_, fun sink hsink => ?_, ?_, ?_⟩
  · exact Source.view.apply_append hsource left right order
  · exact Sink.view.apply_append hsink left right order
  · intro base localPart globalPart next result h hresult
    rw [addFromLeft_start h hresult]
    exact ⟨rfl, rfl⟩
  · intro base localPart globalPart next result h hresult
    rw [addFromRight_start h hresult]
    exact ⟨rfl, rfl⟩

/-- A sanitizer and a named transform on a source with a local and a global part. -/
theorem applyTransforms_append_sanitized :
    Source.kindArg.applyTransforms ⟨∅, ∅, [], ∅, ∅⟩
        ([.sanitize ⟨.empty, .specific {.named "B"}⟩] ++ [.named "T"]) .front .backward
        (.transform [.named "U"] [.named "V"] (.namedSource "A")) =
      KindArg.andThen (Source.kindArg.applyTransforms ⟨∅, ∅, [], ∅, ∅⟩
          [.sanitize ⟨.empty, .specific {.named "B"}⟩] .front .backward
          (.transform [.named "U"] [.named "V"] (.namedSource "A")))
        (Source.kindArg.applyTransforms ⟨∅, ∅, [], ∅, ∅⟩ [.named "T"] .front .backward) := by
  have happend := applyTransforms_append ⟨∅, ∅, [], ∅, ∅⟩ .front .backward
    [.sanitize ⟨.empty, .specific {.named "B"}⟩] [.named "T"]
  refine happend.1 (.transform [.named "U"] [.named "V"] (.namedSource "A")) ?_
  intro localPart globalPart base h
  cases h
  exact List.cons_ne_nil _ _

end Pysa.Taint
