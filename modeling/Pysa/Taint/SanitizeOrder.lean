/-
  Subject: SANITIZERS COMMUTE: the order in which sanitizer sets are applied does not matter.

  * `SanitizeSet`, `SanitizeTransformSet` -- the operations as those on sets;
  * `effect` -- what a sanitizer set adds to a kind, once what cannot matter is removed;
  * `prependSanitizeTransforms_eq` -- the result in terms of the effect;
  * `prepend_prepend` -- **two sets one after the other are their join**;
  * `applySanitizeTransforms_comm` -- the same on sources and sinks.
-/
import Pysa.Taint.TransformAction

namespace Pysa.Taint

/-! ## 1. The algebra of sanitizer sets -/

namespace SanitizeSet

variable {X : Type} [DecidableEq X] (left middle right : SanitizeSet X)

theorem join_comm : left.join right = right.join left := by
  cases left <;> cases right <;> simp [join, Finset.union_comm]

theorem join_assoc : (left.join middle).join right = left.join (middle.join right) := by
  cases left <;> cases middle <;> cases right <;> simp [join, Finset.union_assoc]

@[simp] theorem join_self : left.join left = left := by cases left <;> simp [join]

@[simp] theorem empty_join : (empty : SanitizeSet X).join left = left := by
  cases left <;> simp [join, empty]

@[simp] theorem join_empty : left.join (empty : SanitizeSet X) = left := by
  cases left <;> simp [join, empty]

theorem meet_join : left.meet (middle.join right) = (left.meet middle).join (left.meet right) := by
  cases left <;> cases middle <;> cases right <;>
    simp [join, meet, Finset.inter_union_distrib_left]

@[simp] theorem meet_empty : left.meet (empty : SanitizeSet X) = empty := by
  cases left <;> simp [meet, empty]

theorem isAll_join : (left.join right).isAll = (left.isAll || right.isAll) := by
  cases left <;> cases right <;> rfl

theorem mem_join (element : X) :
    (left.join right).mem element = (left.mem element || right.mem element) := by
  cases left <;> cases right <;> simp [join, mem]

/-- A difference distributes over a join of two sets neither of which is everything. -/
theorem diff_join (hleft : left.isAll = false) (hright : right.isAll = false) :
    (left.join right).diff middle = (left.diff middle).join (right.diff middle) := by
  cases left with
  | all => cases hleft
  | specific left =>
    cases right with
    | all => cases hright
    | specific right => cases middle <;> simp [join, diff, empty, Finset.union_sdiff_distrib]

theorem join_eq_empty_iff : left.join right = empty ↔ left = empty ∧ right = empty := by
  cases left <;> cases right <;> simp [join, empty, Finset.union_eq_empty]

theorem lessOrEqual_join (h : left.lessOrEqual middle = true) :
    left.lessOrEqual (right.join middle) = true := by
  cases left with
  | all =>
    cases middle with
    | all => cases right <;> rfl
    | specific middle => cases h
  | specific left =>
    cases middle <;> cases right <;> simp_all [lessOrEqual, join]
    exact h.trans Finset.subset_union_right

end SanitizeSet

namespace SanitizeTransformSet

variable (left middle right : SanitizeTransformSet)

theorem join_comm : left.join right = right.join left := by
  simp [join, SanitizeSet.join_comm left.sources, SanitizeSet.join_comm left.sinks]

theorem join_assoc : (left.join middle).join right = left.join (middle.join right) := by
  simp [join, SanitizeSet.join_assoc]

@[simp] theorem join_self : left.join left = left := by simp [join]

@[simp] theorem empty_join : empty.join left = left := by simp [join, empty]

@[simp] theorem join_empty : left.join empty = left := by simp [join, empty]

theorem meet_join : left.meet (middle.join right) = (left.meet middle).join (left.meet right) := by
  simp [join, meet, SanitizeSet.meet_join]

theorem mem_join (t : SanitizeTransform) :
    (left.join right).mem t = (left.mem t || right.mem t) := by
  cases t <;> simp [join, mem, SanitizeSet.mem_join]

theorem isEmpty_iff : left.isEmpty = true ↔ left = empty := by simp [isEmpty]

theorem join_eq_empty_iff : left.join right = empty ↔ left = empty ∧ right = empty := by
  obtain ⟨leftSources, leftSinks⟩ := left
  obtain ⟨rightSources, rightSinks⟩ := right
  simp only [join, empty, mk.injEq, SanitizeSet.join_eq_empty_iff]
  exact and_and_and_comm

theorem lessOrEqual_join (h : left.lessOrEqual middle = true) :
    left.lessOrEqual (right.join middle) = true := by
  unfold lessOrEqual at h ⊢
  rw [Bool.and_eq_true] at h ⊢
  exact ⟨SanitizeSet.lessOrEqual_join _ _ _ h.1, SanitizeSet.lessOrEqual_join _ _ _ h.2⟩

end SanitizeTransformSet

/-! ## 2. One sanitizer set -/

namespace TaintTransforms

/-- What remains after a split does not begin with a sanitizer. -/
theorem splitSanitizersFrom_rest (sofar sofar' : SanitizeTransformSet)
    (transforms : TaintTransforms) :
    splitSanitizersFrom sofar' (splitSanitizersFrom sofar transforms).2 =
      (sofar', (splitSanitizersFrom sofar transforms).2) := by
  induction transforms generalizing sofar with
  | nil => rfl
  | cons transform rest ih =>
    cases transform with
    | named _ => rfl
    | triggeredPartialSink _ => rfl
    | sanitize sanitizers => exact ih _

theorem splitSanitizers_cons_rest (sanitizers : SanitizeTransformSet)
    (transforms : TaintTransforms) :
    splitSanitizers (.sanitize sanitizers :: (splitSanitizers transforms).2) =
      (sanitizers, (splitSanitizers transforms).2) := by
  show splitSanitizersFrom (SanitizeTransformSet.empty.join sanitizers) _ = _
  rw [SanitizeTransformSet.empty_join]
  exact splitSanitizersFrom_rest .empty sanitizers transforms

end TaintTransforms

namespace KindArg

variable {T : Type} (K : KindArg T) (filter : SourceSinkFilter) (base : T)
  (named : TaintTransforms) (globalSanitizers : SanitizeTransformSet)

/-- The sanitizers remove the taint at once. -/
def removes (sanitizers : SanitizeTransformSet) : Bool :=
  sanitizers.sources.isAll || sanitizers.sinks.isAll ||
    (named.isEmpty && (K.baseAsSanitizer base).any sanitizers.mem)

/-- The kinds that a kind with these transforms can match; tito matches nothing itself. -/
def matchingKinds : Option MatchingSanitizeTransforms :=
  if !K.isTito base then K.matchingSanitizeTransforms filter named base else none

/-- The sanitizers that matter for the kind and are not in its global part. -/
def effect (sanitizers : SanitizeTransformSet) : SanitizeTransformSet :=
  let sanitizers := (K.preserveSanitizers base sanitizers).diff globalSanitizers
  match K.matchingKinds filter base named with
  | some matching => matching.transforms.meet sanitizers
  | none => sanitizers

/-- Whether a rule is left when these are the local sanitizers. -/
def keeps (sanitizers : SanitizeTransformSet) : Bool :=
  K.shouldKeepSanitized base (K.matchingKinds filter base named) sanitizers globalSanitizers

variable {K filter base named globalSanitizers}

theorem effect_eq_empty {sanitizers : SanitizeTransformSet}
    (h : ((K.preserveSanitizers base sanitizers).diff globalSanitizers).isEmpty = true) :
    K.effect filter base named globalSanitizers sanitizers = .empty := by
  unfold effect
  rw [(SanitizeTransformSet.isEmpty_iff _).mp h]
  cases K.matchingKinds filter base named with
  | none => rfl
  | some matching => simp [SanitizeTransformSet.meet, SanitizeTransformSet.empty]

/-- **The result in terms of the effect.** -/
theorem prependSanitizeTransforms_eq (transforms : TaintTransforms)
    (sanitizers : SanitizeTransformSet) :
    K.prependSanitizeTransforms filter base named globalSanitizers transforms sanitizers =
      if K.removes base named sanitizers then none
      else
        let added := K.effect filter base named globalSanitizers sanitizers
        if added.isEmpty then some transforms
        else
          let added := added.join transforms.splitSanitizers.1
          if K.keeps filter base named globalSanitizers added then
            some (.sanitize added :: transforms.splitSanitizers.2)
          else none := by
  unfold prependSanitizeTransforms removes
  by_cases hsources : sanitizers.sources.isAll = true
  · simp [hsources]
  by_cases hsinks : sanitizers.sinks.isAll = true
  · simp [hsinks]
  by_cases hbase : (named.isEmpty && (K.baseAsSanitizer base).any sanitizers.mem) = true
  · simp [hsources, hsinks, hbase]
  have hremoves : (sanitizers.sources.isAll || sanitizers.sinks.isAll ||
      (named.isEmpty && (K.baseAsSanitizer base).any sanitizers.mem)) = false := by
    rw [Bool.not_eq_true] at hsources hsinks hbase
    rw [hsources, hsinks, hbase]
    rfl
  rw [if_neg hsources, if_neg hsinks, if_neg hbase, hremoves]
  by_cases hrest : ((K.preserveSanitizers base sanitizers).diff globalSanitizers).isEmpty = true
  · -- without new sanitizers nothing is looked up
    rw [if_neg Bool.false_ne_true]
    refine Eq.trans (if_pos hrest) (if_pos ?_).symm
    rw [effect_eq_empty hrest]
    rfl
  · dsimp only
    rw [if_neg hrest]
    rfl

theorem removes_join (left right : SanitizeTransformSet) :
    K.removes base named (left.join right) =
      (K.removes base named left || K.removes base named right) := by
  unfold removes
  have hsources : (left.join right).sources.isAll = (left.sources.isAll || right.sources.isAll) :=
    SanitizeSet.isAll_join _ _
  have hsinks : (left.join right).sinks.isAll = (left.sinks.isAll || right.sinks.isAll) :=
    SanitizeSet.isAll_join _ _
  have hany : (K.baseAsSanitizer base).any (left.join right).mem =
      ((K.baseAsSanitizer base).any left.mem || (K.baseAsSanitizer base).any right.mem) := by
    cases K.baseAsSanitizer base with
    | none => rfl
    | some t => exact SanitizeTransformSet.mem_join left right t
  rw [hsources, hsinks, hany]
  cases left.sources.isAll <;> cases right.sources.isAll <;> cases left.sinks.isAll <;>
    cases right.sinks.isAll <;> cases named.isEmpty <;>
    cases (K.baseAsSanitizer base).any left.mem <;> rfl

variable (K base) in
theorem isAll_preserveSanitizers {sanitizers : SanitizeTransformSet}
    (hsources : sanitizers.sources.isAll = false) (hsinks : sanitizers.sinks.isAll = false) :
    (K.preserveSanitizers base sanitizers).sources.isAll = false ∧
      (K.preserveSanitizers base sanitizers).sinks.isAll = false := by
  unfold preserveSanitizers
  have hempty : ∀ {X : Type}, (SanitizeSet.empty : SanitizeSet X).isAll = false := rfl
  cases K.preserveSanitizeSources base <;> cases K.preserveSanitizeSinks base <;>
    simp [hsources, hsinks, hempty]

theorem preserveSanitizers_join (left right : SanitizeTransformSet) :
    K.preserveSanitizers base (left.join right) =
      (K.preserveSanitizers base left).join (K.preserveSanitizers base right) := by
  unfold preserveSanitizers
  cases K.preserveSanitizeSources base <;> cases K.preserveSanitizeSinks base <;>
    simp [SanitizeTransformSet.join]

variable (K filter base named globalSanitizers) in
/-- The effect of a join is the join of the effects. -/
theorem effect_join {left right : SanitizeTransformSet} (hleft : K.removes base named left = false)
    (hright : K.removes base named right = false) :
    K.effect filter base named globalSanitizers (left.join right) =
      (K.effect filter base named globalSanitizers left).join
        (K.effect filter base named globalSanitizers right) := by
  simp only [removes, Bool.or_eq_false_iff] at hleft hright
  obtain ⟨hleftSources, hleftSinks⟩ := K.isAll_preserveSanitizers base hleft.1.1 hleft.1.2
  obtain ⟨hrightSources, hrightSinks⟩ := K.isAll_preserveSanitizers base hright.1.1 hright.1.2
  have hdiff : (K.preserveSanitizers base (left.join right)).diff globalSanitizers =
      ((K.preserveSanitizers base left).diff globalSanitizers).join
        ((K.preserveSanitizers base right).diff globalSanitizers) := by
    rw [preserveSanitizers_join]
    unfold SanitizeTransformSet.diff SanitizeTransformSet.join
    rw [SanitizeSet.diff_join _ _ _ hleftSources hrightSources,
      SanitizeSet.diff_join _ _ _ hleftSinks hrightSinks]
  unfold effect
  rw [hdiff]
  cases K.matchingKinds filter base named with
  | none => rfl
  | some matching => exact SanitizeTransformSet.meet_join _ _ _

/-- More sanitizers keep less. -/
theorem keeps_of_join {left right : SanitizeTransformSet}
    (h : K.keeps filter base named globalSanitizers (left.join right) = true) :
    K.keeps filter base named globalSanitizers right = true := by
  unfold keeps shouldKeepSanitized at h ⊢
  split
  · rfl
  · rename_i htito
    rw [if_neg htito] at h
    cases hmatching : K.matchingKinds filter base named with
    | none =>
      rw [hmatching] at h
      cases h
    | some matching =>
      obtain ⟨transforms, sanitizable⟩ := matching
      cases sanitizable with
      | false => rfl
      | true =>
        rw [hmatching] at h
        dsimp only at h ⊢
        rw [Bool.not_eq_true'] at h ⊢
        by_contra hle
        rw [Bool.not_eq_false] at hle
        rw [SanitizeTransformSet.join_assoc,
          SanitizeTransformSet.lessOrEqual_join _ _ _ hle] at h
        cases h

/-! ## 3. Two sanitizer sets -/

theorem prepend_of_removes (transforms : TaintTransforms) {sanitizers : SanitizeTransformSet}
    (h : K.removes base named sanitizers = true) :
    K.prependSanitizeTransforms filter base named globalSanitizers transforms sanitizers = none := by
  rw [prependSanitizeTransforms_eq, if_pos h]

theorem prepend_of_no_effect (transforms : TaintTransforms) {sanitizers : SanitizeTransformSet}
    (h : K.removes base named sanitizers = false)
    (heffect : K.effect filter base named globalSanitizers sanitizers = .empty) :
    K.prependSanitizeTransforms filter base named globalSanitizers transforms sanitizers =
      some transforms := by
  rw [prependSanitizeTransforms_eq, h, if_neg Bool.false_ne_true]
  refine if_pos ?_
  rw [heffect]
  rfl

theorem prepend_of_effect (transforms : TaintTransforms) {sanitizers added : SanitizeTransformSet}
    (h : K.removes base named sanitizers = false)
    (heffect : K.effect filter base named globalSanitizers sanitizers = added)
    (hne : added ≠ .empty) :
    K.prependSanitizeTransforms filter base named globalSanitizers transforms sanitizers =
      if K.keeps filter base named globalSanitizers
          (added.join transforms.splitSanitizers.1) then
        some (.sanitize (added.join transforms.splitSanitizers.1) ::
          transforms.splitSanitizers.2)
      else none := by
  subst heffect
  rw [prependSanitizeTransforms_eq, h, if_neg Bool.false_ne_true]
  exact if_neg fun hempty => hne ((SanitizeTransformSet.isEmpty_iff _).mp hempty)

/-- **Two sanitizer sets one after the other are their join.** -/
theorem prepend_prepend (transforms : TaintTransforms) (first second : SanitizeTransformSet) :
    ((K.prependSanitizeTransforms filter base named globalSanitizers transforms first).bind
        fun transforms =>
          K.prependSanitizeTransforms filter base named globalSanitizers transforms second) =
      K.prependSanitizeTransforms filter base named globalSanitizers transforms
        (first.join second) := by
  cases hfirst : K.removes base named first with
  | true =>
    rw [prepend_of_removes transforms hfirst, prepend_of_removes transforms
      (by rw [removes_join, hfirst]; rfl)]
    rfl
  | false =>
  cases hsecond : K.removes base named second with
  | true =>
    rw [prepend_of_removes transforms
      (show K.removes base named (first.join second) = true by
        rw [removes_join, hsecond, Bool.or_true])]
    cases K.prependSanitizeTransforms filter base named globalSanitizers transforms first with
    | none => rfl
    | some transforms => exact prepend_of_removes transforms hsecond
  | false =>
  have hjoin : K.removes base named (first.join second) = false := by
    rw [removes_join, hfirst, hsecond]
    rfl
  have heffect := K.effect_join filter base named globalSanitizers hfirst hsecond
  by_cases hnone : K.effect filter base named globalSanitizers first = .empty
  · rw [hnone, SanitizeTransformSet.empty_join] at heffect
    rw [prepend_of_no_effect transforms hfirst hnone, prependSanitizeTransforms_eq _ (first.join _),
      heffect, hjoin, ← hsecond, ← prependSanitizeTransforms_eq]
    rfl
  · have hne : K.effect filter base named globalSanitizers (first.join second) ≠ .empty := by
      rw [heffect]
      exact fun h => hnone ((SanitizeTransformSet.join_eq_empty_iff _ _).mp h).1
    rw [prepend_of_effect transforms hfirst rfl hnone, prepend_of_effect transforms hjoin rfl hne,
      heffect]
    by_cases hnone' : K.effect filter base named globalSanitizers second = .empty
    · rw [hnone', SanitizeTransformSet.join_empty]
      split
      · exact prepend_of_no_effect _ hsecond hnone'
      · rfl
    · -- the second set finds the first one in front
      rw [SanitizeTransformSet.join_comm (K.effect filter base named globalSanitizers first)
        (K.effect filter base named globalSanitizers second), SanitizeTransformSet.join_assoc]
      split
      · refine (prepend_of_effect _ hsecond rfl hnone').trans ?_
        rw [TaintTransforms.splitSanitizers_cons_rest]
      · rename_i hdropped
        exact (if_neg fun hkept => hdropped (keeps_of_join hkept)).symm

/-- On a kind with parts, the sanitizers are added to the local part. -/
theorem Parts.sanitize_eq {kind : T} {localPart globalPart : TaintTransforms}
    (h : K.Parts kind localPart globalPart base) (sanitizers : SanitizeTransformSet) :
    K.applySanitizeTransforms filter sanitizers .front kind =
      .ok ((K.prependSanitizeTransforms filter base (getNamedTransforms localPart globalPart)
        (getGlobalSanitizers localPart globalPart) localPart sanitizers).map
          (K.makeTransform · globalPart base)) := by
  rcases h with ⟨hdeconstruct, -⟩ | ⟨hdeconstruct, rfl, rfl, rfl⟩
  · rw [applySanitizeTransforms, hdeconstruct]
    rfl
  · rw [applySanitizeTransforms, hdeconstruct]
    rfl

theorem View.sanitize_join (V : View K) {kind : T} (hkind : K.WellFormed kind)
    (first second : SanitizeTransformSet) :
    andThen (K.applySanitizeTransforms filter first .front kind)
        (K.applySanitizeTransforms filter second .front) =
      K.applySanitizeTransforms filter (first.join second) .front kind := by
  by_cases htransformable : K.Transformable kind
  · obtain ⟨localPart, globalPart, hparts⟩ := V.exists_parts hkind htransformable
    rw [hparts.sanitize_eq, hparts.sanitize_eq, ← prepend_prepend]
    cases hfirst : K.prependSanitizeTransforms filter (V.base kind)
        (getNamedTransforms localPart globalPart) (getGlobalSanitizers localPart globalPart)
        localPart first with
    | none => rfl
    | some transforms =>
      obtain ⟨hnamed, hne⟩ := prependSanitizeTransforms_spec hfirst
      have hparts' := V.parts_make hparts hne
      refine (hparts'.sanitize_eq second).trans ?_
      rw [getGlobalSanitizers_congr hnamed]
      unfold getNamedTransforms
      rw [hnamed]
      rfl
  · obtain ⟨k, hk⟩ : ∃ k, K.deconstruct kind = .nonTransformable k := by
      by_contra hne
      exact htransformable fun k hk => hne ⟨k, hk⟩
    obtain ⟨rfl, -⟩ := V.nonTransformable_spec hk
    have hfix : ∀ sanitizers, K.applySanitizeTransforms filter sanitizers .front k =
        .ok (some k) := fun sanitizers => by rw [applySanitizeTransforms, hk]
    rw [hfix, hfix]
    exact hfix _

/-- What two orders, and a repetition, make of a kind. -/
structure SanitizeLaws (K : KindArg T) (filter : SourceSinkFilter)
    (first second : SanitizeTransformSet) (kind : T) : Prop where
  join : andThen (K.applySanitizeTransforms filter first .front kind)
      (K.applySanitizeTransforms filter second .front) =
    K.applySanitizeTransforms filter (first.join second) .front kind
  comm : andThen (K.applySanitizeTransforms filter first .front kind)
      (K.applySanitizeTransforms filter second .front) =
    andThen (K.applySanitizeTransforms filter second .front kind)
      (K.applySanitizeTransforms filter first .front)
  idem : andThen (K.applySanitizeTransforms filter first .front kind)
      (K.applySanitizeTransforms filter first .front) =
    K.applySanitizeTransforms filter first .front kind

theorem View.sanitizeLaws (V : View K) {kind : T} (hkind : K.WellFormed kind)
    (first second : SanitizeTransformSet) : SanitizeLaws K filter first second kind := by
  constructor
  case join => exact V.sanitize_join hkind first second
  case comm =>
    rw [V.sanitize_join hkind, V.sanitize_join hkind, SanitizeTransformSet.join_comm]
  case idem =>
    rw [V.sanitize_join hkind, SanitizeTransformSet.join_self]

end KindArg

/-- **Sanitizing is order independent and idempotent**, on sources and on sinks. -/
theorem applySanitizeTransforms_comm (filter : SourceSinkFilter)
    (first second : SanitizeTransformSet) :
    (∀ source, Source.kindArg.WellFormed source →
      KindArg.SanitizeLaws Source.kindArg filter first second source) ∧
    ∀ sink, Sink.kindArg.WellFormed sink →
      KindArg.SanitizeLaws Sink.kindArg filter first second sink :=
  ⟨fun _ hsource => Source.view.sanitizeLaws hsource first second,
    fun _ hsink => Sink.view.sanitizeLaws hsink first second⟩

/-- Two sanitizers on a source with transforms. -/
theorem applySanitizeTransforms_comm_transformed :
    KindArg.SanitizeLaws Source.kindArg ⟨∅, ∅, [], ∅, ∅⟩ ⟨.empty, .specific {.named "B"}⟩
      ⟨.specific {.named "A"}, .empty⟩ (.transform [.named "T"] [] (.namedSource "A")) :=
  (applySanitizeTransforms_comm ⟨∅, ∅, [], ∅, ∅⟩ ⟨.empty, .specific {.named "B"}⟩
    ⟨.specific {.named "A"}, .empty⟩).1 (.transform [.named "T"] [] (.namedSource "A"))
    (fun _ _ _ h => by cases h; exact List.cons_ne_nil _ _)

end Pysa.Taint
