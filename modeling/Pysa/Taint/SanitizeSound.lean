/-
  Subject: A SANITIZED TAINT IS DROPPED ONLY WHEN NO ISSUE IS LOST.

  * `Rule.IsConfigured` -- the rules of a configuration, those of combined sources included;
  * `MatchingKinds.Paired` -- two kinds that a rule pairs are in each other's set;
  * `Answers` -- what the filter says of a kind: sanitizers remove it only if they cover the base of
    every kind that a rule pairs with it directly;
  * `removed_cases` -- why a kind is removed when sanitizers are applied;
  * `sanitized_of_removed` -- **whenever a kind is removed, each flow that a rule could report is
    sanitized**.
-/
import Pysa.Taint.SanitizeOrder

namespace Pysa.Taint

/-! ## 1. Rules and the kinds they pair -/

/-- A rule of combined sources: the sources reach a partial sink that another source triggers. -/
structure Rule.IsCombined (rule : Rule) : Prop where
  sources : ∀ source ∈ rule.sources, ∃ name, source = .namedSource name
  sinks : ∃ partialSink, rule.sinks = [.partialSink partialSink]
  transforms : ∃ triggeringSource, rule.transforms = [.triggeredPartialSink triggeringSource]

def Rule.IsConfigured (rule : Rule) : Prop := rule.IsNamed ∨ rule.IsCombined

/-- The rule may be cut into these transforms of a source and of a sink. -/
def Rule.Splits (rule : Rule) (sourceTransforms sinkTransforms : TaintTransforms) : Prop :=
  ∃ splits, transformSplits rule.transforms = .ok splits ∧
    (sourceTransforms, sinkTransforms) ∈ splits

theorem Rule.IsNamed.splits_named {rule : Rule} (h : rule.IsNamed) {b a : TaintTransforms}
    (hsplit : rule.Splits b a) :
    (∀ t ∈ b, t.isNamedTransform = true) ∧ ∀ t ∈ a, t.isNamedTransform = true := by
  obtain ⟨splits, hsplits, hmem⟩ := hsplit
  obtain ⟨splits', hsplits', hspec⟩ := transformSplits_spec h
  obtain rfl := Except.ok.inj (hsplits.symm.trans hsplits')
  have happend := (hspec b a).mp hmem
  constructor
  · intro t ht
    exact h.transforms t (happend ▸ List.mem_append_left _ (List.mem_reverse.mpr ht))
  · intro t ht
    exact h.transforms t (happend ▸ List.mem_append_right _ ht)

theorem Rule.IsCombined.splits_eq {rule : Rule} (h : rule.IsCombined) {b a : TaintTransforms}
    (hsplit : rule.Splits b a) : b = [] ∧ a = rule.transforms := by
  obtain ⟨splits, hsplits, hmem⟩ := hsplit
  obtain ⟨triggeringSource, htransforms⟩ := h.transforms
  rw [htransforms] at hsplits ⊢
  obtain rfl : [([], [.triggeredPartialSink triggeringSource])] = splits :=
    Except.ok.inj hsplits
  have heq := List.mem_singleton.mp hmem
  cases heq
  exact ⟨rfl, rfl⟩

namespace SourceSinkFilter

theorem filterRules_configured (options : Options) {rules : List Rule}
    (h : ∀ rule ∈ rules, rule.IsConfigured) :
    ∀ rule ∈ filterRules options rules, rule.IsConfigured := by
  refine filterRules_preserves options ?_ ?_ h
  · intro rule keep hrule
    rcases hrule with hrule | hrule
    · exact Or.inl ⟨fun source hsource => hrule.sources source (List.mem_of_mem_filter hsource),
        hrule.sinks, hrule.transforms⟩
    · exact Or.inr ⟨fun source hsource => hrule.sources source (List.mem_of_mem_filter hsource),
        hrule.sinks, hrule.transforms⟩
  · intro rule keep hne hrule
    rcases hrule with hrule | hrule
    · exact Or.inl ⟨hrule.sources, fun sink hsink => hrule.sinks sink
        (List.mem_of_mem_filter hsink), hrule.transforms⟩
    · obtain ⟨partialSink, hsinks⟩ := hrule.sinks
      refine Or.inr ⟨hrule.sources, ⟨partialSink, ?_⟩, hrule.transforms⟩
      rw [hsinks, List.filter_singleton] at hne
      dsimp only
      rw [hsinks, List.filter_singleton]
      cases hkeep : keep (.partialSink partialSink) with
      | true => rfl
      | false =>
        rw [hkeep] at hne
        exact absurd rfl hne

/-- Two kinds are in each other's set. -/
def MatchingKinds.Paired (kinds : MatchingKinds) (source : Source) (sink : Sink) : Prop :=
  (∃ sinks, kinds.2.lookup source = some sinks ∧ sink ∈ sinks) ∧
    ∃ sources, kinds.1.lookup sink = some sources ∧ source ∈ sources

theorem paired_addSourcesSinks {sofar : MatchingKinds} {sources : List Source} {sinks : List Sink}
    {source : Source} {sink : Sink}
    (h : sofar.Paired source sink ∨ source ∈ sources ∧ sink ∈ sinks) :
    MatchingKinds.Paired (addSourcesSinks sofar sources sinks) source sink := by
  constructor
  · refine AssocMap.lookup_foldl_update (P := fun sinks => sink ∈ sinks)
      (fun value hvalue => List.mem_union_left hvalue _) ?_
    refine h.imp (·.1) fun hnew => ⟨hnew.1, fun old => ?_⟩
    cases old with
    | none => exact hnew.2
    | some value => exact List.mem_union_right _ hnew.2
  · refine AssocMap.lookup_foldl_update (P := fun sources => source ∈ sources)
      (fun value hvalue => List.mem_union_left hvalue _) ?_
    refine h.imp (·.2) fun hnew => ⟨hnew.2, fun old => ?_⟩
    cases old with
    | none => exact hnew.1
    | some value => exact List.mem_union_right _ hnew.1

theorem paired_foldl_addSplit {rule : Rule} {splits : List (TaintTransforms × TaintTransforms)}
    {sofar : MatchingKinds} {source : Source} {sink : Sink}
    (h : sofar.Paired source sink ∨ ∃ split ∈ splits,
      source ∈ rule.sources.map (Source.makeTransform [] split.1) ∧
        sink ∈ rule.sinks.map (Sink.makeTransform [] split.2)) :
    MatchingKinds.Paired (splits.foldl (addSplit rule) sofar) source sink := by
  induction splits generalizing sofar with
  | nil =>
    rcases h with h | ⟨split, hsplit, -⟩
    · exact h
    · cases hsplit
  | cons split rest ih =>
    obtain ⟨b, a⟩ := split
    rw [List.foldl_cons]
    apply ih
    rw [addSplit_eq]
    rcases h with h | ⟨split, hsplit, hpair⟩
    · exact Or.inl (paired_addSourcesSinks (Or.inl h))
    · rcases List.mem_cons.mp hsplit with rfl | hsplit
      · exact Or.inl (paired_addSourcesSinks (Or.inr hpair))
      · exact Or.inr ⟨split, hsplit, hpair⟩

/-- The kinds that the splits of a rule pair; a rule of combined sources also pairs its sources
    with the partial sink itself. -/
def Pairs (rule : Rule) (source : Source) (sink : Sink) : Prop :=
  (∃ b a, rule.Splits b a ∧ source ∈ rule.sources.map (Source.makeTransform [] b) ∧
    sink ∈ rule.sinks.map (Sink.makeTransform [] a)) ∨
  rule.IsCombined ∧ source ∈ rule.sources ∧ sink ∈ rule.sinks

theorem paired_addRule {rule : Rule} {sofar next : MatchingKinds}
    (h : addRule sofar rule = .ok next) {source : Source} {sink : Sink}
    (hpair : sofar.Paired source sink ∨ Pairs rule source sink) : next.Paired source sink := by
  unfold addRule at h
  cases hsplits : Rule.transformSplits rule.transforms with
  | error e =>
    rw [hsplits] at h
    cases h
  | ok splits =>
    rw [hsplits] at h
    cases h
    have hcombined : sofar.Paired source sink ∨
        (rule.IsCombined ∧ source ∈ rule.sources ∧ sink ∈ rule.sinks) →
        MatchingKinds.Paired (addCombinedSourceRule sofar rule) source sink := by
      intro hpair
      unfold addCombinedSourceRule
      split
      · exact paired_addSourcesSinks (hpair.imp_right (·.2))
      · rename_i hnot
        rcases hpair with hpair | ⟨hcombined, -⟩
        · exact hpair
        · obtain ⟨triggeringSource, htransforms⟩ := hcombined.transforms
          exact absurd htransforms (hnot triggeringSource)
    apply paired_foldl_addSplit
    rcases hpair with hpair | ⟨b, a, ⟨splits', hsplits', hmem⟩, hpair⟩ | hpair
    · exact Or.inl (hcombined (Or.inl hpair))
    · obtain rfl := Except.ok.inj (hsplits.symm.trans hsplits')
      exact Or.inr ⟨(b, a), hmem, hpair⟩
    · exact Or.inl (hcombined (Or.inr hpair))

/-- **Every pair of every rule is in the maps.** -/
theorem paired_matchingKindsFromRules {rules : List Rule} {kinds : MatchingKinds}
    (h : matchingKindsFromRules rules = .ok kinds) {rule : Rule} (hrule : rule ∈ rules)
    {source : Source} {sink : Sink} (hpair : Pairs rule source sink) :
    kinds.Paired source sink := by
  have hfold : ∀ (rules : List Rule) (sofar : MatchingKinds),
      rules.foldlM addRule sofar = .ok kinds →
      sofar.Paired source sink ∨ rule ∈ rules → kinds.Paired source sink := by
    intro rules
    induction rules with
    | nil =>
      intro sofar h hpaired
      cases h
      exact hpaired.resolve_right List.not_mem_nil
    | cons first rest ih =>
      intro sofar h hpaired
      rw [List.foldlM_cons] at h
      cases hfirst : addRule sofar first with
      | error e =>
        rw [hfirst] at h
        cases h
      | ok next =>
        rw [hfirst] at h
        refine ih next h ?_
        rcases hpaired with hpaired | hmem
        · exact Or.inl (paired_addRule hfirst (Or.inl hpaired))
        · rcases List.mem_cons.mp hmem with rfl | hmem
          · exact Or.inl (paired_addRule hfirst (Or.inr hpair))
          · exact Or.inr hmem
  exact hfold rules (∅, ∅) h (Or.inr hrule)

end SourceSinkFilter

/-! ## 2. What the filter says of a kind -/

theorem SanitizeSet.mem_of_lessOrEqual {X : Type} [DecidableEq X] {left right : SanitizeSet X}
    (h : left.lessOrEqual right = true) {x : X} (hx : left.mem x = true) : right.mem x = true := by
  cases right with
  | all => rfl
  | specific right =>
    cases left with
    | all => cases h
    | specific left =>
      simp only [lessOrEqual, mem, decide_eq_true_eq] at h hx ⊢
      exact h hx

theorem SanitizeSet.mem_add {X : Type} [DecidableEq X] (set : SanitizeSet X) (x y : X) :
    (set.add x).mem y = (decide (y = x) || set.mem y) := by
  cases set <;> simp [add, mem]

namespace MatchingSanitizeTransforms

/-- A record that forbids the removal of the kind, or has the sanitizer of a matching kind. -/
def Covers (matching : MatchingSanitizeTransforms) (sanitizer : Option SanitizeTransform) : Prop :=
  matching.sanitizable = true → ∃ t, sanitizer = some t ∧ matching.transforms.mem t = true

theorem addSink_mono {matching next : MatchingSanitizeTransforms} {sink : Sink}
    (h : addSink matching sink = .ok next) :
    (next.sanitizable = true → matching.sanitizable = true) ∧
      ∀ t, matching.transforms.mem t = true → next.transforms.mem t = true := by
  have hadd : ∀ name t, matching.transforms.mem t = true →
      (matching.transforms.addSink (.named name)).mem t = true := by
    intro name t ht
    cases t with
    | source source => exact ht
    | sink sink =>
      simp only [SanitizeTransformSet.mem, SanitizeTransformSet.addSink,
        SanitizeSet.mem_add] at ht ⊢
      rw [ht, Bool.or_true]
  cases sink with
  | namedSink name =>
    cases h
    exact ⟨id, hadd name⟩
  | parametricSink name _ =>
    cases h
    exact ⟨id, hadd name⟩
  | partialSink _ =>
    cases h
    exact ⟨fun h => absurd h Bool.false_ne_true, fun _ => id⟩
  | transform localPart globalPart base =>
    rw [addSink] at h
    split at h
    · cases h
      exact ⟨fun h => absurd h Bool.false_ne_true, fun _ => id⟩
    · cases h
      exact ⟨id, fun _ => id⟩
  | attach => cases h
  | localReturn => cases h
  | parameterUpdate _ => cases h
  | addFeatureToArgument => cases h
  | extraTraceSink => cases h

theorem addSource_mono {matching next : MatchingSanitizeTransforms} {source : Source}
    (h : addSource matching source = .ok next) :
    (next.sanitizable = true → matching.sanitizable = true) ∧
      ∀ t, matching.transforms.mem t = true → next.transforms.mem t = true := by
  have hadd : ∀ name t, matching.transforms.mem t = true →
      (matching.transforms.addSource (.named name)).mem t = true := by
    intro name t ht
    cases t with
    | sink sink => exact ht
    | source source =>
      simp only [SanitizeTransformSet.mem, SanitizeTransformSet.addSource,
        SanitizeSet.mem_add] at ht ⊢
      rw [ht, Bool.or_true]
  cases source with
  | namedSource name =>
    cases h
    exact ⟨id, hadd name⟩
  | parametricSource name _ =>
    cases h
    exact ⟨id, hadd name⟩
  | transform localPart globalPart base =>
    rw [addSource] at h
    split at h
    · cases h
      exact ⟨fun h => absurd h Bool.false_ne_true, fun _ => id⟩
    · cases h
      exact ⟨id, fun _ => id⟩
  | attach => cases h

/-- What one kind of the set contributes stays to the end of the fold. -/
theorem covers_foldlM {X : Type} {add : MatchingSanitizeTransforms → X →
      Except String MatchingSanitizeTransforms}
    (hmono : ∀ matching next x, add matching x = .ok next →
      (next.sanitizable = true → matching.sanitizable = true) ∧
        ∀ t, matching.transforms.mem t = true → next.transforms.mem t = true)
    {sanitizer : Option SanitizeTransform} {x : X} {xs : List X} (hx : x ∈ xs)
    (hadd : ∀ matching next, add matching x = .ok next → next.Covers sanitizer)
    {init result : MatchingSanitizeTransforms} (h : xs.foldlM add init = .ok result) :
    result.Covers sanitizer := by
  have hkeep : ∀ (xs : List X) (init : MatchingSanitizeTransforms),
      xs.foldlM add init = .ok result → init.Covers sanitizer ∨ x ∈ xs →
        result.Covers sanitizer := by
    intro xs
    induction xs with
    | nil =>
      intro init h hcovers
      cases h
      exact hcovers.resolve_right List.not_mem_nil
    | cons first rest ih =>
      intro init h hcovers
      rw [List.foldlM_cons] at h
      cases hfirst : add init first with
      | error e =>
        rw [hfirst] at h
        cases h
      | ok next =>
        rw [hfirst] at h
        obtain ⟨hsanitizable, hmem⟩ := hmono _ _ _ hfirst
        refine ih next h ?_
        rcases hcovers with hcovers | hx
        · left
          intro hnext
          obtain ⟨t, ht, hin⟩ := hcovers (hsanitizable hnext)
          exact ⟨t, ht, hmem t hin⟩
        · rcases List.mem_cons.mp hx with rfl | hx
          · exact Or.inl (hadd _ _ hfirst)
          · exact Or.inr hx
  exact hkeep xs init h (Or.inr hx)

/-- A sink that a rule pairs with the source, directly or after named transforms. -/
theorem addSink_covers {matching next : MatchingSanitizeTransforms} {a : TaintTransforms}
    {sink : Sink} (h : addSink matching (Sink.makeTransform [] a sink) = .ok next)
    (hsink : (∃ name, sink = .namedSink name) ∨ ∃ name, sink = .partialSink name)
    (hnamed : ∀ transform ∈ a, transform.isNamedTransform = true) :
    next.Covers sink.baseAsSanitizer := by
  cases a with
  | nil =>
    rcases hsink with ⟨name, rfl⟩ | ⟨name, rfl⟩
    · cases h
      intro _
      refine ⟨_, rfl, ?_⟩
      simp [SanitizeTransformSet.mem, SanitizeTransformSet.addSink, SanitizeSet.mem_add]
    · cases h
      exact fun h => absurd h Bool.false_ne_true
  | cons transform rest =>
    rw [Sink.makeTransform_cons, addSink, List.any_cons,
      hnamed transform List.mem_cons_self] at h
    cases h
    exact fun h => absurd h Bool.false_ne_true

theorem addSource_covers {matching next : MatchingSanitizeTransforms} {b : TaintTransforms}
    {source : Source} (h : addSource matching (Source.makeTransform [] b source) = .ok next)
    (hsource : ∃ name, source = .namedSource name)
    (hnamed : ∀ transform ∈ b, transform.isNamedTransform = true) :
    next.Covers source.baseAsSanitizer := by
  cases b with
  | nil =>
    obtain ⟨name, rfl⟩ := hsource
    cases h
    intro _
    refine ⟨_, rfl, ?_⟩
    simp [SanitizeTransformSet.mem, SanitizeTransformSet.addSource, SanitizeSet.mem_add]
  | cons transform rest =>
    rw [Source.makeTransform_cons, addSource, List.any_cons,
      hnamed transform List.mem_cons_self] at h
    cases h
    exact fun h => absurd h Bool.false_ne_true

end MatchingSanitizeTransforms

namespace SourceSinkFilter

/-- **What the filter says of the kinds of a rule**: there is a record for them, and when it allows
    the removal, it has the sanitizer of every kind that the rule pairs with them. A partial sink is
    also looked up without its trigger. -/
structure Answers (rules : List Rule) (filter : SourceSinkFilter) : Prop where
  source {rule b a source sink} : rule ∈ rules → rule.Splits b a → source ∈ rule.sources →
    sink ∈ rule.sinks →
    ∃ matching, filter.matchingSinkSanitizeTransforms.lookup (Source.makeTransform [] b source) =
      some matching ∧ matching.Covers sink.baseAsSanitizer
  sink {rule b a source sink} : rule ∈ rules → rule.Splits b a → source ∈ rule.sources →
    sink ∈ rule.sinks → ∀ key, key = a ∨ key = a.getNamedTransforms →
    ∃ matching, filter.matchingSourceSanitizeTransforms.lookup (Sink.makeTransform [] key sink) =
      some matching ∧ matching.Covers source.baseAsSanitizer

/-- The kinds of a rule, with the key under which the source or the sink is looked up. -/
theorem pairs_of_splits {rule : Rule} (hrule : rule.IsConfigured) {b a : TaintTransforms}
    (hsplit : rule.Splits b a) {source : Source} {sink : Sink} (hsource : source ∈ rule.sources)
    (hsink : sink ∈ rule.sinks) :
    (∀ t ∈ b, t.isNamedTransform = true) ∧ (∃ name, source = .namedSource name) ∧
      ((∃ name, sink = .namedSink name) ∨ ∃ name, sink = .partialSink name) ∧
      (∃ a', (∀ t ∈ a', t.isNamedTransform = true) ∧
        Pairs rule (Source.makeTransform [] b source) (Sink.makeTransform [] a' sink)) ∧
      ∀ key, key = a ∨ key = a.getNamedTransforms →
        Pairs rule (Source.makeTransform [] b source) (Sink.makeTransform [] key sink) := by
  have hpairs : Pairs rule (Source.makeTransform [] b source) (Sink.makeTransform [] a sink) :=
    Or.inl ⟨b, a, hsplit, List.mem_map_of_mem hsource, List.mem_map_of_mem hsink⟩
  rcases hrule with hrule | hrule
  · obtain ⟨hb, ha⟩ := hrule.splits_named hsplit
    have hself : a.getNamedTransforms = a := List.filter_eq_self.mpr ha
    refine ⟨hb, hrule.sources source hsource, Or.inl (hrule.sinks sink hsink), ⟨a, ha, hpairs⟩,
      fun key hkey => ?_⟩
    rw [hself, or_self] at hkey
    rw [hkey]
    exact hpairs
  · obtain ⟨rfl, rfl⟩ := hrule.splits_eq hsplit
    obtain ⟨partialSink, hsinks⟩ := hrule.sinks
    obtain ⟨triggeringSource, htransforms⟩ := hrule.transforms
    have hdirect : Pairs rule source sink := Or.inr ⟨hrule, hsource, hsink⟩
    refine ⟨fun _ ht => absurd ht List.not_mem_nil, hrule.sources source hsource, Or.inr ?_,
      ⟨[], fun _ ht => absurd ht List.not_mem_nil, hdirect⟩, fun key hkey => ?_⟩
    · rw [hsinks] at hsink
      exact ⟨partialSink, List.mem_singleton.mp hsink⟩
    · rcases hkey with rfl | rfl
      · exact hpairs
      · rw [htransforms]
        exact hdirect

theorem lookup_addExtraTraceSinks {possible : List TaintTransforms}
    {matching : AssocMap Sink MatchingSanitizeTransforms} {sink : Sink}
    {sanitizer : Option SanitizeTransform}
    (h : ∃ value, matching.lookup sink = some value ∧ value.Covers sanitizer) :
    ∃ value, (addExtraTraceSinks possible matching).lookup sink = some value ∧
      value.Covers sanitizer := by
  rw [addExtraTraceSinks_eq]
  refine AssocMap.lookup_foldl_update (fun _ _ => ?_) (Or.inl h)
  exact fun h => absurd h Bool.false_ne_true

theorem create_answers {rules : List Rule} (hrules : ∀ rule ∈ rules, rule.IsConfigured)
    {options : Options} {filter : SourceSinkFilter} (h : create rules options = .ok filter) :
    Answers (filterRules options rules) filter := by
  have hconfigured := filterRules_configured options hrules
  unfold create at h
  dsimp only at h
  cases hkinds : matchingKindsFromRules (filterRules options rules) with
  | error e =>
    rw [hkinds] at h
    cases h
  | ok kinds =>
  obtain ⟨matchingSources, matchingSinks⟩ := kinds
  cases hsources : AssocMap.mapM MatchingSanitizeTransforms.fromSources matchingSources with
  | error e =>
    simp only [hkinds, hsources, bind, Except.bind] at h
    cases h
  | ok sourceTransforms =>
  cases hsinks : AssocMap.mapM MatchingSanitizeTransforms.fromSinks matchingSinks with
  | error e =>
    simp only [hkinds, hsources, hsinks, bind, Except.bind] at h
    cases h
  | ok sinkTransforms =>
  simp only [hkinds, hsources, hsinks, bind, Except.bind] at h
  cases h
  constructor
  case source =>
    intro rule b a source sink hrule hsplit hsource hsink
    obtain ⟨-, -, hform, ⟨a', ha', hpairs⟩, -⟩ := pairs_of_splits (hconfigured rule hrule) hsplit
      hsource hsink
    obtain ⟨⟨sinks, hlookup, hmem⟩, -⟩ := paired_matchingKindsFromRules hkinds hrule hpairs
    obtain ⟨matching, hfrom, hmatching⟩ := AssocMap.lookup_mapM hsinks hlookup
    refine ⟨matching, hmatching, MatchingSanitizeTransforms.covers_foldlM
      (fun _ _ _ => MatchingSanitizeTransforms.addSink_mono) hmem (fun _ _ hadd => ?_) hfrom⟩
    exact MatchingSanitizeTransforms.addSink_covers hadd hform ha'
  case sink =>
    intro rule b a source sink hrule hsplit hsource hsink key hkey
    obtain ⟨hb, hform, -, -, hpairs⟩ := pairs_of_splits (hconfigured rule hrule) hsplit
      hsource hsink
    obtain ⟨-, sources, hlookup, hmem⟩ := paired_matchingKindsFromRules hkinds hrule
      (hpairs key hkey)
    obtain ⟨matching, hfrom, hmatching⟩ := AssocMap.lookup_mapM hsources hlookup
    refine lookup_addExtraTraceSinks ⟨matching, hmatching,
      MatchingSanitizeTransforms.covers_foldlM
        (fun _ _ _ => MatchingSanitizeTransforms.addSource_mono) hmem (fun _ _ hadd => ?_) hfrom⟩
    exact MatchingSanitizeTransforms.addSource_covers hadd hform hb

end SourceSinkFilter

/-! ## 3. Why a kind is removed -/

namespace TaintTransforms

/-- The sanitizers before the first named transform. -/
def validSanitizers : TaintTransforms → SanitizeTransformSet
  | [] => .empty
  | .named _ :: _ => .empty
  | .sanitize sanitizers :: rest => sanitizers.join (validSanitizers rest)
  | .triggeredPartialSink _ :: rest => validSanitizers rest

@[simp] theorem mem_empty (t : SanitizeTransform) : SanitizeTransformSet.empty.mem t = false := by
  cases t <;> simp [SanitizeTransformSet.mem, SanitizeTransformSet.empty, SanitizeSet.mem,
    SanitizeSet.empty]

/-- A sanitizer at the front is before the first named transform. -/
theorem mem_validSanitizers {transforms : TaintTransforms} {t : SanitizeTransform}
    (h : transforms.getSanitizeTransforms.mem t = true) :
    transforms.validSanitizers.mem t = true := by
  have hfrom : ∀ (transforms : TaintTransforms) (sofar : SanitizeTransformSet),
      (splitSanitizersFrom sofar transforms).1.mem t = true →
        (sofar.mem t || transforms.validSanitizers.mem t) = true := by
    intro transforms
    induction transforms with
    | nil =>
      intro sofar h
      exact Bool.or_eq_true_iff.mpr (Or.inl h)
    | cons transform rest ih =>
      cases transform with
      | named _ =>
        intro sofar h
        exact Bool.or_eq_true_iff.mpr (Or.inl h)
      | triggeredPartialSink _ =>
        intro sofar h
        exact Bool.or_eq_true_iff.mpr (Or.inl h)
      | sanitize sanitizers =>
        intro sofar h
        have hrest := ih _ h
        rw [SanitizeTransformSet.mem_join, Bool.or_assoc] at hrest
        rw [validSanitizers, SanitizeTransformSet.mem_join]
        exact hrest
  have hvalid := hfrom transforms .empty h
  rwa [mem_empty, Bool.false_or] at hvalid

theorem mem_validSanitizers_append {left : TaintTransforms} (right : TaintTransforms)
    {t : SanitizeTransform} :
    (validSanitizers (left ++ right)).mem t = true ↔ left.validSanitizers.mem t = true ∨
      left.getNamedTransforms = [] ∧ right.validSanitizers.mem t = true := by
  induction left with
  | nil => simp [validSanitizers]
  | cons transform rest ih =>
    cases transform with
    | named _ => simp [validSanitizers]
    | triggeredPartialSink _ => exact ih
    | sanitize sanitizers =>
      rw [List.cons_append, validSanitizers, validSanitizers, SanitizeTransformSet.mem_join,
        SanitizeTransformSet.mem_join, Bool.or_eq_true, Bool.or_eq_true, ih, or_assoc]
      rfl

theorem getNamedTransforms_getNonSanitizeTransforms (transforms : TaintTransforms) :
    getNamedTransforms (getNonSanitizeTransforms transforms) = getNamedTransforms transforms := by
  unfold getNamedTransforms getNonSanitizeTransforms
  rw [List.filter_filter]
  refine List.filter_congr fun t _ => ?_
  cases t <;> rfl

end TaintTransforms

theorem SanitizeTransformSet.mem_of_lessOrEqual {left right : SanitizeTransformSet}
    (h : left.lessOrEqual right = true) {t : SanitizeTransform} (ht : left.mem t = true) :
    right.mem t = true := by
  obtain ⟨hsources, hsinks⟩ := Bool.and_eq_true_iff.mp h
  cases t with
  | source source => exact SanitizeSet.mem_of_lessOrEqual hsources ht
  | sink sink => exact SanitizeSet.mem_of_lessOrEqual hsinks ht

namespace KindArg

variable {T : Type} {K : KindArg T} {filter : SourceSinkFilter} {base : T}

theorem preserveSanitizers_le {sanitizers : SanitizeTransformSet} :
    (K.preserveSanitizers base sanitizers).lessOrEqual sanitizers = true := by
  have hempty : ∀ {X : Type} [DecidableEq X] (set : SanitizeSet X),
      SanitizeSet.empty.lessOrEqual set = true := by
    intro X _ set
    cases set <;> simp [SanitizeSet.lessOrEqual, SanitizeSet.empty]
  have hself : ∀ {X : Type} [DecidableEq X] (set : SanitizeSet X),
      set.lessOrEqual set = true := by
    intro X _ set
    cases set <;> simp [SanitizeSet.lessOrEqual]
  unfold preserveSanitizers SanitizeTransformSet.lessOrEqual
  cases K.preserveSanitizeSources base <;> cases K.preserveSanitizeSinks base <;>
    simp [hempty, hself]

/-- The sanitizers that matter are some of those that are applied. -/
theorem mem_of_effect {named : TaintTransforms} {globalSanitizers sanitizers : SanitizeTransformSet}
    {t : SanitizeTransform}
    (h : (K.effect filter base named globalSanitizers sanitizers).mem t = true) :
    sanitizers.mem t = true := by
  have hmeet : ∀ {X : Type} [DecidableEq X] (left right : SanitizeSet X) (x : X),
      (left.meet right).mem x = true → right.mem x = true := by
    intro X _ left right x hx
    cases left <;> cases right <;> simp_all [SanitizeSet.meet, SanitizeSet.mem]
  have hdiff : ∀ {X : Type} [DecidableEq X] (left right : SanitizeSet X) (x : X),
      (left.diff right).mem x = true → left.mem x = true := by
    intro X _ left right x hx
    cases left <;> cases right <;>
      simp_all [SanitizeSet.diff, SanitizeSet.mem, SanitizeSet.empty]
  have hrest : ((K.preserveSanitizers base sanitizers).diff globalSanitizers).mem t = true := by
    unfold effect at h
    cases hmatching : K.matchingKinds filter base named with
    | none =>
      rw [hmatching] at h
      exact h
    | some matching =>
      rw [hmatching] at h
      cases t with
      | source source => exact hmeet _ _ _ h
      | sink sink => exact hmeet _ _ _ h
  refine SanitizeTransformSet.mem_of_lessOrEqual
    (show (K.preserveSanitizers base sanitizers).lessOrEqual sanitizers = true from
      preserveSanitizers_le) ?_
  cases t with
  | source source => exact hdiff _ _ _ hrest
  | sink sink => exact hdiff _ _ _ hrest

/-- **Why a kind that is not tito is removed**: the sanitizers remove everything or its base, or the
    record of the kind is missing or allows the removal, and the sanitizers before the first named
    transform, the new ones included, cover all that the record has. -/
theorem removed_cases {localPart globalPart : TaintTransforms} {sanitizers : SanitizeTransformSet}
    (htito : K.isTito base = false)
    (h : K.prependSanitizeTransforms filter base (getNamedTransforms localPart globalPart)
      (getGlobalSanitizers localPart globalPart) localPart sanitizers = none) :
    sanitizers.sources.isAll = true ∨ sanitizers.sinks.isAll = true ∨
      (∃ t, K.baseAsSanitizer base = some t ∧ sanitizers.mem t = true) ∨
      ∀ matching, K.matchingSanitizeTransforms filter (getNamedTransforms localPart globalPart)
          base = some matching → matching.sanitizable = true ∧
        ∀ t, matching.transforms.mem t = true →
          (sanitizers.join (TaintTransforms.validSanitizers (localPart ++ globalPart))).mem t =
            true := by
  rw [prependSanitizeTransforms_eq] at h
  by_cases hremoves : K.removes base (getNamedTransforms localPart globalPart) sanitizers = true
  · simp only [removes, Bool.or_eq_true, Bool.and_eq_true, Option.any_eq_true] at hremoves
    rcases hremoves with (hsources | hsinks) | ⟨-, hbase⟩
    · exact Or.inl hsources
    · exact Or.inr (Or.inl hsinks)
    · exact Or.inr (Or.inr (Or.inl hbase))
  · rw [if_neg hremoves] at h
    dsimp only at h
    split at h
    · cases h
    split at h
    · cases h
    rename_i hdropped
    refine Or.inr (Or.inr (Or.inr fun matching hmatching => ?_))
    have hkinds : K.matchingKinds filter base (getNamedTransforms localPart globalPart) =
        some matching := by
      rw [matchingKinds, htito]
      exact hmatching
    obtain ⟨transforms, sanitizable⟩ := matching
    have hkeeps : K.shouldKeepSanitized base (some ⟨transforms, sanitizable⟩)
        ((K.effect filter base (getNamedTransforms localPart globalPart)
          (getGlobalSanitizers localPart globalPart) sanitizers).join
            localPart.splitSanitizers.1) (getGlobalSanitizers localPart globalPart) = false := by
      rw [← hkinds]
      exact Bool.eq_false_of_not_eq_true hdropped
    unfold shouldKeepSanitized at hkeeps
    rw [htito, if_neg Bool.false_ne_true] at hkeeps
    cases sanitizable with
    | false => cases hkeeps
    | true =>
      refine ⟨rfl, fun t ht => ?_⟩
      have hle := SanitizeTransformSet.mem_of_lessOrEqual
        (Bool.not_inj (show _ = !true from hkeeps)) ht
      rw [SanitizeTransformSet.mem_join, SanitizeTransformSet.mem_join, Bool.or_eq_true,
        Bool.or_eq_true] at hle
      rw [SanitizeTransformSet.mem_join, Bool.or_eq_true,
        TaintTransforms.mem_validSanitizers_append]
      rcases hle with (heffect | hlocal) | hglobal
      · exact Or.inl (mem_of_effect heffect)
      · exact Or.inr (Or.inl (TaintTransforms.mem_validSanitizers hlocal))
      · unfold getGlobalSanitizers at hglobal
        rw [any_isNamedTransform] at hglobal
        cases hnamed : localPart.getNamedTransforms with
        | nil =>
          rw [hnamed] at hglobal
          exact Or.inr (Or.inr ⟨rfl, TaintTransforms.mem_validSanitizers hglobal⟩)
        | cons first rest =>
          rw [hnamed] at hglobal
          have hempty : SanitizeTransformSet.empty.mem t = true := hglobal
          rw [TaintTransforms.mem_empty] at hempty
          cases hempty

end KindArg

/-! ## 4. No issue is lost -/

def Source.getNonSanitizeTransforms : Source → TaintTransforms
  | transform localPart globalPart _ =>
    (TaintTransforms.merge localPart globalPart).getNonSanitizeTransforms
  | _ => []

def Sink.getNonSanitizeTransforms : Sink → TaintTransforms
  | transform localPart globalPart _ =>
    (TaintTransforms.merge localPart globalPart).getNonSanitizeTransforms
  | _ => []

/-- The sanitizers of a kind that still count: those before its first named transform. -/
def Source.validSanitizers : Source → SanitizeTransformSet
  | transform localPart globalPart _ => (TaintTransforms.merge localPart globalPart).validSanitizers
  | _ => .empty

def Sink.validSanitizers : Sink → SanitizeTransformSet
  | transform localPart globalPart _ => (TaintTransforms.merge localPart globalPart).validSanitizers
  | _ => .empty

/-- A split of the rule matches the transforms of both kinds, and the rule has their bases. -/
def Rule.Matches (rule : Rule) (source : Source) (sink : Sink) : Prop :=
  rule.Splits source.getNonSanitizeTransforms sink.getNonSanitizeTransforms ∧
    source.discardTransforms.discardSubkind ∈ rule.sources ∧
    sink.discardTransforms.discardSubkind ∈ rule.sinks

/-- The base of the kind is among the sanitized ones. -/
def Source.SanitizedBy (source : Source) (sanitizers : SanitizeTransformSet) : Prop :=
  sanitizers.sources.isAll = true ∨
    ∃ t, source.discardTransforms.baseAsSanitizer = some t ∧ sanitizers.mem t = true

def Sink.SanitizedBy (sink : Sink) (sanitizers : SanitizeTransformSet) : Prop :=
  sanitizers.sinks.isAll = true ∨
    ∃ t, sink.discardTransforms.baseAsSanitizer = some t ∧ sanitizers.mem t = true

@[simp] theorem Source.baseAsSanitizer_discardSubkind (source : Source) :
    source.discardSubkind.baseAsSanitizer = source.baseAsSanitizer := by
  cases source <;> rfl

@[simp] theorem Sink.baseAsSanitizer_discardSubkind (sink : Sink) :
    sink.discardSubkind.baseAsSanitizer = sink.baseAsSanitizer := by
  cases sink <;> rfl

/-- Sanitizers that have all that the record of a source has: the base of the sink is one. -/
theorem Sink.sanitizedBy_of_covers {matching : MatchingSanitizeTransforms} {sink : Sink}
    {sanitizers : SanitizeTransformSet}
    (hcovers : matching.Covers sink.discardTransforms.discardSubkind.baseAsSanitizer)
    (h : matching.sanitizable = true ∧
      ∀ t, matching.transforms.mem t = true → sanitizers.mem t = true) :
    sink.SanitizedBy sanitizers := by
  obtain ⟨t, ht, hmem⟩ := hcovers h.1
  rw [Sink.baseAsSanitizer_discardSubkind] at ht
  exact Or.inr ⟨t, ht, h.2 t hmem⟩

theorem Source.sanitizedBy_of_covers {matching : MatchingSanitizeTransforms} {source : Source}
    {sanitizers : SanitizeTransformSet}
    (hcovers : matching.Covers source.discardTransforms.discardSubkind.baseAsSanitizer)
    (h : matching.sanitizable = true ∧
      ∀ t, matching.transforms.mem t = true → sanitizers.mem t = true) :
    source.SanitizedBy sanitizers := by
  obtain ⟨t, ht, hmem⟩ := hcovers h.1
  rw [Source.baseAsSanitizer_discardSubkind] at ht
  exact Or.inr ⟨t, ht, h.2 t hmem⟩

theorem SanitizeTransformSet.isAll_join_left {left : SanitizeTransformSet}
    (right : SanitizeTransformSet) (h : left.sinks.isAll = true) :
    (left.join right).sinks.isAll = true := by
  unfold join
  rw [SanitizeSet.isAll_join, h, Bool.true_or]

theorem SanitizeTransformSet.isAll_sources_join_left {left : SanitizeTransformSet}
    (right : SanitizeTransformSet) (h : left.sources.isAll = true) :
    (left.join right).sources.isAll = true := by
  unfold join
  rw [SanitizeSet.isAll_join, h, Bool.true_or]

namespace SourceSinkFilter

variable {rules : List Rule} {filter : SourceSinkFilter} {rule : Rule} {source : Source}
  {sink : Sink}

/-- What `shouldKeepMatching` refuses. -/
theorem shouldKeepMatching_eq_false {matching : MatchingSanitizeTransforms}
    {transforms : TaintTransforms}
    (h : shouldKeepMatching (some matching) transforms.getSanitizeTransforms = false) :
    matching.sanitizable = true ∧ ∀ t, matching.transforms.mem t = true →
      transforms.validSanitizers.mem t = true := by
  obtain ⟨matchingTransforms, sanitizable⟩ := matching
  cases sanitizable with
  | false => cases h
  | true =>
    refine ⟨rfl, fun t ht => TaintTransforms.mem_validSanitizers ?_⟩
    exact SanitizeTransformSet.mem_of_lessOrEqual (Bool.not_inj (show _ = !true from h)) ht

/-- A rule takes only named transforms on the side of the source. -/
theorem splits_source_named (hrule : rule.IsConfigured) {b a : TaintTransforms}
    (hsplit : rule.Splits b a) : ∀ t ∈ b, t.isNamedTransform = true := by
  rcases hrule with hrule | hrule
  · exact (hrule.splits_named hsplit).1
  · rw [(hrule.splits_eq hsplit).1]
    exact fun _ ht => absurd ht List.not_mem_nil

theorem source_removed (hanswers : Answers rules filter) (hrule : rule ∈ rules)
    (hconfigured : rule.IsConfigured) (hmatches : rule.Matches source sink)
    {sanitizers : SanitizeTransformSet}
    (h : Source.kindArg.applySanitizeTransforms filter sanitizers .front source = .ok none) :
    sink.SanitizedBy (sanitizers.join source.validSanitizers) ∨ source.SanitizedBy sanitizers := by
  obtain ⟨hsplit, hsource, hsink⟩ := hmatches
  obtain ⟨matching, hlookup, hcovers⟩ := hanswers.source hrule hsplit hsource hsink
  have hparts : ∃ localPart globalPart base,
      Source.kindArg.prependSanitizeTransforms filter base
        (KindArg.getNamedTransforms localPart globalPart)
        (KindArg.getGlobalSanitizers localPart globalPart) localPart sanitizers = none ∧
      source.discardTransforms = base ∧
      source.getNonSanitizeTransforms = (localPart ++ globalPart).getNonSanitizeTransforms ∧
      source.validSanitizers = (localPart ++ globalPart).validSanitizers := by
    cases source with
    | attach => cases h
    | namedSource name =>
      exact ⟨[], [], .namedSource name, Option.map_eq_none_iff.mp (Except.ok.inj h), rfl, rfl,
        rfl⟩
    | parametricSource name subkind =>
      exact ⟨[], [], .parametricSource name subkind,
        Option.map_eq_none_iff.mp (Except.ok.inj h), rfl, rfl, rfl⟩
    | transform localPart globalPart base =>
      exact ⟨localPart, globalPart, base, Option.map_eq_none_iff.mp (Except.ok.inj h), rfl, rfl,
        rfl⟩
  obtain ⟨localPart, globalPart, base, hprepend, rfl, htransforms, hvalid⟩ := hparts
  have hkey : KindArg.getNamedTransforms localPart globalPart =
      source.getNonSanitizeTransforms := by
    have hself : source.getNonSanitizeTransforms.getNamedTransforms =
        source.getNonSanitizeTransforms :=
      List.filter_eq_self.mpr (splits_source_named hconfigured hsplit)
    rw [← hself, htransforms, TaintTransforms.getNamedTransforms_getNonSanitizeTransforms,
      TaintTransforms.getNamedTransforms_append]
    rfl
  rcases KindArg.removed_cases rfl hprepend with hall | hall | hbase | hrecord
  · exact Or.inr (Or.inl hall)
  · exact Or.inl (Or.inl (SanitizeTransformSet.isAll_join_left _ hall))
  · exact Or.inr (Or.inr hbase)
  · rw [hkey] at hrecord
    rw [hvalid]
    exact Or.inl (Sink.sanitizedBy_of_covers hcovers (hrecord matching hlookup))

theorem sink_removed (hanswers : Answers rules filter) (hrule : rule ∈ rules)
    (hmatches : rule.Matches source sink) (htito : sink.isTito = false)
    {sanitizers : SanitizeTransformSet}
    (h : Sink.kindArg.applySanitizeTransforms filter sanitizers .front sink = .ok none) :
    source.SanitizedBy (sanitizers.join sink.validSanitizers) ∨ sink.SanitizedBy sanitizers := by
  obtain ⟨hsplit, hsource, hsink⟩ := hmatches
  obtain ⟨matching, hlookup, hcovers⟩ := hanswers.sink hrule hsplit hsource hsink _ (Or.inr rfl)
  have hparts : ∃ localPart globalPart base,
      Sink.kindArg.prependSanitizeTransforms filter base
        (KindArg.getNamedTransforms localPart globalPart)
        (KindArg.getGlobalSanitizers localPart globalPart) localPart sanitizers = none ∧
      sink.discardTransforms = base ∧ base.isTito = false ∧
      sink.getNonSanitizeTransforms = (localPart ++ globalPart).getNonSanitizeTransforms ∧
      sink.validSanitizers = (localPart ++ globalPart).validSanitizers := by
    have hbase : Sink.kindArg.deconstruct sink = .base sink → ∃ localPart globalPart base,
        Sink.kindArg.prependSanitizeTransforms filter base
          (KindArg.getNamedTransforms localPart globalPart)
          (KindArg.getGlobalSanitizers localPart globalPart) localPart sanitizers = none ∧
        sink.discardTransforms = base ∧ base.isTito = false ∧
        sink.getNonSanitizeTransforms = (localPart ++ globalPart).getNonSanitizeTransforms ∧
        sink.validSanitizers = (localPart ++ globalPart).validSanitizers := by
      intro hbase
      rw [KindArg.applySanitizeTransforms, hbase] at h
      refine ⟨[], [], sink, Option.map_eq_none_iff.mp (Except.ok.inj h), ?_, htito, ?_, ?_⟩ <;>
        cases sink <;> first | rfl | cases hbase
    cases sink with
    | attach => cases h
    | addFeatureToArgument => cases h
    | transform localPart globalPart base =>
      exact ⟨localPart, globalPart, base, Option.map_eq_none_iff.mp (Except.ok.inj h), rfl,
        htito, rfl, rfl⟩
    | partialSink _ => exact hbase rfl
    | localReturn => exact hbase rfl
    | namedSink _ => exact hbase rfl
    | parametricSink _ _ => exact hbase rfl
    | parameterUpdate _ => exact hbase rfl
    | extraTraceSink => exact hbase rfl
  obtain ⟨localPart, globalPart, base, hprepend, rfl, hbase, htransforms, hvalid⟩ := hparts
  have hkey : KindArg.getNamedTransforms localPart globalPart =
      sink.getNonSanitizeTransforms.getNamedTransforms := by
    rw [htransforms, TaintTransforms.getNamedTransforms_getNonSanitizeTransforms,
      TaintTransforms.getNamedTransforms_append]
    rfl
  rcases KindArg.removed_cases hbase hprepend with hall | hall | hcase | hrecord
  · exact Or.inl (Or.inl (SanitizeTransformSet.isAll_sources_join_left _ hall))
  · exact Or.inr (Or.inl hall)
  · exact Or.inr (Or.inr hcase)
  · rw [hkey] at hrecord
    rw [hvalid]
    exact Or.inl (Source.sanitizedBy_of_covers hcovers (hrecord matching hlookup))

theorem source_not_kept (hanswers : Answers rules filter) (hrule : rule ∈ rules)
    (hmatches : rule.Matches source sink) (h : filter.shouldKeepSource source = false) :
    sink.SanitizedBy source.validSanitizers := by
  obtain ⟨hsplit, hsource, hsink⟩ := hmatches
  obtain ⟨matching, hlookup, hcovers⟩ := hanswers.source hrule hsplit hsource hsink
  cases source with
  | attach => cases h
  | namedSource name =>
    have hsome : (filter.findMatchingSinkSanitizeTransforms [] (.namedSource name)) =
        some matching := hlookup
    rw [shouldKeepSource, hsome] at h
    cases h
  | parametricSource name subkind =>
    have hsome : (filter.findMatchingSinkSanitizeTransforms [] (.parametricSource name subkind)) =
        some matching := hlookup
    rw [shouldKeepSource, hsome] at h
    cases h
  | transform localPart globalPart base =>
    have hsome : (filter.findMatchingSinkSanitizeTransforms
        (TaintTransforms.merge localPart globalPart).getNonSanitizeTransforms base) =
        some matching := hlookup
    rw [shouldKeepSource, hsome] at h
    exact Sink.sanitizedBy_of_covers hcovers (shouldKeepMatching_eq_false h)

theorem sink_not_kept (hanswers : Answers rules filter) (hrule : rule ∈ rules)
    (hmatches : rule.Matches source sink) (htito : sink.isTito = false)
    (h : filter.shouldKeepSink sink = false) : source.SanitizedBy sink.validSanitizers := by
  obtain ⟨hsplit, hsource, hsink⟩ := hmatches
  obtain ⟨matching, hlookup, hcovers⟩ := hanswers.sink hrule hsplit hsource hsink _ (Or.inl rfl)
  have hbase : filter.findMatchingSourceSanitizeTransforms sink.getNonSanitizeTransforms
      sink.discardTransforms = some matching := hlookup
  cases sink with
  | attach => cases h
  | addFeatureToArgument => cases h
  | localReturn => cases h
  | parameterUpdate _ => cases h
  | namedSink name =>
    rw [shouldKeepSink, show filter.findMatchingSourceSanitizeTransforms [] (.namedSink name) =
      some matching from hbase] at h
    cases h
  | parametricSink name subkind =>
    rw [shouldKeepSink, show filter.findMatchingSourceSanitizeTransforms []
      (.parametricSink name subkind) = some matching from hbase] at h
    cases h
  | partialSink name =>
    rw [shouldKeepSink, show filter.findMatchingSourceSanitizeTransforms [] (.partialSink name) =
      some matching from hbase] at h
    cases h
  | extraTraceSink =>
    rw [shouldKeepSink, show filter.findMatchingSourceSanitizeTransforms [] .extraTraceSink =
      some matching from hbase] at h
    cases h
  | transform localPart globalPart base =>
    have hrecord : shouldKeepMatching (some matching)
        (TaintTransforms.merge localPart globalPart).getSanitizeTransforms = false := by
      have hsome : filter.findMatchingSourceSanitizeTransforms
          (TaintTransforms.merge localPart globalPart).getNonSanitizeTransforms base =
          some matching := hbase
      rw [← hsome]
      cases base with
      | localReturn => cases htito
      | parameterUpdate _ => cases htito
      | attach => exact h
      | partialSink _ => exact h
      | namedSink _ => exact h
      | parametricSink _ _ => exact h
      | addFeatureToArgument => exact h
      | extraTraceSink => exact h
      | transform _ _ _ => exact h
    exact Source.sanitizedBy_of_covers hcovers (shouldKeepMatching_eq_false hrecord)

end SourceSinkFilter

/-- **A dropped taint never loses an issue.** Sanitizers are applied to a source, or the filter is
    asked whether to keep it. If it is dropped, then for each rule, and each sink with which the
    rule could report it, the base of the sink is sanitized by the sanitizers of the source that
    still count, or the source is sanitized itself. The same holds of the sinks that are not tito. -/
theorem sanitized_of_removed {rules : List Rule} (hrules : ∀ rule ∈ rules, rule.IsConfigured)
    {options : SourceSinkFilter.Options} {filter : SourceSinkFilter}
    (hcreate : SourceSinkFilter.create rules options = .ok filter) {rule : Rule}
    (hrule : rule ∈ SourceSinkFilter.filterRules options rules) {source : Source} {sink : Sink}
    (hmatches : rule.Matches source sink) :
    ((∀ sanitizers,
        Source.kindArg.applySanitizeTransforms filter sanitizers .front source = .ok none →
        sink.SanitizedBy (sanitizers.join source.validSanitizers) ∨
          source.SanitizedBy sanitizers) ∧
      (filter.shouldKeepSource source = false → sink.SanitizedBy source.validSanitizers)) ∧
    (sink.isTito = false →
      (∀ sanitizers,
        Sink.kindArg.applySanitizeTransforms filter sanitizers .front sink = .ok none →
        source.SanitizedBy (sanitizers.join sink.validSanitizers) ∨
          sink.SanitizedBy sanitizers) ∧
      (filter.shouldKeepSink sink = false → source.SanitizedBy sink.validSanitizers)) := by
  have hanswers := SourceSinkFilter.create_answers hrules hcreate
  have hconfigured := SourceSinkFilter.filterRules_configured options hrules rule hrule
  refine ⟨⟨fun sanitizers h => ?_, fun h => ?_⟩, fun htito => ⟨fun sanitizers h => ?_, fun h => ?_⟩⟩
  · exact SourceSinkFilter.source_removed hanswers hrule hconfigured hmatches h
  · exact SourceSinkFilter.source_not_kept hanswers hrule hmatches h
  · exact SourceSinkFilter.sink_removed hanswers hrule hmatches htito h
  · exact SourceSinkFilter.sink_not_kept hanswers hrule hmatches htito h

/-- A flow that is reported without transforms. -/
def directFlow : Rule := ⟨[.namedSource "A"], [.namedSink "B"], [], 1⟩

/-- The source is dropped once its only sink is sanitized. -/
theorem sanitized_of_removed_directFlow :
    ∃ filter, SourceSinkFilter.create [directFlow] {} = .ok filter ∧
      Source.kindArg.applySanitizeTransforms filter ⟨.empty, .specific {.named "B"}⟩ .front
        (.namedSource "A") = .ok none ∧
      (Sink.SanitizedBy (.namedSink "B")
          (SanitizeTransformSet.join ⟨.empty, .specific {.named "B"}⟩
            (Source.validSanitizers (.namedSource "A"))) ∨
        Source.SanitizedBy (.namedSource "A") ⟨.empty, .specific {.named "B"}⟩) := by
  have hrules : ∀ rule ∈ [directFlow], rule.IsConfigured := by
    intro rule hrule
    obtain rfl := List.mem_singleton.mp hrule
    exact Or.inl ⟨by simp [directFlow], by simp [directFlow], by decide⟩
  obtain ⟨filter, hcreate, hremoved⟩ : ∃ filter,
      SourceSinkFilter.create [directFlow] {} = .ok filter ∧
      Source.kindArg.applySanitizeTransforms filter ⟨.empty, .specific {.named "B"}⟩ .front
        (.namedSource "A") = .ok none := ⟨_, rfl, by decide⟩
  have hmatches : directFlow.Matches (.namedSource "A") (.namedSink "B") :=
    ⟨⟨[([], [])], rfl, List.mem_singleton_self _⟩, List.mem_singleton_self _,
      List.mem_singleton_self _⟩
  have hrule : directFlow ∈ SourceSinkFilter.filterRules {} [directFlow] :=
    List.mem_singleton_self _
  exact ⟨filter, hcreate, hremoved,
    (sanitized_of_removed hrules hcreate hrule hmatches).1.1 _ hremoved⟩

end Pysa.Taint
