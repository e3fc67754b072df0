/-
  Subject: WHAT THE FILTER OF A CONFIGURATION ANSWERS.

  * `Rule.IsNamed` -- the rules of a configuration: named sources, sinks and transforms;
  * `Rule.transformSplits_spec` -- a rule is split at every place;
  * `matchingKindsFromRules_spec` -- the keys of the maps are the kinds of all splits;
  * `FilterOf`, `create_spec` -- the filter of such rules exists; a source may carry the reversed
    beginning of a rule, a sink its end, tito and subtraces any part.
-/
import Pysa.Taint.SourceSinkFilter

namespace Pysa.Taint

/-! ## 1. The splits of a rule -/

/-- A rule of the configuration. The parser gives sources and sinks without a subkind. -/
structure Rule.IsNamed (rule : Rule) : Prop where
  sources : ∀ source ∈ rule.sources, ∃ name, source = .namedSource name
  sinks : ∀ sink ∈ rule.sinks, ∃ name, sink = .namedSink name
  transforms : ∀ transform ∈ rule.transforms, transform.isNamedTransform = true

theorem Rule.split_spec (result : List (TaintTransforms × TaintTransforms))
    (before : TaintTransforms) {after : TaintTransforms}
    (hafter : ∀ transform ∈ after, transform.isNamedTransform = true) :
    ∃ splits, split result before after = .ok splits ∧ ∀ b a, (b, a) ∈ splits ↔
      (b, a) ∈ result ∨ ∃ c, b = c.reverse ++ before ∧ c ++ a = after := by
  induction after generalizing result before with
  | nil =>
    refine ⟨_, rfl, fun b a => ?_⟩
    rw [List.mem_cons, Prod.mk.injEq, or_comm]
    refine or_congr_right ⟨?_, ?_⟩
    · rintro ⟨rfl, rfl⟩
      exact ⟨[], rfl, rfl⟩
    · rintro ⟨c, rfl, hc⟩
      obtain ⟨rfl, rfl⟩ := List.append_eq_nil_iff.mp hc
      exact ⟨rfl, rfl⟩
  | cons next after ih =>
    cases next with
    | sanitize _ => exact absurd (hafter _ List.mem_cons_self) Bool.false_ne_true
    | triggeredPartialSink _ => exact absurd (hafter _ List.mem_cons_self) Bool.false_ne_true
    | named name =>
      obtain ⟨splits, hsplits, hmem⟩ := ih ((before, .named name :: after) :: result)
        (.named name :: before) fun t ht => hafter t (List.mem_cons_of_mem _ ht)
      refine ⟨splits, hsplits, fun b a => ?_⟩
      rw [hmem, List.mem_cons, Prod.mk.injEq]
      constructor
      · rintro ((⟨rfl, rfl⟩ | h) | ⟨c, rfl, rfl⟩)
        · exact Or.inr ⟨[], rfl, rfl⟩
        · exact Or.inl h
        · exact Or.inr ⟨.named name :: c, by simp, rfl⟩
      · rintro (h | ⟨c, rfl, hc⟩)
        · exact Or.inl (Or.inr h)
        · cases c with
          | nil => exact Or.inl (Or.inl ⟨rfl, hc⟩)
          | cons t c =>
            obtain ⟨rfl, rfl⟩ := List.cons.inj hc
            exact Or.inr ⟨c, by simp, rfl⟩

/-- A rule is split at every place, the part of the source reversed. -/
theorem Rule.transformSplits_spec {rule : Rule} (h : rule.IsNamed) :
    ∃ splits, transformSplits rule.transforms = .ok splits ∧ ∀ b a, (b, a) ∈ splits ↔
      b.reverse ++ a = rule.transforms := by
  obtain ⟨splits, hsplits, hmem⟩ := split_spec [] [] h.transforms
  refine ⟨splits, hsplits, fun b a => ?_⟩
  rw [hmem]
  constructor
  · rintro (h | ⟨c, rfl, hc⟩)
    · cases h
    · rw [List.append_nil, List.reverse_reverse]
      exact hc
  · exact fun h => Or.inr ⟨b.reverse, by simp, h⟩

/-! ## 2. The matching kinds of the rules -/

/-- The source kinds of the splits of a rule. -/
def Rule.HasSource (rule : Rule) (source : Source) : Prop :=
  ∃ b a : TaintTransforms, b.reverse ++ a = rule.transforms ∧
    ∃ base ∈ rule.sources, Source.makeTransform [] b base = source

def Rule.HasSink (rule : Rule) (sink : Sink) : Prop :=
  ∃ b a : TaintTransforms, b.reverse ++ a = rule.transforms ∧
    ∃ base ∈ rule.sinks, Sink.makeTransform [] a base = sink

@[simp] theorem Source.makeTransform_cons (t : TaintTransform) (b : TaintTransforms)
    (base : Source) : makeTransform [] (t :: b) base = .transform [] (t :: b) base := rfl

@[simp] theorem Sink.makeTransform_cons (t : TaintTransform) (a : TaintTransforms)
    (base : Sink) : makeTransform [] (t :: a) base = .transform [] (t :: a) base := rfl

theorem Rule.IsNamed.hasSource_iff {rule : Rule} (h : rule.IsNamed) {named : TaintTransforms}
    (hne : named ≠ []) {base : Source} :
    rule.HasSource (Source.makeTransform [] named base) ↔
      base ∈ rule.sources ∧ named.reverse <+: rule.transforms := by
  obtain ⟨t, named, rfl⟩ := List.exists_cons_of_ne_nil hne
  rw [Source.makeTransform_cons]
  constructor
  · rintro ⟨b, a, hsplit, base', hbase', heq⟩
    cases b with
    | nil =>
      obtain ⟨name, rfl⟩ := h.sources base' hbase'
      cases heq
    | cons t' b =>
      cases heq
      exact ⟨hbase', a, hsplit⟩
  · rintro ⟨hbase, a, ha⟩
    exact ⟨t :: named, a, ha, base, hbase, rfl⟩

theorem Rule.IsNamed.hasSink_iff {rule : Rule} (h : rule.IsNamed) {named : TaintTransforms}
    (hne : named ≠ []) {base : Sink} :
    rule.HasSink (Sink.makeTransform [] named base) ↔
      base ∈ rule.sinks ∧ named <:+ rule.transforms := by
  obtain ⟨t, named, rfl⟩ := List.exists_cons_of_ne_nil hne
  rw [Sink.makeTransform_cons]
  constructor
  · rintro ⟨b, a, hsplit, base', hbase', heq⟩
    cases a with
    | nil =>
      obtain ⟨name, rfl⟩ := h.sinks base' hbase'
      cases heq
    | cons t' a =>
      cases heq
      exact ⟨hbase', b.reverse, hsplit⟩
  · rintro ⟨hbase, b, hb⟩
    exact ⟨b.reverse, t :: named, by rwa [List.reverse_reverse], base, hbase, rfl⟩

namespace SourceSinkFilter

/-- The values of the maps are kinds that sanitizers can be computed for. -/
structure MatchingKinds.Valid (kinds : MatchingKinds) : Prop where
  sources : AssocMap.AllValues
    (∀ source ∈ ·, ∃ b name, source = Source.makeTransform [] b (.namedSource name)) kinds.1
  sinks : AssocMap.AllValues
    (∀ sink ∈ ·, ∃ a name, sink = Sink.makeTransform [] a (.namedSink name)) kinds.2

theorem addSplit_eq (rule : Rule) (sofar : MatchingKinds) (b a : TaintTransforms) :
    addSplit rule sofar (b, a) = addSourcesSinks sofar
      (rule.sources.map (Source.makeTransform [] b)) (rule.sinks.map (Sink.makeTransform [] a)) := by
  have hsources : rule.sources.map (Source.makeTransform [] []) = rule.sources := List.map_id _
  have hsinks : rule.sinks.map (Sink.makeTransform [] []) = rule.sinks := List.map_id _
  cases b <;> cases a <;> simp [addSplit, hsources, hsinks]

theorem mem_addSourcesSinks {sofar : MatchingKinds} {sources : List Source} {sinks : List Sink} :
    (∀ source, source ∈ (addSourcesSinks sofar sources sinks).2 ↔
      source ∈ sources ∨ source ∈ sofar.2) ∧
    ∀ sink, sink ∈ (addSourcesSinks sofar sources sinks).1 ↔ sink ∈ sinks ∨ sink ∈ sofar.1 :=
  ⟨fun _ => AssocMap.mem_foldl_update, fun _ => AssocMap.mem_foldl_update⟩

theorem mem_foldl_addSplit {rule : Rule} {splits : List (TaintTransforms × TaintTransforms)}
    (sofar : MatchingKinds) :
    (∀ source, source ∈ (splits.foldl (addSplit rule) sofar).2 ↔
      (∃ split ∈ splits, ∃ base ∈ rule.sources, Source.makeTransform [] split.1 base = source) ∨
        source ∈ sofar.2) ∧
    ∀ sink, sink ∈ (splits.foldl (addSplit rule) sofar).1 ↔
      (∃ split ∈ splits, ∃ base ∈ rule.sinks, Sink.makeTransform [] split.2 base = sink) ∨
        sink ∈ sofar.1 := by
  induction splits generalizing sofar with
  | nil => simp
  | cons split rest ih =>
    obtain ⟨b, a⟩ := split
    obtain ⟨hsource, hsink⟩ := ih (addSplit rule sofar (b, a))
    rw [List.foldl_cons]
    constructor
    · intro source
      rw [hsource, addSplit_eq, mem_addSourcesSinks.1, List.mem_map, List.exists_mem_cons_iff,
        or_assoc, or_left_comm]
    · intro sink
      rw [hsink, addSplit_eq, mem_addSourcesSinks.2, List.mem_map, List.exists_mem_cons_iff,
        or_assoc, or_left_comm]

theorem valid_addSplit {rule : Rule} (h : rule.IsNamed) {sofar : MatchingKinds}
    (hsofar : sofar.Valid) (b a : TaintTransforms) : (addSplit rule sofar (b, a)).Valid := by
  rw [addSplit_eq]
  constructor
  · refine hsofar.sources.foldl_update ?_ fun value hvalue => ?_
    all_goals
      have hnew : ∀ source ∈ rule.sources.map (Source.makeTransform [] b),
          ∃ b name, source = Source.makeTransform [] b (.namedSource name) := by
        intro source hsource
        obtain ⟨base, hbase, rfl⟩ := List.mem_map.mp hsource
        obtain ⟨name, rfl⟩ := h.sources base hbase
        exact ⟨b, name, rfl⟩
    · exact hnew
    · intro source hsource
      exact (List.mem_union_iff.mp hsource).elim (hvalue source) (hnew source)
  · refine hsofar.sinks.foldl_update ?_ fun value hvalue => ?_
    all_goals
      have hnew : ∀ sink ∈ rule.sinks.map (Sink.makeTransform [] a),
          ∃ a name, sink = Sink.makeTransform [] a (.namedSink name) := by
        intro sink hsink
        obtain ⟨base, hbase, rfl⟩ := List.mem_map.mp hsink
        obtain ⟨name, rfl⟩ := h.sinks base hbase
        exact ⟨a, name, rfl⟩
    · exact hnew
    · intro sink hsink
      exact (List.mem_union_iff.mp hsink).elim (hvalue sink) (hnew sink)

theorem addRule_spec {rule : Rule} (h : rule.IsNamed) {sofar : MatchingKinds}
    (hsofar : sofar.Valid) :
    ∃ kinds, addRule sofar rule = .ok kinds ∧ kinds.Valid ∧
      (∀ source, source ∈ kinds.2 ↔ rule.HasSource source ∨ source ∈ sofar.2) ∧
      ∀ sink, sink ∈ kinds.1 ↔ rule.HasSink sink ∨ sink ∈ sofar.1 := by
  obtain ⟨splits, hsplits, hmem⟩ := Rule.transformSplits_spec h
  have hcombined : addCombinedSourceRule sofar rule = sofar := by
    unfold addCombinedSourceRule
    split
    · rename_i heq
      have hnamed := h.transforms (.triggeredPartialSink _) (heq ▸ List.mem_cons_self)
      exact absurd hnamed Bool.false_ne_true
    · rfl
  refine ⟨splits.foldl (addSplit rule) sofar, ?_, ?_, fun source => ?_, fun sink => ?_⟩
  · rw [addRule, hsplits, hcombined]
    rfl
  · clear hmem hsplits hcombined
    induction splits generalizing sofar with
    | nil => exact hsofar
    | cons split rest ih => exact ih (valid_addSplit h hsofar split.1 split.2)
  · rw [(mem_foldl_addSplit sofar).1]
    simp only [Prod.exists, hmem]
    rfl
  · rw [(mem_foldl_addSplit sofar).2]
    simp only [Prod.exists, hmem]
    rfl

theorem matchingKindsFromRules_spec {rules : List Rule} (h : ∀ rule ∈ rules, rule.IsNamed) :
    ∃ kinds, matchingKindsFromRules rules = .ok kinds ∧ kinds.Valid ∧
      (∀ source, source ∈ kinds.2 ↔ ∃ rule ∈ rules, rule.HasSource source) ∧
      ∀ sink, sink ∈ kinds.1 ↔ ∃ rule ∈ rules, rule.HasSink sink := by
  have hfold : ∀ sofar : MatchingKinds, sofar.Valid →
      ∃ kinds, rules.foldlM addRule sofar = .ok kinds ∧ kinds.Valid ∧
        (∀ source, source ∈ kinds.2 ↔
          (∃ rule ∈ rules, rule.HasSource source) ∨ source ∈ sofar.2) ∧
        ∀ sink, sink ∈ kinds.1 ↔ (∃ rule ∈ rules, rule.HasSink sink) ∨ sink ∈ sofar.1 := by
    induction rules with
    | nil => exact fun sofar hsofar => ⟨sofar, rfl, hsofar, by simp, by simp⟩
    | cons rule rest ih =>
      intro sofar hsofar
      obtain ⟨next, hnext, hvalid, hsource, hsink⟩ := addRule_spec (h rule List.mem_cons_self)
        hsofar
      obtain ⟨kinds, hkinds, hvalid, hsource', hsink'⟩ :=
        ih (fun rule hrule => h rule (List.mem_cons_of_mem _ hrule)) next hvalid
      refine ⟨kinds, ?_, hvalid, fun source => ?_, fun sink => ?_⟩
      · rw [List.foldlM_cons, hnext]
        exact hkinds
      · rw [hsource', hsource, List.exists_mem_cons_iff, or_assoc, or_left_comm]
      · rw [hsink', hsink, List.exists_mem_cons_iff, or_assoc, or_left_comm]
  obtain ⟨kinds, hkinds, hvalid, hsource, hsink⟩ :=
    hfold (∅, ∅) ⟨fun _ h => absurd h List.not_mem_nil, fun _ h => absurd h List.not_mem_nil⟩
  exact ⟨kinds, hkinds, hvalid, fun source => by simpa using hsource source,
    fun sink => by simpa using hsink sink⟩

/-! ## 3. What the filter answers -/

/-- The options drop rules, sources and sinks, and change nothing else. -/
theorem filterRules_preserves {P : Rule → Prop} (options : Options) {rules : List Rule}
    (hsources : ∀ (rule : Rule) keep, P rule →
      P { rule with sources := rule.sources.filter keep })
    (hsinks : ∀ (rule : Rule) keep, rule.sinks.filter keep ≠ [] → P rule →
      P { rule with sinks := rule.sinks.filter keep })
    (h : ∀ rule ∈ rules, P rule) : ∀ rule ∈ filterRules options rules, P rule := by
  have hcode : ∀ rule ∈ filterRules.byCode options.ruleCodes rules, P rule := by
    unfold filterRules.byCode
    split
    · exact fun rule hrule => h rule (List.mem_of_mem_filter hrule)
    · exact h
  have hsource : ∀ rule ∈ filterRules.bySource options.sources
      (filterRules.byCode options.ruleCodes rules), P rule := by
    unfold filterRules.bySource
    split
    · intro rule hrule
      obtain ⟨rule', hrule', heq⟩ := List.mem_filterMap.mp hrule
      dsimp only at heq
      split at heq
      · cases heq
        exact hsources rule' _ (hcode rule' hrule')
      · cases heq
    · exact hcode
  have hsink : ∀ rule ∈ filterRules.bySink options.sinks (filterRules.bySource options.sources
      (filterRules.byCode options.ruleCodes rules)), P rule := by
    unfold filterRules.bySink
    split
    · intro rule hrule
      obtain ⟨rule', hrule', heq⟩ := List.mem_filterMap.mp hrule
      dsimp only at heq
      split at heq
      · rename_i hne
        cases heq
        refine hsinks rule' _ (fun hnil => ?_) (hsource rule' hrule')
        rw [hnil] at hne
        cases hne
      · cases heq
    · exact hsource
  unfold filterRules filterRules.byTransform
  split
  · exact fun rule hrule => hsink rule (List.mem_of_mem_filter hrule)
  · exact hsink

theorem filterRules_named (options : Options) {rules : List Rule}
    (h : ∀ rule ∈ rules, rule.IsNamed) : ∀ rule ∈ filterRules options rules, rule.IsNamed := by
  refine filterRules_preserves options ?_ ?_ h
  · intro rule keep hrule
    exact ⟨fun source hsource => hrule.sources source (List.mem_of_mem_filter hsource),
      hrule.sinks, hrule.transforms⟩
  · intro rule keep _ hrule
    exact ⟨hrule.sources, fun sink hsink => hrule.sinks sink (List.mem_of_mem_filter hsink),
      hrule.transforms⟩

theorem fromSources_isOk {sources : List Source} (h : ∀ source ∈ sources, ∃ b name,
      source = Source.makeTransform [] b (.namedSource name)) :
    ∃ matching, MatchingSanitizeTransforms.fromSources sources = .ok matching := by
  unfold MatchingSanitizeTransforms.fromSources
  generalize MatchingSanitizeTransforms.empty = sofar
  induction sources generalizing sofar with
  | nil => exact ⟨sofar, rfl⟩
  | cons source rest ih =>
    have hstep : ∃ next, MatchingSanitizeTransforms.addSource sofar source = .ok next := by
      obtain ⟨b, name, rfl⟩ := h source List.mem_cons_self
      cases b with
      | nil => exact ⟨_, rfl⟩
      | cons t b =>
        rw [Source.makeTransform_cons, MatchingSanitizeTransforms.addSource]
        split <;> exact ⟨_, rfl⟩
    obtain ⟨next, hnext⟩ := hstep
    rw [List.foldlM_cons, hnext]
    exact ih (fun source hsource => h source (List.mem_cons_of_mem _ hsource)) next

theorem fromSinks_isOk {sinks : List Sink} (h : ∀ sink ∈ sinks, ∃ a name,
      sink = Sink.makeTransform [] a (.namedSink name)) :
    ∃ matching, MatchingSanitizeTransforms.fromSinks sinks = .ok matching := by
  unfold MatchingSanitizeTransforms.fromSinks
  generalize MatchingSanitizeTransforms.empty = sofar
  induction sinks generalizing sofar with
  | nil => exact ⟨sofar, rfl⟩
  | cons sink rest ih =>
    have hstep : ∃ next, MatchingSanitizeTransforms.addSink sofar sink = .ok next := by
      obtain ⟨a, name, rfl⟩ := h sink List.mem_cons_self
      cases a with
      | nil => exact ⟨_, rfl⟩
      | cons t a =>
        rw [Sink.makeTransform_cons, MatchingSanitizeTransforms.addSink]
        split <;> exact ⟨_, rfl⟩
    obtain ⟨next, hnext⟩ := hstep
    rw [List.foldlM_cons, hnext]
    exact ih (fun sink hsink => h sink (List.mem_cons_of_mem _ hsink)) next

theorem mem_substrings {α : Type} {part l : List α} : part ∈ substrings l ↔ part <:+: l := by
  simp only [substrings, prefixes, suffixes, List.mem_flatMap, List.mem_map, List.mem_tails]
  rw [List.infix_iff_suffix_prefix]
  constructor
  · rintro ⟨t, ⟨s, hs, rfl⟩, ht⟩
    exact ⟨s.reverse, ht, List.reverse_suffix.mp (by rwa [List.reverse_reverse])⟩
  · rintro ⟨t, ht, hp⟩
    exact ⟨t, ⟨t.reverse, List.reverse_suffix.mpr hp, List.reverse_reverse t⟩, ht⟩

theorem mem_possibleTitoTransforms {rules : List Rule} (h : ∀ rule ∈ rules, rule.IsNamed)
    {part : TaintTransforms} :
    part ∈ possibleTitoTransformsFromRules rules ↔ ∃ rule ∈ rules, part <:+: rule.transforms := by
  have hnamed : ∀ rule ∈ rules, ∀ part, part <:+: rule.transforms →
      TaintTransforms.getNamedTransforms part = part := fun rule hrule part hpart =>
    List.filter_eq_self.mpr fun t ht => (h rule hrule).transforms t (hpart.subset ht)
  simp only [possibleTitoTransformsFromRules, List.mem_map, List.mem_flatMap, mem_substrings]
  constructor
  · rintro ⟨part', ⟨rule, hrule, hpart⟩, rfl⟩
    rw [hnamed rule hrule part' hpart]
    exact ⟨rule, hrule, hpart⟩
  · rintro ⟨rule, hrule, hpart⟩
    exact ⟨part, ⟨rule, hrule, hpart⟩, hnamed rule hrule part hpart⟩

theorem addExtraTraceSinks_eq (possible : List TaintTransforms)
    (matching : AssocMap Sink MatchingSanitizeTransforms) :
    addExtraTraceSinks possible matching =
      (possible.map fun part => Sink.makeTransform [] part .extraTraceSink).foldl
        (fun sofar sink => AssocMap.update sink (fun _ => .unsanitizable) sofar) matching := by
  rw [List.foldl_map]
  rfl

theorem mem_addExtraTraceSinks {possible : List TaintTransforms}
    {matching : AssocMap Sink MatchingSanitizeTransforms} {sink : Sink} :
    sink ∈ addExtraTraceSinks possible matching ↔
      (∃ part ∈ possible, Sink.makeTransform [] part .extraTraceSink = sink) ∨
        sink ∈ matching := by
  rw [addExtraTraceSinks_eq, AssocMap.mem_foldl_update, List.mem_map]

/-- What the filter of the rules answers for a kind with named transforms. -/
structure FilterOf (rules : List Rule) (filter : SourceSinkFilter) : Prop where
  source {named : TaintTransforms} {base : Source} : named ≠ [] →
    ((filter.findMatchingSinkSanitizeTransforms named base).isSome = true ↔
      ∃ rule ∈ rules, base.discardSubkind ∈ rule.sources ∧ named.reverse <+: rule.transforms)
  sink {named : TaintTransforms} {base : Sink} : named ≠ [] →
    ((filter.findMatchingSourceSanitizeTransforms named base).isSome = true ↔
      (∃ rule ∈ rules, base.discardSubkind ∈ rule.sinks ∧ named <:+ rule.transforms) ∨
        base = .extraTraceSink ∧ ∃ rule ∈ rules, named <:+: rule.transforms)
  tito {named : TaintTransforms} : named ∈ filter.possibleTitoTransforms ↔
    ∃ rule ∈ rules, named <:+: rule.transforms

theorem create_spec {rules : List Rule} (h : ∀ rule ∈ rules, rule.IsNamed) (options : Options) :
    ∃ filter, create rules options = .ok filter ∧ FilterOf (filterRules options rules) filter := by
  have hrules := filterRules_named options h
  obtain ⟨kinds, hkinds, hvalid, hsource, hsink⟩ := matchingKindsFromRules_spec hrules
  obtain ⟨sourceTransforms, hsources⟩ := AssocMap.mapM_isOk fun entry hentry =>
    fromSources_isOk (hvalid.sources entry hentry)
  obtain ⟨sinkTransforms, hsinks⟩ := AssocMap.mapM_isOk fun entry hentry =>
    fromSinks_isOk (hvalid.sinks entry hentry)
  refine ⟨_, by rw [create, hkinds]; simp only [bind, Except.bind, hsources, hsinks]; rfl, ?_⟩
  constructor
  case source =>
    intro named base hne
    rw [findMatchingSinkSanitizeTransforms, AList.lookup_isSome, AssocMap.mem_mapM hsinks, hsource]
    refine exists_congr fun rule => and_congr_right fun hrule => ?_
    exact (hrules rule hrule).hasSource_iff hne
  case sink =>
    intro named base hne
    rw [findMatchingSourceSanitizeTransforms, AList.lookup_isSome, mem_addExtraTraceSinks,
      AssocMap.mem_mapM hsources, hsink, or_comm]
    refine or_congr (exists_congr fun rule => and_congr_right fun hrule =>
      (hrules rule hrule).hasSink_iff hne) ?_
    obtain ⟨t, named, rfl⟩ := List.exists_cons_of_ne_nil hne
    rw [Sink.makeTransform_cons]
    constructor
    · rintro ⟨part, hpart, heq⟩
      cases part with
      | nil => cases heq
      | cons t' part =>
        cases base <;> cases heq
        exact ⟨rfl, (mem_possibleTitoTransforms hrules).mp hpart⟩
    · rintro ⟨rfl, hpart⟩
      exact ⟨t :: named, (mem_possibleTitoTransforms hrules).mpr hpart, rfl⟩
  case tito =>
    intro named
    exact mem_possibleTitoTransforms hrules

end SourceSinkFilter

end Pysa.Taint
