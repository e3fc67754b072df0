/-
  Subject: RULES, and the filter that knows which kinds can match one (`rule.ml`,
    `sourceSinkFilter.ml`).

  * `transformSplits` -- where a rule may be cut into a source and a sink kind;
  * `matchingKindsFromRules`, `possibleTitoTransformsFromRules` -- the kinds of all cuts of all
    rules;
  * `create` -- the filter, from the rules that the command line leaves;
  * `shouldKeepSource`, `shouldKeepSink` -- whether a kind can match a rule.

  `failwith` is an error of `Except`.
-/
import Pysa.Lib.AssocMap
import Pysa.Taint.Kinds

namespace Pysa.Taint

/-! ## 1. Rules -/

structure Rule where
  sources : List Source
  sinks : List Sink
  transforms : TaintTransforms
  code : Int

namespace Rule

/-- The splits found so far stand in `result`, the last one first; the transforms of `before` are
    reversed, as a source collects them. -/
def split (result : List (TaintTransforms × TaintTransforms)) (before : TaintTransforms) :
    TaintTransforms → Except String (List (TaintTransforms × TaintTransforms))
  | [] => .ok ((before, []) :: result)
  | next :: after =>
    let result := (before, next :: after) :: result
    match next with
    | .named _ => split result (next :: before) after
    | .sanitize _ => .error "Sanitize transforms shouldn't appear in rules"
    | .triggeredPartialSink _ => .ok result

def transformSplits (transforms : TaintTransforms) :
    Except String (List (TaintTransforms × TaintTransforms)) :=
  split [] [] transforms

end Rule

/-! ## 2. What a kind must be sanitized for -/

structure MatchingSanitizeTransforms where
  transforms : SanitizeTransformSet
  /-- Whether the kind can be removed when all the kinds that it matches are sanitized. -/
  sanitizable : Bool
  deriving DecidableEq

namespace MatchingSanitizeTransforms

def empty : MatchingSanitizeTransforms := ⟨.empty, true⟩

def unsanitizable : MatchingSanitizeTransforms := ⟨.empty, false⟩

def addSource (matching : MatchingSanitizeTransforms) :
    Source → Except String MatchingSanitizeTransforms
  | .namedSource name | .parametricSource name _ =>
    .ok { matching with transforms := matching.transforms.addSource (.named name) }
  | .transform localPart globalPart _ =>
    if globalPart.any TaintTransform.isNamedTransform ||
        localPart.any TaintTransform.isNamedTransform then
      .ok { matching with sanitizable := false }
    else .ok matching
  | .attach => .error "unexpected source in `matching_sources`"

def addSink (matching : MatchingSanitizeTransforms) :
    Sink → Except String MatchingSanitizeTransforms
  | .namedSink name | .parametricSink name _ =>
    .ok { matching with transforms := matching.transforms.addSink (.named name) }
  | .transform localPart globalPart _ =>
    if globalPart.any TaintTransform.isNamedTransform ||
        localPart.any TaintTransform.isNamedTransform then
      .ok { matching with sanitizable := false }
    else .ok matching
  | .partialSink _ => .ok { matching with sanitizable := false }
  | .localReturn | .parameterUpdate _ | .attach | .addFeatureToArgument | .extraTraceSink =>
    .error "unexpected sink in `matching_sinks`"

def fromSources (sources : List Source) : Except String MatchingSanitizeTransforms :=
  sources.foldlM addSource empty

def fromSinks (sinks : List Sink) : Except String MatchingSanitizeTransforms :=
  sinks.foldlM addSink empty

end MatchingSanitizeTransforms

/-! ## 3. The filter -/

/-- Sets of kinds and of transforms are lists. -/
structure SourceSinkFilter where
  matchingSources : AssocMap Sink (List Source)
  matchingSinks : AssocMap Source (List Sink)
  possibleTitoTransforms : List TaintTransforms
  matchingSourceSanitizeTransforms : AssocMap Sink MatchingSanitizeTransforms
  matchingSinkSanitizeTransforms : AssocMap Source MatchingSanitizeTransforms

namespace SourceSinkFilter

def filterRules.shouldKeepSource (filteredSources : List Source) : Source → Bool
  | .namedSource name | .parametricSource name _ =>
    decide (Source.namedSource name ∈ filteredSources)
  | _ => true

def filterRules.shouldKeepSink (filteredSinks : List Sink) : Sink → Bool
  | .namedSink name | .parametricSink name _ => decide (Sink.namedSink name ∈ filteredSinks)
  | _ => true

/-- The options of the command line: what to keep, where given. -/
structure Options where
  ruleCodes : Option (List Int) := none
  sources : Option (List Source) := none
  sinks : Option (List Sink) := none
  transforms : Option TaintTransforms := none

def filterRules.byCode (filteredRuleCodes : Option (List Int)) (rules : List Rule) : List Rule :=
  match filteredRuleCodes with
  | some ruleCodes => rules.filter fun rule => decide (rule.code ∈ ruleCodes)
  | none => rules

def filterRules.bySource (filteredSources : Option (List Source)) (rules : List Rule) :
    List Rule :=
  match filteredSources with
  | some filteredSources =>
    rules.filterMap fun rule =>
      let ruleSources := rule.sources.filter (shouldKeepSource filteredSources)
      if !ruleSources.isEmpty then some { rule with sources := ruleSources } else none
  | none => rules

def filterRules.bySink (filteredSinks : Option (List Sink)) (rules : List Rule) : List Rule :=
  match filteredSinks with
  | some filteredSinks =>
    rules.filterMap fun rule =>
      let ruleSinks := rule.sinks.filter (shouldKeepSink filteredSinks)
      if !ruleSinks.isEmpty then some { rule with sinks := ruleSinks } else none
  | none => rules

def filterRules.byTransform (filteredTransforms : Option TaintTransforms) (rules : List Rule) :
    List Rule :=
  match filteredTransforms with
  | some filteredTransforms =>
    rules.filter fun rule =>
      rule.transforms.all fun transform => decide (transform ∈ filteredTransforms)
  | none => rules

def filterRules (options : Options) (rules : List Rule) : List Rule :=
  let rules := filterRules.byCode options.ruleCodes rules
  let rules := filterRules.bySource options.sources rules
  let rules := filterRules.bySink options.sinks rules
  filterRules.byTransform options.transforms rules

/-- The sources that match a sink, and the sinks that match a source. -/
abbrev MatchingKinds := AssocMap Sink (List Source) × AssocMap Source (List Sink)

def addSourcesSinks (sofar : MatchingKinds) (sources : List Source) (sinks : List Sink) :
    MatchingKinds :=
  let updateMatchingSources (matchingSources : AssocMap Sink (List Source)) (sink : Sink) :=
    AssocMap.update sink (fun
      | none => sources
      | some existing => existing ∪ sources) matchingSources
  let updateMatchingSinks (matchingSinks : AssocMap Source (List Sink)) (source : Source) :=
    AssocMap.update source (fun
      | none => sinks
      | some existing => existing ∪ sinks) matchingSinks
  (sinks.foldl updateMatchingSources sofar.1, sources.foldl updateMatchingSinks sofar.2)

def addCombinedSourceRule (sofar : MatchingKinds) (rule : Rule) : MatchingKinds :=
  match rule.transforms with
  | [.triggeredPartialSink _] => addSourcesSinks sofar rule.sources rule.sinks
  | _ => sofar

/-- The kinds of one split of a rule. -/
def addSplit (rule : Rule) (sofar : MatchingKinds) (split : TaintTransforms × TaintTransforms) :
    MatchingKinds :=
  let (sourceTransforms, sinkTransforms) := split
  let sources :=
    if sourceTransforms.isEmpty then rule.sources
    else rule.sources.map (Source.makeTransform [] sourceTransforms)
  let sinks :=
    if sinkTransforms.isEmpty then rule.sinks
    else rule.sinks.map (Sink.makeTransform [] sinkTransforms)
  addSourcesSinks sofar sources sinks

def addRule (sofar : MatchingKinds) (rule : Rule) : Except String MatchingKinds := do
  let splits ← Rule.transformSplits rule.transforms
  return splits.foldl (addSplit rule) (addCombinedSourceRule sofar rule)

def matchingKindsFromRules (rules : List Rule) : Except String MatchingKinds :=
  rules.foldlM addRule (∅, ∅)

def suffixes {α : Type} (l : List α) : List (List α) := l.tails

def prefixes {α : Type} (l : List α) : List (List α) := (suffixes l.reverse).map List.reverse

def substrings {α : Type} (l : List α) : List (List α) := (prefixes l).flatMap suffixes

def possibleTitoTransformsFromRules (rules : List Rule) : List TaintTransforms :=
  (rules.flatMap fun rule => substrings rule.transforms).map TaintTransforms.getNamedTransforms

/-- The special sink for subtraces must have a record. -/
def addExtraTraceSinks (possibleTitoTransforms : List TaintTransforms)
    (matching : AssocMap Sink MatchingSanitizeTransforms) :
    AssocMap Sink MatchingSanitizeTransforms :=
  possibleTitoTransforms.foldl (fun sofar titoTransform =>
    AssocMap.update (Sink.makeTransform [] titoTransform .extraTraceSink)
      (fun _ => .unsanitizable) sofar) matching

def create (rules : List Rule) (options : Options) : Except String SourceSinkFilter := do
  let rules := filterRules options rules
  let (matchingSources, matchingSinks) ← matchingKindsFromRules rules
  let possibleTitoTransforms := possibleTitoTransformsFromRules rules
  let sourceTransforms ← AssocMap.mapM MatchingSanitizeTransforms.fromSources matchingSources
  let sinkTransforms ← AssocMap.mapM MatchingSanitizeTransforms.fromSinks matchingSinks
  return {
    matchingSources
    matchingSinks
    possibleTitoTransforms
    matchingSourceSanitizeTransforms :=
      addExtraTraceSinks possibleTitoTransforms sourceTransforms
    matchingSinkSanitizeTransforms := sinkTransforms }

/-! ## 4. Lookups -/

/-- The sanitizers of the sources that the sink can match. -/
def findMatchingSourceSanitizeTransforms (filter : SourceSinkFilter)
    (nonSanitizeTransforms : TaintTransforms) (base : Sink) :
    Option MatchingSanitizeTransforms :=
  filter.matchingSourceSanitizeTransforms.lookup
    (Sink.makeTransform [] nonSanitizeTransforms base.discardSubkind)

def findMatchingSinkSanitizeTransforms (filter : SourceSinkFilter)
    (nonSanitizeTransforms : TaintTransforms) (base : Source) :
    Option MatchingSanitizeTransforms :=
  filter.matchingSinkSanitizeTransforms.lookup
    (Source.makeTransform [] nonSanitizeTransforms base.discardSubkind)

/-! ## 5. What to keep -/

/-- Whether a kind with these sanitizers can still match a rule. -/
def shouldKeepMatching (matching : Option MatchingSanitizeTransforms)
    (sanitizers : SanitizeTransformSet) : Bool :=
  match matching with
  | none => false
  | some ⟨_, false⟩ => true
  | some ⟨matchingTransforms, true⟩ => !matchingTransforms.lessOrEqual sanitizers

def shouldKeepSource (filter : SourceSinkFilter) (source : Source) : Bool :=
  match source with
  | .attach => true
  | .namedSource _ | .parametricSource _ _ =>
    (filter.findMatchingSinkSanitizeTransforms [] source).isSome
  | .transform localPart globalPart base =>
    let transforms := TaintTransforms.merge localPart globalPart
    let nonSanitizeTransforms := transforms.getNonSanitizeTransforms
    shouldKeepMatching (filter.findMatchingSinkSanitizeTransforms nonSanitizeTransforms base)
      transforms.getSanitizeTransforms

def shouldKeepSink (filter : SourceSinkFilter) (sink : Sink) : Bool :=
  match sink with
  | .attach | .addFeatureToArgument => true
  | .namedSink _ | .parametricSink _ _ | .partialSink _ | .extraTraceSink =>
    (filter.findMatchingSourceSanitizeTransforms [] sink).isSome
  | .localReturn | .parameterUpdate _ => true
  | .transform localPart globalPart .localReturn
  | .transform localPart globalPart (.parameterUpdate _) =>
    let transforms := (TaintTransforms.merge localPart globalPart).getNonSanitizeTransforms
    decide (transforms ∈ filter.possibleTitoTransforms)
  | .transform localPart globalPart base =>
    let transforms := TaintTransforms.merge localPart globalPart
    let nonSanitizeTransforms := transforms.getNonSanitizeTransforms
    shouldKeepMatching (filter.findMatchingSourceSanitizeTransforms nonSanitizeTransforms base)
      transforms.getSanitizeTransforms

end SourceSinkFilter

end Pysa.Taint
