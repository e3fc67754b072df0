/-
  Subject: REMOVING SANITIZED TAINT FROM A FLOW (`issue.ml`, `apply_sanitizers`).

  A round removes the sinks that every source sanitizes, the sources that every sink sanitizes, and
  what sanitizes the only base of the other side. Rounds follow until two agree on what they remove.

  * `sanitizeRound` -- one round; `applySanitizers` -- the rounds, with fuel;
  * `applySanitizers_total` -- **the rounds end, and keep every pair of kinds of which neither
    sanitizes the other**;
  * `applySanitizers_valid` -- **what is left of a flow at the end**.
-/
import Pysa.Taint.IssueMatching
import Pysa.Taint.Kinds

namespace Pysa.Taint

universe u

/-! ## 1. Sanitizers of a kind -/

/-- `fold` of a set of sanitizers that must not hold everything. -/
def SanitizeSet.elementsExn {K : Type u} : SanitizeSet K → Except String (Finset K)
  | .all => .error "Unexpected to fold over all elements in `All`"
  | .specific set => .ok set

namespace Source

def extractSanitizedSourcesFromTransforms (transforms : SanitizeSet SanitizeTransform.Source) :
    Except String (Finset Source) :=
  transforms.elementsExn.map (Finset.image fun (.named name) => namedSource name)

/-- The kind that sanitizers are compared with. -/
def sanitizedBase (source : Source) : Source := source.discardSanitizeTransforms.discardSubkind

end Source

namespace Sink

def extractSanitizedSinksFromTransforms (transforms : SanitizeSet SanitizeTransform.Sink) :
    Except String (Finset Sink) :=
  transforms.elementsExn.map (Finset.image fun (.named name) => namedSink name)

def sanitizedBase (sink : Sink) : Sink := sink.discardSanitizeTransforms.discardSubkind

end Sink

/-! ## 2. Rounds -/

/-- `as_singleton` of the set of these elements. -/
def asSingleton {K : Type u} [DecidableEq K] (elements : List K) : Option K :=
  match elements.dedup with
  | [x] => some x
  | _ => none

section Side

variable {K L : Type} [DecidableEq L]

/-- `gather_sanitized_sinks` and `gather_sanitized_sources`: what is sanitized so far, and by the
    next kind. -/
def gatherStep (sanitized : K → Except String (Finset L)) (sofar : Option (Finset L)) (kind : K) :
    Except String (Option (Finset L)) :=
  (sanitized kind).map fun sanitized =>
    match sofar with
    | none => some sanitized
    | some sofar => some (sofar ∩ sanitized)

/-- The fold over the kinds: what all of them sanitize. -/
def gatherSanitized (sanitized : K → Except String (Finset L)) (kinds : List K) :
    Except String (Finset L) :=
  (kinds.foldlM (gatherStep sanitized) none).map (·.getD ∅)

/-- `sanitize_taint_kinds`. -/
def sanitizeTaintKinds (base : L → L) (sanitizedKinds : Finset L) (taint : List L) : List L :=
  if sanitizedKinds = ∅ then taint else taint.filter fun kind => !decide (base kind ∈ sanitizedKinds)

end Side

/-- What a round found, to be compared with the round before. -/
structure Sanitized where
  sanitizedSources : Finset Source := ∅
  sanitizedSinks : Finset Sink := ∅
  singleBaseSource : Option Source := none
  singleBaseSink : Option Sink := none
  deriving DecidableEq

/-- The kinds of a flow, in the order in which a fold visits them. -/
abbrev KindFlow := Flow (List Source) (List Sink)

/-- `Sanitize` transforms with this one source, or this one sink. -/
def fromSource (name : String) : SanitizeTransformSet := ⟨.specific {.named name}, .empty⟩

def fromSink (name : String) : SanitizeTransformSet := ⟨.empty, .specific {.named name}⟩

/-- The sinks that do not sanitize the only base of the sources. -/
def sanitizeSingleBaseSource (singleBaseSource : Option Source) (sinkTaint : List Sink) :
    List Sink :=
  match singleBaseSource with
  | some (.namedSource source) =>
    sinkTaint.filter fun kind => !kind.containsSanitizeTransforms (fromSource source)
  | _ => sinkTaint

def sanitizeSingleBaseSink (singleBaseSink : Option Sink) (sourceTaint : List Source) :
    List Source :=
  match singleBaseSink with
  | some (.namedSink sink) =>
    sourceTaint.filter fun kind => !kind.containsSanitizeTransforms (fromSink sink)
  | _ => sourceTaint

/-- The body of `apply_sanitizers`: what the round found, and the refined flow. -/
def sanitizeRound (flow : KindFlow) : Except String (Sanitized × KindFlow) := do
  let sanitizedSinks ← gatherSanitized (fun kind : Source =>
    Sink.extractSanitizedSinksFromTransforms kind.extractSanitizeTransforms.sinks) flow.sourceTaint
  let sinkTaint := sanitizeTaintKinds Sink.sanitizedBase sanitizedSinks flow.sinkTaint
  let sanitizedSources ← gatherSanitized (fun kind : Sink =>
    Source.extractSanitizedSourcesFromTransforms kind.extractSanitizeTransforms.sources) sinkTaint
  let sourceTaint := sanitizeTaintKinds Source.sanitizedBase sanitizedSources flow.sourceTaint
  let singleBaseSource := asSingleton (sourceTaint.map Source.sanitizedBase)
  let sinkTaint := sanitizeSingleBaseSource singleBaseSource sinkTaint
  let singleBaseSink := asSingleton (sinkTaint.map Sink.sanitizedBase)
  let sourceTaint := sanitizeSingleBaseSink singleBaseSink sourceTaint
  return (⟨sanitizedSources, sanitizedSinks, singleBaseSource, singleBaseSink⟩,
    ⟨sourceTaint, sinkTaint⟩)

/-- `apply_sanitizers`, for as many rounds as there is fuel. -/
def applySanitizersFrom : (fuel : ℕ) → (previous : Sanitized) → KindFlow →
    Option (Except String KindFlow)
  | 0, _, _ => none
  | fuel + 1, previous, flow =>
    match sanitizeRound flow with
    | .error message => some (.error message)
    | .ok (sanitized, refined) =>
      if sanitized = previous then some (.ok refined)
      else applySanitizersFrom fuel sanitized refined

def applySanitizers (fuel : ℕ) (flow : KindFlow) : Option (Except String KindFlow) :=
  applySanitizersFrom fuel {} flow

/-! ## 3. What a kind sanitizes -/

/-- The valid sanitizers of the source have the base of the sink. -/
def Source.Sanitizes (source : Source) (sink : Sink) : Prop :=
  ∃ name, sink.sanitizedBase = .namedSink name ∧
    source.extractSanitizeTransforms.sinks.mem (.named name) = true

/-- The valid sanitizers of the sink have the base of the source. -/
def Sink.Sanitizes (sink : Sink) (source : Source) : Prop :=
  ∃ name, source.sanitizedBase = .namedSource name ∧
    sink.extractSanitizeTransforms.sources.mem (.named name) = true

/-- The images of what a set of sanitizers holds. -/
theorem SanitizeSet.mem_map_elementsExn {K L : Type u} [DecidableEq K] [DecidableEq L]
    {set : SanitizeSet K} {f : K → L} {images : Finset L}
    (h : set.elementsExn.map (Finset.image f) = .ok images) (x : L) :
    x ∈ images ↔ ∃ k, x = f k ∧ set.mem k = true := by
  cases set with
  | all => cases h
  | specific elements =>
    cases h
    rw [Finset.mem_image]
    refine exists_congr fun k => ?_
    rw [SanitizeSet.mem, decide_eq_true_eq, and_comm, eq_comm]

theorem Source.mem_extractSanitizedSinks {source : Source} {sinks : Finset Sink}
    (h : Sink.extractSanitizedSinksFromTransforms source.extractSanitizeTransforms.sinks =
      .ok sinks) (sink : Sink) : sink.sanitizedBase ∈ sinks ↔ source.Sanitizes sink := by
  rw [SanitizeSet.mem_map_elementsExn h]
  exact ⟨fun ⟨⟨name⟩, hname⟩ => ⟨name, hname⟩, fun ⟨name, hname⟩ => ⟨.named name, hname⟩⟩

theorem Sink.mem_extractSanitizedSources {sink : Sink} {sources : Finset Source}
    (h : Source.extractSanitizedSourcesFromTransforms sink.extractSanitizeTransforms.sources =
      .ok sources) (source : Source) : source.sanitizedBase ∈ sources ↔ sink.Sanitizes source := by
  rw [SanitizeSet.mem_map_elementsExn h]
  exact ⟨fun ⟨⟨name⟩, hname⟩ => ⟨name, hname⟩, fun ⟨name, hname⟩ => ⟨.named name, hname⟩⟩

theorem SanitizeSet.lessOrEqual_singleton {K : Type u} [DecidableEq K] (k : K)
    (set : SanitizeSet K) : (specific {k}).lessOrEqual set = set.mem k := by
  cases set <;> simp [lessOrEqual, mem]

theorem SanitizeSet.lessOrEqual_empty {K : Type u} [DecidableEq K] (set : SanitizeSet K) :
    (empty : SanitizeSet K).lessOrEqual set = true := by
  cases set <;> simp [lessOrEqual, empty]

theorem Sink.containsSanitizeTransforms_fromSource (sink : Sink) (name : String) :
    sink.containsSanitizeTransforms (fromSource name) =
      sink.extractSanitizeTransforms.sources.mem (.named name) := by
  unfold containsSanitizeTransforms SanitizeTransformSet.lessOrEqual fromSource
  rw [SanitizeSet.lessOrEqual_singleton, SanitizeSet.lessOrEqual_empty, Bool.and_true]

theorem Source.containsSanitizeTransforms_fromSink (source : Source) (name : String) :
    source.containsSanitizeTransforms (fromSink name) =
      source.extractSanitizeTransforms.sinks.mem (.named name) := by
  unfold containsSanitizeTransforms SanitizeTransformSet.lessOrEqual fromSink
  rw [SanitizeSet.lessOrEqual_singleton, SanitizeSet.lessOrEqual_empty, Bool.true_and]

/-! ## 4. The parts of a round -/

section Side

variable {K L : Type} [DecidableEq L] {sanitized : K → Except String (Finset L)}

theorem foldlM_gatherStep {kinds : List K} {sofar out : Option (Finset L)}
    (h : kinds.foldlM (gatherStep sanitized) sofar = .ok out) (x : L) :
    (∃ set, out = some set ∧ x ∈ set) ↔ (sofar = none → kinds ≠ []) ∧
      (∀ set, sofar = some set → x ∈ set) ∧
      ∀ kind ∈ kinds, ∃ s, sanitized kind = .ok s ∧ x ∈ s := by
  induction kinds generalizing sofar with
  | nil =>
    cases h
    cases out <;> simp
  | cons kind rest ih =>
    rw [List.foldlM_cons] at h
    unfold gatherStep at h
    cases hkind : sanitized kind with
    | error message =>
      rw [hkind] at h
      cases h
    | ok first =>
      rw [hkind] at h
      rw [ih h, List.forall_mem_cons, hkind]
      cases sofar <;> simp [and_assoc]

/-- **What all kinds sanitize.** -/
theorem mem_gatherSanitized {kinds : List K} {gathered : Finset L}
    (h : gatherSanitized sanitized kinds = .ok gathered) (x : L) :
    x ∈ gathered ↔ kinds ≠ [] ∧ ∀ kind ∈ kinds, ∃ s, sanitized kind = .ok s ∧ x ∈ s := by
  unfold gatherSanitized at h
  cases hfold : kinds.foldlM (gatherStep sanitized) none with
  | error message =>
    rw [hfold] at h
    cases h
  | ok out =>
    rw [hfold] at h
    cases h
    have hout := foldlM_gatherStep hfold x
    simp only [forall_const, reduceCtorEq, false_implies, true_and] at hout
    rw [← hout]
    cases out <;> simp

/-- The fold succeeds where it succeeds at each kind. -/
theorem exists_foldlM_gatherStep_iff (kinds : List K) (sofar : Option (Finset L)) :
    (∃ out, kinds.foldlM (gatherStep sanitized) sofar = .ok out) ↔
      ∀ kind ∈ kinds, ∃ s, sanitized kind = .ok s := by
  induction kinds generalizing sofar with
  | nil => exact ⟨fun _ kind hkind => absurd hkind List.not_mem_nil, fun _ => ⟨sofar, rfl⟩⟩
  | cons kind rest ih =>
    rw [List.foldlM_cons, gatherStep, List.forall_mem_cons]
    cases hkind : sanitized kind with
    | error message =>
      refine ⟨fun h => ?_, fun h => ?_⟩
      · obtain ⟨out, h⟩ := h
        cases h
      · obtain ⟨⟨s, hs⟩, -⟩ := h
        cases hs
    | ok first => exact (ih _).trans (and_iff_right ⟨first, rfl⟩).symm

theorem exists_gatherSanitized_iff (kinds : List K) :
    (∃ gathered, gatherSanitized sanitized kinds = .ok gathered) ↔
      ∀ kind ∈ kinds, ∃ s, sanitized kind = .ok s := by
  rw [← exists_foldlM_gatherStep_iff kinds none, gatherSanitized]
  cases kinds.foldlM (gatherStep sanitized) none with
  | error message =>
    refine ⟨fun h => ?_, fun h => ?_⟩
    · obtain ⟨gathered, h⟩ := h
      cases h
    · obtain ⟨out, h⟩ := h
      cases h
  | ok out => exact ⟨fun _ => ⟨out, rfl⟩, fun _ => ⟨out.getD ∅, rfl⟩⟩

theorem mem_sanitizeTaintKinds {base : L → L} {sanitizedKinds : Finset L} {taint : List L}
    {kind : L} :
    kind ∈ sanitizeTaintKinds base sanitizedKinds taint ↔
      kind ∈ taint ∧ base kind ∉ sanitizedKinds := by
  unfold sanitizeTaintKinds
  split
  · rename_i hempty
    rw [hempty]
    simp
  · simp

theorem sanitizeTaintKinds_sublist (base : L → L) (sanitizedKinds : Finset L) (taint : List L) :
    (sanitizeTaintKinds base sanitizedKinds taint).Sublist taint := by
  unfold sanitizeTaintKinds
  split
  · exact .refl _
  · exact List.filter_sublist

theorem sanitizeTaintKinds_eq_self {base : L → L} {sanitizedKinds : Finset L} {taint : List L}
    (h : ∀ kind ∈ taint, base kind ∉ sanitizedKinds) :
    sanitizeTaintKinds base sanitizedKinds taint = taint := by
  unfold sanitizeTaintKinds
  split
  · rfl
  · exact List.filter_eq_self.mpr fun kind hkind => by simpa using h kind hkind

end Side

/-- The only base of some kinds is the base of each. -/
theorem eq_of_asSingleton {K : Type u} [DecidableEq K] {elements : List K} {b : K}
    (h : asSingleton elements = some b) {x : K} (hx : x ∈ elements) : x = b := by
  unfold asSingleton at h
  split at h
  · rename_i y hdedup
    cases h
    rwa [← List.mem_dedup, hdedup, List.mem_singleton] at hx
  · cases h

theorem asSingleton_of_forall_eq {K : Type u} [DecidableEq K] {elements : List K} {b : K}
    (hne : elements ≠ []) (h : ∀ x ∈ elements, x = b) : asSingleton elements = some b := by
  have hdedup : elements.dedup = [b] := by
    have hall : ∀ x ∈ elements.dedup, x = b := fun x hx => h x (List.mem_dedup.mp hx)
    have hnodup := List.nodup_dedup elements
    cases hlist : elements.dedup with
    | nil => exact absurd (List.dedup_eq_nil elements |>.mp hlist) hne
    | cons x rest =>
      rw [hlist] at hall hnodup
      rw [hall x List.mem_cons_self] at hnodup ⊢
      cases rest with
      | nil => rfl
      | cons y rest =>
        rw [hall y (by simp)] at hnodup
        exact absurd List.mem_cons_self (List.nodup_cons.mp hnodup).1
  rw [asSingleton, hdedup]

/-- The sinks left are those that do not sanitize the only base of the sources. -/
theorem mem_sanitizeSingleBaseSource {base : Option Source} {taint : List Sink} {sink : Sink} :
    sink ∈ sanitizeSingleBaseSource base taint ↔ sink ∈ taint ∧
      ∀ name, base = some (.namedSource name) →
        sink.extractSanitizeTransforms.sources.mem (.named name) = false := by
  unfold sanitizeSingleBaseSource
  split
  · rename_i source
    rw [List.mem_filter, Sink.containsSanitizeTransforms_fromSource, Bool.not_eq_true']
    simp
  · rename_i hbase
    exact (and_iff_left fun name h => absurd h (hbase name)).symm

theorem mem_sanitizeSingleBaseSink {base : Option Sink} {taint : List Source} {source : Source} :
    source ∈ sanitizeSingleBaseSink base taint ↔ source ∈ taint ∧
      ∀ name, base = some (.namedSink name) →
        source.extractSanitizeTransforms.sinks.mem (.named name) = false := by
  unfold sanitizeSingleBaseSink
  split
  · rename_i sink
    rw [List.mem_filter, Source.containsSanitizeTransforms_fromSink, Bool.not_eq_true']
    simp
  · rename_i hbase
    exact (and_iff_left fun name h => absurd h (hbase name)).symm

theorem sanitizeSingleBaseSource_sublist (base : Option Source) (taint : List Sink) :
    (sanitizeSingleBaseSource base taint).Sublist taint := by
  unfold sanitizeSingleBaseSource
  split
  · exact List.filter_sublist
  · exact .refl _

theorem sanitizeSingleBaseSink_sublist (base : Option Sink) (taint : List Source) :
    (sanitizeSingleBaseSink base taint).Sublist taint := by
  unfold sanitizeSingleBaseSink
  split
  · exact List.filter_sublist
  · exact .refl _

theorem sanitizeSingleBaseSource_eq_self {base : Option Source} {taint : List Sink}
    (h : ∀ sink ∈ taint, ∀ name, base = some (.namedSource name) →
      sink.extractSanitizeTransforms.sources.mem (.named name) = false) :
    sanitizeSingleBaseSource base taint = taint := by
  unfold sanitizeSingleBaseSource
  split
  · refine List.filter_eq_self.mpr fun sink hsink => ?_
    rw [Sink.containsSanitizeTransforms_fromSource, h sink hsink _ rfl]
    rfl
  · rfl

theorem sanitizeSingleBaseSink_eq_self {base : Option Sink} {taint : List Source}
    (h : ∀ source ∈ taint, ∀ name, base = some (.namedSink name) →
      source.extractSanitizeTransforms.sinks.mem (.named name) = false) :
    sanitizeSingleBaseSink base taint = taint := by
  unfold sanitizeSingleBaseSink
  split
  · refine List.filter_eq_self.mpr fun source hsource => ?_
    rw [Source.containsSanitizeTransforms_fromSink, h source hsource _ rfl]
    rfl
  · rfl

/-! ## 5. One round -/

/-- What a round does, part by part. -/
theorem sanitizeRound_eq_ok {flow refined : KindFlow} {sanitized : Sanitized}
    (h : sanitizeRound flow = .ok (sanitized, refined)) :
    ∃ sinkTaint sourceTaint,
      gatherSanitized (fun kind : Source => Sink.extractSanitizedSinksFromTransforms
        kind.extractSanitizeTransforms.sinks) flow.sourceTaint = .ok sanitized.sanitizedSinks ∧
      sinkTaint = sanitizeTaintKinds Sink.sanitizedBase sanitized.sanitizedSinks flow.sinkTaint ∧
      gatherSanitized (fun kind : Sink => Source.extractSanitizedSourcesFromTransforms
        kind.extractSanitizeTransforms.sources) sinkTaint = .ok sanitized.sanitizedSources ∧
      sourceTaint =
        sanitizeTaintKinds Source.sanitizedBase sanitized.sanitizedSources flow.sourceTaint ∧
      sanitized.singleBaseSource = asSingleton (sourceTaint.map Source.sanitizedBase) ∧
      refined.sinkTaint = sanitizeSingleBaseSource sanitized.singleBaseSource sinkTaint ∧
      sanitized.singleBaseSink = asSingleton (refined.sinkTaint.map Sink.sanitizedBase) ∧
      refined.sourceTaint = sanitizeSingleBaseSink sanitized.singleBaseSink sourceTaint := by
  unfold sanitizeRound at h
  cases hsinks : gatherSanitized (fun kind : Source => Sink.extractSanitizedSinksFromTransforms
      kind.extractSanitizeTransforms.sinks) flow.sourceTaint with
  | error message =>
    rw [hsinks] at h
    cases h
  | ok sanitizedSinks =>
    rw [hsinks] at h
    cases hsources : gatherSanitized (fun kind : Sink =>
        Source.extractSanitizedSourcesFromTransforms kind.extractSanitizeTransforms.sources)
        (sanitizeTaintKinds Sink.sanitizedBase sanitizedSinks flow.sinkTaint) with
    | error message =>
      simp only [bind, Except.bind] at h
      rw [hsources] at h
      cases h
    | ok sanitizedSources =>
      simp only [bind, Except.bind] at h
      rw [hsources] at h
      cases h
      exact ⟨_, _, rfl, rfl, hsources, rfl, rfl, rfl, rfl, rfl⟩

theorem sanitizeRound_sublist {flow refined : KindFlow} {sanitized : Sanitized}
    (h : sanitizeRound flow = .ok (sanitized, refined)) :
    refined.sourceTaint.Sublist flow.sourceTaint ∧ refined.sinkTaint.Sublist flow.sinkTaint := by
  obtain ⟨sinkTaint, sourceTaint, -, hsinks, -, hsources, -, hsinkTaint, -, hsourceTaint⟩ :=
    sanitizeRound_eq_ok h
  rw [hsinkTaint, hsourceTaint, hsinks, hsources]
  exact ⟨(sanitizeSingleBaseSink_sublist _ _).trans (sanitizeTaintKinds_sublist _ _ _),
    (sanitizeSingleBaseSource_sublist _ _).trans (sanitizeTaintKinds_sublist _ _ _)⟩

/-- **A round keeps both kinds of a pair** of which neither sanitizes the other. -/
theorem sanitizeRound_keeps {flow refined : KindFlow} {sanitized : Sanitized} {source : Source}
    {sink : Sink} (h : sanitizeRound flow = .ok (sanitized, refined))
    (hsource : source ∈ flow.sourceTaint) (hsink : sink ∈ flow.sinkTaint)
    (hsourceSink : ¬ source.Sanitizes sink) (hsinkSource : ¬ sink.Sanitizes source) :
    source ∈ refined.sourceTaint ∧ sink ∈ refined.sinkTaint := by
  obtain ⟨sinkTaint, sourceTaint, hsanitizedSinks, hsinks, hsanitizedSources, hsources,
    hsingleSource, hsinkTaint, hsingleSink, hsourceTaint⟩ := sanitizeRound_eq_ok h
  have hsink₁ : sink ∈ sinkTaint := by
    rw [hsinks, mem_sanitizeTaintKinds]
    refine ⟨hsink, fun hmem => hsourceSink ?_⟩
    obtain ⟨s, hs, hmem⟩ := ((mem_gatherSanitized hsanitizedSinks _).mp hmem).2 source hsource
    exact (Source.mem_extractSanitizedSinks hs sink).mp hmem
  have hsource₁ : source ∈ sourceTaint := by
    rw [hsources, mem_sanitizeTaintKinds]
    refine ⟨hsource, fun hmem => hsinkSource ?_⟩
    obtain ⟨s, hs, hmem⟩ := ((mem_gatherSanitized hsanitizedSources _).mp hmem).2 sink hsink₁
    exact (Sink.mem_extractSanitizedSources hs source).mp hmem
  have hsink₂ : sink ∈ refined.sinkTaint := by
    rw [hsinkTaint, mem_sanitizeSingleBaseSource]
    refine ⟨hsink₁, fun name hname => Bool.eq_false_iff.mpr fun hmem => hsinkSource ?_⟩
    rw [hsingleSource] at hname
    exact ⟨name, eq_of_asSingleton hname (List.mem_map_of_mem hsource₁), hmem⟩
  refine ⟨?_, hsink₂⟩
  rw [hsourceTaint, mem_sanitizeSingleBaseSink]
  refine ⟨hsource₁, fun name hname => Bool.eq_false_iff.mpr fun hmem => hsourceSink ?_⟩
  rw [hsingleSink] at hname
  exact ⟨name, eq_of_asSingleton hname (List.mem_map_of_mem hsink₂), hmem⟩

/-- Nothing is left to remove of what a round found. -/
structure Sanitized.Removed (sanitized : Sanitized) (flow : KindFlow) : Prop where
  sinks : ∀ sink ∈ flow.sinkTaint, sink.sanitizedBase ∉ sanitized.sanitizedSinks
  sources : ∀ source ∈ flow.sourceTaint, source.sanitizedBase ∉ sanitized.sanitizedSources
  sinksOfSource : ∀ sink ∈ flow.sinkTaint, ∀ name,
    sanitized.singleBaseSource = some (.namedSource name) →
      sink.extractSanitizeTransforms.sources.mem (.named name) = false
  sourcesOfSink : ∀ source ∈ flow.sourceTaint, ∀ name,
    sanitized.singleBaseSink = some (.namedSink name) →
      source.extractSanitizeTransforms.sinks.mem (.named name) = false

theorem Sanitized.removed_start (flow : KindFlow) : ({} : Sanitized).Removed flow where
  sinks _ _ := Finset.notMem_empty _
  sources _ _ := Finset.notMem_empty _
  sinksOfSource _ _ _ h := by cases h
  sourcesOfSink _ _ _ h := by cases h

theorem sanitizeRound_removed {flow refined : KindFlow} {sanitized : Sanitized}
    (h : sanitizeRound flow = .ok (sanitized, refined)) : sanitized.Removed refined := by
  obtain ⟨sinkTaint, sourceTaint, -, hsinks, -, hsources, -, hsinkTaint, -, hsourceTaint⟩ :=
    sanitizeRound_eq_ok h
  have hsink : ∀ sink ∈ refined.sinkTaint, _ := fun sink hsink => by
    rw [hsinkTaint, mem_sanitizeSingleBaseSource, hsinks, mem_sanitizeTaintKinds] at hsink
    exact hsink
  have hsource : ∀ source ∈ refined.sourceTaint, _ := fun source hsource => by
    rw [hsourceTaint, mem_sanitizeSingleBaseSink, hsources, mem_sanitizeTaintKinds] at hsource
    exact hsource
  exact ⟨fun sink h => (hsink sink h).1.2, fun source h => (hsource source h).1.2,
    fun sink h => (hsink sink h).2, fun source h => (hsource source h).2⟩

/-- A round that finds what is removed already changes nothing. -/
theorem sanitizeRound_eq_self {flow refined : KindFlow} {sanitized : Sanitized}
    (h : sanitizeRound flow = .ok (sanitized, refined)) (hremoved : sanitized.Removed flow) :
    refined = flow := by
  obtain ⟨sinkTaint, sourceTaint, -, hsinks, -, hsources, -, hsinkTaint, -, hsourceTaint⟩ :=
    sanitizeRound_eq_ok h
  rw [sanitizeTaintKinds_eq_self hremoved.sinks] at hsinks
  rw [sanitizeTaintKinds_eq_self hremoved.sources] at hsources
  rw [hsinks, sanitizeSingleBaseSource_eq_self hremoved.sinksOfSource] at hsinkTaint
  rw [hsources, sanitizeSingleBaseSink_eq_self hremoved.sourcesOfSink] at hsourceTaint
  exact Flow.ext hsourceTaint hsinkTaint

/-- No valid sanitizer of the flow holds everything, as no kind should. -/
def NoSanitizeAll (flow : KindFlow) : Prop :=
  (∀ source ∈ flow.sourceTaint, source.extractSanitizeTransforms.sinks.isAll = false) ∧
    ∀ sink ∈ flow.sinkTaint, sink.extractSanitizeTransforms.sources.isAll = false

theorem SanitizeSet.elementsExn_ok {K : Type u} {set : SanitizeSet K} (h : set.isAll = false) :
    ∃ elements, set.elementsExn = .ok elements := by
  cases set with
  | all => cases h
  | specific elements => exact ⟨elements, rfl⟩

theorem sanitizeRound_ok {flow : KindFlow} (h : NoSanitizeAll flow) :
    ∃ found, sanitizeRound flow = .ok found := by
  have hsinksOk : ∀ source ∈ flow.sourceTaint, ∃ sinks,
      Sink.extractSanitizedSinksFromTransforms source.extractSanitizeTransforms.sinks =
        .ok sinks := fun source hsource => by
    obtain ⟨elements, helements⟩ := SanitizeSet.elementsExn_ok (h.1 source hsource)
    exact ⟨_, by rw [Sink.extractSanitizedSinksFromTransforms, helements]; rfl⟩
  have hsourcesOk : ∀ sink ∈ flow.sinkTaint, ∃ sources,
      Source.extractSanitizedSourcesFromTransforms sink.extractSanitizeTransforms.sources =
        .ok sources := fun sink hsink => by
    obtain ⟨elements, helements⟩ := SanitizeSet.elementsExn_ok (h.2 sink hsink)
    exact ⟨_, by rw [Source.extractSanitizedSourcesFromTransforms, helements]; rfl⟩
  obtain ⟨sanitizedSinks, hsinks⟩ := (exists_gatherSanitized_iff _).mpr hsinksOk
  obtain ⟨sanitizedSources, hsources⟩ := (exists_gatherSanitized_iff _).mpr
    fun sink (hsink : sink ∈ sanitizeTaintKinds Sink.sanitizedBase sanitizedSinks flow.sinkTaint) =>
      hsourcesOk sink (mem_sanitizeTaintKinds.mp hsink).1
  unfold sanitizeRound
  simp only [bind, Except.bind]
  rw [hsinks]
  dsimp only
  rw [hsources]
  exact ⟨_, rfl⟩

theorem NoSanitizeAll.of_sublist {flow refined : KindFlow} (h : NoSanitizeAll flow)
    (hsources : refined.sourceTaint.Sublist flow.sourceTaint)
    (hsinks : refined.sinkTaint.Sublist flow.sinkTaint) : NoSanitizeAll refined :=
  ⟨fun source hsource => h.1 source (hsources.subset hsource),
    fun sink hsink => h.2 sink (hsinks.subset hsink)⟩

/-! ## 6. All rounds -/

/-- **The rounds end.** A round that removes nothing finds the next time what it found, and the
    others leave fewer kinds. -/
theorem applySanitizersFrom_terminates (flow : KindFlow) (previous : Sanitized) :
    ∃ rounds, ∀ fuel, rounds ≤ fuel → ∃ result,
      applySanitizersFrom fuel previous flow = some result := by
  induction hsize : flow.sourceTaint.length + flow.sinkTaint.length using Nat.strong_induction_on
    generalizing flow previous with
  | _ size ih =>
    subst hsize
    cases hround : sanitizeRound flow with
    | error message =>
      refine ⟨1, fun fuel hfuel => ⟨.error message, ?_⟩⟩
      obtain ⟨fuel, rfl⟩ := Nat.exists_eq_add_of_le' hfuel
      rw [applySanitizersFrom, hround]
    | ok found =>
      obtain ⟨sanitized, refined⟩ := found
      have hstep : ∀ fuel previous, applySanitizersFrom (fuel + 1) previous flow =
          if sanitized = previous then some (.ok refined)
          else applySanitizersFrom fuel sanitized refined := fun fuel previous => by
        rw [applySanitizersFrom, hround]
      obtain ⟨hsources, hsinks⟩ := sanitizeRound_sublist hround
      by_cases hsame : refined = flow
      · -- the next round finds the same
        refine ⟨2, fun fuel hfuel => ?_⟩
        obtain ⟨fuel, rfl⟩ := Nat.exists_eq_add_of_le' hfuel
        rw [hstep, hsame, hstep, if_pos rfl]
        split
        · exact ⟨_, rfl⟩
        · exact ⟨_, rfl⟩
      · have hlt : refined.sourceTaint.length + refined.sinkTaint.length <
            flow.sourceTaint.length + flow.sinkTaint.length := by
          refine lt_of_le_of_ne (Nat.add_le_add hsources.length_le hsinks.length_le) ?_
          intro heq
          have hsourcesLe := hsources.length_le
          have hsinksLe := hsinks.length_le
          exact hsame (Flow.ext (hsources.eq_of_length (by omega))
            (hsinks.eq_of_length (by omega)))
        obtain ⟨rounds, hrounds⟩ := ih _ hlt refined sanitized rfl
        refine ⟨rounds + 1, fun fuel hfuel => ?_⟩
        obtain ⟨fuel, rfl⟩ := Nat.exists_eq_add_of_le' (Nat.le_of_add_left_le hfuel)
        rw [hstep]
        split
        · exact ⟨_, rfl⟩
        · exact hrounds fuel (by omega)

/-- **The rounds keep every pair of kinds of which neither sanitizes the other.** -/
theorem applySanitizersFrom_keeps {fuel : ℕ} {previous : Sanitized} {flow refined : KindFlow}
    {source : Source} {sink : Sink}
    (h : applySanitizersFrom fuel previous flow = some (.ok refined))
    (hsource : source ∈ flow.sourceTaint) (hsink : sink ∈ flow.sinkTaint)
    (hsourceSink : ¬ source.Sanitizes sink) (hsinkSource : ¬ sink.Sanitizes source) :
    source ∈ refined.sourceTaint ∧ sink ∈ refined.sinkTaint := by
  induction fuel generalizing previous flow with
  | zero => cases h
  | succ fuel ih =>
    rw [applySanitizersFrom] at h
    cases hround : sanitizeRound flow with
    | error message =>
      rw [hround] at h
      cases h
    | ok found =>
      rw [hround] at h
      dsimp only at h
      obtain ⟨hsource', hsink'⟩ :=
        sanitizeRound_keeps hround hsource hsink hsourceSink hsinkSource
      split at h
      · cases h
        exact ⟨hsource', hsink'⟩
      · exact ih h hsource' hsink'

/-- A flow without sanitizers that hold everything is refined without a failure. -/
theorem applySanitizersFrom_ok {fuel : ℕ} {previous : Sanitized} {flow : KindFlow}
    {result : Except String KindFlow} (h : applySanitizersFrom fuel previous flow = some result)
    (hall : NoSanitizeAll flow) : ∃ refined, result = .ok refined := by
  induction fuel generalizing previous flow with
  | zero => cases h
  | succ fuel ih =>
    obtain ⟨⟨sanitized, refined⟩, hround⟩ := sanitizeRound_ok hall
    rw [applySanitizersFrom, hround] at h
    dsimp only at h
    split at h
    · exact ⟨refined, (Option.some.inj h).symm⟩
    · obtain ⟨hsources, hsinks⟩ := sanitizeRound_sublist hround
      exact ih h (hall.of_sublist hsources hsinks)

/-- **`apply_sanitizers` ends on every flow and is sound**: with enough fuel it has a result, which
    is a flow unless some sanitizer holds everything, and that flow has every source and sink of
    which neither sanitizes the other. -/
theorem applySanitizers_total (flow : KindFlow) :
    ∃ rounds, ∀ fuel, rounds ≤ fuel → ∃ result, applySanitizers fuel flow = some result ∧
      (NoSanitizeAll flow → ∃ refined, result = .ok refined) ∧
      ∀ refined, result = .ok refined →
        ∀ source ∈ flow.sourceTaint, ∀ sink ∈ flow.sinkTaint,
          ¬ source.Sanitizes sink → ¬ sink.Sanitizes source →
            source ∈ refined.sourceTaint ∧ sink ∈ refined.sinkTaint := by
  obtain ⟨rounds, hrounds⟩ := applySanitizersFrom_terminates flow {}
  refine ⟨rounds, fun fuel hfuel => ?_⟩
  obtain ⟨result, hresult⟩ := hrounds fuel hfuel
  refine ⟨result, hresult, applySanitizersFrom_ok hresult, ?_⟩
  intro refined hok source hsource sink hsink hsourceSink hsinkSource
  subst hok
  exact applySanitizersFrom_keeps hresult hsource hsink hsourceSink hsinkSource

/-! ## 7. What is left at the end -/

/-- The last round changes nothing. -/
theorem applySanitizersFrom_last {fuel : ℕ} {previous : Sanitized} {flow refined : KindFlow}
    (h : applySanitizersFrom fuel previous flow = some (.ok refined))
    (hprevious : previous.Removed flow) :
    ∃ sanitized, sanitizeRound refined = .ok (sanitized, refined) ∧ sanitized.Removed refined := by
  induction fuel generalizing previous flow with
  | zero => cases h
  | succ fuel ih =>
    rw [applySanitizersFrom] at h
    cases hround : sanitizeRound flow with
    | error message =>
      rw [hround] at h
      cases h
    | ok found =>
      obtain ⟨sanitized, next⟩ := found
      rw [hround] at h
      dsimp only at h
      split at h
      · rename_i hsame
        cases h
        subst hsame
        have hself := sanitizeRound_eq_self hround hprevious
        subst hself
        exact ⟨sanitized, hround, hprevious⟩
      · exact ih h (sanitizeRound_removed hround)

/-- **What is left of a flow that does not become empty**: each sink has a source that does not
    sanitize it, each source a sink, and if one side has a single base there is a pair of which
    neither sanitizes the other. -/
theorem applySanitizers_valid (fuel : ℕ) (flow refined : KindFlow)
    (h : applySanitizers fuel flow = some (.ok refined)) (hsources : refined.sourceTaint ≠ [])
    (hsinks : refined.sinkTaint ≠ []) :
    (∀ sink ∈ refined.sinkTaint, ∃ source ∈ refined.sourceTaint, ¬ source.Sanitizes sink) ∧
    (∀ source ∈ refined.sourceTaint, ∃ sink ∈ refined.sinkTaint, ¬ sink.Sanitizes source) ∧
    ((∃ base, ∀ source ∈ refined.sourceTaint, source.sanitizedBase = base) ∨
        (∃ base, ∀ sink ∈ refined.sinkTaint, sink.sanitizedBase = base) →
      ∃ source ∈ refined.sourceTaint, ∃ sink ∈ refined.sinkTaint,
        ¬ source.Sanitizes sink ∧ ¬ sink.Sanitizes source) := by
  obtain ⟨sanitized, hround, hremoved⟩ := applySanitizersFrom_last h (Sanitized.removed_start flow)
  obtain ⟨sinkTaint, sourceTaint, hsanitizedSinks, hsinkTaint, hsanitizedSources, hsourceTaint,
    hsingleSource, -, hsingleSink, -⟩ := sanitizeRound_eq_ok hround
  rw [sanitizeTaintKinds_eq_self hremoved.sinks] at hsinkTaint
  rw [sanitizeTaintKinds_eq_self hremoved.sources] at hsourceTaint
  subst hsinkTaint hsourceTaint
  have hsink : ∀ sink ∈ refined.sinkTaint,
      ∃ source ∈ refined.sourceTaint, ¬ source.Sanitizes sink := by
    intro sink hsink
    by_contra hnone
    refine hremoved.sinks sink hsink ((mem_gatherSanitized hsanitizedSinks _).mpr
      ⟨hsources, fun source hsource => ?_⟩)
    obtain ⟨s, hs⟩ := (exists_gatherSanitized_iff _).mp ⟨_, hsanitizedSinks⟩ source hsource
    refine ⟨s, hs, (Source.mem_extractSanitizedSinks hs sink).mpr ?_⟩
    by_contra hnot
    exact hnone ⟨source, hsource, hnot⟩
  have hsource : ∀ source ∈ refined.sourceTaint,
      ∃ sink ∈ refined.sinkTaint, ¬ sink.Sanitizes source := by
    intro source hsource
    by_contra hnone
    refine hremoved.sources source hsource ((mem_gatherSanitized hsanitizedSources _).mpr
      ⟨hsinks, fun sink hsink => ?_⟩)
    obtain ⟨s, hs⟩ := (exists_gatherSanitized_iff _).mp ⟨_, hsanitizedSources⟩ sink hsink
    refine ⟨s, hs, (Sink.mem_extractSanitizedSources hs source).mpr ?_⟩
    by_contra hnot
    exact hnone ⟨sink, hsink, hnot⟩
  refine ⟨hsink, hsource, fun hbase => ?_⟩
  rcases hbase with ⟨base, hbase⟩ | ⟨base, hbase⟩
  · -- no sink left sanitizes the only base of the sources
    have hsingle := asSingleton_of_forall_eq (b := base)
      (fun h => hsources (List.map_eq_nil_iff.mp h)) (List.forall_mem_map.mpr hbase)
    obtain ⟨sink, hsinkMem⟩ := List.exists_mem_of_ne_nil _ hsinks
    obtain ⟨source, hsourceMem, hnot⟩ := hsink sink hsinkMem
    refine ⟨source, hsourceMem, sink, hsinkMem, hnot, fun hsanitizes => ?_⟩
    obtain ⟨name, hname, hmem⟩ := hsanitizes
    rw [hbase source hsourceMem] at hname
    rw [hname] at hsingle
    have hfalse := hremoved.sinksOfSource sink hsinkMem name (hsingleSource.trans hsingle)
    rw [hmem] at hfalse
    cases hfalse
  · have hsingle := asSingleton_of_forall_eq (b := base)
      (fun h => hsinks (List.map_eq_nil_iff.mp h)) (List.forall_mem_map.mpr hbase)
    obtain ⟨source, hsourceMem⟩ := List.exists_mem_of_ne_nil _ hsources
    obtain ⟨sink, hsinkMem, hnot⟩ := hsource source hsourceMem
    refine ⟨source, hsourceMem, sink, hsinkMem, fun hsanitizes => ?_, hnot⟩
    obtain ⟨name, hname, hmem⟩ := hsanitizes
    rw [hbase sink hsinkMem] at hname
    rw [hname] at hsingle
    have hfalse := hremoved.sourcesOfSink source hsourceMem name (hsingleSink.trans hsingle)
    rw [hmem] at hfalse
    cases hfalse

/-- The only source removes a sink, a sink that sanitizes it goes, and what is left sanitizes other
    kinds. -/
theorem applySanitizers_valid_bothSides :
    let source : Source := .transform [.sanitize (fromSink "X")] [] (.namedSource "A")
    let sink (sanitized name : String) : Sink :=
      .transform [.sanitize (fromSource sanitized)] [] (.namedSink name)
    applySanitizers 3 ⟨[source], [.namedSink "X", sink "A" "Y", sink "B" "Z"]⟩ =
        some (.ok ⟨[source], [sink "B" "Z"]⟩) ∧
      ∃ left ∈ [source], ∃ right ∈ [sink "B" "Z"],
        ¬ left.Sanitizes right ∧ ¬ right.Sanitizes left := by
  intro source sink
  have hrun : applySanitizers 3 ⟨[source], [.namedSink "X", sink "A" "Y", sink "B" "Z"]⟩ =
      some (.ok ⟨[source], [sink "B" "Z"]⟩) := by decide +kernel
  exact ⟨hrun, (applySanitizers_valid 3 _ _ hrun (by decide) (by decide)).2.2
    (.inl ⟨source.sanitizedBase, fun _ h => congrArg _ (List.mem_singleton.mp h)⟩)⟩

/-- Two sources and two sinks of which every pair is sanitized, each by the other side of the
    next pair: no round removes anything. -/
theorem applySanitizers_all_pairs_sanitized :
    let source (sanitized name : String) : Source :=
      .transform [.sanitize (fromSink sanitized)] [] (.namedSource name)
    let sink (sanitized name : String) : Sink :=
      .transform [.sanitize (fromSource sanitized)] [] (.namedSink name)
    let flow : KindFlow := ⟨[source "X" "A", source "Y" "B"], [sink "B" "X", sink "A" "Y"]⟩
    applySanitizers 1 flow = some (.ok flow) ∧
    ∀ source ∈ flow.sourceTaint, ∀ sink ∈ flow.sinkTaint,
      source.Sanitizes sink ∨ sink.Sanitizes source := by
  refine ⟨by decide +kernel, ?_⟩
  simp only [List.forall_mem_cons, List.not_mem_nil, false_implies, implies_true, and_true]
  exact ⟨⟨Or.inl ⟨"X", rfl, by decide⟩, Or.inr ⟨"A", rfl, by decide⟩⟩,
    Or.inr ⟨"B", rfl, by decide⟩, Or.inl ⟨"Y", rfl, by decide⟩⟩

end Pysa.Taint
