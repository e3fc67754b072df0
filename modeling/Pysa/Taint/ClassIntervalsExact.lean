/-
  Subject: UNDER SINGLE INHERITANCE THE CLASS INTERVAL FILTER IS EXACT.

  * `Hop.Runs`, `Runtime` -- the runtime classes of a chain of calls;
  * `Forest.intersect_spec` -- the interval sets of a forest are nested or apart, so an
    intersection that is not empty is the set of one of the two classes;
  * `applyCall_spec`, `applyChain_spec` -- a frame survives a chain when there are runtime classes
    for it, and then its interval is that of the class above all possible last ones;
  * `applyChain_exact` -- the same for the sets that the class hierarchy yields.
-/
import Pysa.Interprocedural.ClassIntervalSetGraphCorrect
import Pysa.Taint.ClassIntervals

namespace Pysa.Taint

open ClassHierarchyGraph ClassIntervalSetGraph

variable {graph : ClassHierarchyGraph} {sets : ClassIdMap ClassIntervalSet}

/-! ## 1. Runtime classes -/

/-- The method that the call enters runs on an object of class `k`; the call was made by a method
    that runs on an object of class `k'`. -/
structure Hop.Runs (graph : ClassHierarchyGraph) (hop : Hop) (k k' : ClassId) : Prop where
  receiver : graph.Subclass k hop.receiver
  caller : graph.Subclass k' hop.caller
  self : hop.onSelf = true → k' = k

/-- Runtime classes exist for a chain of calls, from `k` to the last one. -/
inductive Runtime (graph : ClassHierarchyGraph) : ClassId → List Hop → ClassId → Prop
  | nil (k : ClassId) : Runtime graph k [] k
  | cons {k k' last : ClassId} {hop : Hop} {rest : List Hop} :
      hop.Runs graph k k' → Runtime graph k' rest last → Runtime graph k (hop :: rest) last

theorem runtime_cons {k last : ClassId} {hop : Hop} {rest : List Hop} :
    Runtime graph k (hop :: rest) last ↔ ∃ k', hop.Runs graph k k' ∧ Runtime graph k' rest last := by
  constructor
  · intro h
    cases h with
    | cons hruns hrest => exact ⟨_, hruns, hrest⟩
  · rintro ⟨k', hruns, hrest⟩
    exact .cons hruns hrest

/-! ## 2. Intersections in a forest -/

/-- An intersection is kept when the two classes have a common subclass. It is then the set of the
    class whose subclasses are the common ones. -/
theorem intersect_spec (hforest : graph.Forest) (hsets : Encodes graph sets) {c d : ClassId}
    (hc : Rooted graph c) (hd : Rooted graph d) :
    ∃ set propagate, intersect (ofClass sets c) (ofClass sets d) = .ok (set, propagate) ∧
      (propagate = false → ¬ ∃ x, graph.Subclass x c ∧ graph.Subclass x d) ∧
      (propagate = true → ∃ x, Rooted graph x ∧ set = ofClass sets x ∧
        ∀ k, graph.Subclass k x ↔ graph.Subclass k c ∧ graph.Subclass k d) := by
  obtain ⟨set, hmeet, hnormal, hdenote⟩ :=
    ClassIntervalSet.meet_spec (hsets.normal c hc) (hsets.normal d hd)
  refine ⟨set, _, by unfold intersect; rw [hmeet]; rfl, ?_⟩
  by_cases hcommon : ∃ x, graph.Subclass x c ∧ graph.Subclass x d
  · have hnonempty : ClassIntervalSet.isEmpty set = false := by
      rw [hnormal.isEmpty_eq_false_iff, hdenote]
      exact (hsets.inter c d hc hd).mpr hcommon
    -- one of the two classes lies below the other, and its set is the intersection
    have hset : ∃ x, (x = c ∨ x = d) ∧ set = ofClass sets x ∧
        graph.Subclass x c ∧ graph.Subclass x d := by
      obtain ⟨x, hxc, hxd⟩ := hcommon
      rcases hforest.comparable hxc hxd with h | h
      · refine ⟨c, Or.inl rfl, hnormal.ext (hsets.normal c hc) ?_, .refl, h⟩
        rw [hdenote, Set.inter_eq_left]
        exact (hsets.subset d c hd hc).mpr h
      · refine ⟨d, Or.inr rfl, hnormal.ext (hsets.normal d hd) ?_, h, .refl⟩
        rw [hdenote, Set.inter_eq_right]
        exact (hsets.subset c d hc hd).mpr h
    obtain ⟨x, hx, rfl, hxc, hxd⟩ := hset
    have hequal : (ClassIntervalSet.equal (ofClass sets c) (ofClass sets x) ||
        ClassIntervalSet.equal (ofClass sets d) (ofClass sets x)) = true := by
      rw [Bool.or_eq_true, ClassIntervalSet.equal_iff, ClassIntervalSet.equal_iff]
      rcases hx with rfl | rfl
      · exact Or.inl rfl
      · exact Or.inr rfl
    have hx' : Rooted graph x := by
      rcases hx with rfl | rfl
      · exact hc
      · exact hd
    refine ⟨fun h => ?_, fun _ => ⟨x, hx', rfl, fun k => ⟨?_, ?_⟩⟩⟩
    · rw [hnonempty, hequal] at h
      cases h
    · exact fun hk => ⟨hxc.trans hk, hxd.trans hk⟩
    · rintro ⟨hkc, hkd⟩
      rcases hx with rfl | rfl
      · exact hkc
      · exact hkd
  · have hempty : ClassIntervalSet.isEmpty set = true := by
      rw [← Bool.not_eq_false, hnormal.isEmpty_eq_false_iff, hdenote]
      exact (hsets.inter c d hc hd).not.mpr hcommon
    refine ⟨fun _ => hcommon, fun h => ?_⟩
    rw [hempty] at h
    cases h

/-! ## 3. Chains -/

/-- The frame's interval is that of the class `x`, and it is no tito frame. -/
structure At (sets : ClassIdMap ClassIntervalSet) (x : ClassId) (callInfo : CallInfo) : Prop where
  interval : callInfo.classIntervals.callerInterval = ofClass sets x
  notTito : ∀ classIntervals, callInfo ≠ .tito classIntervals

/-- The outcome stands for the runtime classes in `possible`: none at all, or those below a
    class. -/
def Outcome (graph : ClassHierarchyGraph) (sets : ClassIdMap ClassIntervalSet)
    (possible : ClassId → Prop) : Option CallInfo → Prop
  | none => ∀ k, ¬ possible k
  | some callInfo => ∃ x, Rooted graph x ∧ At sets x callInfo ∧
      ∀ k, possible k ↔ graph.Subclass k x

/-- One call, for a frame with the interval of `x`. -/
theorem applyClassInterval_spec (hforest : graph.Forest) (hsets : Encodes graph sets)
    {x : ClassId} (hx : Rooted graph x) {hop : Hop} (hcaller : Rooted graph hop.caller)
    (hreceiver : Rooted graph hop.receiver) :
    ∃ result, applyClassInterval (ofClass sets x) false hop.isClassMethod
        (hop.callInfoIntervals sets) = .ok result ∧
      (result = none → ∀ k', ¬ ∃ k, graph.Subclass k x ∧ hop.Runs graph k k') ∧
      ∀ intervals, result = some intervals → ∃ x', Rooted graph x' ∧
        intervals.callerInterval = ofClass sets x' ∧
        ∀ k', (∃ k, graph.Subclass k x ∧ hop.Runs graph k k') ↔ graph.Subclass k' x' := by
  obtain ⟨set, propagate, hrun, hnone, hsome⟩ := intersect_spec hforest hsets hx hreceiver
  have hstep : applyClassInterval (ofClass sets x) false hop.isClassMethod
      (hop.callInfoIntervals sets) =
      intersect (ofClass sets x) (ofClass sets hop.receiver) >>= fun meet =>
        if !meet.2 then .ok none
        else if hop.onSelf then
          intersect meet.1 (ofClass sets hop.caller) >>= fun meet =>
            if !meet.2 then .ok none
            else .ok (some { hop.callInfoIntervals sets with callerInterval := meet.1 })
        else .ok (some (hop.callInfoIntervals sets)) := rfl
  rw [hstep, hrun]
  cases propagate with
  | false =>
    refine ⟨none, rfl, fun _ k' => ?_, fun _ h => by cases h⟩
    rintro ⟨k, hk, hruns⟩
    exact hnone rfl ⟨k, hk, hruns.receiver⟩
  | true =>
    obtain ⟨y, hy, rfl, hbelow⟩ := hsome rfl
    by_cases hself : hop.onSelf = true
    · -- the same object: the caller's interval is imposed too
      obtain ⟨set', propagate', hrun', hnone', hsome'⟩ := intersect_spec hforest hsets hy hcaller
      have hpossible (k' : ClassId) : (∃ k, graph.Subclass k x ∧ hop.Runs graph k k') ↔
          graph.Subclass k' y ∧ graph.Subclass k' hop.caller := by
        constructor
        · rintro ⟨k, hk, hruns⟩
          obtain rfl := hruns.self hself
          exact ⟨(hbelow k').mpr ⟨hk, hruns.receiver⟩, hruns.caller⟩
        · rintro ⟨hky, hcaller⟩
          obtain ⟨hkx, hreceiver⟩ := (hbelow k').mp hky
          exact ⟨k', hkx, hreceiver, hcaller, fun _ => rfl⟩
      cases propagate' with
      | false =>
        refine ⟨none, ?_, fun _ k' h => hnone' rfl ⟨k', (hpossible k').mp h⟩,
          fun _ h => by cases h⟩
        change (if hop.onSelf then intersect (ofClass sets y) (ofClass sets hop.caller) >>= _
          else _) = _
        rw [if_pos hself, hrun']
        rfl
      | true =>
        obtain ⟨z, hz, rfl, hbelow'⟩ := hsome' rfl
        refine ⟨some { hop.callInfoIntervals sets with callerInterval := ofClass sets z }, ?_,
          (fun h => by cases h), ?_⟩
        · change (if hop.onSelf then intersect (ofClass sets y) (ofClass sets hop.caller) >>= _
            else _) = _
          rw [if_pos hself, hrun']
          rfl
        · rintro intervals ⟨⟩
          exact ⟨z, hz, rfl, fun k' => (hpossible k').trans (hbelow' k').symm⟩
    · -- another object: every subclass of the caller's class may run
      refine ⟨some (hop.callInfoIntervals sets), ?_, (fun h => by cases h), ?_⟩
      · change (if hop.onSelf then _ else _) = _
        rw [if_neg hself]
      · rintro intervals ⟨⟩
        refine ⟨hop.caller, hcaller, rfl, fun k' => ⟨?_, fun hk' => ?_⟩⟩
        · rintro ⟨k, -, hruns⟩
          exact hruns.caller
        · obtain ⟨hyx, hyreceiver⟩ := (hbelow y).mp .refl
          exact ⟨y, hyx, hyreceiver, hk', fun h => absurd h hself⟩

theorem applyCall_spec (hforest : graph.Forest) (hsets : Encodes graph sets) {x : ClassId}
    (hx : Rooted graph x) {callInfo : CallInfo} (hat : At sets x callInfo) {hop : Hop}
    (hcaller : Rooted graph hop.caller) (hreceiver : Rooted graph hop.receiver) :
    ∃ result, applyCall hop.callee hop.isClassMethod false (hop.callInfoIntervals sets) callInfo =
        .ok result ∧
      Outcome graph sets (fun k' => ∃ k, graph.Subclass k x ∧ hop.Runs graph k k') result := by
  obtain ⟨result, hrun, hnone, hsome⟩ :=
    applyClassInterval_spec hforest hsets hx hcaller hreceiver
  rw [← hat.interval] at hrun
  have hcall : callClassIntervals hop.callee hop.isClassMethod false (hop.callInfoIntervals sets)
      callInfo = .ok result := by
    rcases hop.isMethod with h | h
    · rw [h]
      exact hrun
    · rw [h]
      exact hrun
  unfold applyCall
  rw [hcall]
  cases result with
  | none => exact ⟨none, rfl, hnone rfl⟩
  | some intervals =>
    obtain ⟨x', hx', hinterval, hpossible⟩ := hsome intervals rfl
    cases callInfo with
    | tito classIntervals => exact absurd rfl (hat.notTito classIntervals)
    | declaration => exact ⟨_, rfl, x', hx', ⟨hinterval, fun _ h => by cases h⟩, hpossible⟩
    | origin _ => exact ⟨_, rfl, x', hx', ⟨hinterval, fun _ h => by cases h⟩, hpossible⟩
    | callSite _ => exact ⟨_, rfl, x', hx', ⟨hinterval, fun _ h => by cases h⟩, hpossible⟩
    | overrideCall _ => exact ⟨_, rfl, x', hx', ⟨hinterval, fun _ h => by cases h⟩, hpossible⟩

/-- A chain of calls, for a frame with the interval of `x`. -/
theorem applyChain_spec (hforest : graph.Forest) (hsets : Encodes graph sets) (hops : List Hop)
    (hhops : ∀ hop ∈ hops, Rooted graph hop.caller ∧ Rooted graph hop.receiver)
    {x : ClassId} (hx : Rooted graph x) {callInfo : CallInfo} (hat : At sets x callInfo) :
    ∃ result, applyChain sets hops callInfo = .ok result ∧
      Outcome graph sets (fun last => ∃ k, graph.Subclass k x ∧ Runtime graph k hops last)
        result := by
  induction hops generalizing x callInfo with
  | nil =>
    refine ⟨some callInfo, rfl, x, hx, hat, fun k => ⟨?_, fun hk => ⟨k, hk, .nil k⟩⟩⟩
    rintro ⟨k', hk', hrun⟩
    cases hrun
    exact hk'
  | cons hop rest ih =>
    obtain ⟨hcaller, hreceiver⟩ := hhops hop List.mem_cons_self
    obtain ⟨result, hcall, houtcome⟩ := applyCall_spec hforest hsets hx hat hcaller hreceiver
    have hpossible (last : ClassId) :
        (∃ k, graph.Subclass k x ∧ Runtime graph k (hop :: rest) last) ↔
          ∃ k', (∃ k, graph.Subclass k x ∧ hop.Runs graph k k') ∧ Runtime graph k' rest last := by
      constructor
      · rintro ⟨k, hk, hrun⟩
        obtain ⟨k', hruns, hrest⟩ := runtime_cons.mp hrun
        exact ⟨k', ⟨k, hk, hruns⟩, hrest⟩
      · rintro ⟨k', ⟨k, hk, hruns⟩, hrest⟩
        exact ⟨k, hk, .cons hruns hrest⟩
    unfold applyChain
    rw [hcall]
    cases result with
    | none =>
      refine ⟨none, rfl, fun last h => ?_⟩
      obtain ⟨k', hk', -⟩ := (hpossible last).mp h
      exact houtcome k' hk'
    | some callInfo' =>
      obtain ⟨x', hx', hat', hbelow⟩ := houtcome
      obtain ⟨result, hrest, houtcome'⟩ :=
        ih (fun hop hhop => hhops hop (List.mem_cons_of_mem _ hhop)) hx' hat'
      refine ⟨result, hrest, ?_⟩
      simp only [hpossible, hbelow]
      exact houtcome'

/-- **Under single inheritance a frame survives a chain of calls exactly when there are runtime
    classes for it, and the interval it keeps is that of the possible last ones.** -/
theorem applyChain_exact (hforest : graph.Forest) :
    ∃ sets, fromClassHierarchy graph = .ok sets ∧
      ∀ (hops : List Hop) (c₀ : ClassId) (callInfo : CallInfo), Rooted graph c₀ →
        (∀ hop ∈ hops, Rooted graph hop.caller ∧ Rooted graph hop.receiver) →
        (∀ classIntervals, callInfo ≠ .tito classIntervals) →
        callInfo.classIntervals.callerInterval = ofClass sets c₀ →
        ∃ result, applyChain sets hops callInfo = .ok result ∧
          (result.isSome = true ↔
            ∃ k₀ kₙ, graph.Subclass k₀ c₀ ∧ Runtime graph k₀ hops kₙ) ∧
          ∀ kept, result = some kept → ∃ x,
            kept.classIntervals.callerInterval = ofClass sets x ∧
            ∀ kₙ, (∃ k₀, graph.Subclass k₀ c₀ ∧ Runtime graph k₀ hops kₙ) ↔
              graph.Subclass kₙ x := by
  have hapart : RootsApart graph := rootsApart_of_roots hforest.roots
  obtain ⟨sets, hrun, hsets⟩ := fromClassHierarchy_encodes hforest.acyclic hapart
  refine ⟨sets, hrun, fun hops c₀ callInfo hc₀ hhops htito hinterval => ?_⟩
  obtain ⟨result, hchain, houtcome⟩ :=
    applyChain_spec hforest hsets hops hhops hc₀ ⟨hinterval, htito⟩
  refine ⟨result, hchain, ?_, ?_⟩
  · cases result with
    | none =>
      refine iff_of_false Bool.false_ne_true ?_
      rintro ⟨k₀, kₙ, h⟩
      exact houtcome kₙ ⟨k₀, h⟩
    | some kept =>
      obtain ⟨x, -, -, hbelow⟩ := houtcome
      obtain ⟨k₀, h⟩ := (hbelow x).mpr .refl
      exact iff_of_true rfl ⟨k₀, x, h⟩
  · rintro kept rfl
    obtain ⟨x, -, hat, hbelow⟩ := houtcome
    exact ⟨x, hat.interval, hbelow⟩

/-- A class and its subclass. -/
def parentAndChild : ClassHierarchyGraph := ClassHierarchyGraph.empty.add ⟨0, 0⟩ ⟨0, 1⟩

theorem child_parentAndChild {a b : ClassId} :
    parentAndChild.Child a b ↔ a = ⟨0, 0⟩ ∧ b = ⟨0, 1⟩ :=
  child_add.trans (or_iff_right (child_empty a b))

theorem parentAndChild_forest : parentAndChild.Forest where
  acyclic := acyclic_of_lt fun a b h => by
    obtain ⟨rfl, rfl⟩ := child_parentAndChild.mp h
    decide
  parent h h' := (child_parentAndChild.mp h).1.trans (child_parentAndChild.mp h').1.symm
  roots := (Built.add _ _ Built.empty).roots.2

/-- A method of the parent calls, on `self`, one that the child declares. -/
theorem applyChain_exact_selfCall :
    ∃ sets, fromClassHierarchy parentAndChild = .ok sets ∧ ∃ kept,
      applyChain sets [⟨.method, Or.inl rfl, false, ⟨0, 0⟩, ⟨0, 0⟩, true, false⟩]
        (.origin { ClassIntervals.top with callerInterval := ofClass sets ⟨0, 1⟩ }) =
          .ok (some kept) := by
  obtain ⟨sets, hrun, hchain⟩ := applyChain_exact parentAndChild_forest
  have hroot : Rooted parentAndChild ⟨0, 0⟩ := ⟨⟨0, 0⟩, by decide, .refl⟩
  have hsub : parentAndChild.Subclass ⟨0, 1⟩ ⟨0, 0⟩ := .single (by decide)
  obtain ⟨result, hresult, hsurvives, -⟩ :=
    hchain [⟨.method, Or.inl rfl, false, ⟨0, 0⟩, ⟨0, 0⟩, true, false⟩] ⟨0, 1⟩
      (.origin { ClassIntervals.top with callerInterval := ofClass sets ⟨0, 1⟩ })
      ⟨⟨0, 0⟩, by decide, hsub⟩ (by simpa using hroot) (fun _ h => by cases h) rfl
  have hruns : Runtime parentAndChild ⟨0, 1⟩
      [⟨.method, Or.inl rfl, false, ⟨0, 0⟩, ⟨0, 0⟩, true, false⟩] ⟨0, 1⟩ :=
    .cons ⟨hsub, hsub, fun _ => rfl⟩ (.nil _)
  obtain ⟨kept, rfl⟩ := Option.isSome_iff_exists.mp (hsurvives.mpr ⟨_, _, .refl, hruns⟩)
  exact ⟨sets, hrun, kept, hresult⟩

end Pysa.Taint
