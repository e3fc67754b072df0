/-
  Subject: RUNS THAT ARE GIVEN UP WHEN A KEY COMES BACK. Nothing here names the analyser.

  * `Outcome`, `Step`, `Answers` -- a step goes on to another state, answers, or fails;
  * `Comes`, `Repeats` -- what the steps do: they come to an answer; they pass one key twice;
  * `run` -- the steps under a guard: the keys of the states that were passed are remembered, and
    the run is given up at a state whose key is among them;
  * `run_returns` -- a run ends when every step shrinks the state or uses up a new key of a finite
    set;
  * `answers_iff` -- **the run answers what the steps come to, unless they pass a key twice**.
-/
import Mathlib.Data.Finset.Card
import Mathlib.Data.Finset.SDiff
import Mathlib.Logic.Relation

namespace Pysa

universe u v w

namespace GuardedRun

/-- What a step does. -/
inductive Outcome (State : Type u) (Answer : Type w) where
  | next (state : State)
  | answer (value : Answer)
  | fail

variable {State : Type u} {Key : Type v} {Answer : Type w}
variable (step : State → Outcome State Answer) (key : State → Option Key)

/-! ## 1. Steps without the guard -/

def Step (state state' : State) : Prop := step state = .next state'

/-- The steps from `state` come to `value`. -/
def Comes (state : State) (value : Answer) : Prop :=
  ∃ last, Relation.ReflTransGen (Step step) state last ∧ step last = .answer value

/-- The steps from `state` come to a state with the key `k`. -/
def Passes (state : State) (k : Key) : Prop :=
  ∃ state', Relation.ReflTransGen (Step step) state state' ∧ key state' = some k

/-- The steps from `state` pass one key twice. -/
def Repeats (state : State) : Prop :=
  ∃ first second k, Relation.ReflTransGen (Step step) state first ∧ key first = some k ∧
    Step step first second ∧ Passes step key second k

variable {step key} {state state' : State} {value : Answer}

theorem comes_of_step (h : Step step state state') :
    Comes step state value ↔ Comes step state' value := by
  constructor
  · intro hcomes
    obtain ⟨last, hreach, hlast⟩ := hcomes
    rcases Relation.ReflTransGen.cases_head hreach with rfl | ⟨middle, hmiddle, hreach⟩
    · rw [show step state = _ from h] at hlast
      cases hlast
    · have heq : Outcome.next middle = .next state' := (hmiddle.symm.trans h :)
      cases heq
      exact ⟨last, hreach, hlast⟩
  · intro hcomes
    obtain ⟨last, hreach, hlast⟩ := hcomes
    exact ⟨last, hreach.head h, hlast⟩

theorem passes_iff {k : Key} (h : Step step state state') :
    Passes step key state k ↔ key state = some k ∨ Passes step key state' k := by
  constructor
  · intro hpasses
    obtain ⟨last, hreach, hlast⟩ := hpasses
    rcases Relation.ReflTransGen.cases_head hreach with rfl | ⟨middle, hmiddle, hreach⟩
    · exact Or.inl hlast
    · have heq : Outcome.next middle = .next state' := (hmiddle.symm.trans h :)
      cases heq
      exact Or.inr ⟨last, hreach, hlast⟩
  · intro hpasses
    rcases hpasses with hkey | ⟨last, hreach, hlast⟩
    · exact ⟨state, .refl, hkey⟩
    · exact ⟨last, hreach.head h, hlast⟩

theorem repeats_iff (h : Step step state state') :
    Repeats step key state ↔
      (∃ k, key state = some k ∧ Passes step key state' k) ∨ Repeats step key state' := by
  constructor
  · intro hrepeats
    obtain ⟨first, second, k, hreach, hkey, hsecond, hpasses⟩ := hrepeats
    rcases Relation.ReflTransGen.cases_head hreach with rfl | ⟨middle, hmiddle, hreach⟩
    · have heq : Outcome.next second = .next state' := (hsecond.symm.trans h :)
      cases heq
      exact Or.inl ⟨k, hkey, hpasses⟩
    · have heq : Outcome.next middle = .next state' := (hmiddle.symm.trans h :)
      cases heq
      exact Or.inr ⟨first, second, k, hreach, hkey, hsecond, hpasses⟩
  · intro hrepeats
    rcases hrepeats with ⟨k, hkey, hpasses⟩ | ⟨first, second, k, hreach, hkey, hsecond, hpasses⟩
    · exact ⟨state, state', k, .refl, hkey, h, hpasses⟩
    · exact ⟨first, second, k, hreach.head h, hkey, hsecond, hpasses⟩

theorem passes_last {k : Key} (h : step state = .answer value) :
    Passes step key state k ↔ key state = some k := by
  constructor
  · intro hpasses
    obtain ⟨last, hreach, hlast⟩ := hpasses
    rcases Relation.ReflTransGen.cases_head hreach with rfl | ⟨middle, hmiddle, -⟩
    · exact hlast
    · cases h.symm.trans hmiddle
  · exact fun hkey => ⟨state, .refl, hkey⟩

theorem not_repeats_last (h : step state = .answer value) : ¬ Repeats step key state := by
  intro hrepeats
  obtain ⟨first, second, k, hreach, -, hsecond, -⟩ := hrepeats
  rcases Relation.ReflTransGen.cases_head hreach with rfl | ⟨middle, hmiddle, -⟩
  · cases h.symm.trans hsecond
  · cases h.symm.trans hmiddle

/-! ## 2. The guard -/

section Guard

variable [DecidableEq Key] {visited : Finset Key}

/-- The keys after a state was passed; nothing if its key is among them. -/
def remember (key : State → Option Key) (visited : Finset Key) (state : State) : Option (Finset Key) :=
  match key state with
  | none => some visited
  | some k => if k ∈ visited then none else some (insert k visited)

/-- A run with fuel: it answers, or it is given up. -/
def run (step : State → Outcome State Answer) (key : State → Option Key) :
    ℕ → Finset Key → State → Option (Option Answer)
  | 0, _, _ => none
  | fuel + 1, visited, state =>
    match remember key visited state with
    | none => some none
    | some visited =>
      match step state with
      | .next state => run step key fuel visited state
      | .answer value => some (some value)
      | .fail => some none

/-- Some amount of fuel is enough for the run to answer `value`. -/
def Answers (step : State → Outcome State Answer) (key : State → Option Key)
    (visited : Finset Key) (state : State) (value : Answer) : Prop :=
  ∃ fuel, run step key fuel visited state = some (some value)

theorem remember_eq_some {visited' : Finset Key} (h : remember key visited state = some visited') :
    (∀ k, key state = some k → k ∉ visited) ∧
      ∀ k, k ∈ visited' ↔ k ∈ visited ∨ key state = some k := by
  unfold remember at h
  cases hkey : key state with
  | none =>
    rw [hkey] at h
    cases h
    simp
  | some k =>
    rw [hkey] at h
    dsimp only at h
    split at h
    · cases h
    · rename_i hnew
      cases h
      refine ⟨fun k' hk' => Option.some.inj hk' ▸ hnew, fun k' => ?_⟩
      rw [Finset.mem_insert, Option.some_inj, eq_comm, or_comm]

theorem remember_eq_none (h : remember key visited state = none) :
    ∃ k ∈ visited, key state = some k := by
  unfold remember at h
  cases hkey : key state with
  | none =>
    rw [hkey] at h
    cases h
  | some k =>
    rw [hkey] at h
    dsimp only at h
    split at h
    · rename_i hmem
      exact ⟨k, hmem, rfl⟩
    · cases h

/-- A run that has ended ends alike with more fuel. -/
theorem run_mono {fuel fuel' : ℕ} (hle : fuel ≤ fuel') {answer : Option Answer}
    (h : run step key fuel visited state = some answer) :
    run step key fuel' visited state = some answer := by
  induction fuel generalizing fuel' visited state with
  | zero => cases h
  | succ fuel ih =>
    obtain ⟨fuel', rfl⟩ := Nat.exists_eq_succ_of_ne_zero (Nat.ne_of_gt (Nat.zero_lt_of_lt hle))
    rw [run] at h
    rw [Nat.succ_eq_add_one, run]
    cases hrem : remember key visited state with
    | none =>
      rw [hrem] at h
      exact h
    | some visited' =>
      rw [hrem] at h
      dsimp only at h ⊢
      cases hstep : step state with
      | next state' =>
        rw [hstep] at h
        exact ih (Nat.le_of_succ_le_succ hle) h
      | answer value =>
        rw [hstep] at h
        exact h
      | fail =>
        rw [hstep] at h
        exact h

theorem run_of_remember_none (h : remember key visited state = none) (fuel : ℕ) :
    run step key (fuel + 1) visited state = some none := by
  rw [run, h]

theorem run_of_step {visited' : Finset Key} (h : remember key visited state = some visited')
    (hstep : Step step state state') (fuel : ℕ) :
    run step key (fuel + 1) visited state = run step key fuel visited' state' := by
  rw [run, h]
  dsimp only
  rw [show step state = _ from hstep]

/-- What the guard lets through: no key is seen that was visited before, and none twice. -/
structure Open (step : State → Outcome State Answer) (key : State → Option Key)
    (visited : Finset Key) (state : State) : Prop where
  fresh : ∀ k, Passes step key state k → k ∉ visited
  once : ¬ Repeats step key state

theorem open_of_step {visited' : Finset Key} (hrem : remember key visited state = some visited')
    (h : Step step state state') :
    Open step key visited state ↔ Open step key visited' state' := by
  obtain ⟨hnew, hmem⟩ := remember_eq_some hrem
  constructor
  · intro hopen
    have honce := mt (repeats_iff h).mpr hopen.once
    refine ⟨fun k hpasses hk => ?_, fun hrepeats => honce (Or.inr hrepeats)⟩
    rcases (hmem k).mp hk with hk | hk
    · exact hopen.fresh k ((passes_iff h).mpr (Or.inr hpasses)) hk
    · exact honce (Or.inl ⟨k, hk, hpasses⟩)
  · intro hopen
    constructor
    · intro k hpasses
      rcases (passes_iff h).mp hpasses with hk | hpasses
      · exact hnew k hk
      · exact fun hk => hopen.fresh k hpasses ((hmem k).mpr (Or.inl hk))
    · intro hrepeats
      rcases (repeats_iff h).mp hrepeats with ⟨k, hk, hpasses⟩ | hrepeats
      · exact hopen.fresh k hpasses ((hmem k).mpr (Or.inr hk))
      · exact hopen.once hrepeats

theorem comes_of_run {fuel : ℕ} (h : run step key fuel visited state = some (some value)) :
    Comes step state value ∧ Open step key visited state := by
  induction fuel generalizing visited state with
  | zero => cases h
  | succ fuel ih =>
    rw [run] at h
    cases hrem : remember key visited state with
    | none =>
      rw [hrem] at h
      cases h
    | some visited' =>
      rw [hrem] at h
      dsimp only at h
      cases hstep : step state with
      | next state' =>
        rw [hstep] at h
        obtain ⟨hcomes, hopen⟩ := ih h
        exact ⟨(comes_of_step hstep).mpr hcomes, (open_of_step hrem hstep).mpr hopen⟩
      | answer value' =>
        rw [hstep] at h
        cases h
        refine ⟨⟨state, .refl, hstep⟩, fun k hpasses => ?_, not_repeats_last hstep⟩
        exact (remember_eq_some hrem).1 k ((passes_last hstep).mp hpasses)
      | fail =>
        rw [hstep] at h
        cases h

theorem run_of_comes (h : Comes step state value) (hopen : Open step key visited state) :
    Answers step key visited state value := by
  obtain ⟨last, hreach, hlast⟩ := h
  induction hreach using Relation.ReflTransGen.head_induction_on generalizing visited with
  | refl =>
    cases hrem : remember key visited last with
    | none =>
      obtain ⟨k, hk, hkey⟩ := remember_eq_none hrem
      exact absurd hk (hopen.fresh k ⟨last, .refl, hkey⟩)
    | some visited' =>
      refine ⟨1, ?_⟩
      rw [run, hrem]
      dsimp only
      rw [hlast]
  | @head state middle hstep hreach ih =>
    cases hrem : remember key visited state with
    | none =>
      obtain ⟨k, hk, hkey⟩ := remember_eq_none hrem
      exact absurd hk (hopen.fresh k ⟨state, .refl, hkey⟩)
    | some visited' =>
      obtain ⟨fuel, hrun⟩ := ih ((open_of_step hrem hstep).mp hopen)
      exact ⟨fuel + 1, (run_of_step hrem hstep fuel).trans hrun⟩

/-- The guarded run answers what the steps come to if they pass no key twice, and nothing else. -/
theorem answers_iff :
    Answers step key ∅ state value ↔ Comes step state value ∧ ¬ Repeats step key state := by
  constructor
  · intro h
    obtain ⟨fuel, hrun⟩ := h
    obtain ⟨hcomes, hopen⟩ := comes_of_run hrun
    exact ⟨hcomes, hopen.once⟩
  · intro h
    exact run_of_comes h.1 ⟨fun k _ => Finset.notMem_empty k, h.2⟩

/-! ## 3. Every run ends -/

/-- A step that uses up no key shrinks the state, and no step makes it larger. -/
structure Shrinks (step : State → Outcome State Answer) (key : State → Option Key)
    (invariant : State → Prop) (keys : Finset Key) (size : State → ℕ) : Prop where
  keeps : ∀ state state', invariant state → Step step state state' → invariant state'
  mem : ∀ state k, invariant state → key state = some k → k ∈ keys
  le : ∀ state state', invariant state → Step step state state' → size state' ≤ size state
  lt : ∀ state state', invariant state → Step step state state' → key state = none →
    size state' < size state

theorem measure_lt {invariant : State → Prop} {keys : Finset Key} {size : State → ℕ}
    (h : Shrinks step key invariant keys size) (hstate : invariant state)
    {visited' : Finset Key} (hrem : remember key visited state = some visited')
    (hstep : Step step state state') :
    (keys \ visited').card + size state' < (keys \ visited).card + size state := by
  have hsize := h.le state state' hstate hstep
  cases hkey : key state with
  | none =>
    have hshrinks := h.lt state state' hstate hstep hkey
    have hsame : visited' = visited := by
      rw [remember, hkey] at hrem
      exact (Option.some.inj hrem).symm
    rw [hsame]
    omega
  | some k =>
    have hnew := (remember_eq_some hrem).1 k hkey
    have hsame : visited' = insert k visited := by
      rw [remember, hkey] at hrem
      dsimp only at hrem
      rw [if_neg hnew] at hrem
      exact (Option.some.inj hrem).symm
    have hcard : (keys \ visited').card < (keys \ visited).card := by
      rw [hsame]
      refine Finset.card_lt_card ⟨?_, fun hsub => ?_⟩
      · exact Finset.sdiff_subset_sdiff le_rfl (Finset.subset_insert k visited)
      · have hk : k ∈ keys \ visited :=
          Finset.mem_sdiff.mpr ⟨h.mem state k hstate hkey, hnew⟩
        exact (Finset.mem_sdiff.mp (hsub hk)).2 (Finset.mem_insert_self k visited)
    omega

theorem run_returns {invariant : State → Prop} {keys : Finset Key} {size : State → ℕ}
    (visited : Finset Key) (h : Shrinks step key invariant keys size) (hstate : invariant state) :
    ∃ answer, ∀ fuel, (keys \ visited).card + size state < fuel →
      run step key fuel visited state = some answer := by
  suffices hreturns : ∃ answer,
      run step key ((keys \ visited).card + size state + 1) visited state = some answer by
    obtain ⟨answer, hrun⟩ := hreturns
    exact ⟨answer, fun fuel hfuel => run_mono hfuel hrun⟩
  induction hmeasure : (keys \ visited).card + size state using Nat.strong_induction_on
    generalizing visited state with
  | _ measure ih =>
    cases hrem : remember key visited state with
    | none => exact ⟨none, run_of_remember_none hrem measure⟩
    | some visited' =>
      cases hstep : step state with
      | next state' =>
        have hlt := hmeasure ▸ measure_lt h hstate hrem hstep
        obtain ⟨answer, hrun⟩ := ih _ hlt visited' (h.keeps state state' hstate hstep) rfl
        exact ⟨answer, (run_of_step hrem hstep measure).trans (run_mono hlt hrun)⟩
      | answer value =>
        refine ⟨some value, ?_⟩
        rw [run, hrem]
        dsimp only
        rw [hstep]
      | fail =>
        refine ⟨none, ?_⟩
        rw [run, hrem]
        dsimp only
        rw [hstep]

end Guard

end GuardedRun

end Pysa
