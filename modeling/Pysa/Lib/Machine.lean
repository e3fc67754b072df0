/-
  Subject: RUNS OF OPERATIONS that answer, change a state and may fail. Nothing here names the
    analyser.

  * `Machine.run` -- the answers of a list of operations, and the last state;
  * `Machine.Admissible` -- each operation is allowed in the state in which it is made;
  * `Machine.Simulates.run` -- a machine that answers as another one from related states answers
    alike over a run.
-/
import Mathlib.Logic.Basic

namespace Pysa

universe u v w x

/-- An operation answers and changes the state, or it fails. -/
abbrev Machine (Op : Type u) (Answer : Type v) (State : Type w) :=
  Op → State → Except String (Answer × State)

namespace Machine

variable {Op : Type u} {Answer : Type v} {State : Type w} {Abstract : Type x}

def run (step : Machine Op Answer State) : List Op → State → Except String (List Answer × State)
  | [], state => .ok ([], state)
  | op :: rest, state =>
    match step op state with
    | .error e => .error e
    | .ok (answer, state) =>
      match run step rest state with
      | .error e => .error e
      | .ok (answers, state) => .ok (answer :: answers, state)

theorem run_cons {step : Machine Op Answer State} {op : Op} {rest : List Op} {state next last : State}
    {answer : Answer} {answers : List Answer} (h : step op state = .ok (answer, next))
    (hrest : run step rest next = .ok (answers, last)) :
    run step (op :: rest) state = .ok (answer :: answers, last) := by
  rw [run, h]
  dsimp only
  rw [hrest]

/-- Each operation of the list is allowed in the state in which it is made. -/
def Admissible (step : Machine Op Answer State) (allowed : State → Op → Prop) :
    List Op → State → Prop
  | [], _ => True
  | op :: rest, state => allowed state op ∧
      ∀ answer next, step op state = .ok (answer, next) → Admissible step allowed rest next

theorem Admissible.cons {step : Machine Op Answer State} {allowed : State → Op → Prop} {op : Op}
    {rest : List Op} {state next : State} {answer : Answer} (h : allowed state op)
    (hstep : step op state = .ok (answer, next)) (hrest : Admissible step allowed rest next) :
    Admissible step allowed (op :: rest) state := by
  refine ⟨h, fun answer' next' hstep' => ?_⟩
  rw [hstep] at hstep'
  cases hstep'
  exact hrest

theorem Admissible.mono {step : Machine Op Answer State} {allowed allowed' : State → Op → Prop}
    (hmono : ∀ state op, allowed state op → allowed' state op) {ops : List Op} {state : State}
    (h : Admissible step allowed ops state) : Admissible step allowed' ops state := by
  induction ops generalizing state with
  | nil => trivial
  | cons op rest ih =>
    exact ⟨hmono state op h.1, fun answer next hstep => ih (h.2 answer next hstep)⟩

theorem Admissible.and {step : Machine Op Answer State} {allowed allowed' : State → Op → Prop}
    {ops : List Op} {state : State} (h : Admissible step allowed ops state)
    (h' : Admissible step allowed' ops state) :
    Admissible step (fun state op => allowed state op ∧ allowed' state op) ops state := by
  induction ops generalizing state with
  | nil => trivial
  | cons op rest ih =>
    exact ⟨⟨h.1, h'.1⟩, fun answer next hstep => ih (h.2 answer next hstep) (h'.2 answer next hstep)⟩

/-- Every allowed operation succeeds, and preserves the invariant. -/
def Preserves (step : Machine Op Answer State) (allowed : State → Op → Prop)
    (invariant : State → Prop) : Prop :=
  ∀ state op, invariant state → allowed state op →
    ∃ answer next, step op state = .ok (answer, next) ∧ invariant next

/-- What each allowed operation preserves holds after a run of them. -/
theorem Preserves.run {step : Machine Op Answer State} {allowed : State → Op → Prop}
    {invariant : State → Prop} (h : Preserves step allowed invariant) {ops : List Op}
    {state : State} (hstate : invariant state) (hops : Admissible step allowed ops state) :
    ∃ answers last, step.run ops state = .ok (answers, last) ∧ invariant last := by
  induction ops generalizing state with
  | nil => exact ⟨[], state, rfl, hstate⟩
  | cons op rest ih =>
    obtain ⟨hallowed, hrest⟩ := hops
    obtain ⟨answer, next, hstep, hnext⟩ := h state op hstate hallowed
    obtain ⟨answers, last, hrun, hlast⟩ := ih hnext (hrest answer next hstep)
    exact ⟨answer :: answers, last, run_cons hstep hrun, hlast⟩

/-- From related states, when the first machine makes an allowed operation, the second one gives
    the same answer, and the next states are related. -/
def Simulates (step : Machine Op Answer State) (abstract : Machine Op Answer Abstract)
    (allowed : State → Op → Prop) (related : State → Abstract → Prop) : Prop :=
  ∀ state model op answer next, related state model → allowed state op →
    step op state = .ok (answer, next) →
    ∃ model', abstract op model = .ok (answer, model') ∧ related next model'

/-- A run of the first machine is answered alike by the second one. -/
theorem Simulates.run {step : Machine Op Answer State} {abstract : Machine Op Answer Abstract}
    {allowed : State → Op → Prop} {related : State → Abstract → Prop}
    (h : Simulates step abstract allowed related) {ops : List Op} {state last : State}
    {model : Abstract} {answers : List Answer} (hrelated : related state model)
    (hops : Admissible step allowed ops state) (hrun : step.run ops state = .ok (answers, last)) :
    ∃ model', abstract.run ops model = .ok (answers, model') ∧ related last model' := by
  induction ops generalizing state model answers with
  | nil =>
    cases hrun
    exact ⟨model, rfl, hrelated⟩
  | cons op rest ih =>
    rw [Machine.run] at hrun
    cases hstep : step op state with
    | error e =>
      rw [hstep] at hrun
      cases hrun
    | ok first =>
      obtain ⟨answer, next⟩ := first
      rw [hstep] at hrun
      dsimp only at hrun
      cases hrest : step.run rest next with
      | error e =>
        rw [hrest] at hrun
        cases hrun
      | ok second =>
        rw [hrest] at hrun
        cases hrun
        obtain ⟨hallowed, hadmissible⟩ := hops
        obtain ⟨model', habstract, hnext⟩ := h _ _ _ _ _ hrelated hallowed hstep
        obtain ⟨model'', hmodel, hlast⟩ := ih hnext (hadmissible _ _ hstep) hrest
        exact ⟨model'', run_cons habstract hmodel, hlast⟩

end Machine

end Pysa
