/-
  Subject: COMPUTATIONS THAT ASK FOR VALUES, one after the other, each question depending on the
    answers before it. Nothing here names the analyser.

  * `Query.asked` -- the keys that are asked for;
  * `Query.eval_congr` -- the result depends on the answers to these only;
  * `Query.run_spec` -- a run whose reads answer as a table gives what the table gives.
-/
import Mathlib.Data.List.Basic

namespace Pysa

universe u v w x

inductive Query (K : Type u) (V : Type v) (A : Type w) where
  | answer (result : A)
  | ask (key : K) (next : V → Query K V A)

namespace Query

variable {K : Type u} {V : Type v} {A : Type w} {S : Type x}

def eval (view : K → V) : Query K V A → A
  | answer result => result
  | ask key next => eval view (next (view key))

def asked (view : K → V) : Query K V A → List K
  | answer _ => []
  | ask key next => key :: asked view (next (view key))

/-- Answers are read from a state, which a read may change. -/
def run (read : K → S → V × S) : Query K V A → S → A × S
  | answer result, state => (result, state)
  | ask key next, state => run read (next (read key state).1) (read key state).2

/-- Only the answers to the keys that are asked for matter. -/
theorem eval_congr {view view' : K → V} {query : Query K V A}
    (h : ∀ key ∈ query.asked view, view' key = view key) :
    query.eval view' = query.eval view ∧ query.asked view' = query.asked view := by
  induction query with
  | answer result => exact ⟨rfl, rfl⟩
  | ask key next ih =>
    have hkey : view' key = view key := h key List.mem_cons_self
    obtain ⟨heval, hasked⟩ := ih (view key) fun key' hkey' => h key' (List.mem_cons_of_mem _ hkey')
    simp only [eval, asked, hkey, heval, hasked, and_self]

/-- **A run whose reads answer as a table gives what the table gives**; each read key is recorded,
    and the state changes as reads may change it. -/
theorem run_spec (read : K → S → V × S) (view : K → V) (changes : S → S → Prop)
    (recorded : K → S → Prop) (hrefl : ∀ state, changes state state)
    (htrans : ∀ first second third, changes first second → changes second third →
      changes first third)
    (hkeep : ∀ key state next, changes state next → recorded key state → recorded key next)
    {start : S}
    (hread : ∀ key state, changes start state → (read key state).1 = view key ∧
      changes state (read key state).2 ∧ recorded key (read key state).2)
    (query : Query K V A) :
    (query.run read start).1 = query.eval view ∧ changes start (query.run read start).2 ∧
      ∀ key ∈ query.asked view, recorded key (query.run read start).2 := by
  have hfrom : ∀ (query : Query K V A) (state : S), changes start state →
      (query.run read state).1 = query.eval view ∧ changes state (query.run read state).2 ∧
        ∀ key ∈ query.asked view, recorded key (query.run read state).2 := by
    intro query
    induction query with
    | answer result => exact fun state _ => ⟨rfl, hrefl state, fun _ h => absurd h List.not_mem_nil⟩
    | ask key next ih =>
      intro state hstate
      obtain ⟨hvalue, hchanges, hrecorded⟩ := hread key state hstate
      obtain ⟨heval, hnext, hasked⟩ := ih (view key) (read key state).2
        (htrans _ _ _ hstate hchanges)
      rw [run, eval, asked, hvalue]
      refine ⟨heval, htrans _ _ _ hchanges hnext, fun key' hkey' => ?_⟩
      rcases List.mem_cons.mp hkey' with rfl | hkey'
      · exact hkeep _ _ _ hnext hrecorded
      · exact hasked key' hkey'
  exact hfrom query start (hrefl start)

end Query

end Pysa
