/-
  Subject: WHAT THE WORKERS SEE OF THE HASH TABLE (`hh_shared.c`).

  * `value_agreed` -- **in one run all reads of a key return the same value, and an earlier call
    of `hh_add` has brought it**;
  * `wrote_once` -- **at most one call of `hh_add` for a key writes a value**;
  * `mem_of_added` -- **once `hh_add` has returned, every later `hh_mem` finds the key**;
  * `get_of_mem` -- **once `hh_mem` has found a key, every later read returns its value**.
-/
import Mathlib.Data.List.Induction
import Pysa.Heap.HashTableInvariant

namespace Pysa.SharedHeap

open LinearProbing

variable {V W : Type} [DecidableEq W] {config : Config} {size : V → ℕ}

/-! ## 1. Runs -/

namespace Run

variable {start state : State W V} {trace trace' : List (W × Event V)} {event : W × Event V}

theorem split (h : Run config size start (trace ++ trace') state) :
    ∃ middle, Run config size start trace middle ∧ Run config size middle trace' state := by
  induction trace' using List.reverseRecOn generalizing state with
  | nil =>
    rw [List.append_nil] at h
    exact ⟨state, h, .nil⟩
  | append_singleton trace' event ih =>
    rw [← List.append_assoc] at h
    generalize heq : trace ++ trace' ++ [event] = whole at h
    cases h with
    | nil => simp at heq
    | @snoc before middle _ event' hrun hstep =>
      obtain ⟨hbefore, hevent⟩ := List.append_inj' heq rfl
      cases hevent
      subst hbefore
      obtain ⟨first, hfirst, hsecond⟩ := ih hrun
      exact ⟨first, hfirst, hsecond.snoc hstep⟩

theorem append {middle : State W V} (h : Run config size start trace middle)
    (h' : Run config size middle trace' state) : Run config size start (trace ++ trace') state := by
  induction h' with
  | nil => rwa [List.append_nil]
  | snoc hrun hstep ih =>
    rw [← List.append_assoc]
    exact ih.snoc hstep

/-- The step at an event of a run. -/
theorem at_event (h : Run config size start (trace ++ event :: trace') state) :
    ∃ before after, Run config size start trace before ∧ Step config size before event after ∧
      Run config size after trace' state := by
  have hsplit : trace ++ event :: trace' = trace ++ [event] ++ trace' := by simp
  rw [hsplit] at h
  obtain ⟨after, hafter, hlast⟩ := h.split
  generalize heq : trace ++ [event] = whole at hafter
  cases hafter with
  | nil => simp at heq
  | @snoc trace'' before _ event' hbefore hstep =>
    obtain ⟨htrace, hevent⟩ := List.append_inj' heq rfl
    cases hevent
    subst htrace
    exact ⟨before, after, hbefore, hstep, hlast⟩

end Run

theorem Pc.isIdle_iff {pc : Pc V} : pc.isIdle = true ↔ pc = .idle := by
  cases pc <;> simp [Pc.isIdle]

/-- What is scheduled is a run. -/
theorem run_schedule {choices : List (W × Option (Op V))} {state last : State W V}
    {trace : List (W × Event V)} (h : schedule config size choices state = some (trace, last)) :
    Run config size state trace last := by
  induction choices generalizing state trace with
  | nil =>
    cases h
    exact .nil
  | cons choice rest ih =>
    obtain ⟨w, op⟩ := choice
    cases op with
    | some op =>
      simp only [schedule] at h
      split at h
      · rename_i hidle
        obtain ⟨result, hresult, heq⟩ := Option.map_eq_some_iff.mp h
        cases heq
        exact (Run.nil.snoc (.call (Pc.isIdle_iff.mp hidle))).append (ih hresult)
      · cases h
    | none =>
      simp only [schedule] at h
      split at h
      · cases h
      · rename_i hbusy
        obtain ⟨result, hresult, heq⟩ := Option.map_eq_some_iff.mp h
        cases heq
        exact (Run.nil.snoc (.access fun hidle => hbusy (Pc.isIdle_iff.mpr hidle))).append
          (ih hresult)

/-! ## 2. Events -/

section Events

variable {state state' : State W V} {w : W}

/-- A worker calls, or it gives up waiting, or it makes its next access. -/
theorem Step.cases {event : Event V} (h : Step config size state (w, event) state') :
    (∃ op, event = .call op ∧ state.pc w = .idle ∧
      state' = { state with pc := Function.update state.pc w (op.start config) }) ∨
    (∃ key slot, event = .raised ∧ state.pc w = .memWait key slot ∧
      state' = { state with pc := Function.update state.pc w .idle }) ∨
    Advances config size state.shared (state.pc w) event state'.shared (state'.pc w) := by
  generalize hpair : (w, event) = pair at h
  cases h with
  | @call w' op hidle =>
    cases hpair
    exact .inl ⟨op, rfl, hidle, rfl⟩
  | @timeout w' key slot hwait =>
    cases hpair
    exact .inr (.inl ⟨key, slot, rfl, hwait, rfl⟩)
  | @access w' hbusy =>
    cases hpair
    have hpc : Function.update state.pc w (advance config size state.shared (state.pc w)).2.2 w =
        (advance config size state.shared (state.pc w)).2.2 := Function.update_self ..
    have hadvances := advances config size state.shared (state.pc w)
    rw [← hpc] at hadvances
    exact .inr (.inr hadvances)

/-- A worker returns what it is about to answer. -/
theorem Step.of_returned {answer : Answer V}
    (h : Step config size state (w, .returned answer) state') :
    state.pc w = .answer answer ∧ state'.shared = state.shared ∧ state'.pc w = .idle := by
  rcases h.cases with ⟨op, heq, -⟩ | ⟨key, slot, heq, -⟩ | hadvances
  · cases heq
  · cases heq
  · generalize state.pc w = pc, state'.pc w = next, state'.shared = shared at hadvances ⊢
    cases hadvances
    exact ⟨rfl, rfl, rfl⟩

/-- A worker that calls was idle. -/
theorem Step.of_call {op : Op V} (h : Step config size state (w, .call op) state') :
    state.pc w = .idle ∧
      state' = { state with pc := Function.update state.pc w (op.start config) } := by
  rcases h.cases with ⟨op', heq, hidle, hnext⟩ | ⟨key, slot, heq, -⟩ | hadvances
  · cases heq
    exact ⟨hidle, hnext⟩
  · cases heq
  · generalize state.pc w = pc, state'.pc w = next, state'.shared = shared at hadvances
    cases hadvances

/-- A step leaves the other workers where they are. -/
theorem Step.pc_eq {w' : W} {event : Event V} (h : Step config size state (w', event) state')
    (hne : w ≠ w') : state'.pc w = state.pc w := by
  generalize hevent : (w', event) = pair at h
  cases h with
  | call hidle =>
    cases hevent
    exact Function.update_of_ne hne _ _
  | timeout hwait =>
    cases hevent
    exact Function.update_of_ne hne _ _
  | access hbusy =>
    cases hevent
    exact Function.update_of_ne hne _ _

end Events

/-! ## 3. Agreement -/

section Agreement

variable {state : State W V} {trace trace' : List (W × Event V)} {key : Digest}

theorem Holds.unique {shared : Shared V}
    (hprobed : Probed config.hashtblSize config.home shared.slots) {slot slot' : ℕ}
    (h : Holds config shared key slot) (h' : Holds config shared key slot') : slot = slot' :=
  hprobed.unique h.1 h'.1 (Shared.slots_eq_key.mpr ⟨h.2, key.ne_zero⟩)
    (Shared.slots_eq_key.mpr ⟨h'.2, key.ne_zero⟩)

theorem Stored.unique {shared : Shared V}
    (hprobed : Probed config.hashtblSize config.home shared.slots) {data data' : V}
    (h : Stored config shared key data) (h' : Stored config shared key data') : data = data' := by
  obtain ⟨slot, hholds, -, hdata⟩ := h
  obtain ⟨slot', hholds', -, hdata'⟩ := h'
  obtain rfl := hholds.unique hprobed hholds'
  exact Option.some.inj (hdata.symm.trans hdata')

/-- What a call has answered stays true to the end of the run. -/
theorem answerOk_of_returned {w : W} {answer : Answer V}
    (hrun : Run config size (State.initial config) (trace ++ (w, .returned answer) :: trace') state) :
    AnswerOk config state.shared answer := by
  obtain ⟨before, after, hbefore, hstep, hafter⟩ := hrun.at_event
  have hinv := (Invariant.initial config).run hbefore
  have hok : AnswerOk config before.shared answer := by
    have hworker := hinv.1.workers w
    rwa [hstep.of_returned.1] at hworker
  have hinv' := hinv.1.step hstep
  exact (hok.later hinv'.2).later (hinv'.1.run hafter).2

/-- A call of `hh_add` has brought the value. -/
def Called (trace : List (W × Event V)) (key : Digest) (data : V) : Prop :=
  ∃ w, (w, .call (.add key data)) ∈ trace

omit [DecidableEq W] in
theorem Called.append {data : V} (h : Called trace key data) (trace' : List (W × Event V)) :
    Called (trace ++ trace') key data := by
  obtain ⟨w, hw⟩ := h
  exact ⟨w, List.mem_append_left _ hw⟩

/-- The key and the value of a call of `hh_add` under way. -/
def Pc.carries : Pc V → Option (Digest × V)
  | .addLoad key data _ => some (key, data)
  | .addCheck key data _ _ => some (key, data)
  | .addGrab key data _ => some (key, data)
  | .addIncrement key data _ => some (key, data)
  | .addReload key data _ => some (key, data)
  | .writeAt key data _ => some (key, data)
  | .store key data _ => some (key, data)
  | .publish key data _ _ => some (key, data)
  | _ => none

theorem Advances.carries {shared shared' : Shared V} {pc pc' : Pc V} {event : Event V}
    (h : Advances config size shared pc event shared' pc') {carried : Digest × V}
    (hcarries : pc'.carries = some carried) : pc.carries = some carried := by
  cases h with
  | idle => cases hcarries
  | stopped => cases hcarries
  | find => cases hcarries
  | findMiss => cases hcarries
  | findFree => cases hcarries
  | findPass => cases hcarries
  | foundMem => cases hcarries
  | foundGet => cases hcarries
  | present => cases hcarries
  | wait => cases hcarries
  | _ => first | exact hcarries | cases hcarries

omit [DecidableEq W] in
/-- What is stored after a step was stored before, or the worker has brought it. -/
theorem Advances.stored {state : State W V} (h : Invariant config state) {w : W}
    {shared' : Shared V} {event : Event V} {pc' : Pc V}
    (heffect : Advances config size state.shared (state.pc w) event shared' pc') {data : V}
    (hstored : Stored config shared' key data) :
    Stored config state.shared key data ∨ (state.pc w).carries = some (key, data) := by
  have hok := h.workers w
  obtain ⟨slot, ⟨hlt, hhash⟩, haddr, hdata⟩ := hstored
  generalize hpc : state.pc w = pc at heffect hok
  cases heffect with
  | @grab key' data' slot' hfree =>
    have hne : slot ≠ slot' := by
      rintro rfl
      rw [Shared.addr_setHash, h.free _ hfree] at haddr
      exact Nat.not_lt_zero _ haddr
    rw [Shared.hash_setHash_of_ne _ _ hne] at hhash
    rw [Shared.addr_setHash] at haddr hdata
    exact .inl ⟨slot, ⟨hlt, hhash⟩, haddr, hdata⟩
  | @claim key' data' slot' hnull =>
    have hne : slot ≠ slot' := by
      rintro rfl
      rw [Shared.addr_setAddr_self, writeInProgress] at haddr
      omega
    rw [Shared.hash_setAddr] at hhash
    rw [Shared.addr_setAddr_of_ne _ _ hne] at haddr hdata
    exact .inl ⟨slot, ⟨hlt, hhash⟩, haddr, hdata⟩
  | store =>
    obtain ⟨data'', hold⟩ := h.entries slot haddr
    have hne : (state.shared.hashtbl slot).addr ≠ state.shared.heap := by
      intro heq
      rw [heq, h.fresh _ (Nat.le_refl _)] at hold
      cases hold
    have hmemory : Function.update state.shared.memory state.shared.heap _
      (state.shared.hashtbl slot).addr = some data := hdata
    rw [Function.update_of_ne hne] at hmemory
    exact .inl ⟨slot, ⟨hlt, hhash⟩, haddr, hmemory⟩
  | @publish key' data' slot' chunk =>
    rw [Shared.hash_setAddr] at hhash
    by_cases heq : slot = slot'
    · subst heq
      obtain ⟨⟨-, hhash'⟩, -, -, hchunk⟩ := hok
      obtain rfl := Digest.ext (hhash.symm.trans hhash')
      rw [Shared.addr_setAddr_self] at hdata
      have hsame : some data' = some data := hchunk.symm.trans hdata
      cases hsame
      exact .inr rfl
    · rw [Shared.addr_setAddr_of_ne _ _ heq] at haddr hdata
      exact .inl ⟨slot, ⟨hlt, hhash⟩, haddr, hdata⟩
  | _ => exact .inl ⟨slot, ⟨hlt, hhash⟩, haddr, hdata⟩

/-- Every value that is stored or under way was brought by a call of `hh_add` for its key. -/
structure Sourced (config : Config) (trace : List (W × Event V)) (state : State W V) : Prop where
  workers : ∀ w key data, (state.pc w).carries = some (key, data) → Called trace key data
  stored : ∀ key data, Stored config state.shared key data → Called trace key data

theorem Sourced.step {state' : State W V} {w : W} {event : Event V} (h : Sourced config trace state)
    (hinv : Invariant config state) (hstep : Step config size state (w, event) state') :
    Sourced config (trace ++ [(w, event)]) state' := by
  refine ⟨fun w' key data hcarries => ?_, fun key data hstored => ?_⟩
  · by_cases heq : w' = w
    · subst heq
      rcases hstep.cases with ⟨op, rfl, -, rfl⟩ | ⟨key', slot, -, -, rfl⟩ | hadvances
      · have hstart : (Function.update state.pc w' (op.start config) w').carries =
            some (key, data) := hcarries
        rw [Function.update_self] at hstart
        cases op with
        | add key' data' =>
          cases hstart
          exact ⟨w', List.mem_append_right _ List.mem_cons_self⟩
        | mem key' => cases hstart
        | get key' => cases hstart
      · have hidle : (Function.update state.pc w' .idle w').carries = some (key, data) := hcarries
        rw [Function.update_self] at hidle
        cases hidle
      · exact (h.workers w' key data (hadvances.carries hcarries)).append _
    · rw [hstep.pc_eq heq] at hcarries
      exact (h.workers w' key data hcarries).append _
  · rcases hstep.cases with ⟨op, -, -, rfl⟩ | ⟨key', slot, -, -, rfl⟩ | hadvances
    · exact (h.stored key data hstored).append _
    · exact (h.stored key data hstored).append _
    · rcases hadvances.stored hinv hstored with hold | hcarries
      · exact (h.stored key data hold).append _
      · exact (h.workers w key data hcarries).append _

theorem Sourced.run (hrun : Run config size (State.initial config) trace state) :
    Sourced config trace state := by
  induction hrun with
  | nil =>
    refine ⟨fun _ _ _ h => ?_, fun key data hstored => ?_⟩
    · cases h
    · obtain ⟨slot, -, haddr, -⟩ := hstored
      exact absurd haddr (Nat.not_lt_zero _)
  | snoc hrun hstep ih => exact ih.step ((Invariant.initial config).run hrun).1 hstep

/-- **All reads of a key return the same value in one run, and a call of `hh_add` for this key has
    brought it before.** -/
theorem value_agreed (hrun : Run config size (State.initial config) trace state) :
    (∀ w w' key data data', (w, .returned (.value key data)) ∈ trace →
        (w', .returned (.value key data')) ∈ trace → data = data') ∧
      ∀ before after w key data, trace = before ++ (w, .returned (.value key data)) :: after →
        ∃ w', (w', .call (.add key data)) ∈ before := by
  constructor
  · intro w w' key data data' hw hw'
    have hinv := ((Invariant.initial config).run hrun).1
    have hstored : ∀ {w data}, (w, .returned (.value key data)) ∈ trace →
        Stored config state.shared key data := by
      intro w data hmem
      obtain ⟨before, after, rfl⟩ := List.append_of_mem hmem
      exact answerOk_of_returned hrun
    exact (hstored hw).unique hinv.probed (hstored hw')
  · rintro before after w key data rfl
    obtain ⟨middle, last, hbefore, hstep, -⟩ := hrun.at_event
    have hworker := ((Invariant.initial config).run hbefore).1.workers w
    rw [hstep.of_returned.1] at hworker
    exact (Sourced.run hbefore).stored key data hworker

end Agreement

/-! ## 4. One writer -/

section Winners

variable {state state' : State W V} {trace : List (W × Event V)} {key : Digest} {w w' : W}

/-- The key that a worker writes a value for, or has written one for and has not returned yet. -/
def Pc.wins : Pc V → Option Digest
  | .store key _ _ => some key
  | .publish key _ _ _ => some key
  | .answer (.added key true) => some key
  | _ => none

theorem WorkerOk.present {shared : Shared V} {pc : Pc V} (hok : WorkerOk config shared pc)
    (hwins : pc.wins = some key) : Present config shared key := by
  cases pc with
  | store key' data slot =>
    cases hwins
    refine ⟨slot, hok.1, ?_⟩
    rw [hok.2]
    exact Nat.one_ne_zero
  | publish key' data slot chunk =>
    cases hwins
    refine ⟨slot, hok.1, ?_⟩
    rw [hok.2.1]
    exact Nat.one_ne_zero
  | answer answer =>
    cases answer with
    | added key' wrote =>
      cases wrote with
      | false => cases hwins
      | true =>
        cases hwins
        exact hok
    | mem key' status => cases hwins
    | value key' data => cases hwins
  | _ => cases hwins

/-- No worker becomes the writer of a key that is present. -/
theorem Advances.wins {shared shared' : Shared V} {pc pc' : Pc V} {event : Event V}
    (h : Advances config size shared pc event shared' pc')
    (hprobed : Probed config.hashtblSize config.home shared.slots)
    (hok : WorkerOk config shared pc) (hpresent : Present config shared key)
    (hwins : pc'.wins = some key) : pc.wins = some key := by
  cases h with
  | claim hnull =>
    cases hwins
    obtain ⟨slot', hholds, haddr⟩ := hpresent
    obtain rfl := Holds.unique hprobed hok hholds
    exact absurd hnull haddr
  | store => exact hwins
  | publish => exact hwins
  | _ => cases hwins

theorem Step.wins {event : W × Event V} (hinv : Invariant config state)
    (h : Step config size state event state') (hpresent : Present config state.shared key)
    (hwins : (state'.pc w).wins = some key) : (state.pc w).wins = some key := by
  obtain ⟨w₀, event⟩ := event
  by_cases hne : w = w₀
  · subst hne
    rcases h.cases with ⟨op, -, -, rfl⟩ | ⟨key', slot, -, -, rfl⟩ | hadvances
    · have hstart : (Function.update state.pc w (op.start config) w).wins = some key := hwins
      rw [Function.update_self] at hstart
      cases op <;> cases hstart
    · have hidle : (Function.update state.pc w .idle w).wins = some key := hwins
      rw [Function.update_self] at hidle
      cases hidle
    · exact hadvances.wins hinv.probed (hinv.workers w) hpresent hwins
  · rwa [h.pc_eq hne] at hwins

theorem Run.wins (hrun : Run config size state trace state') (hinv : Invariant config state)
    (hpresent : Present config state.shared key) (hwins : (state'.pc w).wins = some key) :
    (state.pc w).wins = some key := by
  induction hrun with
  | nil => exact hwins
  | snoc hrun hstep ih =>
    obtain ⟨hmiddle, hlater⟩ := hinv.run hrun
    exact ih (hstep.wins hmiddle (hpresent.later hlater) hwins)

/-- Two workers are never the writers of one key at the same time. -/
theorem one_winner (hrun : Run config size (State.initial config) trace state)
    (hwins : (state.pc w).wins = some key) (hwins' : (state.pc w').wins = some key) : w = w' := by
  induction hrun generalizing w w' with
  | nil => cases hwins
  | @snoc _ middle last event hrun hstep ih =>
    obtain ⟨w₀, event⟩ := event
    obtain ⟨hinv, -⟩ := (Invariant.initial config).run hrun
    -- a worker that did not make the step was a writer before it, so that the key was present
    have hother : ∀ {v v' : W}, v ≠ w₀ → (last.pc v).wins = some key →
        (last.pc v').wins = some key → v = v' := by
      intro v v' hne hv hv'
      rw [hstep.pc_eq hne] at hv
      exact ih hv (hstep.wins hinv ((hinv.workers v).present hv) hv')
    by_cases hne : w = w₀
    · by_cases hne' : w' = w₀
      · exact hne.trans hne'.symm
      · exact (hother hne' hwins' hwins).symm
    · exact hother hne hwins hwins'

/-- **At most one call of `hh_add` for a key writes a value**, whatever the order of the steps. -/
theorem wrote_once (hrun : Run config size (State.initial config) trace state)
    (before between after : List (W × Event V)) (w w' : W) :
    trace ≠ before ++ (w, .returned (.added key true)) :: between ++
      (w', .returned (.added key true)) :: after := by
  rintro rfl
  obtain ⟨middle', last, hrun', hstep', -⟩ := hrun.at_event
  obtain ⟨middle, next, hbefore, hstep, hbetween⟩ := hrun'.at_event
  obtain ⟨hinv, -⟩ := (Invariant.initial config).run hbefore
  obtain ⟨hnext, hlater⟩ := hinv.step hstep
  have hwins : (middle.pc w).wins = some key := by
    rw [hstep.of_returned.1]
    rfl
  have hwins' : (middle'.pc w').wins = some key := by
    rw [hstep'.of_returned.1]
    rfl
  have hpresent := (hinv.workers w).present hwins
  have hwins₀ := hbetween.wins hnext (hpresent.later hlater) hwins'
  obtain rfl := one_winner hbefore hwins (hstep.wins hinv hpresent hwins₀)
  rw [hstep.of_returned.2.2] at hwins₀
  cases hwins₀

end Winners

/-! ## 5. Later searches -/

section Searches

variable {state state' : State W V} {shared shared' : Shared V} {key : Digest} {look : Look}

/-- The address at the slot is one that the search needs. -/
def Look.Needs : Look → ℕ → Prop
  | .mem, addr => addr ≠ null
  | .get, addr => 1 < addr

theorem Look.Needs.later (h : Later shared shared') {slot : ℕ}
    (hneeds : look.Needs (shared.hashtbl slot).addr) :
    look.Needs (shared'.hashtbl slot).addr := by
  cases look with
  | mem => exact h.addr slot hneeds
  | get =>
    show 1 < (shared'.hashtbl slot).addr
    rw [h.entry slot hneeds]
    exact hneeds

/-- The key is in the slot, with what the search needs. -/
def Target (config : Config) (shared : Shared V) (look : Look) (key : Digest) (slot : ℕ) : Prop :=
  Holds config shared key slot ∧ look.Needs (shared.hashtbl slot).addr

theorem Target.later (h : Later shared shared') {slot : ℕ}
    (htarget : Target config shared look key slot) : Target config shared' look key slot :=
  ⟨htarget.1.later h, htarget.2.later h⟩

/-- The search is at the distance `d` from its home slot, and its key is at least as far. -/
def Nearing (config : Config) (shared : Shared V) (look : Look) (key : Digest) (d slot : ℕ) :
    Prop :=
  ∃ d' e, slot = probe config.hashtblSize (config.home key.word) d' ∧ d' + d ≤ e ∧
    e < config.hashtblSize ∧
    Target config shared look key (probe config.hashtblSize (config.home key.word) e) ∧
    Passed config.hashtblSize config.home shared.slots key.word e

theorem Nearing.later (h : Later shared shared') {d slot : ℕ}
    (hnearing : Nearing config shared look key d slot) : Nearing config shared' look key d slot := by
  obtain ⟨d', e, hslot, hle, he, htarget, hpassed⟩ := hnearing
  exact ⟨d', e, hslot, hle, he, htarget.later h, h.grows.passed hpassed⟩

/-- A search that will find its key. -/
def WillFind (config : Config) (shared : Shared V) (look : Look) (key : Digest) : Pc V → Prop
  | .find look' key' slot => look' = look ∧ key' = key ∧ Nearing config shared look key 0 slot
  | .findFree look' key' slot => look' = look ∧ key' = key ∧ Nearing config shared look key 1 slot
  | .found look' key' slot => look' = look ∧ key' = key ∧ Target config shared look key slot
  | .memAddr key' slot goodHash =>
    look = .mem ∧ key' = key ∧ goodHash = true ∧ Target config shared look key slot
  | .memWait key' _ => look = .mem ∧ key' = key
  | .getAddr key' slot => look = .get ∧ key' = key ∧ Target config shared look key slot
  | .answer (.mem key' status) => look = .mem ∧ key' = key ∧ status = 1
  | .answer (.value key' _) => look = .get ∧ key' = key
  | _ => False

theorem WillFind.later (h : Later shared shared') {pc : Pc V}
    (hfind : WillFind config shared look key pc) : WillFind config shared' look key pc := by
  cases pc with
  | find look' key' slot => exact ⟨hfind.1, hfind.2.1, hfind.2.2.later h⟩
  | findFree look' key' slot => exact ⟨hfind.1, hfind.2.1, hfind.2.2.later h⟩
  | found look' key' slot => exact ⟨hfind.1, hfind.2.1, hfind.2.2.later h⟩
  | memAddr key' slot goodHash => exact ⟨hfind.1, hfind.2.1, hfind.2.2.1, hfind.2.2.2.later h⟩
  | getAddr key' slot => exact ⟨hfind.1, hfind.2.1, hfind.2.2.later h⟩
  | answer answer =>
    cases answer with
    | added key' wrote => exact hfind
    | mem key' status => exact hfind
    | value key' data => exact hfind
  | _ => exact hfind

theorem Nearing.slot_eq {slot : ℕ} (h : Nearing config shared look key 0 slot)
    (hhash : (shared.hashtbl slot).hash = key.word) : Target config shared look key slot := by
  obtain ⟨d', e, rfl, hle, -, htarget, hpassed⟩ := h
  by_cases heq : d' = e
  · rwa [heq]
  · have hkey := (hpassed d' (by omega)).2
    exact absurd (Shared.slots_eq_key.mpr ⟨hhash, key.ne_zero⟩) hkey

theorem Nearing.beyond {slot : ℕ} (h : Nearing config shared look key 0 slot)
    (hhash : (shared.hashtbl slot).hash ≠ key.word) : Nearing config shared look key 1 slot := by
  obtain ⟨d', e, rfl, hle, he, htarget, hpassed⟩ := h
  have hne : d' ≠ e := by
    rintro rfl
    exact hhash htarget.1.2
  exact ⟨d', e, rfl, by omega, he, htarget, hpassed⟩

/-- A search for a key further on meets no free slot and does not come back to its home slot. -/
theorem Nearing.next {slot : ℕ} (h : Nearing config shared look key 1 slot) :
    (shared.hashtbl slot).hash ≠ 0 ∧ config.next slot ≠ config.home key.word ∧
      Nearing config shared look key 0 (config.next slot) := by
  obtain ⟨d', e, rfl, hle, he, htarget, hpassed⟩ := h
  have hlt : d' < e := by omega
  refine ⟨fun hzero => (hpassed d' hlt).1 (Shared.slots_eq_free.mpr hzero), ?_, ?_⟩
  · rw [Config.next_probe, ne_eq, probe_succ_eq_home_iff (config.home_lt _) (by omega)]
    omega
  · rw [Config.next_probe]
    exact ⟨d' + 1, e, rfl, by omega, he, htarget, hpassed⟩

/-- A search that will find its key goes on to find it, until it answers. -/
theorem WillFind.advances {pc pc' : Pc V} {event : Event V} (h : WillFind config shared look key pc)
    (hentries : ∀ slot, 1 < (shared.hashtbl slot).addr →
      ∃ data, shared.memory (shared.hashtbl slot).addr = some data)
    (hadvances : Advances config size shared pc event shared' pc') :
    (∃ answer, pc = .answer answer ∧ event = .returned answer) ∨
      event = .internal ∧ WillFind config shared' look key pc' := by
  cases hadvances with
  | find hhash => exact .inr ⟨rfl, h.1, h.2.1, by rw [h.2.1] at hhash; exact h.2.2.slot_eq hhash⟩
  | findMiss hhash => exact .inr ⟨rfl, h.1, h.2.1, by rw [h.2.1] at hhash; exact h.2.2.beyond hhash⟩
  | findFree hfree => exact absurd hfree h.2.2.next.1
  | findPass => exact .inr ⟨rfl, h.1, h.2.1, h.2.2.next.2.2⟩
  | findRaise hhome =>
    rw [h.2.1] at hhome
    exact absurd hhome h.2.2.next.2.1
  | foundMem =>
    obtain ⟨rfl, rfl, htarget⟩ := h
    exact .inr ⟨rfl, rfl, rfl, decide_eq_true htarget.1.2, htarget⟩
  | foundGet => exact .inr ⟨rfl, h.1.symm, h.2⟩
  | missing hhash =>
    obtain ⟨rfl, rfl, htarget⟩ := h
    exact absurd htarget.1.2 hhash
  | present => exact .inr ⟨rfl, h.1, h.2.1⟩
  | absent hstatus hnull =>
    obtain ⟨rfl, rfl, hgood, htarget⟩ := h
    exact absurd (hnull hgood) htarget.2
  | wait => exact .inr ⟨rfl, h⟩
  | waited => exact .inr ⟨rfl, h.1, h.2, rfl⟩
  | read => exact .inr ⟨rfl, h.1, h.2.1⟩
  | dangling hnone =>
    obtain ⟨rfl, rfl, htarget⟩ := h
    obtain ⟨data, hdata⟩ := hentries _ htarget.2
    rw [hnone] at hdata
    cases hdata
  | answer => exact .inl ⟨_, rfl, rfl⟩
  | _ => exact h.elim

/-- Until it answers, whatever the other workers do. -/
theorem WillFind.run {trace : List (W × Event V)} {w : W} (hinv : Invariant config state)
    (h : WillFind config state.shared look key (state.pc w))
    (hrun : Run config size state trace state')
    (hown : ∀ event, (w, event) ∈ trace → event = .internal) :
    WillFind config state'.shared look key (state'.pc w) := by
  induction hrun with
  | nil => exact h
  | @snoc trace middle last event hrun hstep ih =>
    have hmiddle := ih fun event hmem => hown event (List.mem_append_left _ hmem)
    have hinv' := (hinv.run hrun).1
    have hlater := (hinv'.step hstep).2
    obtain ⟨w', event⟩ := event
    by_cases heq : w = w'
    · subst heq
      have hinternal : event = .internal :=
        hown event (List.mem_append_right _ List.mem_cons_self)
      rcases hstep.cases with ⟨op, rfl, -⟩ | ⟨key', slot, rfl, -⟩ | hadvances
      · cases hinternal
      · cases hinternal
      · rcases hmiddle.advances hinv'.entries hadvances with ⟨answer, -, rfl⟩ | hnext
        · cases hinternal
        · exact hnext.2
    · rw [hstep.pc_eq heq]
      exact hmiddle.later hlater

/-- A search for a key that is there will find it. -/
theorem willFind_call (look : Look) {w : W} {op : Op V} (hinv : Invariant config state) {slot : ℕ}
    (htarget : Target config state.shared look key slot)
    (hop : op.start config = .find look key (config.home key.word))
    (hstep : Step config size state (w, .call op) state') :
    WillFind config state'.shared look key (state'.pc w) := by
  obtain ⟨-, rfl⟩ := hstep.of_call
  show WillFind config state.shared look key (Function.update state.pc w (op.start config) w)
  rw [Function.update_self, hop]
  have hkey := Shared.slots_eq_key.mpr ⟨htarget.1.2, key.ne_zero⟩
  obtain ⟨e, -, he, rfl, hpassed⟩ := hinv.probed.passed_le .zero htarget.1.1 hkey
  exact ⟨rfl, rfl, 0, e, (probe_zero (config.home_lt _)).symm, by omega, he, htarget, hpassed⟩

end Searches

section Visible

variable {state : State W V} {before between during after : List (W × Event V)} {w w' : W}
  {key : Digest}

/-- **Once `hh_add` has returned, every later `hh_mem` of any worker finds the key**, whoever has
    written its value, and whether or not it is complete yet. -/
theorem mem_of_added {wrote : Bool} {answer : Answer V}
    (hrun : Run config size (State.initial config) (before ++ (w, .returned (.added key wrote)) ::
      (between ++ (w', .call (.mem key)) :: (during ++ (w', .returned answer) :: after))) state)
    (hown : ∀ event, (w', event) ∈ during → event = .internal) : answer = .mem key 1 := by
  obtain ⟨s₀, s₁, hbefore, hadded, hrun⟩ := hrun.at_event
  obtain ⟨s₂, s₃, hbetween, hcall, hrun⟩ := hrun.at_event
  obtain ⟨s₄, s₅, hduring, hreturned, -⟩ := hrun.at_event
  have hinv₀ := ((Invariant.initial config).run hbefore).1
  have hinv₁ := hinv₀.step hadded
  have hinv₂ := hinv₁.1.run hbetween
  have hok := hinv₀.workers w
  rw [hadded.of_returned.1] at hok
  obtain ⟨slot, hholds, haddr⟩ := (Present.later hinv₁.2 hok).later hinv₂.2
  have hfind := willFind_call .mem hinv₂.1 ⟨hholds, haddr⟩ rfl hcall
  have hlast := hfind.run (hinv₂.1.step hcall).1 hduring hown
  rw [hreturned.of_returned.1] at hlast
  cases answer with
  | added key' wrote => exact hlast.elim
  | mem key' status =>
    obtain ⟨-, rfl, rfl⟩ := hlast
    rfl
  | value key' data =>
    obtain ⟨hlook, -⟩ := hlast
    cases hlook

/-- **Once `hh_mem` has found a key, every later read of any worker returns a value for it**: it
    neither fails an assertion nor follows an address that is none. -/
theorem get_of_mem {event : Event V}
    (hrun : Run config size (State.initial config) (before ++ (w, .returned (.mem key 1)) ::
      (between ++ (w', .call (.get key)) :: (during ++ (w', event) :: after))) state)
    (hown : ∀ event, (w', event) ∈ during → event = .internal) (hevent : event ≠ .internal) :
    ∃ data, event = .returned (.value key data) := by
  obtain ⟨s₀, s₁, hbefore, hfound, hrun⟩ := hrun.at_event
  obtain ⟨s₂, s₃, hbetween, hcall, hrun⟩ := hrun.at_event
  obtain ⟨s₄, s₅, hduring, hlast, -⟩ := hrun.at_event
  have hinv₀ := ((Invariant.initial config).run hbefore).1
  have hinv₁ := hinv₀.step hfound
  have hinv₂ := hinv₁.1.run hbetween
  have hinv₃ := (hinv₂.1.step hcall).1
  have hok := hinv₀.workers w
  rw [hfound.of_returned.1] at hok
  obtain ⟨data, hstored⟩ := hok rfl
  obtain ⟨slot, hholds, haddr, -⟩ := (hstored.later hinv₁.2).later hinv₂.2
  have hfind := willFind_call .get hinv₂.1 ⟨hholds, haddr⟩ rfl hcall
  have hmiddle := hfind.run hinv₃ hduring hown
  have hinv₄ := (hinv₃.run hduring).1
  rcases hlast.cases with ⟨op, -, hidle, -⟩ | ⟨key', slot', -, hwait, -⟩ | hadvances
  · rw [hidle] at hmiddle
    exact hmiddle.elim
  · rw [hwait] at hmiddle
    cases hmiddle.1
  · rcases hmiddle.advances hinv₄.entries hadvances with ⟨answer, hpc, rfl⟩ | hnext
    · rw [hpc] at hmiddle
      cases answer with
      | added key' wrote => exact hmiddle.elim
      | mem key' status => cases hmiddle.1
      | value key' data' =>
        obtain ⟨-, rfl⟩ := hmiddle
        exact ⟨data', rfl⟩
    · exact absurd hnext.1 hevent

end Visible

namespace Sample

def twoSlots : Config := ⟨1, 64, 1024, by decide⟩

def key : Digest := ⟨5, by decide⟩

def steps (w : Bool) (n : ℕ) : List (Bool × Option (Op ℕ)) := List.replicate n (w, none)

def quiet (w : Bool) (n : ℕ) : List (Bool × Event ℕ) := List.replicate n (w, .internal)

/-- The order in which two workers make the steps of their additions. -/
def order : List Bool :=
  [false, true, false, true, false, true, false, true, true, false, true, true, true, false]

/-- Two workers add a key side by side; one of them looks for it, and both read its value. -/
def choices : List (Bool × Option (Op ℕ)) :=
  (false, some (.add key 7)) :: (true, some (.add key 8)) :: order.map (·, none) ++
    (true, some (.mem key)) :: steps true 5 ++ (true, some (.get key)) :: steps true 4 ++
    (false, some (.get key)) :: steps false 4

/-- The first worker takes the slot, the second one the right to write. -/
def racing : List (Bool × Event ℕ) :=
  (false, .call (.add key 7)) :: (true, .call (.add key 8)) :: (order.take 12).map (·, .internal)

def looking : List (Bool × Event ℕ) := (true, .call (.mem key)) :: quiet true 4

def reading (w : Bool) : List (Bool × Event ℕ) := (w, .call (.get key)) :: quiet w 3

def trace : List (Bool × Event ℕ) :=
  racing ++ (true, .returned (.added key true)) :: (false, .returned (.added key false)) ::
    (looking ++ (true, .returned (.mem key 1)) :: (reading true ++
      (true, .returned (.value key 8)) :: (reading false ++ [(false, .returned (.value key 8))])))

theorem run_choices : ∃ state, Run twoSlots (fun _ => 0) (State.initial twoSlots) trace state := by
  have hschedule : ∃ state, schedule twoSlots (fun _ => 0) choices (State.initial twoSlots) =
      some (trace, state) := ⟨_, rfl⟩
  obtain ⟨state, hstate⟩ := hschedule
  exact ⟨state, run_schedule hstate⟩

theorem quiet_internal {w : Bool} {n : ℕ} {event : Event ℕ} (h : (w, event) ∈ quiet w n) :
    event = .internal :=
  (Prod.mk.inj (List.eq_of_mem_replicate h)).2

theorem value_agreed_choices : ∃ data data', (true, .returned (.value key data)) ∈ trace ∧
    (false, .returned (.value key data')) ∈ trace ∧ data = data' ∧
      ∃ w, (w, .call (.add key data)) ∈ racing ++ (true, .returned (.added key true)) ::
        (false, .returned (.added key false)) :: (looking ++ (true, .returned (.mem key 1)) ::
          reading true) := by
  obtain ⟨state, hrun⟩ := run_choices
  have hleft : (true, .returned (.value key 8)) ∈ trace := by simp [trace]
  have hright : (false, .returned (.value key 8)) ∈ trace := by simp [trace]
  obtain ⟨hsame, horigin⟩ := value_agreed hrun
  exact ⟨8, 8, hleft, hright, hsame _ _ _ _ _ hleft hright, horigin _ (reading false ++
    [(false, .returned (.value key 8))]) true key 8 rfl⟩

theorem wrote_once_choices :
    trace ≠ racing ++ (true, .returned (.added key true)) :: [] ++
      (false, .returned (.added key true)) :: (looking ++ (true, .returned (.mem key 1)) ::
        (reading true ++ (true, .returned (.value key 8)) :: (reading false ++
          [(false, .returned (.value key 8))]))) := by
  obtain ⟨state, hrun⟩ := run_choices
  exact wrote_once hrun racing [] _ true false

theorem mem_of_added_choices :
    ∃ answer, (true, .returned answer) ∈ trace ∧ answer = .mem key 1 := by
  obtain ⟨state, hrun⟩ := run_choices
  have hsplit : trace = racing ++ (true, .returned (.added key true)) ::
      ([(false, .returned (.added key false))] ++ (true, .call (.mem key)) :: (quiet true 4 ++
        (true, .returned (.mem key 1)) :: (reading true ++ (true, .returned (.value key 8)) ::
          (reading false ++ [(false, .returned (.value key 8))])))) := rfl
  have hmem : (true, .returned (.mem key 1)) ∈ trace := by
    rw [hsplit]
    simp
  rw [hsplit] at hrun
  exact ⟨_, hmem, mem_of_added hrun fun _ => quiet_internal⟩

theorem get_of_mem_choices :
    ∃ data, Event.returned (.value key 8) = .returned (.value key data) := by
  obtain ⟨state, hrun⟩ := run_choices
  have hsplit : trace = (racing ++ (true, .returned (.added key true)) ::
      (false, .returned (.added key false)) :: looking) ++ (true, .returned (.mem key 1)) :: ([] ++
        (true, .call (.get key)) :: (quiet true 3 ++ (true, .returned (.value key 8)) ::
          (reading false ++ [(false, .returned (.value key 8))]))) := rfl
  rw [hsplit] at hrun
  exact get_of_mem hrun (fun _ => quiet_internal) (by intro h; cases h)

end Sample

end Pysa.SharedHeap
