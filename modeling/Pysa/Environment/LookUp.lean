/-
  Subject: WHAT A LOOK-UP RETURNS, AND WHAT IT LEAVES BEHIND.

  * `Environment.peek` -- the value that a look-up gives now;
  * `Valid` -- **a cached value is what is produced now**, from keys that are present and on which
    its key is registered;
  * `Extends` -- what look-ups may change: they add valid values;
  * `get_spec`, `produceValue_spec` -- a look-up, and a production.
-/
import Pysa.Environment.EnvironmentTable

namespace Pysa.Incremental

variable {Key V S : Type} {stack : Stack Key V} {up : Upstream Key V S}

/-! ## 1. Reads of the keys of others -/

/-- The result of a read. -/
structure Upstream.Reads (stack : Stack Key V) (up : Upstream Key V S) (peek : S → Key → V)
    (known : S → Key → Prop) (key : Key) (dependency : Option Key) (d : Dependencies Key) (s : S)
    (result : V × Dependencies Key × S) : Prop where
  value : result.1 = peek s key
  peek : peek result.2.2 = peek s
  owns : up.owns result.2.2 = up.owns s
  keeps : ∀ key, known s key → known result.2.2 key
  known : known result.2.2 key
  grows : Dependencies.Grows stack.encoding d result.2.1
  worker : result.2.1.worker.isSome = d.worker.isSome
  depends : ∀ dependency', dependency = some dependency' →
    d.Registered stack.encoding dependency' → result.2.1.Depends stack.encoding key dependency'

/-- Keys of others have a value now, which reads do not change. A key is known once it has been
    read. -/
structure Upstream.Laws (stack : Stack Key V) (up : Upstream Key V S) where
  peek : S → Key → V
  known : S → Key → Prop
  get_spec : ∀ key dependency d s, up.owns s key = false →
    up.Reads stack peek known key dependency d s (up.get key dependency (d, s))

namespace Environment

variable (laws : up.Laws stack)

/-! ## 2. The values now -/

/-- The value that a look-up gives. -/
def peek (e : Environment Key V S) (key : Key) : V :=
  if up.owns e.upstream key then
    match e.table key with
    | some hit => hit
    | none => (stack.produceValue key).eval fun upstream => peek e upstream.1
  else laws.peek e.upstream key
termination_by stack.layer key
decreasing_by exact upstream.2

/-- The value that is produced now. -/
def produced (e : Environment Key V S) (key : Key) : V :=
  (stack.produceValue key).eval fun upstream => e.peek laws upstream.1

def asked (e : Environment Key V S) (key : Key) :
    List {upstream : Key // stack.layer upstream < stack.layer key} :=
  (stack.produceValue key).asked fun upstream => e.peek laws upstream.1

/-- The key is in the table, or has been read. -/
def Known (e : Environment Key V S) (key : Key) : Prop :=
  if up.owns e.upstream key then (e.table key).isSome = true else laws.known e.upstream key

/-- The value is what is produced now, from known keys on which the key is registered. -/
structure Valid (e : Environment Key V S) (key : Key) (value : V) : Prop where
  value : value = e.produced laws key
  asked : ∀ upstream ∈ e.asked laws key, e.Known laws upstream.1 ∧
    e.dependencies.Depends stack.encoding upstream.1 key

variable {laws}

theorem peek_of_upstream {e : Environment Key V S} {key : Key}
    (howns : up.owns e.upstream key = false) : e.peek laws key = laws.peek e.upstream key := by
  rw [peek, if_neg (by rw [howns]; exact Bool.false_ne_true)]

theorem peek_of_hit {e : Environment Key V S} {key : Key} {value : V}
    (howns : up.owns e.upstream key = true) (hhit : e.table key = some value) :
    e.peek laws key = value := by
  rw [peek, if_pos howns, hhit]

theorem peek_of_miss {e : Environment Key V S} {key : Key}
    (howns : up.owns e.upstream key = true) (hmiss : e.table key = none) :
    e.peek laws key = e.produced laws key := by
  rw [peek, if_pos howns, hmiss]
  rfl

theorem known_iff_of_owns {e : Environment Key V S} {key : Key}
    (howns : up.owns e.upstream key = true) : e.Known laws key ↔ (e.table key).isSome = true := by
  rw [Known, if_pos howns]

theorem known_iff_of_upstream {e : Environment Key V S} {key : Key}
    (howns : up.owns e.upstream key = false) :
    e.Known laws key ↔ laws.known e.upstream key := by
  rw [Known, if_neg (by rw [howns]; exact Bool.false_ne_true)]

/-- The value of a key is settled by the values of lower layers and its own entry. -/
theorem peek_eq_of_lower {e e' : Environment Key V S} {key : Key}
    (howns : up.owns e'.upstream key = up.owns e.upstream key)
    (hupstream : laws.peek e'.upstream key = laws.peek e.upstream key)
    (hentry : up.owns e.upstream key = true →
      e'.table key = e.table key ∨ e.table key = none ∧ e'.table key = some (e.produced laws key))
    (hlower : ∀ lower, stack.layer lower < stack.layer key →
      e'.peek laws lower = e.peek laws lower) :
    e'.peek laws key = e.peek laws key := by
  have hproduced : e'.produced laws key = e.produced laws key :=
    (Query.eval_congr fun upstream _ => hlower upstream.1 upstream.2).1
  cases h : up.owns e.upstream key with
  | false => rw [peek_of_upstream h, peek_of_upstream (howns.trans h), hupstream]
  | true =>
    have h' := howns.trans h
    rcases hentry h with hsame | ⟨hnone, hsome⟩
    · cases hentry : e.table key with
      | none => rw [peek_of_miss h hentry, peek_of_miss h' (hsame.trans hentry), hproduced]
      | some value => rw [peek_of_hit h hentry, peek_of_hit h' (hsame.trans hentry)]
    · rw [peek_of_miss h hnone, peek_of_hit h' hsome]

/-! ## 3. What look-ups change -/

/-- What look-ups may change: they add valid values below the layer `bound`. -/
structure Extends (laws : up.Laws stack) (bound : ℕ) (e e' : Environment Key V S) : Prop where
  peek : e'.peek laws = e.peek laws
  upstream : laws.peek e'.upstream = laws.peek e.upstream
  owns : up.owns e'.upstream = up.owns e.upstream
  known : ∀ key, laws.known e.upstream key → laws.known e'.upstream key
  grows : e.dependencies.Grows stack.encoding e'.dependencies
  table : ∀ key value, e.table key = some value → e'.table key = some value
  fresh : ∀ key value, e.table key = none → e'.table key = some value →
    stack.layer key < bound ∧ up.owns e.upstream key = true ∧ e'.Valid laws key value

variable {bound bound' : ℕ} {e e' e'' : Environment Key V S}

theorem Extends.refl (e : Environment Key V S) : Extends laws bound e e :=
  ⟨rfl, rfl, rfl, fun _ => id, .refl _, fun _ _ => id, fun _ _ hnone hsome => by
    cases hnone.symm.trans hsome⟩

theorem Extends.mono (h : Extends laws bound e e') (hle : bound ≤ bound') :
    Extends laws bound' e e' :=
  { h with fresh := fun key value hnone hsome =>
      ⟨lt_of_lt_of_le (h.fresh key value hnone hsome).1 hle, (h.fresh key value hnone hsome).2⟩ }

theorem Extends.knows (h : Extends laws bound e e') {key : Key} (hkey : e.Known laws key) :
    e'.Known laws key := by
  cases howns : up.owns e.upstream key with
  | true =>
    obtain ⟨value, hvalue⟩ := Option.isSome_iff_exists.mp ((known_iff_of_owns howns).mp hkey)
    exact (known_iff_of_owns ((congrFun h.owns key).trans howns)).mpr
      (Option.isSome_iff_exists.mpr ⟨value, h.table key value hvalue⟩)
  | false =>
    exact (known_iff_of_upstream ((congrFun h.owns key).trans howns)).mpr
      (h.known key ((known_iff_of_upstream howns).mp hkey))

theorem Extends.valid (h : Extends laws bound e e') {key : Key} {value : V}
    (hvalid : e.Valid laws key value) : e'.Valid laws key value := by
  obtain ⟨hvalue, hasked⟩ := hvalid
  unfold produced at hvalue
  unfold asked at hasked
  rw [← h.peek] at hvalue hasked
  exact ⟨hvalue, fun upstream hupstream =>
    ⟨h.knows (hasked upstream hupstream).1, (hasked upstream hupstream).2.grows h.grows⟩⟩

theorem Extends.trans (h : Extends laws bound e e') (h' : Extends laws bound e' e'') :
    Extends laws bound e e'' where
  peek := h'.peek.trans h.peek
  upstream := h'.upstream.trans h.upstream
  owns := h'.owns.trans h.owns
  known key hkey := h'.known key (h.known key hkey)
  grows := h.grows.trans h'.grows
  table key value hvalue := h'.table key value (h.table key value hvalue)
  fresh key value hnone hsome := by
    cases hmiddle : e'.table key with
    | none =>
      obtain ⟨hlayer, howns, hvalid⟩ := h'.fresh key value hmiddle hsome
      exact ⟨hlayer, by rw [← h.owns]; exact howns, hvalid⟩
    | some value' =>
      obtain ⟨hlayer, howns, hvalid⟩ := h.fresh key value' hnone hmiddle
      obtain rfl := Option.some.inj ((h'.table key value' hmiddle).symm.trans hsome)
      exact ⟨hlayer, howns, h'.valid hvalid⟩

/-- A change of the dependencies, and of what is known upstream. -/
theorem extends_of_table_eq (htable : e'.table = e.table)
    (hupstream : laws.peek e'.upstream = laws.peek e.upstream)
    (howns : up.owns e'.upstream = up.owns e.upstream)
    (hknown : ∀ key, laws.known e.upstream key → laws.known e'.upstream key)
    (hgrows : e.dependencies.Grows stack.encoding e'.dependencies) :
    Extends laws bound e e' where
  peek := by
    funext key
    induction key using (measure stack.layer).wf.induction with
    | _ key ih =>
      exact peek_eq_of_lower (congrFun howns key) (congrFun hupstream key)
        (fun _ => Or.inl (congrFun htable key)) ih
  upstream := hupstream
  owns := howns
  known := hknown
  grows := hgrows
  table key value hvalue := (congrFun htable key).trans hvalue
  fresh key value hnone hsome := by
    rw [htable, hnone] at hsome
    cases hsome

variable (laws bound) in
theorem extends_addDependency (key : Key) (dependency : Option Key) (e : Environment Key V S) :
    Extends laws bound e (e.addDependency stack key dependency) :=
  extends_of_table_eq rfl rfl rfl (fun _ => id) (Dependencies.addDependency_grows _ _ _)

variable [DecidableEq Key]

variable (laws bound) in
theorem extends_register (key : Key) (e : Environment Key V S) :
    Extends laws bound e (e.register stack key) :=
  extends_of_table_eq rfl rfl rfl (fun _ => id) (Dependencies.register_grows _ _)

theorem add_table (key : Key) (value : V) (e : Environment Key V S) :
    ((e.add key value).table key).isSome ∧
      ∀ key', key' ≠ key → (e.add key value).table key' = e.table key' := by
  unfold add
  cases h : e.table key with
  | some value' => exact ⟨by rw [h]; rfl, fun _ _ => rfl⟩
  | none => exact ⟨by dsimp only; rw [if_pos rfl]; rfl, fun key' hne => if_neg hne⟩

theorem add_dependencies (key : Key) (value : V) (e : Environment Key V S) :
    (e.add key value).dependencies = e.dependencies := by
  unfold add
  cases e.table key <;> rfl

/-- A valid value is added. -/
theorem extends_add {key : Key} {value : V} (howns : up.owns e.upstream key = true)
    (hnone : e.table key = none) (hvalid : e.Valid laws key value) :
    Extends laws (stack.layer key + 1) e (e.add key value) := by
  have hadd : e.add key value =
      { e with table := fun key' => if key' = key then some value else e.table key' } := by
    unfold add
    rw [hnone]
  have hsome : (e.add key value).table key = some value := by
    rw [hadd]
    exact if_pos rfl
  have hupstream : (e.add key value).upstream = e.upstream := by rw [hadd]
  have hdependencies : (e.add key value).dependencies = e.dependencies := by rw [hadd]
  have hpeek : (e.add key value).peek laws = e.peek laws := by
    funext key'
    induction key' using (measure stack.layer).wf.induction with
    | _ key' ih =>
      refine peek_eq_of_lower (by rw [hupstream]) (by rw [hupstream]) (fun _ => ?_) ih
      by_cases hkey : key' = key
      · subst hkey
        exact Or.inr ⟨hnone, by rw [hsome, hvalid.value]⟩
      · exact Or.inl ((add_table key value e).2 key' hkey)
  have htable : ∀ key' value', e.table key' = some value' →
      (e.add key value).table key' = some value' := by
    intro key' value' hvalue'
    have hkey : key' ≠ key := by
      intro hkey
      rw [hkey, hnone] at hvalue'
      cases hvalue'
    rw [(add_table key value e).2 key' hkey, hvalue']
  have hknows : ∀ key', e.Known laws key' → (e.add key value).Known laws key' := by
    intro key' hkey'
    cases howns' : up.owns e.upstream key' with
    | true =>
      obtain ⟨value', hvalue'⟩ :=
        Option.isSome_iff_exists.mp ((known_iff_of_owns howns').mp hkey')
      refine (known_iff_of_owns (by rw [hupstream]; exact howns')).mpr ?_
      exact Option.isSome_iff_exists.mpr ⟨value', htable key' value' hvalue'⟩
    | false =>
      refine (known_iff_of_upstream (by rw [hupstream]; exact howns')).mpr ?_
      rw [hupstream]
      exact (known_iff_of_upstream howns').mp hkey'
  refine ⟨hpeek, by rw [hupstream], by rw [hupstream], fun key' h => by rw [hupstream]; exact h,
    by rw [hdependencies]; exact .refl _, htable, ?_⟩
  intro key' value' hnone' hsome'
  have hkey : key' = key := by
    by_contra hkey
    rw [(add_table key value e).2 key' hkey, hnone'] at hsome'
    cases hsome'
  subst hkey
  obtain rfl := Option.some.inj (hsome.symm.trans hsome')
  refine ⟨Nat.lt_succ_self _, howns, ?_, fun upstream hupstream' => ?_⟩
  · unfold produced
    rw [hpeek]
    exact hvalid.value
  · unfold asked at hupstream'
    rw [hpeek] at hupstream'
    rw [hdependencies]
    exact ⟨hknows _ (hvalid.asked upstream hupstream').1, (hvalid.asked upstream hupstream').2⟩

/-! ## 4. Look-ups and productions -/

/-- A worker stays a worker, and the master the master. -/
def SameProcess (e e' : Environment Key V S) : Prop :=
  e'.dependencies.worker.isSome = e.dependencies.worker.isSome

/-- What a look-up returns and leaves behind. -/
structure LooksUp (laws : up.Laws stack) (key : Key) (dependency : Option Key)
    (e : Environment Key V S) (result : V × Environment Key V S) : Prop where
  value : result.1 = e.peek laws key
  extends_ : Extends laws (stack.layer key + 1) e result.2
  process : SameProcess e result.2
  known : result.2.Known laws key
  depends : ∀ dependency', dependency = some dependency' →
    e.dependencies.Registered stack.encoding dependency' →
    result.2.dependencies.Depends stack.encoding key dependency'

/-- What a production returns and leaves behind. -/
structure Produces (laws : up.Laws stack) (key : Key) (e : Environment Key V S)
    (result : V × Environment Key V S) : Prop where
  extends_ : Extends laws (stack.layer key) e result.2
  process : SameProcess e result.2
  valid : result.2.Valid laws key result.1

/-- A production whose look-ups are right is right. -/
theorem produces_of_looksUp {key : Key} (e : Environment Key V S)
    (hget : ∀ lower, stack.layer lower < stack.layer key → ∀ dependency (e : Environment Key V S),
      LooksUp laws lower dependency e (e.get stack up lower dependency))
    (hregistered : e.dependencies.Registered stack.encoding key) :
    Produces laws key e (e.produceValue stack up key) := by
  have hread : ∀ (upstream : {upstream : Key // stack.layer upstream < stack.layer key})
      (state : Environment Key V S), Extends laws (stack.layer key) e state ∧ SameProcess e state →
      (state.get stack up upstream.1 (some key)).1 = e.peek laws upstream.1 ∧
      (Extends laws (stack.layer key) state (state.get stack up upstream.1 (some key)).2 ∧
        SameProcess state (state.get stack up upstream.1 (some key)).2) ∧
      (state.get stack up upstream.1 (some key)).2.Known laws upstream.1 ∧
      (state.get stack up upstream.1 (some key)).2.dependencies.Depends stack.encoding upstream.1
        key := by
    intro upstream state hstate
    obtain ⟨hvalue, hextends, hprocess, hknown, hdepends⟩ :=
      hget upstream.1 upstream.2 (some key) state
    refine ⟨hvalue.trans (congrFun hstate.1.peek upstream.1),
      ⟨hextends.mono upstream.2, hprocess⟩, hknown, ?_⟩
    exact hdepends key rfl (hstate.1.grows.registered key hregistered)
  have hkeep : ∀ (upstream : {upstream : Key // stack.layer upstream < stack.layer key})
      (state next : Environment Key V S),
      Extends laws (stack.layer key) state next ∧ SameProcess state next →
      (state.Known laws upstream.1 ∧
        state.dependencies.Depends stack.encoding upstream.1 key) →
      next.Known laws upstream.1 ∧ next.dependencies.Depends stack.encoding upstream.1 key :=
    fun upstream state next hchanges hrecorded =>
      ⟨hchanges.1.knows hrecorded.1, hrecorded.2.grows hchanges.1.grows⟩
  obtain ⟨hvalue, ⟨hextends, hprocess⟩, hasked⟩ := Query.run_spec
    (fun upstream e => e.get stack up upstream.1 (some key))
    (fun upstream => e.peek laws upstream.1)
    (fun e e' => Extends laws (stack.layer key) e e' ∧ SameProcess e e')
    (fun upstream state => state.Known laws upstream.1 ∧
      state.dependencies.Depends stack.encoding upstream.1 key)
    (fun state => ⟨Extends.refl state, rfl⟩)
    (fun _ _ _ h h' => ⟨h.1.trans h'.1, h'.2.trans h.2⟩) hkeep hread (stack.produceValue key)
  have hextends' : Extends laws (stack.layer key) e (e.produceValue stack up key).2 := hextends
  refine ⟨hextends', hprocess, ?_, fun upstream hupstream => ?_⟩
  · unfold produced
    rw [hextends'.peek]
    exact hvalue
  · unfold asked at hupstream
    rw [hextends'.peek] at hupstream
    exact hasked upstream hupstream

/-- **A look-up gives the value that a key has now, and adds only valid values.** By induction on
    the layer of the key. -/
theorem get_spec (laws : up.Laws stack) (key : Key) (dependency : Option Key)
    (e : Environment Key V S) : LooksUp laws key dependency e (e.get stack up key dependency) := by
  induction key using (measure stack.layer).wf.induction generalizing dependency e with
  | _ key ih =>
    rw [get]
    cases howns : up.owns e.upstream key with
    | false =>
      rw [if_neg Bool.false_ne_true]
      obtain ⟨hvalue, hpeek, howns', hkeeps, hknown, hgrows, hworker, hdepends⟩ :=
        laws.get_spec key dependency e.dependencies e.upstream howns
      exact ⟨hvalue.trans (peek_of_upstream howns).symm,
        extends_of_table_eq rfl hpeek howns' hkeeps hgrows, hworker,
        (known_iff_of_upstream ((congrFun howns' key).trans howns)).mpr hknown, hdepends⟩
    | true =>
      rw [if_pos rfl]
      have hstart := extends_addDependency laws (stack.layer key + 1) key dependency e
      cases hentry : e.table key with
      | some hit =>
        refine ⟨(peek_of_hit howns hentry).symm, hstart,
          congrArg Option.isSome (Dependencies.addDependency_worker _ _ _), ?_, ?_⟩
        · refine (known_iff_of_owns ((congrFun hstart.owns key).trans howns)).mpr ?_
          rw [hstart.table key hit hentry]
          rfl
        · intro dependency' hdependency' hregistered
          subst hdependency'
          exact Dependencies.addDependency_depends hregistered
      | none =>
        dsimp only
        have hregister := hstart.trans
          (extends_register laws (stack.layer key + 1) key
            (e.addDependency stack key dependency))
        obtain ⟨hextends, hprocess, hvalid⟩ := produces_of_looksUp
          ((e.addDependency stack key dependency).register stack key) ih
          (Dependencies.register_registered key _)
        have hnone : (((e.addDependency stack key dependency).register stack
            key).produceValue stack up key).2.table key = none := by
          refine Option.eq_none_iff_forall_ne_some.mpr fun value hsome => ?_
          exact lt_irrefl _ (hextends.fresh key value hentry hsome).1
        have howns' : up.owns (((e.addDependency stack key dependency).register stack
            key).produceValue stack up key).2.upstream key = true := by
          rw [hextends.owns]
          exact howns
        have hadd := extends_add howns' hnone hvalid
        have hall := hregister.trans ((hextends.mono (Nat.le_succ _)).trans hadd)
        refine ⟨?_, hall, ?_, ?_, ?_⟩
        · rw [peek_of_miss howns hentry]
          unfold produced
          rw [← hregister.peek, ← hextends.peek]
          exact hvalid.value
        · have hworker : SameProcess e
              ((e.addDependency stack key dependency).register stack key) :=
            (Dependencies.register_worker _ _).trans
              (congrArg Option.isSome (Dependencies.addDependency_worker _ _ _))
          unfold SameProcess
          dsimp only
          rw [add_dependencies]
          exact hprocess.trans hworker
        · exact (known_iff_of_owns ((congrFun hall.owns key).trans howns)).mpr
            (add_table _ _ _).1
        · intro dependency' hdependency' hregistered
          subst hdependency'
          exact (Dependencies.addDependency_depends hregistered).grows
            ((extends_register laws 0 key _).grows.trans
              (hextends.grows.trans hadd.grows))

theorem produceValue_spec (laws : up.Laws stack) {key : Key} (e : Environment Key V S)
    (hregistered : e.dependencies.Registered stack.encoding key) :
    Produces laws key e (e.produceValue stack up key) :=
  produces_of_looksUp e (fun lower _ dependency e => get_spec laws lower dependency e) hregistered

end Environment

end Pysa.Incremental
