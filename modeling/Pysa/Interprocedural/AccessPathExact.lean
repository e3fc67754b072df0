/-
  Subject: THE MATCHING OF ACTUALS TO FORMALS IS EXACT WITHOUT UNPACKING.

  * `Stored` -- what Python stores for a call, value by value;
  * `MatchExact` -- each actual has one match, at the parameter and the slot where Python stores it;
  * `matchExact` -- **that holds of every accepted call without stars, when no parameter is
    positional-only.**
-/
import Pysa.Interprocedural.AccessPathSound

namespace Pysa

universe u

open Identifier

variable {E : Type u}

/-- A filter with results for one key only gives one result. -/
theorem filterMap_eq_singleton {α β κ : Type*} {l : List α} {key : α → κ} {f : α → Option β} {a : α}
    {b : β} (hnodup : (l.map key).Nodup) (ha : a ∈ l) (hb : f a = some b)
    (h : ∀ a' ∈ l, (f a').isSome = true → key a' = key a) : l.filterMap f = [b] := by
  obtain ⟨front, back, rfl⟩ := List.append_of_mem ha
  rw [List.map_append, List.map_cons, List.nodup_append, List.nodup_cons] at hnodup
  obtain ⟨-, ⟨hback, -⟩, hfront⟩ := hnodup
  have hnone (a' : α) (ha' : a' ∈ front ++ a :: back) (hne : key a' ≠ key a) : f a' = none := by
    by_contra hsome
    exact hne (h a' ha' (Option.isSome_iff_ne_none.mpr hsome))
  rw [List.filterMap_append, List.filterMap_cons_some hb,
    List.filterMap_eq_nil_iff.mpr fun a' ha' => hnone a' (List.mem_append_left _ ha') ?_,
    List.filterMap_eq_nil_iff.mpr fun a' ha' =>
      hnone a' (List.mem_append_right _ (List.mem_cons_of_mem _ ha')) ?_, List.nil_append]
  · exact fun heq => hback (heq ▸ List.mem_map_of_mem ha')
  · exact hfront _ (List.mem_map_of_mem ha') _ List.mem_cons_self

/-- A parameter that takes any number of values. -/
def Root.isVariadic : Root → Bool
  | .starParameter _ | .starStarParameter _ => true
  | _ => false

namespace Python

variable (q q' : Bool) {signature : Signature E}

/-! ## 1. The one formal of an actual -/

/-- The parameters have different names. -/
theorem nodup_qualifiedNames : ((normalizeParameters (signature.toParameters q)).map
    fun np => Root.chopParameterPrefix np.qualifiedName).Nodup := by
  have hzip (params : List (Param E)) (p : Nat) :
      (params.zipIdx p).map (fun entry => entry.1.name.text) = params.map (·.name.text) := by
    calc (params.zipIdx p).map (fun entry => entry.1.name.text)
        = ((params.zipIdx p).map Prod.fst).map (·.name.text) := by
          rw [List.map_map]
          rfl
      _ = params.map (·.name.text) := by rw [List.zipIdx_map_fst]
  have hnames : (normalizeParameters (signature.toParameters q)).map
      (fun np => Root.chopParameterPrefix np.qualifiedName) =
      signature.positionalOnly.map (·.name.text) ++ signature.positional.map (·.name.text) ++
        signature.varargs.toList.map Name.text ++ signature.keywordOnly.map (·.name.text) ++
        signature.kwargs.toList.map Name.text := by
    rw [Signature.normalizeParameters_eq, ← hzip signature.positionalOnly 0,
      ← hzip signature.positional signature.positionalOnly.length]
    simp [Signature.normalizedParameters, Signature.normalizedPositional, Signature.normalizedNamed,
      Function.comp_def]
  have hnodup := signature.nodup.map (f := Name.text) fun _ _ => Name.ext
  rw [hnames]
  refine (List.Perm.nodup_iff ?_).mpr hnodup
  simp only [List.map_append, List.map_map, Function.comp_def]
  refine List.Perm.append_right _ ?_
  rw [List.append_assoc, List.append_assoc _ (signature.keywordOnly.map _)]
  exact List.Perm.append_left _ List.perm_append_comm

/-- The roots of the parameters, to which the matching is applied. -/
def rootsOf (signature : Signature E) : List Root :=
  (normalizeParameters (signature.toParameters q)).map (·.root)

/-- One parameter takes the value. -/
theorem filterMap_roots {f : Root → Option ArgumentMatch} {np : NormalizedParameter E}
    {m : ArgumentMatch} (hnp : np ∈ normalizeParameters (signature.toParameters q))
    (hm : f np.root = some m)
    (h : ∀ name root, Signature.HasRoot signature name root → (f root).isSome = true →
      name = Root.chopParameterPrefix np.qualifiedName) :
    (rootsOf q signature).filterMap f = [m] := by
  rw [rootsOf, List.filterMap_map]
  exact filterMap_eq_singleton (nodup_qualifiedNames q) hnp hm fun np' hnp' hsome =>
    h _ _ (Signature.hasRoot_of_mem hnp') hsome

/-- The analysis gives a value with the formals `formals` to the parameter `name` at `path`. -/
def MatchedAt (signature : Signature E) (formals : List ArgumentMatch) (name : Identifier)
    (path : List Label) : Prop :=
  ∃ np ∈ normalizeParameters (signature.toParameters q),
    Root.chopParameterPrefix np.qualifiedName = name ∧ formals = [⟨np.root, [], path⟩]

variable {q} {names : Finset Identifier}

theorem matchedAt_position {j : Nat} {a : Param E} (h : signature.byPosition[j]? = some a) :
    MatchedAt q signature
      ((rootsOf q signature).filterMap (filterToPositional (.one (.precise j)))) a.name.text [] := by
  obtain ⟨np, hnp, hchop, positionalOnly, hroot⟩ := Signature.exists_byPosition (q := q) h
  refine ⟨np, hnp, hchop, filterMap_roots q hnp (by rw [hroot]; exact if_pos rfl) ?_⟩
  rw [hchop]
  intro name root hhas hsome
  cases hhas with
  | @byPosition j' a' _ h' =>
    by_cases hj : j = j'
    · subst hj
      rw [Option.some.inj (h.symm.trans h')]
    · simp [filterToPositional, hj] at hsome
  | varargs _ =>
    have hlt := (List.getElem?_eq_some_iff.mp h).1
    simp [filterToPositional, Nat.not_le_of_lt hlt] at hsome
  | keywordOnly _ => cases hsome
  | kwargs _ => cases hsome

theorem matchedAt_extra {j : Nat} {x : Name} (hx : signature.varargs = some x)
    (hj : signature.byPosition.length ≤ j) :
    MatchedAt q signature
      ((rootsOf q signature).filterMap (filterToPositional (.one (.precise j)))) x.text
      (Slot.element (j - signature.byPosition.length)).path := by
  obtain ⟨np, hnp, hchop, hroot⟩ := Signature.exists_varargs (q := q) hx
  refine ⟨np, hnp, hchop, filterMap_roots q hnp (by rw [hroot]; exact if_pos hj) ?_⟩
  rw [hchop]
  intro name root hhas hsome
  cases hhas with
  | @byPosition j' a' _ h' =>
    have hne : j ≠ j' := by
      rintro rfl
      exact Nat.not_le_of_lt (List.getElem?_eq_some_iff.mp h').1 hj
    simp [filterToPositional, hne] at hsome
  | varargs hx' => rw [Option.some.inj (hx.symm.trans hx')]
  | keywordOnly _ => cases hsome
  | kwargs _ => cases hsome

theorem matchedAt_name {a : Param E} (ha : a ∈ signature.params) :
    MatchedAt q signature
      ((rootsOf q signature).filterMap (filterToNamed names (.name a.name.text))) a.name.text
      [] := by
  obtain ⟨np, hnp, hchop, hmatch⟩ : ∃ np ∈ normalizeParameters (signature.toParameters q),
      Root.chopParameterPrefix np.qualifiedName = a.name.text ∧
        filterToNamed names (.name a.name.text) np.root = some ⟨np.root, [], []⟩ := by
    rcases List.mem_append.mp ha with ha | ha
    · obtain ⟨j, hj⟩ := List.mem_iff_getElem?.mp ha
      obtain ⟨np, hnp, hchop, positionalOnly, hroot⟩ := Signature.exists_byPosition (q := q) hj
      exact ⟨np, hnp, hchop, by rw [hroot]; exact if_pos rfl⟩
    · obtain ⟨np, hnp, hchop, hroot⟩ := Signature.exists_keywordOnly (q := q) ha
      exact ⟨np, hnp, hchop, by rw [hroot]; exact if_pos rfl⟩
  refine ⟨np, hnp, hchop, filterMap_roots q hnp hmatch ?_⟩
  rw [hchop]
  intro name root hhas hsome
  cases hhas with
  | byPosition _ _ =>
    by_contra hne
    simp [filterToNamed, Ne.symm hne] at hsome
  | varargs _ => cases hsome
  | keywordOnly _ =>
    by_contra hne
    simp [filterToNamed, Ne.symm hne] at hsome
  | kwargs _ =>
    -- the names of the parameters are excluded
    have hexcluded : a.name.text ∈ Signature.names signature.params :=
      List.mem_toFinset.mpr (List.mem_map.mpr ⟨a, ha, rfl⟩)
    simp [filterToNamed, hexcluded] at hsome

theorem matchedAt_entry {x w : Name} (hw : signature.kwargs = some w)
    (hx : x.text ∉ Signature.names signature.params) :
    MatchedAt q signature
      ((rootsOf q signature).filterMap (filterToNamed names (.name x.text))) w.text
      (Slot.entry x.text).path := by
  obtain ⟨np, hnp, hchop, hroot⟩ := Signature.exists_kwargs (q := q) hw
  have hmatch : filterToNamed names (.name x.text) np.root =
      some ⟨np.root, [], (Slot.entry x.text).path⟩ := by
    rw [hroot]
    refine (if_pos hx).trans ?_
    rw [show Root.chopParameterPrefix x.text = x.text from chop_nameInTree false x]
    rfl
  refine ⟨np, hnp, hchop, filterMap_roots q hnp hmatch ?_⟩
  rw [hchop]
  have hparam (a : Param E) (ha : a ∈ signature.params) : x.text ≠ a.name.text := fun heq =>
    hx (List.mem_toFinset.mpr (List.mem_map.mpr ⟨a, ha, heq.symm⟩))
  intro name root hhas hsome
  cases hhas with
  | byPosition _ h =>
    have hne := hparam _ (List.mem_append_left _ (List.mem_of_getElem? h))
    simp [filterToNamed, hne] at hsome
  | varargs _ => cases hsome
  | keywordOnly h =>
    have hne := hparam _ (List.mem_append_right _ h)
    simp [filterToNamed, hne] at hsome
  | kwargs hw' => rw [Option.some.inj (hw.symm.trans hw')]

/-! ## 2. The actuals of a call without stars -/

theorem matchFrom_fst (roots : List Root) (names : Finset Identifier) (position : ArgumentPosition)
    (arguments : List (Argument E)) :
    (matchFrom roots names position arguments).map Prod.fst = arguments := by
  induction arguments generalizing position with
  | nil => rfl
  | cons argument rest ih => exact congrArg (argument :: ·) (ih _)

def Actual.Plain : Actual E → Prop
  | positional _ | keyword _ _ => True
  | starred _ | doubleStarred _ => False

/-- The matching of a call. -/
def matching (q q' : Bool) (signature : Signature E) (actuals : List (Actual E)) :
    List (Argument E × List ArgumentMatch) :=
  matchActualsToFormals (actuals.map (Actual.toArgument q')) (rootsOf q signature)

theorem matching_fst (signature : Signature E) (actuals : List (Actual E)) :
    (matching q q' signature actuals).map Prod.fst = actuals.map (Actual.toArgument q') := by
  rw [matching, matchActualsToFormals_eq, matchFrom_fst]

/-- A match that is found is that of an actual. -/
theorem matching_getElem? {actuals : List (Actual E)} {o : Nat} {x : Argument E × List ArgumentMatch}
    (h : (matching q q' signature actuals)[o]? = some x) :
    ∃ actual, actuals[o]? = some actual ∧ x.1 = actual.toArgument q' := by
  have hfst := congrArg (·[o]?) (matching_fst (q := q) q' signature actuals)
  simp only [List.getElem?_map, h, Option.map_some] at hfst
  obtain ⟨actual, hactual, heq⟩ := Option.map_eq_some_iff.mp hfst.symm
  exact ⟨actual, hactual, heq.symm⟩

variable {expansion : Expansion} {actuals : List (Actual E)}

/-- Without stars the positions that the matching counts are those of the values. -/
theorem positionalValues_plain (roots : List Root) (names : Finset Identifier)
    (hplain : ∀ actual ∈ actuals, actual.Plain) {i b d o : Nat}
    (ho : (positionalValues expansion i actuals)[d]? = some o) :
    i ≤ o ∧ ∃ argument, (matchFrom roots names (.precise b)
      (actuals.map (Actual.toArgument q')))[o - i]? =
        some (argument, roots.filterMap (filterToPositional (.one (.precise (b + d))))) := by
  induction actuals generalizing i b d with
  | nil => cases ho
  | cons actual rest ih =>
    have hrest := fun actual' h => hplain actual' (List.mem_cons_of_mem _ h)
    cases actual with
    | positional value =>
      cases d with
      | zero =>
        obtain rfl : i = o := Option.some.inj ho
        refine ⟨le_rfl, Actual.toArgument q' (.positional value), ?_⟩
        rw [Nat.sub_self]
        rfl
      | succ d =>
        obtain ⟨hio, argument, hget⟩ := ih (b := b + 1) hrest ho
        refine ⟨by omega, argument, getElem?_cons_sub hio ?_⟩
        rw [show b + (d + 1) = b + 1 + d by omega]
        exact hget
    | keyword name value =>
      obtain ⟨hio, argument, hget⟩ := ih (b := b) hrest ho
      exact ⟨by omega, argument, getElem?_cons_sub hio hget⟩
    | starred value => exact (hplain _ List.mem_cons_self).elim
    | doubleStarred value => exact (hplain _ List.mem_cons_self).elim

theorem positional_mem_positionalValues (expansion : Expansion) {i o : Nat} {value : E}
    (h : actuals[o]? = some (.positional value)) :
    i + o ∈ positionalValues expansion i actuals := by
  induction actuals generalizing i o with
  | nil => cases h
  | cons actual rest ih =>
    cases o with
    | zero =>
      obtain rfl : actual = .positional value := Option.some.inj h
      exact List.mem_cons_self
    | succ o =>
      have hmem : i + (o + 1) ∈ positionalValues expansion (i + 1) rest := by
        rw [show i + (o + 1) = i + 1 + o by omega]
        exact ih h
      cases actual with
      | positional _ => exact List.mem_cons_of_mem _ hmem
      | starred _ => exact List.mem_append_right _ hmem
      | keyword _ _ => exact hmem
      | doubleStarred _ => exact hmem

/-! ## 3. What is stored -/

section Stored

variable {V : Type} {positional : List V} {named : List (Identifier × V)}

/-- What Python stores for a call. -/
inductive Stored (signature : Signature E) (positional : List V) (named : List (Identifier × V)) :
    Binding V → Prop where
  | first {j : Nat} {a : Param E} {value : V} (h : signature.byPosition[j]? = some a)
      (hvalue : positional[j]? = some value) :
      Stored signature positional named ⟨a.name.text, .whole, value⟩
  | extra {j : Nat} {x : Name} {value : V} (hx : signature.varargs = some x)
      (hj : signature.byPosition.length ≤ j) (hvalue : positional[j]? = some value) :
      Stored signature positional named
        ⟨x.text, .element (j - signature.byPosition.length), value⟩
  | name {a : Param E} {value : V} (ha : a ∈ signature.byName)
      (hfree : ∀ j : Nat, ∀ a', signature.byPosition[j]? = some a' → j < positional.length →
        a'.name.text ≠ a.name.text)
      (hnamed : (a.name.text, value) ∈ named) :
      Stored signature positional named ⟨a.name.text, .whole, value⟩
  | entry {key : Identifier} {w : Name} {value : V} (hw : signature.kwargs = some w)
      (hkey : key ∉ signature.byName.map (·.name.text)) (hnamed : (key, value) ∈ named) :
      Stored signature positional named ⟨w.text, .entry key, value⟩

theorem mem_storeFirst {b : Binding V} : b ∈ storeFirst signature positional ↔
    ∃ (j : Nat) (a : Param E) (value : V), signature.byPosition[j]? = some a ∧
      positional[j]? = some value ∧ b = ⟨a.name.text, .whole, value⟩ := by
  unfold storeFirst
  rw [List.mem_map]
  constructor
  · rintro ⟨⟨name, value⟩, hmem, rfl⟩
    obtain ⟨j, hj⟩ := List.mem_iff_getElem?.mp hmem
    obtain ⟨hname, hvalue⟩ := List.getElem?_zip_eq_some.mp hj
    rw [List.getElem?_map] at hname
    obtain ⟨a, ha, rfl⟩ := Option.map_eq_some_iff.mp hname
    exact ⟨j, a, value, ha, hvalue, rfl⟩
  · rintro ⟨j, a, value, ha, hvalue, rfl⟩
    refine ⟨(a.name.text, value), List.mem_of_getElem? (List.getElem?_zip_eq_some.mpr
      ⟨?_, hvalue⟩), rfl⟩
    rw [List.getElem?_map, ha]
    rfl

theorem mem_storeExtra {extra : List V} {rest : List (Binding V)}
    (h : storeExtra signature extra = some rest) :
    (∀ b ∈ rest, ∃ (d : Nat) (x : Name) (value : V), signature.varargs = some x ∧
      extra[d]? = some value ∧ b = ⟨x.text, .element d, value⟩) ∧
      ∀ value ∈ extra, ∃ b ∈ rest, b.value = value := by
  unfold storeExtra at h
  split at h
  · rename_i x hx
    obtain rfl := Option.some.inj h
    refine ⟨fun b hb => ?_, fun value hvalue => ?_⟩
    · obtain ⟨⟨value, d⟩, hmem, rfl⟩ := List.mem_map.mp hb
      exact ⟨d, x, value, hx, List.mk_mem_zipIdx_iff_getElem?.mp hmem, rfl⟩
    · obtain ⟨d, hd⟩ := List.mem_iff_getElem?.mp hvalue
      exact ⟨_, List.mem_map_of_mem (List.mk_mem_zipIdx_iff_getElem?.mpr hd), rfl⟩
  · split at h
    · rename_i hempty
      obtain rfl := Option.some.inj h
      obtain rfl := List.isEmpty_iff.mp hempty
      exact ⟨fun _ hb => (List.not_mem_nil hb).elim, fun _ hv => (List.not_mem_nil hv).elim⟩
    · cases h

theorem stored_of_named {key : Identifier} {value : V} {b : Binding V}
    (hb : storeNamed signature (storeFirst signature positional) (key, value) = some b)
    (hmem : (key, value) ∈ named) : Stored signature positional named b := by
  unfold storeNamed at hb
  split at hb
  · rename_i hname
    split at hb
    · cases hb
    · rename_i hfree
      obtain rfl := Option.some.inj hb
      obtain ⟨a, ha, rfl⟩ := List.mem_map.mp hname
      refine .name ha (fun j a' ha' hj heq => hfree ?_) hmem
      exact List.mem_map.mpr ⟨_, mem_storeFirst.mpr
        ⟨j, a', _, ha', List.getElem?_eq_getElem hj, rfl⟩, heq⟩
  · rename_i hname
    obtain ⟨w, hw, rfl⟩ := Option.map_eq_some_iff.mp hb
    exact .entry hw hname hmem

/-- The bindings of an accepted call are stored, and every value of the call is among them. -/
theorem storeArguments_spec {stored : List (Binding V)}
    (h : storeArguments signature positional named = some stored) :
    (named.map Prod.fst).Nodup ∧ (∀ b ∈ stored, Stored signature positional named b) ∧
      (∀ value ∈ positional, ∃ b ∈ stored, b.value = value) ∧
      ∀ key value, (key, value) ∈ named → ∃ b ∈ stored, b.value = value := by
  unfold storeArguments at h
  obtain ⟨rest, hrest, h⟩ := Option.bind_eq_some_iff.mp h
  obtain ⟨_, hnodup, h⟩ := Option.bind_eq_some_iff.mp h
  obtain ⟨byName, hnamed, h⟩ := Option.bind_eq_some_iff.mp h
  obtain ⟨-, -, h⟩ := Option.bind_eq_some_iff.mp h
  obtain rfl := Option.some.inj h
  obtain ⟨hrestStored, hrestValues⟩ := mem_storeExtra hrest
  obtain ⟨hnamedStored, hnamedValues⟩ := mem_of_mapM hnamed
  refine ⟨?_, fun b hb => ?_, fun value hvalue => ?_, fun key value hmem => ?_⟩
  · by_contra hne
    simp [guard, hne] at hnodup
  · rcases List.mem_append.mp hb with hb | hb
    · rcases List.mem_append.mp hb with hb | hb
      · obtain ⟨j, a, value, ha, hvalue, rfl⟩ := mem_storeFirst.mp hb
        exact .first ha hvalue
      · obtain ⟨d, x, value, hx, hvalue, rfl⟩ := hrestStored b hb
        rw [List.getElem?_drop] at hvalue
        have hstored : Stored signature positional named ⟨x.text, .element
            (signature.byPosition.length + d - signature.byPosition.length), value⟩ :=
          .extra hx (Nat.le_add_right _ d) hvalue
        rwa [Nat.add_sub_cancel_left] at hstored
    · obtain ⟨⟨key, value⟩, hmem, hb⟩ := hnamedStored b hb
      exact stored_of_named hb hmem
  · obtain ⟨j, hj⟩ := List.mem_iff_getElem?.mp hvalue
    by_cases hlt : j < signature.byPosition.length
    · refine ⟨_, List.mem_append_left _ (List.mem_append_left _ (mem_storeFirst.mpr
        ⟨j, _, value, List.getElem?_eq_getElem hlt, hj, rfl⟩)), rfl⟩
    · have hdrop : value ∈ positional.drop signature.byPosition.length := by
        refine List.mem_of_getElem? (i := j - signature.byPosition.length) ?_
        rw [List.getElem?_drop, Nat.add_sub_cancel' (Nat.le_of_not_lt hlt)]
        exact hj
      obtain ⟨b, hb, hvalue⟩ := hrestValues value hdrop
      exact ⟨b, List.mem_append_left _ (List.mem_append_right _ hb), hvalue⟩
  · obtain ⟨b, hb, hstore⟩ := hnamedValues _ hmem
    refine ⟨b, List.mem_append_right _ hb, ?_⟩
    unfold storeNamed at hstore
    split at hstore
    · split at hstore
      · cases hstore
      · rw [← Option.some.inj hstore]
    · obtain ⟨w, -, rfl⟩ := Option.map_eq_some_iff.mp hstore
      rfl

end Stored

/-! ## 4. Exactness -/

/-- A root without stars is that of one parameter, which has its name. -/
theorem parameterName_of_hasRoot {name : Identifier} {root : Root}
    (h : Signature.HasRoot signature name root) (hroot : root.isVariadic = false) :
    root.parameterName = some name ∧ ∃ a ∈ signature.params, name = a.name.text := by
  cases h with
  | byPosition _ hj => exact ⟨rfl, _, List.mem_append_left _ (List.mem_of_getElem? hj), rfl⟩
  | keywordOnly ha => exact ⟨rfl, _, List.mem_append_right _ ha, rfl⟩
  | varargs _ => cases hroot
  | kwargs _ => cases hroot

theorem varargs_fresh {x : Name} (hx : signature.varargs = some x) {a : Param E}
    (ha : a ∈ signature.params) : a.name ≠ x := by
  have hnodup := signature.nodup
  rw [hx, List.append_assoc, List.nodup_append] at hnodup
  exact hnodup.2.2 _ (List.mem_map_of_mem ha) x List.mem_cons_self

theorem byPosition_inj {j j' : Nat} {a a' : Param E} (h : signature.byPosition[j]? = some a)
    (h' : signature.byPosition[j']? = some a') (hname : a.name.text = a'.name.text) : j = j' := by
  have hnodup := signature.nodup
  rw [List.append_assoc, List.nodup_append, List.map_append, List.nodup_append] at hnodup
  have hj : (signature.byPosition.map (·.name))[j]? = some a.name := by
    rw [List.getElem?_map, h]
    rfl
  have hj' : (signature.byPosition.map (·.name))[j']? = some a.name := by
    rw [List.getElem?_map, h', Name.ext hname]
    rfl
  exact (List.getElem?_inj (List.getElem?_eq_some_iff.mp hj).1 hnodup.1.1).mp
    (hj.trans hj'.symm)

/-- A parameter without stars has one value. -/
theorem Stored.value_unique {V : Type} {positional : List V} {named : List (Identifier × V)}
    (hnodup : (named.map Prod.fst).Nodup) {b b' : Binding V}
    (h : Stored signature positional named b) (h' : Stored signature positional named b')
    (hformal : b.formal = b'.formal) {a : Param E} (ha : a ∈ signature.params)
    (hname : b.formal = a.name.text) : b.value = b'.value := by
  cases h with
  | extra hx _ _ => exact absurd (Name.ext hname.symm) (varargs_fresh hx ha)
  | entry hw _ _ => exact absurd (Name.ext hname.symm) ((kwargs_fresh hw).1 a ha)
  | first hj hvalue =>
    cases h' with
    | extra hx _ _ => exact absurd (Name.ext (hname.symm.trans hformal)) (varargs_fresh hx ha)
    | entry hw _ _ => exact absurd (Name.ext (hname.symm.trans hformal)) ((kwargs_fresh hw).1 a ha)
    | first hj' hvalue' =>
      obtain rfl := byPosition_inj hj hj' hformal
      exact Option.some.inj (hvalue.symm.trans hvalue')
    | name _ hfree _ => exact absurd hformal (hfree _ _ hj (List.getElem?_eq_some_iff.mp hvalue).1)
  | name _ hfree hnamed =>
    cases h' with
    | extra hx _ _ => exact absurd (Name.ext (hname.symm.trans hformal)) (varargs_fresh hx ha)
    | entry hw _ _ => exact absurd (Name.ext (hname.symm.trans hformal)) ((kwargs_fresh hw).1 a ha)
    | first hj' hvalue' =>
      exact absurd hformal.symm (hfree _ _ hj' (List.getElem?_eq_some_iff.mp hvalue').1)
    | name _ _ hnamed' =>
      have heq := List.inj_on_of_nodup_map hnodup hnamed hnamed' hformal
      exact congrArg Prod.snd heq

/-- The matching of a call against what Python stores. -/
structure MatchExact (q q' : Bool) (signature : Signature E) (actuals : List (Actual E))
    (stored : List (Binding Nat)) : Prop where
  /-- Each actual is bound. -/
  bound : ∀ i < actuals.length, ∃ b ∈ stored, b.value = i
  /-- Each actual has one match: the parameter and the slot where Python stores it. -/
  matched : ∀ b ∈ stored, ∃ actual formals, actuals[b.value]? = some actual ∧
    (matching q q' signature actuals)[b.value]? = some (actual.toArgument q', formals) ∧
    MatchedAt q signature formals b.formal b.slot.path
  /-- No formal without stars receives two matches. -/
  single : ∀ (i j : Nat) (x y : Argument E × List ArgumentMatch),
    (matching q q' signature actuals)[i]? = some x →
    (matching q q' signature actuals)[j]? = some y →
    ∀ m ∈ x.2, ∀ m' ∈ y.2, m.root = m'.root → m.root.isVariadic = false → i = j ∧ m = m'

/-- The match of a stored value. -/
theorem matched_of_stored (hpositionalOnly : signature.positionalOnly = [])
    (hplain : ∀ actual ∈ actuals, actual.Plain) {b : Binding Nat}
    (hb : Stored signature (positionalValues expansion 0 actuals)
      (namedValues expansion 0 actuals) b) :
    ∃ actual formals, actuals[b.value]? = some actual ∧
      (matching q q' signature actuals)[b.value]? = some (actual.toArgument q', formals) ∧
      MatchedAt q signature formals b.formal b.slot.path := by
  obtain ⟨x, hx, hformals⟩ : ∃ x, (matching q q' signature actuals)[b.value]? = some x ∧
      MatchedAt q signature x.2 b.formal b.slot.path := by
    have hposition {j o : Nat} (hvalue : (positionalValues expansion 0 actuals)[j]? = some o) :
        ∃ argument, (matching q q' signature actuals)[o]? = some (argument,
          (rootsOf q signature).filterMap (filterToPositional (.one (.precise j)))) := by
      obtain ⟨-, argument, hget⟩ := positionalValues_plain q' (b := 0) (rootsOf q signature)
        (matchedNames (actuals.map (Actual.toArgument q')) (rootsOf q signature)) hplain hvalue
      rw [Nat.zero_add, ← matchActualsToFormals_eq] at hget
      exact ⟨argument, hget⟩
    have hname {key : Identifier} {o : Nat} (hnamed : (key, o) ∈ namedValues expansion 0 actuals) :
        ∃ (x : Name) (argument : Argument E) (names : Finset Identifier), x.text = key ∧
          (matching q q' signature actuals)[o]? = some (argument,
            (rootsOf q signature).filterMap (filterToNamed names (.name key))) := by
      obtain ⟨-, argument, formals, hget, ⟨x, value, hx, hkey, rfl⟩ | ⟨value, hx, -⟩⟩ :=
        namedValues_matched q' (rootsOf q signature) (matchedNames (actuals.map
          (Actual.toArgument q')) (rootsOf q signature)) expansion actuals (p := .precise 0) hnamed
      · rw [← matchActualsToFormals_eq] at hget
        exact ⟨x, argument, _, hkey, hget⟩
      · exact (hplain _ (List.mem_of_getElem? hx)).elim
    have hparams : signature.params = signature.byName := by
      rw [Signature.params, Signature.byPosition, hpositionalOnly]
      rfl
    cases hb with
    | first ha hvalue =>
      obtain ⟨argument, hget⟩ := hposition hvalue
      exact ⟨_, hget, matchedAt_position ha⟩
    | extra hx hj hvalue =>
      obtain ⟨argument, hget⟩ := hposition hvalue
      exact ⟨_, hget, matchedAt_extra hx hj⟩
    | name ha _ hnamed =>
      obtain ⟨x, argument, names, -, hget⟩ := hname hnamed
      exact ⟨_, hget, matchedAt_name (hparams ▸ ha)⟩
    | entry hw hkey hnamed =>
      obtain ⟨x, argument, names, rfl, hget⟩ := hname hnamed
      refine ⟨_, hget, matchedAt_entry hw fun hmem => hkey ?_⟩
      rw [← hparams]
      exact List.mem_toFinset.mp hmem
  obtain ⟨actual, hactual, hargument⟩ := matching_getElem? q' hx
  exact ⟨actual, x.2, hactual, hargument ▸ hx, hformals⟩

/-- **The matching is exact**: without stars in the call and without positional-only parameters. -/
theorem matchExact (q q' : Bool) (signature : Signature E)
    (hpositionalOnly : signature.positionalOnly = []) (actuals : List (Actual E))
    (hplain : ∀ actual ∈ actuals, actual.Plain) (expansion : Expansion)
    (stored : List (Binding Nat)) (hstored : store signature actuals expansion = some stored) :
    MatchExact q q' signature actuals stored := by
  obtain ⟨hnodup, hmem, hpositional, hnamed⟩ := storeArguments_spec hstored
  have hbound : ∀ i < actuals.length, ∃ b ∈ stored, b.value = i := by
    intro i hi
    have hactual := hplain _ (List.getElem_mem hi)
    have hget := List.getElem?_eq_getElem hi
    cases heq : actuals[i] with
    | positional value =>
      rw [heq] at hget
      have hvalue := positional_mem_positionalValues expansion (i := 0) hget
      rw [Nat.zero_add] at hvalue
      exact hpositional i hvalue
    | keyword x value =>
      rw [heq] at hget
      have hvalue := keyword_mem_namedValues expansion (i := 0) hget
      rw [Nat.zero_add] at hvalue
      exact hnamed _ i hvalue
    | starred value => exact (heq ▸ hactual : Actual.Plain (.starred value)).elim
    | doubleStarred value => exact (heq ▸ hactual : Actual.Plain (.doubleStarred value)).elim
  have hmatched := fun b hb => matched_of_stored (q := q) q' hpositionalOnly hplain (hmem b hb)
  refine ⟨hbound, hmatched, ?_⟩
  -- the stored value behind a match
  have hbehind (i : Nat) (x : Argument E × List ArgumentMatch)
      (hx : (matching q q' signature actuals)[i]? = some x) :
      ∃ b ∈ stored, b.value = i ∧ MatchedAt q signature x.2 b.formal b.slot.path := by
    obtain ⟨_, hactual, -⟩ := matching_getElem? q' hx
    obtain ⟨b, hb, rfl⟩ := hbound i (List.getElem?_eq_some_iff.mp hactual).1
    obtain ⟨actual, formals, -, hget, hformals⟩ := hmatched b hb
    obtain rfl := Option.some.inj (hx.symm.trans hget)
    exact ⟨b, hb, rfl, hformals⟩
  intro i j x y hx hy m hm m' hm' hroot hvariadic
  obtain ⟨b, hb, rfl, np, hnp, hname, hx'⟩ := hbehind i x hx
  obtain ⟨b', hb', rfl, np', hnp', hname', hy'⟩ := hbehind j y hy
  rw [hx', List.mem_singleton] at hm
  rw [hy', List.mem_singleton] at hm'
  subst hm hm'
  have hroot : np.root = np'.root := hroot
  obtain ⟨hrootName, a, ha, haname⟩ :=
    parameterName_of_hasRoot (Signature.hasRoot_of_mem hnp) hvariadic
  obtain ⟨hrootName', -⟩ :=
    parameterName_of_hasRoot (hroot ▸ Signature.hasRoot_of_mem hnp') hvariadic
  have hformal : b.formal = b'.formal := by
    rw [← hname, ← hname']
    exact Option.some.inj (hrootName.symm.trans hrootName')
  have hvalue := (hmem b hb).value_unique hnodup (hmem b' hb') hformal ha (hname.symm.trans haname)
  refine ⟨hvalue, ?_⟩
  rw [hvalue, hy] at hx
  obtain rfl := Option.some.inj hx
  exact List.singleton_inj.mp (hx'.symm.trans hy')

def aName : Name := ⟨"a", by simp, by simp⟩

def bName : Name := ⟨"b", by simp, by simp⟩

def argsName : Name := ⟨"args", by simp, by simp⟩

/-- `def f(a, *args, b, **kw)`. -/
def starSignature : Signature Nat where
  positionalOnly := []
  positional := [⟨aName, none⟩]
  varargs := some argsName
  keywordOnly := [⟨bName, none⟩]
  kwargs := some kwName
  nodup := by simp [aName, bName, argsName, kwName]

/-- `f(1, 2, b=3, x=4)`. -/
theorem matchExact_star : MatchExact true true starSignature
    [.positional 1, .positional 2, .keyword bName 3, .keyword xName 4]
    [⟨"a", .whole, 0⟩, ⟨"args", .element 0, 1⟩, ⟨"b", .whole, 2⟩, ⟨"kw", .entry "x", 3⟩] :=
  matchExact true true starSignature rfl _ (by simp [Actual.Plain]) ⟨fun _ => 0, fun _ => []⟩ _
    (by decide)

end Python

end Pysa
