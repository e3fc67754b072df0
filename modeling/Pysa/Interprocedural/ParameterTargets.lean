/-
  Subject: CALLABLES PASSED AS ARGUMENTS (`callGraphBuilder.ml`). A call of a function with
    callables among its arguments becomes a call of a parameterized target, a map from the
    formal parameters to the callables.

  * `ofAlistExn` -- a map from an association list; it fails on a key that stands twice;
  * `createParameterTarget`, `parameterAlist`, `createParameters` -- the first match of each
    argument, but for `*args` and `**kwargs`;
  * `Takes` -- an actual is matched with a parameter without stars, by position or by name;
  * `distinctRoots_iff` -- **on a call that Python accepts the roots are distinct if and only if no
    callable is passed by position to a positional-only parameter while another is passed by the
    name of that parameter**. That name goes to `**kwargs`, but is matched with the parameter.
-/
import Pysa.Interprocedural.AccessPathExact
import Pysa.Interprocedural.CallTarget
import Pysa.Lib.Results

namespace Pysa

universe u

/-! ## 1. Maps over the formal parameters -/

/-- `Target.ParameterValue.t`. -/
structure ParameterValue (Target : Type) where
  target : Target
  implicitReceiver : Bool
  deriving DecidableEq

section ParameterMap

variable {Target : Type}

abbrev ParameterMap (Target : Type) := Root → Option (ParameterValue Target)

namespace ParameterMap

def empty : ParameterMap Target := fun _ => none

def addNewKey (map : ParameterMap Target) (entry : Root × ParameterValue Target) :
    Except String (ParameterMap Target) :=
  match map entry.1 with
  | some _ => .error "key specified twice in of_alist_exn"
  | none => .ok fun root => if root = entry.1 then some entry.2 else map root

def ofAlistExn (alist : List (Root × ParameterValue Target)) : Except String (ParameterMap Target) :=
  alist.foldlM addNewKey empty

/-- The entries of `right` are in front of those of `left`. -/
def union (left right : ParameterMap Target) : ParameterMap Target :=
  fun root => (right root).or (left root)

theorem foldlM_addNewKey {alist : List (Root × ParameterValue Target)} {map : ParameterMap Target} :
    (∃ result, alist.foldlM addNewKey map = .ok result) ↔
      (alist.map Prod.fst).Nodup ∧ ∀ root ∈ alist.map Prod.fst, map root = none := by
  induction alist generalizing map with
  | nil => simp [pure, Except.pure]
  | cons entry rest ih =>
    rw [List.foldlM_cons, List.map_cons, List.nodup_cons]
    cases hentry : map entry.1 with
    | some value =>
      have hstep : addNewKey map entry = .error "key specified twice in of_alist_exn" := by
        unfold addNewKey
        rw [hentry]
      rw [hstep]
      refine iff_of_false (fun ⟨_, h⟩ => by cases h) fun h => ?_
      rw [h.2 entry.1 List.mem_cons_self] at hentry
      cases hentry
    | none =>
      have hstep : addNewKey map entry =
          .ok fun root => if root = entry.1 then some entry.2 else map root := by
        unfold addNewKey
        rw [hentry]
      rw [hstep]
      show (∃ result, rest.foldlM addNewKey (fun root =>
        if root = entry.1 then some entry.2 else map root) = .ok result) ↔ _
      rw [ih]
      refine ⟨fun ⟨hnodup, hfree⟩ => ⟨⟨fun hmem => ?_, hnodup⟩, fun root hroot => ?_⟩,
        fun ⟨⟨hnot, hnodup⟩, hfree⟩ => ⟨hnodup, fun root hroot => ?_⟩⟩
      · have hnone := hfree entry.1 hmem
        rw [if_pos rfl] at hnone
        cases hnone
      · rcases List.mem_cons.mp hroot with rfl | hroot
        · exact hentry
        · have hnone := hfree root hroot
          split at hnone
          · cases hnone
          · exact hnone
      · rw [if_neg (show root ≠ entry.1 from fun heq => hnot (heq ▸ hroot))]
        exact hfree root (List.mem_cons_of_mem _ hroot)

/-- Keys that differ make a map, and no others. -/
theorem ofAlistExn_isOk_iff {alist : List (Root × ParameterValue Target)} :
    (∃ result, ofAlistExn alist = .ok result) ↔ (alist.map Prod.fst).Nodup :=
  foldlM_addNewKey.trans (and_iff_left fun _ _ => rfl)

end ParameterMap

end ParameterMap

/-! ## 2. The arguments of a parameterized target -/

section Create

variable {E : Type u} {Target ReturnType ClassId : Type}

inductive ImplicitArgument where
  | calleeBase
  | callee
  | none
  deriving DecidableEq

def ImplicitArgument.implicitArgument (isImplicitNew : Bool)
    (callTarget : CallTarget Target ReturnType ClassId) : ImplicitArgument :=
  if callTarget.implicitReceiver then
    if callTarget.implicitDunderCall then callee else calleeBase
  else if isImplicitNew then calleeBase
  else none

/-- `create_parameter_target_excluding_args_kwargs`. -/
def createParameterTarget :
    Option (CallTarget Target ReturnType ClassId) × Argument E × List ArgumentMatch →
      Option (Root × ParameterValue Target)
  | (parameterTarget, _, argumentMatches) =>
    match argumentMatches, parameterTarget with
    | ⟨.starParameter _, _, _⟩ :: _, _ => none
    | ⟨.starStarParameter _, _, _⟩ :: _, _ => none
    | ⟨root, _, _⟩ :: _, some callTarget =>
      some (root, ⟨callTarget.target, callTarget.implicitReceiver⟩)
    | _, _ => none

/-- The callables and the arguments, with those of an implicit argument in front. -/
def withImplicitArgument (calleeTarget : CallTarget Target ReturnType ClassId) (callee self : E)
    (parameterTargets : List (Option (CallTarget Target ReturnType ClassId)))
    (arguments : List (Argument E)) :
    List (Option (CallTarget Target ReturnType ClassId)) × List (Argument E) :=
  match ImplicitArgument.implicitArgument false calleeTarget with
  | .callee => (none :: parameterTargets, ⟨none, .other callee⟩ :: arguments)
  | .calleeBase => (none :: parameterTargets, ⟨none, .other self⟩ :: arguments)
  | .none => (parameterTargets, arguments)

/-- The formal roots with their callables; `zip_exn` fails on lists of different lengths. -/
def parameterAlist (formalArguments : List Root)
    (parameterTargets : List (Option (CallTarget Target ReturnType ClassId)))
    (arguments : List (Argument E)) : Except String (List (Root × ParameterValue Target)) :=
  let matched := matchActualsToFormals arguments formalArguments
  if parameterTargets.length = matched.length then
    .ok ((parameterTargets.zip matched).filterMap createParameterTarget)
  else .error "zip_exn"

/-- The parameters of the target that `create_call_target` creates. -/
def createParameters (formalArguments : Option (List Root)) (closure : ParameterMap Target)
    (calleeTarget : CallTarget Target ReturnType ClassId) (callee self : E)
    (parameterTargets : List (Option (CallTarget Target ReturnType ClassId)))
    (arguments : List (Argument E)) : Except String (ParameterMap Target) := do
  let (parameterTargets, arguments) :=
    withImplicitArgument calleeTarget callee self parameterTargets arguments
  let parameters ←
    match formalArguments with
    | none => pure .empty
    | some formalArguments => do
      let alist ← parameterAlist formalArguments parameterTargets arguments
      ParameterMap.ofAlistExn alist
  return .union closure parameters

/-! ## 3. The first match of an actual -/

/-- The root of the entry of an argument, if it has one. -/
def entryRoot (entry : Option (CallTarget Target ReturnType ClassId) × Argument E ×
    List ArgumentMatch) : Option Root := (createParameterTarget entry).map Prod.fst

theorem entryRoot_none {matched : Argument E × List ArgumentMatch} :
    entryRoot ((none : Option (CallTarget Target ReturnType ClassId)), matched) = none := by
  obtain ⟨argument, formals⟩ := matched
  unfold entryRoot createParameterTarget
  dsimp only
  split <;> simp_all

/-- Only the first match counts, and its root if it is not variadic. -/
theorem entryRoot_cons {callTarget : CallTarget Target ReturnType ClassId} {argument : Argument E}
    {first : ArgumentMatch} {formals : List ArgumentMatch} :
    entryRoot (some callTarget, argument, first :: formals) =
      if first.root.isVariadic then none else some first.root := by
  obtain ⟨root, actualPath, formalPath⟩ := first
  cases root <;> rfl

end Create

namespace Python

variable {E : Type u} {Target ReturnType ClassId : Type} {signature : Signature E}
  {actuals : List (Actual E)} {expansion : Expansion} {q q' : Bool}

/-- The actual `o` goes to a parameter without stars: by position, or by its name. -/
def Takes (signature : Signature E) (expansion : Expansion) (actuals : List (Actual E)) (o : ℕ)
    (a : Param E) : Prop :=
  (∃ p : ℕ, (positionalValues expansion 0 actuals)[p]? = some o ∧
      signature.byPosition[p]? = some a) ∨
    a ∈ signature.params ∧ ∃ value, actuals[o]? = some (.keyword a.name value)

/-- The root of the parameter `name`. -/
def RootOf (q : Bool) (signature : Signature E) (name : Identifier) (root : Root) : Prop :=
  ∃ np ∈ normalizeParameters (signature.toParameters q),
    Root.chopParameterPrefix np.qualifiedName = name ∧ np.root = root

theorem RootOf.hasRoot {name : Identifier} {root : Root} (h : RootOf q signature name root) :
    Signature.HasRoot signature name root := by
  obtain ⟨np, hnp, rfl, rfl⟩ := h
  exact Signature.hasRoot_of_mem hnp

/-- The parameters have one root each. -/
theorem RootOf.unique {name : Identifier} {root root' : Root} (h : RootOf q signature name root)
    (h' : RootOf q signature name root') : root = root' := by
  obtain ⟨np, hnp, hchop, rfl⟩ := h
  obtain ⟨np', hnp', hchop', rfl⟩ := h'
  rw [List.inj_on_of_nodup_map (nodup_qualifiedNames q) hnp hnp' (hchop.trans hchop'.symm)]

theorem exists_rootOf {a : Param E} (ha : a ∈ signature.params) :
    ∃ root, RootOf q signature a.name.text root ∧ root.isVariadic = false := by
  rcases List.mem_append.mp ha with ha | ha
  · obtain ⟨j, hj⟩ := List.mem_iff_getElem?.mp ha
    obtain ⟨np, hnp, hchop, positionalOnly, hroot⟩ := Signature.exists_byPosition (q := q) hj
    exact ⟨np.root, ⟨np, hnp, hchop, rfl⟩, by rw [hroot]; rfl⟩
  · obtain ⟨np, hnp, hchop, hroot⟩ := Signature.exists_keywordOnly (q := q) ha
    exact ⟨np.root, ⟨np, hnp, hchop, rfl⟩, by rw [hroot]; rfl⟩

theorem Takes.mem_params {o : ℕ} {a : Param E} (h : Takes signature expansion actuals o a) :
    a ∈ signature.params := by
  rcases h with ⟨p, -, ha⟩ | ⟨ha, -⟩
  · exact List.mem_append_left _ (List.mem_of_getElem? ha)
  · exact ha

theorem filterToPositional_root {c : PositionalActual} {root : Root} {m : ArgumentMatch}
    (h : filterToPositional c root = some m) : m.root = root := by
  rcases c with (_ | _) | (_ | _) <;> cases root <;> simp only [filterToPositional] at h <;>
    (try split at h) <;> cases h <;> rfl

theorem parameterName_of_filterToNamed {names : Finset Identifier} {x : Identifier} {root : Root}
    {m : ArgumentMatch} (h : filterToNamed names (.name x) root = some m)
    (hvariadic : root.isVariadic = false) : root.parameterName = some x := by
  cases root with
  | namedParameter name | positionalParameter _ name _ =>
    simp only [filterToNamed] at h
    split at h
    case isTrue heq => exact congrArg some heq.symm
    case isFalse => cases h
  | starStarParameter _ => cases hvariadic
  | _ => cases h

theorem mem_rootsOf {root : Root} (h : root ∈ rootsOf q signature) :
    ∃ name, RootOf q signature name root := by
  obtain ⟨np, hnp, rfl⟩ := List.mem_map.mp h
  exact ⟨_, np, hnp, rfl, rfl⟩

/-- The formals of a plain actual. -/
theorem matching_formals (q q' : Bool) (signature : Signature E) (expansion : Expansion)
    (hplain : ∀ actual ∈ actuals, actual.Plain) {o : ℕ} {actual : Actual E}
    (hactual : actuals[o]? = some actual) :
    ∃ argument formals, (matching q q' signature actuals)[o]? = some (argument, formals) ∧
      ((∃ (p : ℕ) (value : E), actual = .positional value ∧
          (positionalValues expansion 0 actuals)[p]? = some o ∧
          formals = (rootsOf q signature).filterMap (filterToPositional (.one (.precise p)))) ∨
        ∃ names x value, actual = .keyword x value ∧
          formals = (rootsOf q signature).filterMap (filterToNamed names (.name x.text))) := by
  cases actual with
  | positional value =>
    obtain ⟨p, hp⟩ := List.mem_iff_getElem?.mp (positional_mem_positionalValues expansion hactual)
    rw [Nat.zero_add] at hp
    obtain ⟨-, argument, hget⟩ := positionalValues_plain q' (rootsOf q signature)
      (matchedNames (actuals.map (Actual.toArgument q')) (rootsOf q signature)) hplain (b := 0) hp
    rw [← matchActualsToFormals_eq, Nat.zero_add, Nat.sub_zero] at hget
    exact ⟨argument, _, hget, Or.inl ⟨p, value, rfl, hp, rfl⟩⟩
  | keyword x value =>
    have hmem := keyword_mem_namedValues expansion (i := 0) hactual
    rw [Nat.zero_add] at hmem
    obtain ⟨-, argument, formals, hget, hformals⟩ := namedValues_matched q'
      (rootsOf q signature) (matchedNames (actuals.map (Actual.toArgument q'))
        (rootsOf q signature)) _ actuals (p := .precise 0) hmem
    rw [← matchActualsToFormals_eq, Nat.sub_zero] at hget
    refine ⟨argument, formals, hget, Or.inr ?_⟩
    rw [Nat.sub_zero] at hformals
    rcases hformals with ⟨x', value', -, -, hformals⟩ | ⟨value', hx', -⟩
    · exact ⟨_, x, value, rfl, hformals⟩
    · rw [hactual] at hx'
      cases hx'
  | starred value => exact (hplain _ (List.mem_of_getElem? hactual)).elim
  | doubleStarred value => exact (hplain _ (List.mem_of_getElem? hactual)).elim

/-- **The entry of an argument**: a callable that goes to a parameter without stars. -/
theorem entryRoot_eq_some_iff (hplain : ∀ actual ∈ actuals, actual.Plain) {o : ℕ}
    {parameterTarget : Option (CallTarget Target ReturnType ClassId)}
    {matched : Argument E × List ArgumentMatch}
    (hmatched : (matching q q' signature actuals)[o]? = some matched) {root : Root} :
    entryRoot (parameterTarget, matched) = some root ↔
      parameterTarget.isSome ∧ ∃ a, Takes signature expansion actuals o a ∧
        RootOf q signature a.name.text root := by
  cases parameterTarget with
  | none =>
    rw [entryRoot_none]
    exact iff_of_false (fun h => by cases h) (fun h => by cases h.1)
  | some callTarget =>
    obtain ⟨actual, hactual, -⟩ := matching_getElem? q' hmatched
    obtain ⟨argument, formals, hget, hformals⟩ :=
      matching_formals q q' signature expansion hplain hactual
    obtain rfl := Option.some.inj (hmatched.symm.trans hget)
    constructor
    · intro hroot
      refine ⟨rfl, ?_⟩
      cases formals with
      | nil => cases hroot
      | cons first rest =>
        rw [entryRoot_cons] at hroot
        split at hroot
        · cases hroot
        case isFalse hvariadic =>
          cases hroot
          rcases hformals with ⟨p, value, -, hp, hformals⟩ | ⟨names, x, value, rfl, hformals⟩
          · obtain ⟨r, hr, hfilter⟩ :=
              List.mem_filterMap.mp (hformals ▸ List.mem_cons_self : first ∈ _)
            obtain ⟨name, hname⟩ := mem_rootsOf hr
            rw [filterToPositional_root hfilter] at hvariadic ⊢
            cases hname.hasRoot with
            | @byPosition j a _ hj =>
              have hpj : p = j := by
                by_contra hne
                simp [filterToPositional, hne] at hfilter
              exact ⟨a, Or.inl ⟨p, hp, hpj ▸ hj⟩, hname⟩
            | varargs _ => exact absurd rfl hvariadic
            | keywordOnly _ => cases hfilter
            | kwargs _ => cases hfilter
          · obtain ⟨r, hr, hfilter⟩ :=
              List.mem_filterMap.mp (hformals ▸ List.mem_cons_self : first ∈ _)
            obtain ⟨name, hname⟩ := mem_rootsOf hr
            rw [filterToNamed_root _ hfilter] at hvariadic ⊢
            have hvariadic := Bool.not_eq_true _ ▸ hvariadic
            obtain ⟨hparameter, a, ha, rfl⟩ :=
              parameterName_of_hasRoot hname.hasRoot hvariadic
            have hx : x.text = a.name.text := Option.some.inj
              ((parameterName_of_filterToNamed hfilter hvariadic).symm.trans hparameter)
            exact ⟨a, Or.inr ⟨ha, value, Identifier.Name.ext hx ▸ hactual⟩, hname⟩
    · rintro ⟨-, a, htakes, hrootOf⟩
      -- the one match of the actual is the root of the parameter
      obtain ⟨np, hnp, hchop, hsingle⟩ : ∃ np ∈ normalizeParameters (signature.toParameters q),
          Root.chopParameterPrefix np.qualifiedName = a.name.text ∧
            formals = [⟨np.root, [], []⟩] := by
        rcases htakes with ⟨p, hp, ha⟩ | ⟨ha, value, hkeyword⟩
        · obtain ⟨-, argument', hget'⟩ := positionalValues_plain q' (rootsOf q signature)
            (matchedNames (actuals.map (Actual.toArgument q')) (rootsOf q signature)) hplain
            (b := 0) hp
          rw [← matchActualsToFormals_eq, Nat.zero_add, Nat.sub_zero] at hget'
          obtain ⟨-, rfl⟩ := Prod.mk.inj (Option.some.inj (hget.symm.trans hget'))
          exact matchedAt_position ha
        · obtain rfl := Option.some.inj (hactual.symm.trans hkeyword)
          rcases hformals with ⟨_, _, heq, -, -⟩ | ⟨names, x, _, heq, rfl⟩
          · cases heq
          · cases heq
            exact matchedAt_name ha
      obtain ⟨root', hrootOf', hvariadic⟩ := exists_rootOf (q := q) htakes.mem_params
      have heq : np.root = root := RootOf.unique ⟨np, hnp, hchop, rfl⟩ hrootOf
      have heq' : root' = root := hrootOf'.unique hrootOf
      rw [hsingle, entryRoot_cons]
      dsimp only
      rw [heq, ← heq', hvariadic]
      rfl

/-! ## 4. When the roots are distinct -/

theorem nodup_filterMap_iff {α β : Type*} {f : α → Option β} {l : List α} :
    (l.filterMap f).Nodup ↔ ∀ (i j : ℕ) (x y : α) (r : β), l[i]? = some x → l[j]? = some y →
      f x = some r → f y = some r → i = j := by
  rw [List.Nodup, List.pairwise_filterMap, List.pairwise_iff_getElem]
  constructor
  · intro h i j x y r hx hy hfx hfy
    obtain ⟨hi, rfl⟩ := List.getElem?_eq_some_iff.mp hx
    obtain ⟨hj, rfl⟩ := List.getElem?_eq_some_iff.mp hy
    rcases lt_trichotomy i j with hlt | heq | hlt
    · exact absurd rfl (h i j hi hj hlt r hfx r hfy)
    · exact heq
    · exact absurd rfl (h j i hj hi hlt r hfy r hfx)
  · rintro h i j hi hj hlt r hfx _ hfy rfl
    exact hlt.ne (h i j _ _ r (List.getElem?_eq_getElem hi) (List.getElem?_eq_getElem hj) hfx hfy)

theorem positional_of_mem (hplain : ∀ actual ∈ actuals, actual.Plain) {i o : ℕ}
    (h : o ∈ positionalValues expansion i actuals) :
    i ≤ o ∧ ∃ value, actuals[o - i]? = some (.positional value) := by
  induction actuals generalizing i with
  | nil => cases h
  | cons actual rest ih =>
    have hlater : o ∈ positionalValues expansion (i + 1) rest →
        i ≤ o ∧ ∃ value, (actual :: rest)[o - i]? = some (.positional value) := by
      intro h
      obtain ⟨hio, value, hvalue⟩ := ih (fun a ha => hplain a (List.mem_cons_of_mem _ ha)) h
      exact ⟨by omega, value, getElem?_cons_sub hio hvalue⟩
    cases actual with
    | positional value =>
      rcases List.mem_cons.mp h with rfl | h
      · exact ⟨le_rfl, value, by rw [Nat.sub_self]; rfl⟩
      · exact hlater h
    | keyword x value => exact hlater h
    | starred value => exact (hplain _ List.mem_cons_self).elim
    | doubleStarred value => exact (hplain _ List.mem_cons_self).elim

/-- The actual `o` goes by position to a positional-only parameter, and `o'` has its name. -/
def PassedTwice (signature : Signature E) (expansion : Expansion) (actuals : List (Actual E))
    (o o' : ℕ) : Prop :=
  ∃ (p : ℕ) (a : Param E) (value : E), (positionalValues expansion 0 actuals)[p]? = some o ∧
    signature.positionalOnly[p]? = some a ∧ actuals[o']? = some (.keyword a.name value)

/-- A callable is passed by position to a positional-only parameter, and another one by the name of
    that parameter. -/
def Clash (signature : Signature E) (expansion : Expansion) (actuals : List (Actual E))
    (parameterTargets : List (Option (CallTarget Target ReturnType ClassId))) : Prop :=
  ∃ o o', PassedTwice signature expansion actuals o o' ∧
    (∃ target, parameterTargets[o]? = some (some target)) ∧
    ∃ target, parameterTargets[o']? = some (some target)

/-- Python accepts a keyword for a parameter that has its value by position only if the parameter
    is positional-only. -/
theorem passedTwice_of_call {bindings : List (Identifier × ℕ)}
    (hcall : call signature actuals expansion = some bindings) {p o o' : ℕ} {a : Param E} {value : E}
    (hp : (positionalValues expansion 0 actuals)[p]? = some o)
    (ha : signature.byPosition[p]? = some a)
    (hkeyword : actuals[o']? = some (.keyword a.name value)) :
    PassedTwice signature expansion actuals o o' := by
  refine ⟨p, a, value, hp, ?_, hkeyword⟩
  rw [Signature.byPosition, List.getElem?_append] at ha
  split at ha
  · exact ha
  case isFalse hp' =>
      exfalso
      have hname : a ∈ signature.byName := List.mem_append_left _ (List.mem_of_getElem? ha)
      obtain ⟨_, _, -, -, -, hnamed⟩ := bindArguments_eq_some hcall
      have hmem := keyword_mem_namedValues expansion (i := 0) hkeyword
      obtain ⟨b, -, hbind⟩ := (mem_of_mapM hnamed).2 _ hmem
      have hbound : a.name.text ∈ ((signature.byPosition.map (·.name.text)).zip
          (positionalValues expansion 0 actuals)).map Prod.fst := by
        refine List.mem_map.mpr ⟨(a.name.text, o), ?_, rfl⟩
        refine List.mem_of_getElem? (i := p) (List.getElem?_zip_eq_some.mpr ⟨?_, hp⟩)
        rw [List.getElem?_map, Signature.byPosition, List.getElem?_append, if_neg hp', ha]
        rfl
      rw [bindNamed, if_pos (List.mem_map_of_mem hname), if_pos hbound] at hbind
      cases hbind

/-- A parameter takes two actuals of a call that Python accepts only if it is positional-only and
    its name is a keyword. -/
theorem Takes.eq_or_passedTwice {bindings : List (Identifier × ℕ)}
    (hcall : call signature actuals expansion = some bindings) {o o' : ℕ} {a a' : Param E}
    (h : Takes signature expansion actuals o a) (h' : Takes signature expansion actuals o' a')
    (hname : a.name.text = a'.name.text) :
    o = o' ∨ PassedTwice signature expansion actuals o o' ∨
      PassedTwice signature expansion actuals o' o := by
  have hname' : a.name = a'.name := Identifier.Name.ext hname
  rcases h with ⟨p, hp, ha⟩ | ⟨-, value, hkeyword⟩ <;>
    rcases h' with ⟨p', hp', ha'⟩ | ⟨-, value', hkeyword'⟩
  · obtain rfl := byPosition_inj ha ha' hname
    exact Or.inl (Option.some.inj (hp.symm.trans hp'))
  · exact Or.inr (Or.inl (passedTwice_of_call hcall hp ha (hname' ▸ hkeyword')))
  · exact Or.inr (Or.inr (passedTwice_of_call hcall hp' ha' (hname' ▸ hkeyword)))
  · left
    obtain ⟨_, _, -, -, hnodup, -⟩ := bindArguments_eq_some hcall
    have hmem := keyword_mem_namedValues expansion (i := 0) hkeyword
    have hmem' := keyword_mem_namedValues expansion (i := 0) hkeyword'
    have heq := congrArg Prod.snd (List.inj_on_of_nodup_map hnodup hmem hmem' hname)
    rwa [Nat.zero_add, Nat.zero_add] at heq

theorem PassedTwice.ne (hplain : ∀ actual ∈ actuals, actual.Plain) {o o' : ℕ}
    (h : PassedTwice signature expansion actuals o o') : o ≠ o' := by
  rintro rfl
  obtain ⟨p, a, value, hp, -, hkeyword⟩ := h
  obtain ⟨-, value', hpositional⟩ := positional_of_mem hplain (List.mem_of_getElem? hp)
  rw [Nat.sub_zero, hkeyword] at hpositional
  cases hpositional

/-- **The roots of the callables are distinct**, but for clashes. -/
theorem nodup_entryRoots_iff (q q' : Bool) {bindings : List (Identifier × ℕ)}
    {parameterTargets : List (Option (CallTarget Target ReturnType ClassId))}
    (hplain : ∀ actual ∈ actuals, actual.Plain)
    (hcall : call signature actuals expansion = some bindings) :
    ((parameterTargets.zip (matching q q' signature actuals)).filterMap entryRoot).Nodup ↔
      ¬ Clash signature expansion actuals parameterTargets := by
  rw [nodup_filterMap_iff]
  constructor
  · rintro hdistinct ⟨o, o', htwice, ⟨target, htarget⟩, target', htarget'⟩
    refine htwice.ne hplain ?_
    obtain ⟨p, a, value, hp, ha, hkeyword⟩ := htwice
    have hposition : signature.byPosition[p]? = some a := by
      rw [Signature.byPosition, List.getElem?_append_left (List.getElem?_eq_some_iff.mp ha).1, ha]
    have htakes : Takes signature expansion actuals o a := Or.inl ⟨p, hp, hposition⟩
    have htakes' : Takes signature expansion actuals o' a :=
      Or.inr ⟨htakes.mem_params, value, hkeyword⟩
    obtain ⟨root, hroot, -⟩ := exists_rootOf (q := q) htakes.mem_params
    obtain ⟨-, value', hpositional⟩ := positional_of_mem hplain (List.mem_of_getElem? hp)
    rw [Nat.sub_zero] at hpositional
    obtain ⟨_, _, hget, -⟩ := matching_formals q q' signature expansion hplain hpositional
    obtain ⟨_, _, hget', -⟩ := matching_formals q q' signature expansion hplain hkeyword
    exact hdistinct o o' _ _ root (List.getElem?_zip_eq_some.mpr ⟨htarget, hget⟩)
      (List.getElem?_zip_eq_some.mpr ⟨htarget', hget'⟩)
      ((entryRoot_eq_some_iff hplain hget).mpr ⟨rfl, a, htakes, hroot⟩)
      ((entryRoot_eq_some_iff hplain hget').mpr ⟨rfl, a, htakes', hroot⟩)
  · rintro hclash o o' ⟨target, matched⟩ ⟨target', matched'⟩ root hentry hentry' hroot hroot'
    obtain ⟨htarget, hget⟩ := List.getElem?_zip_eq_some.mp hentry
    obtain ⟨htarget', hget'⟩ := List.getElem?_zip_eq_some.mp hentry'
    obtain ⟨hsome, a, htakes, hrootOf⟩ := (entryRoot_eq_some_iff hplain hget).mp hroot
    obtain ⟨hsome', a', htakes', hrootOf'⟩ := (entryRoot_eq_some_iff hplain hget').mp hroot'
    obtain ⟨target, rfl⟩ := Option.isSome_iff_exists.mp hsome
    obtain ⟨target', rfl⟩ := Option.isSome_iff_exists.mp hsome'
    -- both parameters have the name that the root has
    obtain ⟨root', hroot', hvariadic⟩ := exists_rootOf (q := q) htakes.mem_params
    rw [hroot'.unique hrootOf] at hvariadic
    have hname := (parameterName_of_hasRoot hrootOf.hasRoot hvariadic).1
    have hname' := (parameterName_of_hasRoot hrootOf'.hasRoot hvariadic).1
    rcases htakes.eq_or_passedTwice hcall htakes' (Option.some.inj (hname.symm.trans hname')) with
      heq | htwice | htwice
    · exact heq
    · exact absurd ⟨o, o', htwice, ⟨target, htarget⟩, target', htarget'⟩ hclash
    · exact absurd ⟨o', o, htwice, ⟨target', htarget'⟩, target, htarget⟩ hclash

/-! ## 5. With the implicit argument -/

/-- The actuals, with the receiver in front where the analysis adds one. -/
def withImplicitActual (calleeTarget : CallTarget Target ReturnType ClassId) (callee self : E)
    (actuals : List (Actual E)) : List (Actual E) :=
  match ImplicitArgument.implicitArgument false calleeTarget with
  | .callee => .positional callee :: actuals
  | .calleeBase => .positional self :: actuals
  | .none => actuals

theorem withImplicitActual_plain {calleeTarget : CallTarget Target ReturnType ClassId}
    {callee self : E} (hplain : ∀ actual ∈ actuals, actual.Plain) :
    ∀ actual ∈ withImplicitActual calleeTarget callee self actuals, actual.Plain := by
  unfold withImplicitActual
  split
  · exact List.forall_mem_cons.mpr ⟨trivial, hplain⟩
  · exact List.forall_mem_cons.mpr ⟨trivial, hplain⟩
  · exact hplain

theorem withImplicitArgument_snd {calleeTarget : CallTarget Target ReturnType ClassId}
    {callee self : E} {parameterTargets : List (Option (CallTarget Target ReturnType ClassId))} :
    (withImplicitArgument calleeTarget callee self parameterTargets
        (actuals.map (Actual.toArgument q'))).2 =
      (withImplicitActual calleeTarget callee self actuals).map (Actual.toArgument q') := by
  unfold withImplicitArgument withImplicitActual
  split <;> rfl

theorem withImplicitArgument_length {calleeTarget : CallTarget Target ReturnType ClassId}
    {callee self : E} {parameterTargets : List (Option (CallTarget Target ReturnType ClassId))}
    (hlength : parameterTargets.length = actuals.length) :
    (withImplicitArgument calleeTarget callee self parameterTargets
        (actuals.map (Actual.toArgument q'))).1.length =
      (withImplicitActual calleeTarget callee self actuals).length := by
  unfold withImplicitArgument withImplicitActual
  split
  · exact congrArg (· + 1) hlength
  · exact congrArg (· + 1) hlength
  · exact hlength

/-- The parameters of the signature get callables with distinct roots, so that they make a map. -/
def NeverFails (q q' : Bool) (signature : Signature E) (closure : ParameterMap Target)
    (calleeTarget : CallTarget Target ReturnType ClassId) (callee self : E)
    (parameterTargets : List (Option (CallTarget Target ReturnType ClassId)))
    (actuals : List (Actual E)) : Prop :=
  (∃ alist, parameterAlist (rootsOf q signature)
      (withImplicitArgument calleeTarget callee self parameterTargets
        (actuals.map (Actual.toArgument q'))).1
      (withImplicitArgument calleeTarget callee self parameterTargets
        (actuals.map (Actual.toArgument q'))).2 = .ok alist ∧
    (alist.map Prod.fst).Nodup) ∧
  ∃ parameters, createParameters (some (rootsOf q signature)) closure calleeTarget callee self
    parameterTargets (actuals.map (Actual.toArgument q')) = .ok parameters

/-- The map is made from the list. -/
theorem createParameters_isOk_iff {formalArguments : List Root} {closure : ParameterMap Target}
    {calleeTarget : CallTarget Target ReturnType ClassId} {callee self : E}
    {parameterTargets : List (Option (CallTarget Target ReturnType ClassId))}
    {arguments : List (Argument E)} {alist : List (Root × ParameterValue Target)}
    (halist : parameterAlist formalArguments
      (withImplicitArgument calleeTarget callee self parameterTargets arguments).1
      (withImplicitArgument calleeTarget callee self parameterTargets arguments).2 = .ok alist) :
    (∃ parameters, createParameters (some formalArguments) closure calleeTarget callee self
      parameterTargets arguments = .ok parameters) ↔ (alist.map Prod.fst).Nodup := by
  rw [← ParameterMap.ofAlistExn_isOk_iff]
  have hcreate : createParameters (some formalArguments) closure calleeTarget callee self
      parameterTargets arguments =
        (ParameterMap.ofAlistExn alist).map (ParameterMap.union closure) := by
    unfold createParameters
    dsimp only
    rw [halist]
    show (ParameterMap.ofAlistExn alist >>= fun parameters =>
      .ok (ParameterMap.union closure parameters)) = _
    cases ParameterMap.ofAlistExn alist with
    | error message => rfl
    | ok parameters => rfl
  rw [hcreate]
  cases ParameterMap.ofAlistExn alist with
  | error message => exact iff_of_false (fun ⟨_, h⟩ => by cases h) (fun ⟨_, h⟩ => by cases h)
  | ok parameters => exact iff_of_true ⟨_, rfl⟩ ⟨_, rfl⟩

/-- **On a call that Python accepts the map is made if and only if no callables clash.** -/
theorem distinctRoots_iff (q q' : Bool) (signature : Signature E) (expansion : Expansion)
    (closure : ParameterMap Target) (calleeTarget : CallTarget Target ReturnType ClassId)
    (callee self : E) (parameterTargets : List (Option (CallTarget Target ReturnType ClassId)))
    (actuals : List (Actual E)) (hlength : parameterTargets.length = actuals.length)
    (hplain : ∀ actual ∈ actuals, actual.Plain) {bindings : List (Identifier × ℕ)}
    (hcall : call signature (withImplicitActual calleeTarget callee self actuals) expansion =
      some bindings) :
    NeverFails q q' signature closure calleeTarget callee self parameterTargets actuals ↔
      ¬ Clash signature expansion (withImplicitActual calleeTarget callee self actuals)
        (withImplicitArgument calleeTarget callee self parameterTargets
          (actuals.map (Actual.toArgument q'))).1 := by
  have hplain' : ∀ actual ∈ withImplicitActual calleeTarget callee self actuals, actual.Plain :=
    withImplicitActual_plain hplain
  have hmatched : matchActualsToFormals (withImplicitArgument calleeTarget callee self
      parameterTargets (actuals.map (Actual.toArgument q'))).2 (rootsOf q signature) =
      matching q q' signature (withImplicitActual calleeTarget callee self actuals) := by
    rw [withImplicitArgument_snd]
    rfl
  have hmatchedLength := congrArg List.length
    (matching_fst (q := q) q' signature (withImplicitActual calleeTarget callee self actuals))
  rw [List.length_map, List.length_map] at hmatchedLength
  have halist : parameterAlist (rootsOf q signature) (withImplicitArgument calleeTarget callee self
      parameterTargets (actuals.map (Actual.toArgument q'))).1 (withImplicitArgument calleeTarget
        callee self parameterTargets (actuals.map (Actual.toArgument q'))).2 =
      .ok (((withImplicitArgument calleeTarget callee self parameterTargets
        (actuals.map (Actual.toArgument q'))).1.zip (matching q q' signature
          (withImplicitActual calleeTarget callee self actuals))).filterMap
            createParameterTarget) := by
    unfold parameterAlist
    dsimp only
    rw [hmatched, if_pos ((withImplicitArgument_length hlength).trans hmatchedLength.symm)]
  rw [← nodup_entryRoots_iff q q' hplain' hcall]
  unfold NeverFails
  rw [createParameters_isOk_iff halist, List.map_filterMap]
  constructor
  · rintro ⟨-, hnodup⟩
    exact hnodup
  · intro hnodup
    exact ⟨⟨_, halist, List.map_filterMap ▸ hnodup⟩, hnodup⟩

/-- A callable that is a plain function. -/
def functionTarget (name : String) : CallTarget String Empty Empty where
  target := name
  implicitReceiver := false
  implicitDunderCall := false
  index := 0
  returnType := none
  receiverClass := none
  isClassMethod := false
  isStaticMethod := false

/-- `f(g, kw=h)` on `def f(x, /, **kw)`. -/
theorem distinctRoots_twoCallables :
    NeverFails true true positionalOnlySignature .empty (functionTarget "f") 0 0
      [some (functionTarget "g"), some (functionTarget "h")] [.positional 1, .keyword kwName 2] := by
  have hcall : call positionalOnlySignature (withImplicitActual (functionTarget "f") 0 0
      [.positional 1, .keyword kwName 2]) ⟨fun _ => 0, fun _ => []⟩ =
        some [("x", 0), ("kw", 1)] := by decide
  refine (distinctRoots_iff true true positionalOnlySignature ⟨fun _ => 0, fun _ => []⟩ .empty
    (functionTarget "f") 0 0 [some (functionTarget "g"), some (functionTarget "h")]
    [.positional 1, .keyword kwName 2] rfl (by simp [Actual.Plain]) hcall).mpr ?_
  rintro ⟨o, o', ⟨p, a, value, -, ha, hkeyword⟩, -⟩
  obtain rfl : ⟨xName, none⟩ = a := List.mem_singleton.mp (List.mem_of_getElem? ha) |>.symm
  rcases o' with _ | _ | o'
  · cases hkeyword
  · obtain ⟨hname, -⟩ := Actual.keyword.inj (Option.some.inj hkeyword)
    exact absurd (congrArg Identifier.Name.text hname) (by decide)
  · cases hkeyword

/-- `f(g, x=h)`: Python binds `g` to `x` and stores `h` in `kw`, but both callables have the root
    of `x`. -/
theorem not_distinctRoots :
    call positionalOnlySignature (withImplicitActual (functionTarget "f") 0 0
        [.positional 1, .keyword xName 2]) ⟨fun _ => 0, fun _ => []⟩ =
      some [("x", 0), ("kw", 1)] ∧
    ¬ NeverFails true true positionalOnlySignature .empty (functionTarget "f") 0 0
      [some (functionTarget "g"), some (functionTarget "h")]
      [.positional 1, .keyword xName 2] := by
  refine ⟨by decide, ?_⟩
  rintro ⟨⟨alist, halist, hnodup⟩, -⟩
  have hroots : (parameterAlist (rootsOf true positionalOnlySignature)
      [some (functionTarget "g"), some (functionTarget "h")]
      ([Actual.positional 1, .keyword xName 2].map (Actual.toArgument true))).map
        (·.map Prod.fst) =
      .ok [.positionalParameter 0 "x" true, .positionalParameter 0 "x" true] := by
    decide +kernel
  have halist' := congrArg (Except.map (·.map Prod.fst)) halist
  have heq : alist.map Prod.fst =
      [.positionalParameter 0 "x" true, .positionalParameter 0 "x" true] :=
    Except.ok.inj (halist'.symm.trans hroots)
  rw [heq] at hnodup
  exact absurd hnodup (by decide)

end Python

end Pysa
