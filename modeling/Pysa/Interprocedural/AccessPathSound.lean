/-
  Subject: THE MATCHING OF ACTUALS TO FORMALS AGAINST PYTHON'S BINDING RULES.

  * `mem_normalizeParameters` -- the roots of the parameters of a signature;
  * `matchFrom` -- the matching as a recursion over the arguments;
  * `matchSound_iff` -- **the matching is sound unless a keyword has the name of a positional-only
    parameter**: Python puts such a keyword into `**kwargs`, from which the matching excludes the
    names of all parameters.
-/
import Pysa.Lib.Basic
import Pysa.Interprocedural.PythonCall

namespace Pysa

universe u

open Identifier

variable {E : Type u}

namespace Python

/-! ## 1. Names in the syntax tree -/

variable (q : Bool) (x : Name)

@[simp] theorem chop_nameInTree : Root.chopParameterPrefix (Signature.nameInTree q x) = x.text := by
  cases q with
  | true =>
    rw [Signature.nameInTree, if_pos rfl, Root.prependParameterPrefix, Root.chopParameterPrefix,
      chopPrefix_append]
  | false =>
    have hprefix : hasPrefix Root.parameterPrefix x.text = false :=
      x.hasPrefix_eq_false (c := '$') rfl (by simp)
    rw [Signature.nameInTree, if_neg Bool.false_ne_true, Root.chopParameterPrefix, chopPrefix,
      hprefix]
    rfl

@[simp] theorem hasPrefix_star_nameInTree : hasPrefix "*" (Signature.nameInTree q x) = false := by
  cases q with
  | true =>
    rw [Signature.nameInTree, if_pos rfl, Root.prependParameterPrefix, hasPrefix,
      String.toList_append]
    rfl
  | false => exact x.hasPrefix_eq_false (c := '*') rfl (by simp)

@[simp] theorem hasPrefix_starStar_nameInTree :
    hasPrefix "**" (Signature.nameInTree q x) = false := by
  cases q with
  | true =>
    rw [Signature.nameInTree, if_pos rfl, Root.prependParameterPrefix, hasPrefix,
      String.toList_append]
    rfl
  | false => exact x.hasPrefix_eq_false (c := '*') rfl (by simp)

theorem splitStar_nameInTree :
    splitStar (Signature.nameInTree q x) = ("", Signature.nameInTree q x) := by
  rw [splitStar, hasPrefix_starStar_nameInTree, hasPrefix_star_nameInTree]
  rfl

@[simp] theorem sanitized_nameInTree : sanitized (Signature.nameInTree q x) = x.text := by
  cases q with
  | true => exact sanitized_marked Root.parameterPrefix x rfl rfl (by decide)
  | false => exact x.sanitized_eq

@[simp] theorem sanitized_star_nameInTree :
    sanitized ("*" ++ Signature.nameInTree q x) = "*" ++ x.text := by
  rw [sanitized_of_splitStar (splitStar_nameInTree q x)
    (splitStar_star (hasPrefix_star_nameInTree q x)), sanitized_nameInTree]

@[simp] theorem sanitized_starStar_nameInTree :
    sanitized ("**" ++ Signature.nameInTree q x) = "**" ++ x.text := by
  rw [sanitized_of_splitStar (splitStar_nameInTree q x) (splitStar_starStar _),
    sanitized_nameInTree]

variable {q x}

theorem text_ne_slash : x.text ≠ "/" := fun h =>
  (x.plain '/' (by rw [h]; decide)).2.2 rfl

theorem text_ne_star : x.text ≠ "*" := fun h =>
  (x.plain '*' (by rw [h]; decide)).2.1 rfl

/-- Stars in front of a name give neither of the separators. -/
theorem stars_append_ne {stars separator : String} (h : separator.toList.length ≤ stars.toList.length) :
    stars ++ x.text ≠ separator := fun heq => by
  have hlength := congrArg (·.toList.length) heq
  simp only [String.toList_append, List.length_append] at hlength
  exact x.nonempty (List.length_eq_zero_iff.mp (by omega))

/-! ## 2. The normalized parameters of a signature -/

namespace Signature

variable (q) (pep : Bool) (p : Nat) (ex : Finset Identifier)
  (normalized : List (NormalizedParameter E)) (a : Param E)

/-- The normalized form of a parameter that values are bound to by position. -/
def normalizedPositional (positionalOnly : Bool) (position : Nat) (a : Param E) :
    NormalizedParameter E :=
  ⟨.positionalParameter position a.name.text positionalOnly, nameInTree q a.name, toParameter q a⟩

def normalizedNamed (a : Param E) : NormalizedParameter E :=
  ⟨.namedParameter a.name.text, nameInTree q a.name, toParameter q a⟩

def names (params : List (Param E)) : Finset Identifier := (params.map (·.name.text)).toFinset

theorem step_param (seen : Bool) :
    normalizeParameter pep (p, seen, ex, normalized) (toParameter q a) =
      (p + 1, seen, insert a.name.text ex,
        (if seen then normalizedNamed q a
          else normalizedPositional q (!pep && isPrivateName a.name.text) p a) :: normalized) := by
  have hslash := text_ne_slash (x := a.name)
  have hstar := text_ne_star (x := a.name)
  cases seen <;>
    simp [normalizeParameter, toParameter, hslash, hstar, normalizedNamed, normalizedPositional]

theorem step_slash (seen : Bool) :
    normalizeParameter pep (p, seen, ex, normalized) ⟨"/", none⟩ =
      (p, seen, ex, normalized.map markAsPositionalOnly) := by
  have hslash : sanitized "/" = "/" := by decide
  simp [normalizeParameter, hslash]

theorem step_bareStar (seen : Bool) :
    normalizeParameter pep (p, seen, ex, normalized) ⟨"*", none⟩ = (p, true, ex, normalized) := by
  have hstar : sanitized "*" = "*" := by decide
  have hprefix : hasPrefix "**" "*" = false := by decide
  simp [normalizeParameter, hstar, hprefix]

theorem step_star (seen : Bool) (x : Name) :
    normalizeParameter pep (p, seen, ex, normalized) ⟨"*" ++ nameInTree q x, none⟩ =
      (p + 1, true, ex,
        ⟨.starParameter p, nameInTree q x, ⟨"*" ++ nameInTree q x, none⟩⟩ :: normalized) := by
  have hslash : "*" ++ x.text ≠ "/" := stars_append_ne (by decide)
  have hstar : "*" ++ x.text ≠ "*" := stars_append_ne (by decide)
  have htwo : hasPrefix "**" ("*" ++ nameInTree q x) = false := by
    rw [hasPrefix, String.toList_append]
    exact hasPrefix_star_nameInTree q x
  have hdrop := dropPrefix_append "*" (nameInTree q x)
  rw [normalizeParameter, sanitized_star_nameInTree, if_neg hslash, htwo, if_neg hstar,
    hasPrefix_append]
  simp only [if_true, if_false, Bool.false_eq_true]
  rw [show dropPrefix ("*" ++ nameInTree q x) 1 = nameInTree q x from hdrop]

theorem step_starStar (seen : Bool) (x : Name) :
    normalizeParameter pep (p, seen, ex, normalized) ⟨"**" ++ nameInTree q x, none⟩ =
      (p + 1, true, ex,
        ⟨.starStarParameter ex, nameInTree q x, ⟨"**" ++ nameInTree q x, none⟩⟩ ::
          normalized) := by
  have hslash : "**" ++ x.text ≠ "/" := stars_append_ne (by decide)
  have hdrop := dropPrefix_append "**" (nameInTree q x)
  rw [normalizeParameter, sanitized_starStar_nameInTree, if_neg hslash, hasPrefix_append]
  simp only [if_true]
  rw [show dropPrefix ("**" ++ nameInTree q x) 2 = nameInTree q x from hdrop]

/-- The parameters before a star. -/
theorem foldl_positional (params : List (Param E)) :
    (params.map (toParameter q)).foldl (normalizeParameter pep) (p, false, ex, normalized) =
      (p + params.length, false, names params ∪ ex,
        ((params.zipIdx p).map fun (a, i) =>
          normalizedPositional q (!pep && isPrivateName a.name.text) i a).reverse ++
          normalized) := by
  induction params generalizing p ex normalized with
  | nil => simp [names]
  | cons a params ih =>
    rw [List.map_cons, List.foldl_cons, step_param, ih]
    simp [names, Nat.add_assoc, Nat.add_comm 1]

/-- The parameters behind a star. -/
theorem foldl_named (params : List (Param E)) :
    (params.map (toParameter q)).foldl (normalizeParameter pep) (p, true, ex, normalized) =
      (p + params.length, true, names params ∪ ex,
        (params.map (normalizedNamed q)).reverse ++ normalized) := by
  induction params generalizing p ex normalized with
  | nil => simp [names]
  | cons a params ih =>
    rw [List.map_cons, List.foldl_cons, step_param, ih]
    simp [names, Nat.add_assoc, Nat.add_comm 1]

/-- The normalized parameters, kind by kind. -/
def normalizedParameters (signature : Signature E) : List (NormalizedParameter E) :=
  let pep := hasPep570Syntax (signature.toParameters q)
  let position := signature.positionalOnly.length
  let next := position + signature.positional.length
  (signature.positionalOnly.zipIdx 0).map (fun (a, i) => normalizedPositional q true i a) ++
    (signature.positional.zipIdx position).map (fun (a, i) =>
      normalizedPositional q (!pep && isPrivateName a.name.text) i a) ++
    signature.varargs.toList.map (fun x =>
      ⟨.starParameter next, nameInTree q x, ⟨"*" ++ nameInTree q x, none⟩⟩) ++
    signature.keywordOnly.map (normalizedNamed q) ++
    signature.kwargs.toList.map (fun x =>
      ⟨.starStarParameter (names signature.keywordOnly ∪
        (names signature.positional ∪ names signature.positionalOnly)), nameInTree q x,
        ⟨"**" ++ nameInTree q x, none⟩⟩)

theorem normalizeParameters_eq (signature : Signature E) :
    normalizeParameters (signature.toParameters q) = signature.normalizedParameters q := by
  unfold normalizeParameters normalizedParameters
  generalize hasPep570Syntax (signature.toParameters q) = pep
  obtain ⟨only, positional, varargs, keywordOnly, kwargs, -⟩ := signature
  simp only [toParameters, List.foldl_append, foldl_positional]
  have hslash : (if only.isEmpty = true then [] else [⟨"/", none⟩]).foldl
      (normalizeParameter (E := E) pep)
      (0 + only.length, false, names only ∪ ∅, ((only.zipIdx 0).map fun (a, i) =>
        normalizedPositional q (!pep && isPrivateName a.name.text) i a).reverse ++ []) =
      (only.length, false, names only,
        ((only.zipIdx 0).map fun (a, i) => normalizedPositional q true i a).reverse) := by
    cases only with
    | nil => rfl
    | cons a rest =>
      rw [if_neg (by simp), List.foldl_cons, step_slash]
      simp [normalizedPositional, markAsPositionalOnly, List.map_reverse, Function.comp_def]
  rw [hslash, foldl_positional]
  cases varargs with
  | some v =>
    rw [List.foldl_cons, List.foldl_nil, step_star, foldl_named]
    cases kwargs with
    | none => simp
    | some w =>
      rw [List.foldl_cons, List.foldl_nil, step_starStar]
      simp
  | none =>
    cases keywordOnly with
    | nil =>
      cases kwargs with
      | none => simp
      | some w =>
        simp only [List.isEmpty_nil, if_true, List.map_nil, List.foldl_nil, List.foldl_cons,
          step_starStar]
        simp [names]
    | cons a rest =>
      rw [if_neg (by simp), List.foldl_cons, List.foldl_nil, step_bareStar, foldl_named]
      cases kwargs with
      | none => simp
      | some w =>
        rw [List.foldl_cons, List.foldl_nil, step_starStar]
        simp

/-- The parameter of a name and its root. -/
inductive HasRoot (signature : Signature E) : Identifier → Root → Prop where
  | byPosition {j : Nat} {a : Param E} (positionalOnly : Bool)
      (h : signature.byPosition[j]? = some a) :
      HasRoot signature a.name.text (.positionalParameter j a.name.text positionalOnly)
  | varargs {x : Name} (h : signature.varargs = some x) :
      HasRoot signature x.text (.starParameter signature.byPosition.length)
  | keywordOnly {a : Param E} (h : a ∈ signature.keywordOnly) :
      HasRoot signature a.name.text (.namedParameter a.name.text)
  | kwargs {x : Name} (h : signature.kwargs = some x) :
      HasRoot signature x.text (.starStarParameter (names signature.params))

variable {signature : Signature E} {q}

theorem names_params : names signature.params = names signature.keywordOnly ∪
    (names signature.positional ∪ names signature.positionalOnly) := by
  simp only [names, params, byPosition, List.map_append, List.toFinset_append]
  rw [Finset.union_comm, Finset.union_comm (List.toFinset (signature.positionalOnly.map _))]

theorem hasRoot_of_mem {np : NormalizedParameter E}
    (h : np ∈ normalizeParameters (signature.toParameters q)) :
    HasRoot signature (Root.chopParameterPrefix np.qualifiedName) np.root := by
  rw [normalizeParameters_eq] at h
  simp only [normalizedParameters, List.mem_append, List.mem_map, Option.mem_toList,
    Prod.exists, List.mk_mem_zipIdx_iff_le_and_getElem?_sub] at h
  rcases h with (((⟨a, i, ⟨-, ha⟩, rfl⟩ | ⟨a, i, ⟨hi, ha⟩, rfl⟩) | ⟨x, hx, rfl⟩) |
    ⟨a, ha, rfl⟩) | ⟨x, hx, rfl⟩
  · have hj : signature.byPosition[i]? = some a := by
      rw [Nat.sub_zero] at ha
      rw [byPosition, List.getElem?_append_left (List.getElem?_eq_some_iff.mp ha).1]
      exact ha
    simpa [normalizedPositional] using HasRoot.byPosition true hj
  · have hj : signature.byPosition[i]? = some a := by
      rw [byPosition, List.getElem?_append_right hi]
      exact ha
    simpa [normalizedPositional] using HasRoot.byPosition _ hj
  · simpa [byPosition] using HasRoot.varargs hx
  · simpa [normalizedNamed] using HasRoot.keywordOnly ha
  · rw [← names_params]
    simpa using HasRoot.kwargs hx

theorem exists_byPosition {j : Nat} {a : Param E} (h : signature.byPosition[j]? = some a) :
    ∃ np ∈ normalizeParameters (signature.toParameters q),
      Root.chopParameterPrefix np.qualifiedName = a.name.text ∧
        ∃ positionalOnly, np.root = .positionalParameter j a.name.text positionalOnly := by
  rw [byPosition] at h
  rw [normalizeParameters_eq]
  by_cases hj : j < signature.positionalOnly.length
  · rw [List.getElem?_append_left hj] at h
    refine ⟨normalizedPositional q true j a, ?_, chop_nameInTree q a.name, true, rfl⟩
    simp only [normalizedParameters, List.mem_append, List.mem_map, Prod.exists,
      List.mk_mem_zipIdx_iff_getElem?]
    exact Or.inl (Or.inl (Or.inl (Or.inl ⟨a, j, h, rfl⟩)))
  · have hj := Nat.le_of_not_lt hj
    rw [List.getElem?_append_right hj] at h
    refine ⟨normalizedPositional q (!hasPep570Syntax (signature.toParameters q) &&
      isPrivateName a.name.text) j a, ?_, chop_nameInTree q a.name, _, rfl⟩
    simp only [normalizedParameters, List.mem_append, List.mem_map, Prod.exists,
      List.mk_mem_zipIdx_iff_le_and_getElem?_sub]
    exact Or.inl (Or.inl (Or.inl (Or.inr ⟨a, j, ⟨hj, h⟩, rfl⟩)))

theorem exists_varargs {x : Name} (h : signature.varargs = some x) :
    ∃ np ∈ normalizeParameters (signature.toParameters q),
      Root.chopParameterPrefix np.qualifiedName = x.text ∧
        np.root = .starParameter signature.byPosition.length := by
  refine ⟨⟨.starParameter (signature.positionalOnly.length + signature.positional.length),
    nameInTree q x, ⟨"*" ++ nameInTree q x, none⟩⟩, ?_, chop_nameInTree q x, ?_⟩
  · rw [normalizeParameters_eq]
    simp [normalizedParameters, h]
  · rw [byPosition, List.length_append]

theorem exists_keywordOnly {a : Param E} (h : a ∈ signature.keywordOnly) :
    ∃ np ∈ normalizeParameters (signature.toParameters q),
      Root.chopParameterPrefix np.qualifiedName = a.name.text ∧
        np.root = .namedParameter a.name.text := by
  refine ⟨normalizedNamed q a, ?_, chop_nameInTree q a.name, rfl⟩
  rw [normalizeParameters_eq]
  simp only [normalizedParameters, List.mem_append]
  exact Or.inl (Or.inr (List.mem_map_of_mem h))

theorem exists_kwargs {x : Name} (h : signature.kwargs = some x) :
    ∃ np ∈ normalizeParameters (signature.toParameters q),
      Root.chopParameterPrefix np.qualifiedName = x.text ∧
        np.root = .starStarParameter (names signature.params) := by
  refine ⟨⟨.starStarParameter (names signature.params), nameInTree q x,
    ⟨"**" ++ nameInTree q x, none⟩⟩, ?_, chop_nameInTree q x, rfl⟩
  rw [normalizeParameters_eq, names_params]
  simp only [normalizedParameters, List.mem_append, h]
  exact Or.inr (List.mem_singleton_self _)

end Signature

end Python

/-! ## 3. The matching of a list of arguments -/

section Match

variable (roots : List Root) (names : Finset Identifier)

/-- The matching from a position on. -/
def matchFrom : ArgumentPosition → List (Argument E) → List (Argument E × List ArgumentMatch)
  | _, [] => []
  | position, argument :: rest =>
    (argument, (matchActual roots names position argument).2) ::
      matchFrom (matchActual roots names position argument).1 rest

theorem foldl_matchActual (arguments : List (Argument E)) (position : ArgumentPosition)
    (result : List (Argument E × List ArgumentMatch)) :
    (arguments.foldl (fun (position, result) argument =>
      let (next, formals) := matchActual roots names position argument
      (next, (argument, formals) :: result)) (position, result)).2 =
      (matchFrom roots names position arguments).reverse ++ result := by
  induction arguments generalizing position result with
  | nil => rfl
  | cons argument rest ih =>
    rw [List.foldl_cons, ih, matchFrom, List.reverse_cons, List.append_assoc]
    rfl

theorem matchActualsToFormals_eq (arguments : List (Argument E)) :
    matchActualsToFormals arguments roots =
      matchFrom roots (matchedNames arguments roots) (.precise 0) arguments := by
  have h := foldl_matchActual roots (matchedNames arguments roots) arguments (.precise 0) []
  rw [List.append_nil] at h
  exact (congrArg List.reverse h).trans (List.reverse_reverse _)

end Match

/-- The positions at which a value can be bound that the matching counts at `position`. -/
def ArgumentPosition.Covers : ArgumentPosition → Nat → Prop
  | .precise n, j => n = j
  | .approximate n, j => n ≤ j

/-- Python binds the `j`-th value to the parameter with this root. -/
def Root.TakesPosition (j : Nat) : Root → Prop
  | .positionalParameter position _ _ => position = j
  | .starParameter position => position ≤ j
  | _ => False

theorem filterToPositional_one {position : ArgumentPosition} {j : Nat} {root : Root}
    (hposition : position.Covers j) (hroot : root.TakesPosition j) :
    ∃ m, filterToPositional (.one position) root = some m ∧ m.root = root := by
  cases root with
  | positionalParameter p name positionalOnly =>
    obtain rfl : p = j := hroot
    cases position with
    | precise n => exact ⟨_, if_pos hposition, rfl⟩
    | approximate n => exact ⟨_, if_pos hposition, rfl⟩
  | starParameter p =>
    cases position with
    | precise n =>
      obtain rfl : n = j := hposition
      exact ⟨_, if_pos hroot, rfl⟩
    | approximate n => exact ⟨_, rfl, rfl⟩
  | localResult | namedParameter _ | starStarParameter _ | «variable» _ | capturedVariable _ =>
    exact hroot.elim

theorem filterToPositional_star {position : ArgumentPosition} {i j : Nat} {root : Root}
    (hposition : position.Covers i) (hij : i ≤ j) (hroot : root.TakesPosition j) :
    ∃ m, filterToPositional (.star position) root = some m ∧ m.root = root := by
  cases root with
  | positionalParameter p name positionalOnly =>
    obtain rfl : p = j := hroot
    cases position with
    | precise n =>
      obtain rfl : n = i := hposition
      exact ⟨_, if_pos hij, rfl⟩
    | approximate n => exact ⟨_, if_pos (le_trans hposition hij), rfl⟩
  | starParameter p =>
    cases position with
    | precise n => exact ⟨_, rfl, rfl⟩
    | approximate n => exact ⟨_, rfl, rfl⟩
  | localResult | namedParameter _ | starStarParameter _ | «variable» _ | capturedVariable _ =>
    exact hroot.elim

namespace Python

/-! ## 4. The arguments of a call -/

variable (q : Bool) (roots : List Root) (names : Finset Identifier) (expansion : Expansion)

theorem getElem?_cons_sub {α : Type*} {x y : α} {xs : List α} {i o : Nat} (hio : i + 1 ≤ o)
    (h : xs[o - (i + 1)]? = some x) : (y :: xs)[o - i]? = some x := by
  rw [show o - i = o - (i + 1) + 1 by omega, List.getElem?_cons_succ]
  exact h

/-- The matching of the argument that the `d`-th value comes from has every root that takes the
    position of the value. -/
theorem positionalValues_matched (actuals : List (Actual E)) {i b d o : Nat}
    {p : ArgumentPosition} (hposition : p.Covers b)
    (ho : (positionalValues expansion i actuals)[d]? = some o) :
    i ≤ o ∧ ∃ argument formals,
      (matchFrom roots names p (actuals.map (Actual.toArgument q)))[o - i]? =
        some (argument, formals) ∧
      ∀ root ∈ roots, root.TakesPosition (b + d) → ∃ m ∈ formals, m.root = root := by
  induction actuals generalizing i b d p with
  | nil => cases ho
  | cons actual rest ih =>
    cases actual with
    | positional value =>
      cases d with
      | zero =>
        obtain rfl : i = o := Option.some.inj ho
        refine ⟨le_rfl, _, _, by rw [Nat.sub_self]; rfl, fun root hmem hroot => ?_⟩
        obtain ⟨m, hm, hmr⟩ := filterToPositional_one hposition hroot
        exact ⟨m, List.mem_filterMap.mpr ⟨root, hmem, hm⟩, hmr⟩
      | succ d =>
        have hnext : p.increment.Covers (b + 1) := by
          cases p with
          | precise n => exact congrArg (· + 1) hposition
          | approximate n => exact Nat.succ_le_succ hposition
        obtain ⟨hio, argument, formals, hget, hroots⟩ := ih hnext ho
        refine ⟨by omega, argument, formals, getElem?_cons_sub hio hget, ?_⟩
        rw [show b + (d + 1) = b + 1 + d by omega]
        exact hroots
    | starred value =>
      rw [positionalValues] at ho
      by_cases hd : d < expansion.count i
      · rw [List.getElem?_append_left (by simpa using hd), List.getElem?_replicate,
          if_pos hd] at ho
        obtain rfl : i = o := Option.some.inj ho
        refine ⟨le_rfl, _, _, by rw [Nat.sub_self]; rfl, fun root hmem hroot => ?_⟩
        obtain ⟨m, hm, hmr⟩ := filterToPositional_star hposition (Nat.le_add_right b d) hroot
        exact ⟨m, List.mem_filterMap.mpr ⟨root, hmem, hm⟩, hmr⟩
      · rw [List.getElem?_append_right (by simpa using hd), List.length_replicate] at ho
        have hnext : p.toApproximate.Covers (b + expansion.count i) := by
          cases p with
          | precise n =>
            obtain rfl : n = b := hposition
            exact Nat.le_add_right _ _
          | approximate n => exact le_trans hposition (Nat.le_add_right _ _)
        obtain ⟨hio, argument, formals, hget, hroots⟩ := ih hnext ho
        refine ⟨by omega, argument, formals, getElem?_cons_sub hio hget, ?_⟩
        rw [show b + d = b + expansion.count i + (d - expansion.count i) by omega]
        exact hroots
    | keyword name value =>
      obtain ⟨hio, argument, formals, hget, hroots⟩ := ih hposition ho
      exact ⟨by omega, argument, formals, getElem?_cons_sub hio hget, hroots⟩
    | doubleStarred value =>
      obtain ⟨hio, argument, formals, hget, hroots⟩ := ih hposition ho
      exact ⟨by omega, argument, formals, getElem?_cons_sub hio hget, hroots⟩

/-- A value that is passed by name comes from a keyword or from a double-starred argument. -/
theorem namedValues_matched (actuals : List (Actual E)) {i o : Nat} {p : ArgumentPosition}
    {name : Identifier} (ho : (name, o) ∈ namedValues expansion i actuals) :
    i ≤ o ∧ ∃ argument formals,
      (matchFrom roots names p (actuals.map (Actual.toArgument q)))[o - i]? =
        some (argument, formals) ∧
      ((∃ x value, actuals[o - i]? = some (.keyword x value) ∧ x.text = name ∧
        formals = roots.filterMap (filterToNamed names (.name name))) ∨
      ∃ value, actuals[o - i]? = some (.doubleStarred value) ∧
        formals = roots.filterMap (filterToNamed names .starStar)) := by
  induction actuals generalizing i p with
  | nil => cases ho
  | cons actual rest ih =>
    have hrest : (name, o) ∈ namedValues expansion (i + 1) rest →
        i ≤ o ∧ ∃ argument formals, (matchFrom roots names p
          ((actual :: rest).map (Actual.toArgument q)))[o - i]? = some (argument, formals) ∧
        ((∃ x value, (actual :: rest)[o - i]? = some (.keyword x value) ∧ x.text = name ∧
          formals = roots.filterMap (filterToNamed names (.name name))) ∨
        ∃ value, (actual :: rest)[o - i]? = some (.doubleStarred value) ∧
          formals = roots.filterMap (filterToNamed names .starStar)) := fun h => by
      obtain ⟨hio, argument, formals, hget, hformals⟩ := ih h
      refine ⟨by omega, argument, formals, getElem?_cons_sub hio hget, ?_⟩
      rcases hformals with ⟨x, value, hx, hrest⟩ | ⟨value, hx, hrest⟩
      · exact Or.inl ⟨x, value, getElem?_cons_sub hio hx, hrest⟩
      · exact Or.inr ⟨value, getElem?_cons_sub hio hx, hrest⟩
    cases actual with
    | positional value => exact hrest ho
    | starred value => exact hrest ho
    | keyword x value =>
      rcases List.mem_cons.mp ho with heq | ho
      · obtain ⟨rfl, rfl⟩ := Prod.mk.inj heq
        refine ⟨le_rfl, _, _, by rw [Nat.sub_self]; rfl, Or.inl ⟨x, value, ?_, rfl, ?_⟩⟩
        · rw [Nat.sub_self]
          rfl
        · simp [matchActual, Actual.toArgument]
      · exact hrest ho
    | doubleStarred value =>
      rcases List.mem_append.mp ho with ho | ho
      · obtain ⟨key, -, heq⟩ := List.mem_map.mp ho
        obtain ⟨rfl, rfl⟩ := Prod.mk.inj heq
        refine ⟨le_rfl, _, _, by rw [Nat.sub_self]; rfl, Or.inr ⟨value, ?_, rfl⟩⟩
        rw [Nat.sub_self]
        rfl
      · exact hrest ho

theorem keyword_mem_namedValues {actuals : List (Actual E)} {i o : Nat} {x : Name} {value : E}
    (h : actuals[o]? = some (.keyword x value)) :
    (x.text, i + o) ∈ namedValues expansion i actuals := by
  induction actuals generalizing i o with
  | nil => cases h
  | cons actual rest ih =>
    cases o with
    | zero =>
      obtain rfl : actual = .keyword x value := Option.some.inj h
      exact List.mem_cons_self
    | succ o =>
      have hmem : (x.text, i + (o + 1)) ∈ namedValues expansion (i + 1) rest := by
        rw [show i + (o + 1) = i + 1 + o by omega]
        exact ih h
      cases actual with
      | positional _ => exact hmem
      | starred _ => exact hmem
      | keyword _ _ => exact List.mem_cons_of_mem _ hmem
      | doubleStarred _ => exact List.mem_append_right _ hmem

/-- The unstarred arguments alone fill as many positions as there are. -/
theorem countP_le_length (actuals : List (Actual E)) (i : Nat) :
    (actuals.map (Actual.toArgument q)).countP unstarredPositional ≤
      (positionalValues expansion i actuals).length := by
  induction actuals generalizing i with
  | nil => exact Nat.zero_le _
  | cons actual rest ih =>
    have h := ih (i + 1)
    rw [List.map_cons, List.countP_cons]
    cases actual with
    | positional value =>
      rw [positionalValues, List.length_cons]
      exact Nat.add_le_add_right h 1
    | starred value =>
      rw [positionalValues, List.length_append]
      exact le_trans h (Nat.le_add_left _ _)
    | keyword x value => exact h
    | doubleStarred value => exact h

/-! ## 5. Soundness -/

variable {signature : Signature E}

/-- What the binding of a call consists of. -/
theorem bindArguments_eq_some {V : Type} {positional : List V} {named : List (Identifier × V)}
    {bindings : List (Identifier × V)}
    (h : bindArguments signature positional named = some bindings) :
    ∃ rest byName, bindings = (signature.byPosition.map (·.name.text)).zip positional ++ rest ++
        byName ∧
      (∀ b ∈ rest, ∃ x, signature.varargs = some x ∧
        b.1 = x.text ∧ b.2 ∈ positional.drop signature.byPosition.length) ∧
      (named.map Prod.fst).Nodup ∧
      named.mapM (bindNamed signature ((signature.byPosition.map (·.name.text)).zip positional)) =
        some byName := by
  unfold bindArguments at h
  obtain ⟨rest, hrest, h⟩ := Option.bind_eq_some_iff.mp h
  obtain ⟨_, hnodup, h⟩ := Option.bind_eq_some_iff.mp h
  obtain ⟨byName, hnamed, h⟩ := Option.bind_eq_some_iff.mp h
  obtain ⟨-, -, h⟩ := Option.bind_eq_some_iff.mp h
  refine ⟨rest, byName, (Option.some.inj h).symm, fun b hb => ?_, ?_, hnamed⟩
  · unfold bindExtra at hrest
    cases hvar : signature.varargs with
    | some x =>
      rw [hvar] at hrest
      obtain rfl := Option.some.inj hrest
      obtain ⟨v, hv, rfl⟩ := List.mem_map.mp hb
      exact ⟨x, rfl, rfl, hv⟩
    | none =>
      rw [hvar] at hrest
      dsimp only at hrest
      split at hrest
      · obtain rfl := Option.some.inj hrest
        cases hb
      · cases hrest
  · by_contra hne
    simp [guard, hne] at hnodup

/-- The formals of the argument `i` in the matching of the analysis. -/
def MatchedWith (q : Bool) (signature : Signature E) (actuals : List (Actual E)) (name : Identifier)
    (i : Nat) : Prop :=
  let parameters := normalizeParameters (signature.toParameters q)
  ∃ np ∈ parameters, Root.chopParameterPrefix np.qualifiedName = name ∧
    ∃ argument formals, (matchActualsToFormals (actuals.map (Actual.toArgument q))
      (parameters.map (·.root)))[i]? = some (argument, formals) ∧
      ∃ m ∈ formals, m.root = np.root

/-- Whatever Python binds at run time is matched. -/
def MatchSound (q : Bool) (signature : Signature E) (actuals : List (Actual E)) : Prop :=
  ∀ expansion bindings, call signature actuals expansion = some bindings →
    ∀ b ∈ bindings, MatchedWith q signature actuals b.1 b.2

theorem matchedWith_of_position {actuals : List (Actual E)} {j o : Nat} {np : NormalizedParameter E}
    (hnp : np ∈ normalizeParameters (signature.toParameters q)) (hroot : np.root.TakesPosition j)
    (ho : (positionalValues expansion 0 actuals)[j]? = some o) :
    MatchedWith q signature actuals (Root.chopParameterPrefix np.qualifiedName) o := by
  obtain ⟨-, argument, formals, hget, hroots⟩ := positionalValues_matched q
    ((normalizeParameters (signature.toParameters q)).map (·.root)) _ expansion actuals
    (p := .precise 0) (b := 0) rfl ho
  rw [Nat.sub_zero] at hget
  refine ⟨np, hnp, rfl, argument, formals, ?_,
    hroots _ (List.mem_map_of_mem hnp) ((Nat.zero_add j).symm ▸ hroot)⟩
  rw [matchActualsToFormals_eq]
  exact hget

/-- A name that the matching takes for bound is the name of a keyword, or the name of a parameter
    that gets a value by position. -/
theorem mem_matchedNames {actuals : List (Actual E)} {name : Identifier}
    (h : name ∈ matchedNames (actuals.map (Actual.toArgument q))
      ((normalizeParameters (signature.toParameters q)).map (·.root))) :
    (∃ (o : Nat) (x : Name) (value : E), actuals[o]? = some (.keyword x value) ∧ x.text = name) ∨
      name ∈ ((signature.byPosition.map (·.name.text)).zip
        (positionalValues expansion 0 actuals)).map Prod.fst := by
  rw [matchedNames, List.mem_toFinset, List.mem_append] at h
  rcases h with h | h
  · left
    obtain ⟨y, hy, rfl⟩ := List.mem_map.mp h
    obtain ⟨argument, hargument, hname⟩ := List.mem_filterMap.mp hy
    obtain ⟨actual, hactual, rfl⟩ := List.mem_map.mp hargument
    obtain ⟨o, ho⟩ := List.mem_iff_getElem?.mp hactual
    cases actual with
    | keyword x value =>
      obtain rfl := Option.some.inj hname
      exact ⟨o, x, value, ho, (sanitized_nameInTree q x).symm⟩
    | positional _ => cases hname
    | starred _ => cases hname
    | doubleStarred _ => cases hname
  · right
    obtain ⟨root, hroot, hmatched⟩ := List.mem_filterMap.mp h
    obtain ⟨np, hnp, rfl⟩ := List.mem_map.mp hroot
    have hhas := Signature.hasRoot_of_mem hnp
    generalize Root.chopParameterPrefix np.qualifiedName = formal at hhas
    generalize np.root = root at hhas hmatched
    cases hhas with
    | varargs _ => cases hmatched
    | keywordOnly _ => cases hmatched
    | kwargs _ => cases hmatched
    | @byPosition j a _ hj =>
      dsimp only at hmatched
      split at hmatched
      · rename_i hlt
        obtain rfl := Option.some.inj hmatched
        have hlength := lt_of_lt_of_le hlt (countP_le_length q expansion actuals 0)
        have hname : (signature.byPosition.map (·.name.text))[j]? = some a.name.text := by
          rw [List.getElem?_map, hj]
          rfl
        have hmem := List.mem_of_getElem?
          (List.getElem?_zip_eq_some (z := (a.name.text, _)).mpr
            ⟨hname, List.getElem?_eq_getElem hlength⟩)
        exact List.mem_map.mpr ⟨_, hmem, rfl⟩
      · cases hmatched

theorem matchedWith_of_name {actuals : List (Actual E)} {bound : List (Identifier × Nat)}
    (hbound : bound = (signature.byPosition.map (·.name.text)).zip
      (positionalValues expansion 0 actuals))
    (hnodup : ((namedValues expansion 0 actuals).map Prod.fst).Nodup)
    {named : Identifier × Nat} (hnamed : named ∈ namedValues expansion 0 actuals)
    {b : Identifier × Nat} (hb : bindNamed signature bound named = some b)
    (hkeyword : ∀ x value, Actual.keyword x value ∈ actuals →
      ∀ a ∈ signature.positionalOnly, a.name ≠ x) :
    MatchedWith q signature actuals b.1 b.2 := by
  obtain ⟨name, o⟩ := named
  let roots := (normalizeParameters (signature.toParameters q)).map (·.root)
  obtain ⟨-, argument, formals, hget, hformals⟩ := namedValues_matched q roots
    (matchedNames (actuals.map (Actual.toArgument q)) roots) expansion actuals
    (p := .precise 0) hnamed
  rw [Nat.sub_zero, ← matchActualsToFormals_eq] at hget
  -- it is enough that the argument matches the root of the parameter
  have hmatch : ∀ np ∈ normalizeParameters (signature.toParameters q),
      (∃ m ∈ formals, m.root = np.root) →
        MatchedWith q signature actuals (Root.chopParameterPrefix np.qualifiedName) o :=
    fun np hnp h => ⟨np, hnp, rfl, argument, formals, hget, h⟩
  have hfilter : ∀ np ∈ normalizeParameters (signature.toParameters q), ∀ {c m},
      formals = roots.filterMap (filterToNamed (matchedNames (actuals.map (Actual.toArgument q))
        roots) c) →
      filterToNamed (matchedNames (actuals.map (Actual.toArgument q)) roots) c np.root = some m →
        m ∈ formals := fun np hnp c m hc hm => by
    rw [hc]
    exact List.mem_filterMap.mpr ⟨np.root, List.mem_map_of_mem hnp, hm⟩
  unfold bindNamed at hb
  split at hb
  · rename_i hname
    split at hb
    · cases hb
    · rename_i hfree
      obtain rfl := Option.some.inj hb
      obtain ⟨a, ha, rfl⟩ := List.mem_map.mp hname
      -- the root of a parameter that values are bound to by name
      obtain ⟨np, hnp, hchop, hroot⟩ : ∃ np ∈ normalizeParameters (signature.toParameters q),
          Root.chopParameterPrefix np.qualifiedName = a.name.text ∧
            ((∃ j positionalOnly,
              np.root = .positionalParameter j a.name.text positionalOnly) ∨
            np.root = .namedParameter a.name.text) := by
        rcases List.mem_append.mp ha with ha | ha
        · obtain ⟨j, hj⟩ := List.mem_iff_getElem?.mp
            (List.mem_append_right signature.positionalOnly ha)
          obtain ⟨np, hnp, hchop, hroot⟩ := Signature.exists_byPosition (q := q) hj
          exact ⟨np, hnp, hchop, Or.inl ⟨j, hroot⟩⟩
        · obtain ⟨np, hnp, hchop, hroot⟩ := Signature.exists_keywordOnly (q := q) ha
          exact ⟨np, hnp, hchop, Or.inr hroot⟩
      rw [← hchop]
      refine hmatch np hnp ?_
      rcases hformals with ⟨x, value, hx, -, hformals⟩ | ⟨value, hx, hformals⟩
      · refine ⟨⟨np.root, [], []⟩, hfilter np hnp hformals ?_, rfl⟩
        rcases hroot with ⟨j, positionalOnly, hroot⟩ | hroot <;> rw [hroot] <;> exact if_pos rfl
      · have hfresh : a.name.text ∉ matchedNames (actuals.map (Actual.toArgument q)) roots := by
          intro h
          rcases mem_matchedNames q expansion h with ⟨o', x, value', ho', hx'⟩ | h
          · have hmem := keyword_mem_namedValues expansion (i := 0) ho'
            rw [hx', Nat.zero_add] at hmem
            have heq := List.inj_on_of_nodup_map hnodup hnamed hmem rfl
            obtain rfl : o = o' := congrArg Prod.snd heq
            rw [Nat.sub_zero, ho'] at hx
            cases hx
          · exact hfree (hbound ▸ h)
        refine ⟨⟨np.root, [.index a.name.text], []⟩, hfilter np hnp hformals ?_, rfl⟩
        rcases hroot with ⟨j, positionalOnly, hroot⟩ | hroot <;> rw [hroot] <;>
          exact if_pos hfresh
  · rename_i hname
    obtain ⟨w, hw, rfl⟩ := Option.map_eq_some_iff.mp hb
    obtain ⟨np, hnp, hchop, hroot⟩ := Signature.exists_kwargs (q := q) hw
    rw [← hchop]
    refine hmatch np hnp ?_
    rcases hformals with ⟨x, value, hx, rfl, hformals⟩ | ⟨value, hx, hformals⟩
    · have hexcluded : x.text ∉ Signature.names signature.params := by
        intro h
        obtain ⟨a, ha, hax⟩ := List.mem_map.mp (List.mem_toFinset.mp h)
        rw [Signature.params, Signature.byPosition, List.append_assoc] at ha
        rcases List.mem_append.mp ha with ha | ha
        · exact hkeyword x value (List.mem_of_getElem? hx) a ha (Name.ext hax)
        · exact hname (List.mem_map.mpr ⟨a, ha, hax⟩)
      refine ⟨⟨np.root, [], [.index (Root.chopParameterPrefix x.text)]⟩,
        hfilter np hnp hformals ?_, rfl⟩
      rw [hroot]
      exact if_pos hexcluded
    · refine ⟨⟨np.root, [], []⟩, hfilter np hnp hformals ?_, rfl⟩
      rw [hroot]
      rfl

/-- **Soundness**: without a keyword that is named like a positional-only parameter. -/
theorem matchSound_of_keyword {actuals : List (Actual E)}
    (hkeyword : ∀ x value, Actual.keyword x value ∈ actuals →
      ∀ a ∈ signature.positionalOnly, a.name ≠ x) : MatchSound q signature actuals := by
  intro expansion bindings hcall b hb
  obtain ⟨rest, byName, rfl, hrest, hnodup, hnamed⟩ := bindArguments_eq_some hcall
  rcases List.mem_append.mp hb with hb | hb
  · rcases List.mem_append.mp hb with hb | hb
    · obtain ⟨j, hj⟩ := List.mem_iff_getElem?.mp hb
      obtain ⟨hname, hvalue⟩ := List.getElem?_zip_eq_some.mp hj
      rw [List.getElem?_map] at hname
      obtain ⟨a, ha, haname⟩ := Option.map_eq_some_iff.mp hname
      obtain ⟨np, hnp, hchop, positionalOnly, hroot⟩ := Signature.exists_byPosition (q := q) ha
      rw [← haname, ← hchop]
      exact matchedWith_of_position q expansion hnp (hroot ▸ rfl) hvalue
    · obtain ⟨x, hx, hbx, hvalue⟩ := hrest b hb
      obtain ⟨d, hd⟩ := List.mem_iff_getElem?.mp hvalue
      rw [List.getElem?_drop] at hd
      obtain ⟨np, hnp, hchop, hroot⟩ := Signature.exists_varargs (q := q) hx
      rw [hbx, ← hchop]
      exact matchedWith_of_position q expansion hnp (hroot ▸ Nat.le_add_right _ d) hd
  · obtain ⟨named, hmem, hbind⟩ := (mem_of_mapM hnamed).1 b hb
    exact matchedWith_of_name q expansion rfl hnodup hmem hbind hkeyword

/-! ## 6. The exact condition -/

/-- The parameter `**kwargs` has a name of its own. -/
theorem kwargs_fresh {w : Name} (hw : signature.kwargs = some w) :
    (∀ a ∈ signature.params, a.name ≠ w) ∧ ∀ x, signature.varargs = some x → x ≠ w := by
  have hnodup := signature.nodup
  rw [hw, List.nodup_append] at hnodup
  have hne := fun y hy => hnodup.2.2 y hy w (List.mem_singleton_self w)
  constructor
  · intro a ha
    exact hne a.name (List.mem_append_left _ (List.mem_map_of_mem ha))
  · intro x hx
    exact hne x (List.mem_append_right _ (by simp [hx]))

theorem positionalOnly_ne_byName {a a' : Param E} (ha : a ∈ signature.positionalOnly)
    (ha' : a' ∈ signature.byName) : a.name ≠ a'.name := by
  have hnodup := signature.nodup
  rw [List.append_assoc, List.nodup_append, List.append_assoc, List.map_append,
    List.nodup_append] at hnodup
  exact hnodup.1.2.2 _ (List.mem_map_of_mem ha) _ (List.mem_map_of_mem ha')

theorem filterToNamed_root {c : NameOrStarStar} {root : Root} {m : ArgumentMatch}
    (h : filterToNamed names c root = some m) : m.root = root := by
  cases c <;> cases root <;> simp only [filterToNamed] at h <;> (try split at h) <;> cases h <;>
    rfl

/-- A keyword with the name of a parameter is not matched with `**kwargs`. -/
theorem not_matchedWith_kwargs {actuals : List (Actual E)} {o : Nat} {x w : Name} {value : E}
    (hx : actuals[o]? = some (.keyword x value)) (hname : x.text ∈ Signature.names signature.params)
    (hw : signature.kwargs = some w) : ¬ MatchedWith q signature actuals w.text o := by
  rintro ⟨np, hnp, hchop, argument, formals, hget, m, hm, hroot⟩
  obtain ⟨hparams, hvarargs⟩ := kwargs_fresh hw
  -- no other parameter has the name of `**kwargs`
  have hstar : np.root = .starStarParameter (Signature.names signature.params) := by
    have hhas := Signature.hasRoot_of_mem hnp
    rw [hchop] at hhas
    generalize np.root = root at hhas
    generalize hwt : w.text = text at hhas
    cases hhas with
    | byPosition _ hj =>
      exact absurd (Name.ext hwt.symm)
        (hparams _ (List.mem_append_left _ (List.mem_of_getElem? hj)))
    | varargs hv => exact absurd (Name.ext hwt.symm) (hvarargs _ hv)
    | keywordOnly ha => exact absurd (Name.ext hwt.symm) (hparams _ (List.mem_append_right _ ha))
    | kwargs _ => rfl
  have hmem := keyword_mem_namedValues ⟨fun _ => 0, fun _ => []⟩ (i := 0) hx
  rw [Nat.zero_add] at hmem
  obtain ⟨-, argument', formals', hget', hformals⟩ := namedValues_matched q
    ((normalizeParameters (signature.toParameters q)).map (·.root)) _ _ actuals
    (p := .precise 0) hmem
  rw [Nat.sub_zero, ← matchActualsToFormals_eq] at hget'
  obtain ⟨-, rfl⟩ := Prod.mk.inj (Option.some.inj (hget.symm.trans hget'))
  rcases hformals with ⟨x', value', -, -, rfl⟩ | ⟨value', hx', -⟩
  · obtain ⟨root, -, hfilter⟩ := List.mem_filterMap.mp hm
    obtain rfl := (filterToNamed_root _ hfilter).symm
    rw [hroot, hstar] at hfilter
    simp [filterToNamed, hname] at hfilter
  · rw [Nat.sub_zero, hx] at hx'
    cases hx'

/-- The matching is sound exactly when Python accepts no expansion of the call, so that nothing is
    bound, or no keyword has the name of a positional-only parameter. -/
theorem matchSound_iff (q : Bool) (signature : Signature E) (actuals : List (Actual E)) :
    MatchSound q signature actuals ↔
      (∀ expansion, call signature actuals expansion = none) ∨
        ∀ x value, Actual.keyword x value ∈ actuals →
          ∀ a ∈ signature.positionalOnly, a.name ≠ x := by
  constructor
  · intro hsound
    by_contra hne
    obtain ⟨haccepted, hkeyword⟩ := not_or.mp hne
    push Not at haccepted hkeyword
    obtain ⟨expansion, hcall⟩ := haccepted
    obtain ⟨bindings, hcall⟩ := Option.ne_none_iff_exists'.mp hcall
    obtain ⟨x, value, hactual, a, ha, rfl⟩ := hkeyword
    obtain ⟨rest, byName, hbindings, -, hnodup, hnamed⟩ := bindArguments_eq_some hcall
    obtain ⟨o, ho⟩ := List.mem_iff_getElem?.mp hactual
    have hmem := keyword_mem_namedValues expansion (i := 0) ho
    rw [Nat.zero_add] at hmem
    obtain ⟨b, hb, hbind⟩ := (mem_of_mapM hnamed).2 _ hmem
    have hnot : a.name.text ∉ signature.byName.map (·.name.text) := by
      intro h
      obtain ⟨a', ha', heq⟩ := List.mem_map.mp h
      exact positionalOnly_ne_byName ha ha' (Name.ext heq.symm)
    rw [bindNamed, if_neg hnot] at hbind
    obtain ⟨w, hw, rfl⟩ := Option.map_eq_some_iff.mp hbind
    have hparams : a.name.text ∈ Signature.names signature.params :=
      List.mem_toFinset.mpr (List.mem_map.mpr
        ⟨a, List.mem_append_left _ (List.mem_append_left _ ha), rfl⟩)
    exact not_matchedWith_kwargs q ho hparams hw
      (hsound expansion bindings hcall _ (hbindings ▸ List.mem_append_right _ hb))
  · rintro (hnone | hkeyword)
    · intro expansion bindings hcall
      rw [hnone expansion] at hcall
      cases hcall
    · exact matchSound_of_keyword q hkeyword

def xName : Name := ⟨"x", by simp, by simp⟩

def kwName : Name := ⟨"kw", by simp, by simp⟩

/-- `def f(x, /, **kw)`. -/
def positionalOnlySignature : Signature Nat where
  positionalOnly := [⟨xName, none⟩]
  positional := []
  varargs := none
  keywordOnly := []
  kwargs := some kwName
  nodup := by simp [xName, kwName]

/-- `f(1, x=2)` binds `2` to `kw`, and the matching gives `x=2` no formal for it. -/
theorem matchSound_positionalOnly :
    ¬ MatchSound true positionalOnlySignature [.positional 1, .keyword xName 2] := by
  intro hsound
  have hcall : call positionalOnlySignature [.positional 1, .keyword xName 2]
      ⟨fun _ => 0, fun _ => []⟩ = some [("x", 0), ("kw", 1)] := by decide
  have hkeyword : [Actual.positional 1, .keyword xName 2][1]? = some (.keyword xName 2) := rfl
  have hname : xName.text ∈ Signature.names positionalOnlySignature.params := by decide
  exact not_matchedWith_kwargs true hkeyword hname (w := kwName) rfl
    (hsound _ _ hcall ("kw", 1) (by decide))

end Python

end Pysa
