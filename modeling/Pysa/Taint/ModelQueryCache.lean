/-
  Subject: MODEL QUERIES THAT READ A CACHE (`modelQueryExecution.ml`, `modelParser.ml`).

  * `checkInvalidReadFromCache` -- where a clause may read the cache;
  * `CandidateTargetsFromCache.fromConstraint` -- the targets that the reads leave;
  * `matchesConstraint` -- the rest of the clause: a read is true;
  * `Constraint.Holds` -- the plain meaning: a read is membership;
  * `targetsOfQuery_spec` -- **on a valid clause with a read the targets can be computed, and those
    that match are the targets of which the clause holds.**
-/
import Mathlib.Data.String.Basic
import Pysa.Lib.SortedMap

namespace Pysa

namespace ModelQuery

/-- A constraint of a `where` clause. The constraints that look at the target alone (on its name,
    annotations, parameters, class and decorators) are of the type `A`. -/
inductive Constraint (A : Type) where
  | constant (value : Bool)
  | atomic (constraint : A)
  | anyOverridenMethod (constraint : Constraint A)
  | readFromCache (kind name : String)
  | anyOf (constraints : List (Constraint A))
  | allOf (constraints : List (Constraint A))
  | not (constraint : Constraint A)

namespace Constraint

variable {A : Type}

theorem induction {P : Constraint A → Prop} (constant : ∀ value, P (constant value))
    (atomic : ∀ a, P (atomic a)) (anyOverridenMethod : ∀ c, P c → P (anyOverridenMethod c))
    (readFromCache : ∀ kind name, P (readFromCache kind name))
    (anyOf : ∀ cs, (∀ c ∈ cs, P c) → P (anyOf cs)) (allOf : ∀ cs, (∀ c ∈ cs, P c) → P (allOf cs))
    (not : ∀ c, P c → P (not c)) (c : Constraint A) : P c := by
  refine @Constraint.rec A P (fun cs => ∀ c ∈ cs, P c) constant atomic anyOverridenMethod
    readFromCache anyOf allOf not nofun (fun c cs hc hcs => ?_) c
  exact List.forall_mem_cons.mpr ⟨hc, hcs⟩

/-! ## 1. Where the cache is read -/

mutual

def containsReadFromCache : Constraint A → Bool
  | constant _ => false
  | atomic _ => false
  | readFromCache _ _ => true
  | anyOf constraints => anyContains constraints
  | allOf constraints => anyContains constraints
  | not constraint => containsReadFromCache constraint
  | anyOverridenMethod constraint => containsReadFromCache constraint

def anyContains : List (Constraint A) → Bool
  | [] => false
  | constraint :: rest => containsReadFromCache constraint || anyContains rest

end

def isReadFromCache : Constraint A → Bool
  | readFromCache _ _ => true
  | _ => false

mutual

def isValid : Constraint A → Bool
  | constant _ => true
  | atomic _ => true
  | readFromCache _ _ => true
  | anyOf constraints =>
    constraints.all isReadFromCache || !containsReadFromCache (anyOf constraints)
  | allOf constraints => allValid constraints
  | not constraint => !containsReadFromCache constraint
  | anyOverridenMethod constraint => !containsReadFromCache constraint

def allValid : List (Constraint A) → Bool
  | [] => true
  | constraint :: rest => isValid constraint && allValid rest

end

@[simp] theorem anyContains_eq_any (constraints : List (Constraint A)) :
    anyContains constraints = constraints.any containsReadFromCache := by
  induction constraints with
  | nil => rfl
  | cons c cs ih => rw [anyContains, ih, List.any_cons]

@[simp] theorem allValid_eq_all (constraints : List (Constraint A)) :
    allValid constraints = constraints.all isValid := by
  induction constraints with
  | nil => rfl
  | cons c cs ih => rw [allValid, ih, List.all_cons]

end Constraint

open Constraint

/-- The error of a clause that is not valid is `InvalidReadFromCacheConstraint`. -/
def checkInvalidReadFromCache {A : Type} (clause : List (Constraint A)) :
    Option (List (Constraint A)) :=
  if clause.all isValid then some clause else none

end ModelQuery

open ModelQuery ModelQuery.Constraint

/-! ## 2. The cache -/

/-- From a kind and a name to the targets that the writing queries have put there. -/
abbrev ReadWriteCache (T : Type) [LinearOrder T] := SortedMap String (SortedMap String (SortedSet T))

namespace ReadWriteCache

variable {T : Type} [LinearOrder T]

def read (kind name : String) (cache : ReadWriteCache T) : SortedSet T :=
  (((cache.find? kind).getD .empty).find? name).getD .empty

end ReadWriteCache

/-! ## 3. The candidates -/

inductive CandidateTargetsFromCache (T : Type) [LinearOrder T] where
  | top
  | set (targets : SortedSet T)

namespace CandidateTargetsFromCache

variable {A T : Type} [LinearOrder T]

def bottom : CandidateTargetsFromCache T := set .empty

def meet : CandidateTargetsFromCache T → CandidateTargetsFromCache T → CandidateTargetsFromCache T
  | top, right => right
  | left, top => left
  | set left, set right => set (left.inter right)

def join : CandidateTargetsFromCache T → CandidateTargetsFromCache T → CandidateTargetsFromCache T
  | top, _ => top
  | _, top => top
  | set left, set right => set (left.union right)

mutual

def fromConstraint (cache : ReadWriteCache T) : Constraint A → CandidateTargetsFromCache T
  | readFromCache kind name => set (cache.read kind name)
  | anyOf constraints => foldJoin cache bottom constraints
  | allOf constraints => foldMeet cache top constraints
  | constant false => set .empty
  | constant true => top
  | .not _ => top
  | atomic _ => top
  | anyOverridenMethod _ => top

def foldJoin (cache : ReadWriteCache T) (candidates : CandidateTargetsFromCache T) :
    List (Constraint A) → CandidateTargetsFromCache T
  | [] => candidates
  | constraint :: rest => foldJoin cache (join candidates (fromConstraint cache constraint)) rest

def foldMeet (cache : ReadWriteCache T) (candidates : CandidateTargetsFromCache T) :
    List (Constraint A) → CandidateTargetsFromCache T
  | [] => candidates
  | constraint :: rest => foldMeet cache (meet candidates (fromConstraint cache constraint)) rest

end

/-- The targets on which a query that reads the cache is run. -/
def targetsOfQuery (modelQueryName : String) (clause : List (Constraint A))
    (cache : ReadWriteCache T) : Except String (List T) :=
  match fromConstraint cache (allOf clause) with
  | top => .error ("Model query `" ++ modelQueryName ++ "` has an invalid `read_from_cache` query: " ++
      "could not compute a set of candidate targets")
  | set candidates => .ok candidates.elements

instance : Membership T (CandidateTargetsFromCache T) where
  mem
    | top, _ => True
    | set targets, target => target ∈ targets

variable {cache : ReadWriteCache T} {left right : CandidateTargetsFromCache T} {t : T}

@[simp] theorem mem_top : t ∈ (top : CandidateTargetsFromCache T) := trivial

@[simp] theorem mem_set {targets : SortedSet T} : t ∈ set targets ↔ t ∈ targets := Iff.rfl

@[simp] theorem not_mem_bottom : t ∉ (bottom : CandidateTargetsFromCache T) := List.not_mem_nil

@[simp] theorem mem_meet : t ∈ meet left right ↔ t ∈ left ∧ t ∈ right := by
  cases left with
  | top => simp [meet]
  | set left =>
    cases right with
    | top => simp [meet]
    | set right => simp [meet, SortedSet.mem_inter]

@[simp] theorem mem_join : t ∈ join left right ↔ t ∈ left ∨ t ∈ right := by
  cases left with
  | top => simp [join]
  | set left =>
    cases right with
    | top => simp [join]
    | set right => simp [join, SortedSet.mem_union]

@[simp] theorem meet_eq_top : meet left right = top ↔ left = top ∧ right = top := by
  cases left <;> cases right <;> simp [meet]

@[simp] theorem join_eq_top : join left right = top ↔ left = top ∨ right = top := by
  cases left <;> cases right <;> simp [join]

theorem mem_foldJoin {constraints : List (Constraint A)} {candidates : CandidateTargetsFromCache T} :
    t ∈ foldJoin cache candidates constraints ↔
      t ∈ candidates ∨ ∃ c ∈ constraints, t ∈ fromConstraint cache c := by
  induction constraints generalizing candidates with
  | nil => simp [foldJoin]
  | cons c cs ih => rw [foldJoin, ih, mem_join, List.exists_mem_cons_iff, or_assoc]

theorem mem_foldMeet {constraints : List (Constraint A)} {candidates : CandidateTargetsFromCache T} :
    t ∈ foldMeet cache candidates constraints ↔
      t ∈ candidates ∧ ∀ c ∈ constraints, t ∈ fromConstraint cache c := by
  induction constraints generalizing candidates with
  | nil => simp [foldMeet]
  | cons c cs ih => rw [foldMeet, ih, mem_meet, List.forall_mem_cons, and_assoc]

theorem foldJoin_eq_top {constraints : List (Constraint A)}
    {candidates : CandidateTargetsFromCache T} :
    foldJoin cache candidates constraints = top ↔
      candidates = top ∨ ∃ c ∈ constraints, fromConstraint cache c = top := by
  induction constraints generalizing candidates with
  | nil => simp [foldJoin]
  | cons c cs ih => rw [foldJoin, ih, join_eq_top, List.exists_mem_cons_iff, or_assoc]

theorem foldMeet_eq_top {constraints : List (Constraint A)}
    {candidates : CandidateTargetsFromCache T} :
    foldMeet cache candidates constraints = top ↔
      candidates = top ∧ ∀ c ∈ constraints, fromConstraint cache c = top := by
  induction constraints generalizing candidates with
  | nil => simp [foldMeet]
  | cons c cs ih => rw [foldMeet, ih, meet_eq_top, List.forall_mem_cons, and_assoc]

/-- What is read decides what is left: a valid constraint with a read leaves a set. -/
theorem fromConstraint_ne_top {c : Constraint A} (hvalid : isValid c = true)
    (hread : containsReadFromCache c = true) : fromConstraint cache c ≠ top := by
  induction c using Constraint.induction with
  | constant value => cases hread
  | atomic a => cases hread
  | anyOverridenMethod c => simp_all [isValid, containsReadFromCache]
  | readFromCache kind name => simp [fromConstraint]
  | anyOf cs ih =>
    rw [isValid, hread, Bool.not_true, Bool.or_false, List.all_eq_true] at hvalid
    rw [fromConstraint, Ne, foldJoin_eq_top]
    rintro (h | ⟨c, hc, h⟩)
    · cases h
    · have hcache := hvalid c hc
      cases c <;> simp [isReadFromCache] at hcache
      rw [fromConstraint] at h
      cases h
  | allOf cs ih =>
    rw [isValid, allValid_eq_all, List.all_eq_true] at hvalid
    rw [containsReadFromCache, anyContains_eq_any, List.any_eq_true] at hread
    obtain ⟨c, hc, hread⟩ := hread
    rw [fromConstraint, Ne, foldMeet_eq_top]
    exact fun h => ih c hc (hvalid c hc) hread (h.2 c hc)
  | not c => simp_all [isValid, containsReadFromCache]

end CandidateTargetsFromCache

/-! ## 4. The rest of the clause -/

/-- What a clause asks of a modelable: the constraints on the target alone, and the methods of its
    bases. -/
structure Modelable (A T V : Type) where
  target : V → T
  matchesAtomic : A → V → Bool
  isInstanceMethod : V → Bool
  findBaseMethods : T → List T
  createCallable : T → V

variable {A T V : Type} (api : Modelable A T V)

mutual

def matchesConstraint : Constraint A → V → Bool
  | anyOf constraints, value => matchesAny constraints value
  | allOf constraints, value => matchesAll constraints value
  | .not constraint, value => !matchesConstraint constraint value
  | constant constantValue, _ => constantValue
  | atomic constraint, value => api.matchesAtomic constraint value
  | anyOverridenMethod constraint, value =>
    api.isInstanceMethod value && (api.findBaseMethods (api.target value)).any fun baseMethod =>
      matchesConstraint constraint (api.createCallable baseMethod)
  -- handled before
  | readFromCache _ _, _ => true

def matchesAny : List (Constraint A) → V → Bool
  | [], _ => false
  | constraint :: rest, value => matchesConstraint constraint value || matchesAny rest value

def matchesAll : List (Constraint A) → V → Bool
  | [], _ => true
  | constraint :: rest, value => matchesConstraint constraint value && matchesAll rest value

end

@[simp] theorem matchesAny_eq_any (constraints : List (Constraint A)) (value : V) :
    matchesAny api constraints value = constraints.any (matchesConstraint api · value) := by
  induction constraints with
  | nil => rfl
  | cons c cs ih => rw [matchesAny, ih, List.any_cons]

@[simp] theorem matchesAll_eq_all (constraints : List (Constraint A)) (value : V) :
    matchesAll api constraints value = constraints.all (matchesConstraint api · value) := by
  induction constraints with
  | nil => rfl
  | cons c cs ih => rw [matchesAll, ih, List.all_cons]

/-! ## 5. The plain meaning -/

variable [LinearOrder T] (cache : ReadWriteCache T)

namespace ModelQuery.Constraint

mutual

/-- The clause with `read_from_cache(kind, name)` read as membership in the entry. -/
def Holds : Constraint A → V → Prop
  | anyOf constraints, value => AnyHolds constraints value
  | allOf constraints, value => AllHold constraints value
  | .not constraint, value => ¬ Holds constraint value
  | constant constantValue, _ => constantValue = true
  | atomic constraint, value => api.matchesAtomic constraint value = true
  | anyOverridenMethod constraint, value =>
    api.isInstanceMethod value = true ∧ ∃ baseMethod ∈ api.findBaseMethods (api.target value),
      Holds constraint (api.createCallable baseMethod)
  | readFromCache kind name, value => api.target value ∈ cache.read kind name

def AnyHolds : List (Constraint A) → V → Prop
  | [], _ => False
  | constraint :: rest, value => Holds constraint value ∨ AnyHolds rest value

def AllHold : List (Constraint A) → V → Prop
  | [], _ => True
  | constraint :: rest, value => Holds constraint value ∧ AllHold rest value

end

variable {api cache} {value : V}

theorem anyHolds_iff {constraints : List (Constraint A)} :
    AnyHolds api cache constraints value ↔ ∃ c ∈ constraints, c.Holds api cache value := by
  induction constraints with
  | nil => simp [AnyHolds]
  | cons c cs ih => rw [AnyHolds, ih, List.exists_mem_cons_iff]

theorem allHold_iff {constraints : List (Constraint A)} :
    AllHold api cache constraints value ↔ ∀ c ∈ constraints, c.Holds api cache value := by
  induction constraints with
  | nil => simp [AllHold]
  | cons c cs ih => rw [AllHold, ih, List.forall_mem_cons]

/-- Without a read the two meanings are one. -/
theorem matchesConstraint_iff_holds {c : Constraint A} (h : containsReadFromCache c = false) :
    matchesConstraint api c value = true ↔ c.Holds api cache value := by
  induction c using Constraint.induction generalizing value with
  | constant _ => rw [matchesConstraint, Holds]
  | atomic a => rw [matchesConstraint, Holds]
  | anyOverridenMethod c ih =>
    rw [containsReadFromCache] at h
    simp only [matchesConstraint, Holds, Bool.and_eq_true, List.any_eq_true, ih h]
  | readFromCache kind name => cases h
  | anyOf cs ih =>
    rw [containsReadFromCache, anyContains_eq_any, List.any_eq_false] at h
    rw [matchesConstraint, matchesAny_eq_any, Holds, anyHolds_iff, List.any_eq_true]
    exact exists_congr fun c => and_congr_right fun hc => ih c hc (by simpa using h c hc)
  | allOf cs ih =>
    rw [containsReadFromCache, anyContains_eq_any, List.any_eq_false] at h
    rw [matchesConstraint, matchesAll_eq_all, Holds, allHold_iff, List.all_eq_true]
    exact forall₂_congr fun c hc => ih c hc (by simpa using h c hc)
  | not c ih =>
    rw [containsReadFromCache] at h
    rw [matchesConstraint, Holds, ← ih h, Bool.not_eq_true', Bool.not_eq_true]

/-- Without a read the candidates leave out no target of which the clause holds. -/
theorem mem_fromConstraint_of_holds {c : Constraint A} (h : containsReadFromCache c = false)
    (hc : c.Holds api cache value) :
    api.target value ∈ CandidateTargetsFromCache.fromConstraint cache c := by
  induction c using Constraint.induction with
  | constant b =>
    cases b with
    | true => trivial
    | false => cases hc
  | atomic a => trivial
  | anyOverridenMethod c => trivial
  | readFromCache kind name => cases h
  | anyOf cs ih =>
    rw [containsReadFromCache, anyContains_eq_any, List.any_eq_false] at h
    rw [Holds, anyHolds_iff] at hc
    obtain ⟨c, hmem, hc⟩ := hc
    rw [CandidateTargetsFromCache.fromConstraint, CandidateTargetsFromCache.mem_foldJoin]
    exact .inr ⟨c, hmem, ih c hmem (by simpa using h c hmem) hc⟩
  | allOf cs ih =>
    rw [containsReadFromCache, anyContains_eq_any, List.any_eq_false] at h
    rw [Holds, allHold_iff] at hc
    rw [CandidateTargetsFromCache.fromConstraint, CandidateTargetsFromCache.mem_foldMeet]
    exact ⟨trivial, fun c hmem => ih c hmem (by simpa using h c hmem) (hc c hmem)⟩
  | not c => trivial

theorem spec_of_not_contains {c : Constraint A} (h : containsReadFromCache c = false) :
    (api.target value ∈ CandidateTargetsFromCache.fromConstraint cache c ∧
      matchesConstraint api c value = true) ↔ c.Holds api cache value := by
  rw [matchesConstraint_iff_holds h]
  exact and_iff_right_of_imp (mem_fromConstraint_of_holds h)

/-- **The candidates and the rest of a valid clause.** A disjunction of reads is a union, all of
    whose members match; a conjunction is taken apart; nothing else holds a read. -/
theorem spec {c : Constraint A} (hvalid : isValid c = true) :
    (api.target value ∈ CandidateTargetsFromCache.fromConstraint cache c ∧
      matchesConstraint api c value = true) ↔ c.Holds api cache value := by
  induction c using Constraint.induction with
  | constant b => exact spec_of_not_contains rfl
  | atomic a => exact spec_of_not_contains rfl
  | anyOverridenMethod c =>
    rw [isValid, Bool.not_eq_true'] at hvalid
    exact spec_of_not_contains hvalid
  | readFromCache kind name => exact and_iff_left rfl
  | anyOf cs =>
    rw [isValid, Bool.or_eq_true, Bool.not_eq_true'] at hvalid
    rcases hvalid with hreads | hnone
    · have hread : ∀ c ∈ cs, ((api.target value ∈ CandidateTargetsFromCache.fromConstraint cache c) ↔
          c.Holds api cache value) ∧ matchesConstraint api c value = true := by
        intro c hc
        have hcache := List.all_eq_true.mp hreads c hc
        cases c <;> first | exact ⟨Iff.rfl, rfl⟩ | cases hcache
      rw [CandidateTargetsFromCache.fromConstraint, CandidateTargetsFromCache.mem_foldJoin,
        matchesConstraint, matchesAny_eq_any, List.any_eq_true, Holds, anyHolds_iff]
      constructor
      · rintro ⟨hmem | ⟨c, hc, hmem⟩, -⟩
        · exact absurd hmem CandidateTargetsFromCache.not_mem_bottom
        · exact ⟨c, hc, (hread c hc).1.mp hmem⟩
      · rintro ⟨c, hc, hholds⟩
        exact ⟨.inr ⟨c, hc, (hread c hc).1.mpr hholds⟩, c, hc, (hread c hc).2⟩
    · exact spec_of_not_contains hnone
  | allOf cs ih =>
    rw [isValid, allValid_eq_all, List.all_eq_true] at hvalid
    rw [CandidateTargetsFromCache.fromConstraint, CandidateTargetsFromCache.mem_foldMeet,
      matchesConstraint, matchesAll_eq_all, List.all_eq_true, Holds, allHold_iff]
    have hc : ∀ c ∈ cs, (api.target value ∈ CandidateTargetsFromCache.fromConstraint cache c ∧
        matchesConstraint api c value = true) ↔ c.Holds api cache value :=
      fun c hc => ih c hc (hvalid c hc)
    constructor
    · rintro ⟨⟨-, hmem⟩, hmatches⟩ c h
      exact (hc c h).mp ⟨hmem c h, hmatches c h⟩
    · intro h
      exact ⟨⟨trivial, fun c hmem => ((hc c hmem).mpr (h c hmem)).1⟩,
        fun c hmem => ((hc c hmem).mpr (h c hmem)).2⟩
  | not c =>
    rw [isValid, Bool.not_eq_true'] at hvalid
    exact spec_of_not_contains hvalid

end ModelQuery.Constraint

/-- **A query that reads the cache.** Its targets are computed, and those of them that match the
    clause are the targets of which the clause holds. -/
theorem CandidateTargetsFromCache.targetsOfQuery_spec (modelQueryName : String)
    (clause : List (Constraint A)) (hvalid : (checkInvalidReadFromCache clause).isSome)
    (hread : containsReadFromCache (allOf clause) = true) :
    ∃ targets, targetsOfQuery modelQueryName clause cache = .ok targets ∧
      ∀ value, (api.target value ∈ targets ∧ clause.all (matchesConstraint api · value) = true) ↔
        ∀ c ∈ clause, c.Holds api cache value := by
  have hclause : isValid (allOf clause) = true := by
    rw [isValid, allValid_eq_all]
    by_contra h
    simp [checkInvalidReadFromCache, h] at hvalid
  have htop : fromConstraint cache (allOf clause) ≠ top := fromConstraint_ne_top hclause hread
  rcases h : fromConstraint cache (allOf clause) with _ | candidates
  · exact absurd h htop
  · refine ⟨candidates.elements, by rw [targetsOfQuery, h], fun value => ?_⟩
    have hspec : (api.target value ∈ fromConstraint cache (allOf clause) ∧
        matchesConstraint api (allOf clause) value = true) ↔ (allOf clause).Holds api cache value :=
      ModelQuery.Constraint.spec hclause
    rw [h, matchesConstraint, matchesAll_eq_all, Holds, allHold_iff] at hspec
    exact hspec

namespace ModelQuery

/-- Two entries of one kind, on targets that are numbers. -/
def entries : ReadWriteCache ℕ :=
  .singleton "thrift" ((SortedMap.singleton "a" (.singleton 1)).add "b" (.ofList [2, 3]))

def numbers : Modelable ℕ ℕ ℕ :=
  ⟨id, fun n value => decide (value = n), fun _ => false, fun _ => [], id⟩

def readsButThree : List (Constraint ℕ) :=
  [anyOf [readFromCache "thrift" "a", readFromCache "thrift" "b"], .not (atomic 3)]

end ModelQuery

theorem CandidateTargetsFromCache.targetsOfQuery_entries :
    ∃ targets, targetsOfQuery "query" readsButThree entries = .ok targets ∧
      ∀ value, (numbers.target value ∈ targets ∧
          readsButThree.all (matchesConstraint numbers · value) = true) ↔
        ∀ c ∈ readsButThree, c.Holds numbers entries value :=
  targetsOfQuery_spec numbers entries "query" readsButThree rfl rfl

end Pysa
