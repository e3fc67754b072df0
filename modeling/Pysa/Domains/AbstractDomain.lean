/-
  Subject: ABSTRACT DOMAINS (`abstractDomainCore.ml`): what a composed domain asks of its parts.

  * `AbstractDomain` -- the operations of the signature `S` that other domains call;
  * `Lawful` -- what they promise: `lessOrEqual` is a preorder with `join` its least upper bound,
    `isBottom` is its least class, `widen` is an upper bound that stays at bottom, and
    `subtract a from = b` has `b ≤ from ≤ b ⊔ a`.
-/
import Pysa.Lib.SortedMap

namespace Pysa

universe u v w

/-- The operations of a domain. The order of the arguments is the source's. -/
structure AbstractDomain (T : Type u) where
  bottom : T
  isBottom : T → Bool
  join : T → T → T
  meet : T → T → T
  lessOrEqual : T → T → Bool
  widen (iteration : ℕ) (prev next : T) : T
  /-- `subtract a ~from = b`, such that `b <= from` and `from <= b |_| a`. -/
  subtract (toRemove source : T) : T

namespace AbstractDomain

variable {T : Type u}

structure Lawful (D : AbstractDomain T) : Prop where
  refl : ∀ a, D.lessOrEqual a a = true
  trans : ∀ {a b c}, D.lessOrEqual a b = true → D.lessOrEqual b c = true →
    D.lessOrEqual a c = true
  bottom_le : ∀ a, D.lessOrEqual D.bottom a = true
  isBottom_iff : ∀ a, D.isBottom a = true ↔ D.lessOrEqual a D.bottom = true
  le_join_left : ∀ a b, D.lessOrEqual a (D.join a b) = true
  le_join_right : ∀ a b, D.lessOrEqual b (D.join a b) = true
  join_le : ∀ {a b c}, D.lessOrEqual a c = true → D.lessOrEqual b c = true →
    D.lessOrEqual (D.join a b) c = true
  le_widen_left : ∀ iteration prev next, D.lessOrEqual prev (D.widen iteration prev next) = true
  le_widen_right : ∀ iteration prev next, D.lessOrEqual next (D.widen iteration prev next) = true
  widen_bottom : ∀ iteration prev next, D.isBottom prev = true → D.isBottom next = true →
    D.isBottom (D.widen iteration prev next) = true
  subtract_le : ∀ toRemove source, D.lessOrEqual (D.subtract toRemove source) source = true
  le_join_subtract : ∀ toRemove source,
    D.lessOrEqual source (D.join (D.subtract toRemove source) toRemove) = true

namespace Lawful

variable {D : AbstractDomain T} {a b : T}

theorem isBottom_bottom (h : D.Lawful) : D.isBottom D.bottom = true :=
  (h.isBottom_iff _).mpr (h.refl _)

theorem isBottom_of_le (h : D.Lawful) (hle : D.lessOrEqual a b = true)
    (hb : D.isBottom b = true) : D.isBottom a = true :=
  (h.isBottom_iff a).mpr (h.trans hle ((h.isBottom_iff b).mp hb))

theorem le_of_isBottom (h : D.Lawful) (ha : D.isBottom a = true) : D.lessOrEqual a b = true :=
  h.trans ((h.isBottom_iff a).mp ha) (h.bottom_le b)

theorem isBottom_join (h : D.Lawful) :
    D.isBottom (D.join a b) = true ↔ D.isBottom a = true ∧ D.isBottom b = true := by
  constructor
  · intro hjoin
    exact ⟨h.isBottom_of_le (h.le_join_left a b) hjoin, h.isBottom_of_le (h.le_join_right a b) hjoin⟩
  · rintro ⟨ha, hb⟩
    exact (h.isBottom_iff _).mpr (h.join_le (h.le_of_isBottom ha) (h.le_of_isBottom hb))

/-- What a subtraction to bottom says. -/
theorem le_of_subtract_isBottom (h : D.Lawful)
    (hbottom : D.isBottom (D.subtract b a) = true) : D.lessOrEqual a b = true :=
  h.trans (h.le_join_subtract b a) (h.join_le (h.le_of_isBottom hbottom) (h.refl b))

end Lawful

/-! ## 1. The defaults of `MakeBase` -/

/-- The default `meet`: the smaller argument if determinable, otherwise the first argument. -/
def baseMeet (lessOrEqual : T → T → Bool) (a b : T) : T := if lessOrEqual b a then b else a

theorem baseMeet_preserves {P : T → Prop} (lessOrEqual : T → T → Bool) {a b : T} (ha : P a)
    (hb : P b) : P (baseMeet lessOrEqual a b) := by
  unfold baseMeet
  split
  · exact hb
  · exact ha

/-- The operations on the part `Self`. -/
inductive SelfTransform (T : Type u)
  | map (f : T → T)
  | add (d : T)
  | filter (f : T → Bool)
  | filterMap (f : T → Option T)
  | expand (f : T → List T)

/-- `Base.transform` on the part `Self`. -/
def selfTransform (D : AbstractDomain T) : SelfTransform T → T → T
  | .map f, d => f d
  | .add value, d => D.join d value
  | .filter f, d => if f d then d else D.bottom
  | .filterMap f, d => (f d).getD D.bottom
  | .expand f, d => (f d).foldl D.join D.bottom

/-- The values that the argument of the operation gives. -/
def SelfTransform.results : SelfTransform T → T → List T
  | .map f, d => [f d]
  | .add value, _ => [value]
  | .filter _, _ => []
  | .filterMap f, d => (f d).toList
  | .expand f, d => f d

/-- What bottom and the given values have and `join` keeps, every operation on `Self` keeps. -/
theorem selfTransform_preserves {D : AbstractDomain T} {P : T → Prop} (hbottom : P D.bottom)
    (hjoin : ∀ a b, P a → P b → P (D.join a b)) {op : SelfTransform T} {d : T}
    (hresults : ∀ value ∈ op.results d, P value) (hd : P d) : P (D.selfTransform op d) := by
  cases op with
  | map f => exact hresults _ List.mem_cons_self
  | add value => exact hjoin d value hd (hresults _ List.mem_cons_self)
  | filter f =>
    rw [selfTransform]
    split
    · exact hd
    · exact hbottom
  | filterMap f =>
    rw [selfTransform]
    cases hf : f d with
    | none => exact hbottom
    | some value => exact hresults value (Option.mem_toList.mpr hf)
  | expand f =>
    have hvalues : ∀ value ∈ f d, P value := hresults
    rw [selfTransform]
    generalize f d = values at hvalues
    generalize D.bottom = acc at hbottom ⊢
    induction values generalizing acc with
    | nil => exact hbottom
    | cons value rest ih =>
      rw [List.foldl_cons]
      refine ih (fun v hv => hvalues v (List.mem_cons_of_mem _ hv)) _ ?_
      exact hjoin acc value hbottom (hvalues value List.mem_cons_self)

/-! ## 2. Partitions -/

variable {β : Type v} {κ : Type w} [LinearOrder κ]

/-- Files one part of a value under its key, if it has one. -/
def fileUnder (insert : β → Option T → T) (f : β → Option κ) (result : SortedMap κ T) (part : β) :
    SortedMap κ T :=
  match f part with
  | none => result
  | some key => result.update key fun cls => some (insert part cls)

/-- The classes of a list of parts, filed in its order. -/
def fileAll (insert : β → Option T → T) (f : β → Option κ) (parts : List β) : SortedMap κ T :=
  parts.foldl (fileUnder insert f) .empty

/-- A class is built from the parts filed under its key, in their order. -/
theorem find?_fileAll (insert : β → Option T → T) (f : β → Option κ) (parts : List β) (key : κ) :
    (fileAll insert f parts).find? key =
      parts.foldl (fun cls part => if f part = some key then some (insert part cls) else cls)
        none := by
  have hfold (result : SortedMap κ T) : (parts.foldl (fileUnder insert f) result).find? key =
      parts.foldl (fun cls part => if f part = some key then some (insert part cls) else cls)
        (result.find? key) := by
    induction parts generalizing result with
    | nil => rfl
    | cons part rest ih =>
      rw [List.foldl_cons, List.foldl_cons, ih]
      congr 1
      unfold fileUnder
      cases hf : f part with
      | none => rfl
      | some key' =>
        dsimp only
        rw [SortedMap.find?_update]
        by_cases hkey : key = key'
        · rw [if_pos hkey, if_pos (congrArg some hkey.symm), hkey]
        · rw [if_neg hkey, if_neg fun heq => hkey (Option.some.inj heq).symm]
  exact (hfold .empty).trans (by rw [SortedMap.find?_empty])

/-- **The meaning of a class is that of its parts**: `M` is the meaning of a value with the
    invariant `I`, and `m` that of a part. -/
theorem fileAll_spec {X : Type*} {I : T → Prop} {M : T → X → Prop} {m : β → X → Prop}
    {insert : β → Option T → T} {f : β → Option κ} {parts : List β}
    (hnone : ∀ part ∈ parts, I (insert part none) ∧ ∀ x, M (insert part none) x ↔ m part x)
    (hsome : ∀ part ∈ parts, ∀ cls, I cls → I (insert part (some cls)) ∧
      ∀ x, M (insert part (some cls)) x ↔ M cls x ∨ m part x) (key : κ) :
    (∀ cls, (fileAll insert f parts).find? key = some cls →
      I cls ∧ ∀ x, M cls x ↔ ∃ part ∈ parts, f part = some key ∧ m part x) ∧
    ((fileAll insert f parts).find? key = none → ∀ part ∈ parts, f part ≠ some key) := by
  have hfold (old : Option T) (hold : ∀ cls, old = some cls → I cls) :
      let result :=
        parts.foldl (fun cls part => if f part = some key then some (insert part cls) else cls) old
      (∀ cls, result = some cls → I cls ∧ ∀ x, M cls x ↔
        (∃ cls, old = some cls ∧ M cls x) ∨ ∃ part ∈ parts, f part = some key ∧ m part x) ∧
      (result = none → old = none ∧ ∀ part ∈ parts, f part ≠ some key) := by
    induction parts generalizing old with
    | nil =>
      refine ⟨fun cls hcls => ⟨hold cls hcls, fun x => ?_⟩, fun h => ⟨h, fun _ hpart => absurd hpart List.not_mem_nil⟩⟩
      have hcls : old = some cls := hcls
      simp [hcls]
    | cons part rest ih =>
      have ih := ih (fun p hp => hnone p (List.mem_cons_of_mem _ hp))
        (fun p hp => hsome p (List.mem_cons_of_mem _ hp))
      intro result
      simp only [List.exists_mem_cons_iff, List.forall_mem_cons]
      by_cases hf : f part = some key
      · -- the class takes the part
        have hinsert : I (insert part old) ∧ ∀ x, M (insert part old) x ↔
            (∃ cls, old = some cls ∧ M cls x) ∨ m part x := by
          cases old with
          | none => exact ⟨(hnone part List.mem_cons_self).1, fun x => by
              simp [(hnone part List.mem_cons_self).2 x]⟩
          | some cls =>
            obtain ⟨hI, hM⟩ := hsome part List.mem_cons_self cls (hold cls rfl)
            exact ⟨hI, fun x => by simp [hM x]⟩
        obtain ⟨ihsome, ihnone⟩ := ih (some (insert part old)) fun cls hcls =>
          Option.some.inj hcls ▸ hinsert.1
        have hresult : result = rest.foldl
            (fun cls part => if f part = some key then some (insert part cls) else cls)
            (some (insert part old)) := congrArg (rest.foldl _) (if_pos hf)
        rw [hresult]
        refine ⟨fun cls hcls => ⟨(ihsome cls hcls).1, fun x => ?_⟩, fun h => ?_⟩
        · rw [(ihsome cls hcls).2 x]
          simp [hinsert.2 x, hf, or_assoc]
        · exact absurd (ihnone h).1 (Option.some_ne_none _)
      · obtain ⟨ihsome, ihnone⟩ := ih old hold
        have hresult : result = rest.foldl
            (fun cls part => if f part = some key then some (insert part cls) else cls) old :=
          congrArg (rest.foldl _) (if_neg hf)
        rw [hresult]
        refine ⟨fun cls hcls => ⟨(ihsome cls hcls).1, fun x => ?_⟩, fun h => ?_⟩
        · rw [(ihsome cls hcls).2 x]
          simp [hf]
        · exact ⟨(ihnone h).1, hf, (ihnone h).2⟩
  obtain ⟨hsome, hnone⟩ := hfold none fun _ hcls => by cases hcls
  rw [find?_fileAll]
  refine ⟨fun cls hcls => ⟨(hsome cls hcls).1, fun x => ?_⟩, fun h => (hnone h).2⟩
  rw [(hsome cls hcls).2 x]
  simp

/-- What inserting a part gives and keeps, every class has. -/
theorem fileAll_preserves {P : T → Prop} {insert : β → Option T → T} {f : β → Option κ}
    {parts : List β} (hnone : ∀ part ∈ parts, P (insert part none))
    (hsome : ∀ part ∈ parts, ∀ cls, P cls → P (insert part (some cls))) {key : κ} {cls : T}
    (hcls : (fileAll insert f parts).find? key = some cls) : P cls := by
  have hspec := fileAll_spec (X := Empty) (I := P) (M := fun _ _ => True) (m := fun _ _ => True)
    (f := f) (fun part hpart => ⟨hnone part hpart, fun x => x.elim⟩)
    (fun part hpart cls hcls => ⟨hsome part hpart cls hcls, fun x => x.elim⟩) key
  exact (hspec.1 cls hcls).1

end AbstractDomain

end Pysa
