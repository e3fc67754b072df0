/-
  Subject: THE KEYS OF EXPRESSIONS IN A DUMPED CALL GRAPH (`expressionIdentifier.ml`).

  * `jsonKey`, `fromJsonKey` -- an identifier as text and back. The key of a constant is not read;
  * `WellFormed` -- no negative position, no separator in an identifier, and an origin that `create`
    builds;
  * `fromJsonKey_jsonKey_iff` -- **a key is read back to its identifier if and only if the lists that
    the printer forgets to reverse are palindromes; distinct identifiers have distinct keys anyway**;
  * `not_roundTrip` -- `enum.auto`, as it stands in a functional enumeration.
-/
import Pysa.Ast.Origin

namespace Pysa

open Text Origin

inductive ExpressionIdentifier (Constant : Type) where
  | regular (location : Location)
  | artificialAttributeAccess (origin : Origin)
  | artificialCall (origin : Origin)
  | artificialComparisonOperator (origin : Origin)
  | artificialBinaryOperator (origin : Origin)
  | artificialUnaryOperator (origin : Origin)
  | artificialBooleanOperator (origin : Origin)
  | artificialSubscript (origin : Origin)
  | artificialWalrusOperator (origin : Origin)
  | artificialSlice (origin : Origin)
  | artificialAwait (origin : Origin)
  | identifierExpression (location : Location) (identifier : Identifier)
  | formatStringArtificial (location : Location)
  | formatStringStringify (location : Location)
  | constant (location : Location) (value : Constant)

namespace ExpressionIdentifier

variable {Constant : Type}

/-! ## 1. Keys -/

/-- The key of an expression that preprocessing made. -/
def originKey (label : String) (origin : Origin) : String :=
  "|".intercalate [origin.location.pp, label, ppKindJson origin.kind]

/-- `json_key`; `pp` prints the constants. -/
def jsonKey (pp : Constant → String) : ExpressionIdentifier Constant → String
  | regular location => location.pp
  | artificialAttributeAccess origin => originKey "artificial-attribute-access" origin
  | artificialCall origin => originKey "artificial-call" origin
  | artificialComparisonOperator origin => originKey "artificial-comparison-operator" origin
  | artificialBinaryOperator origin => originKey "artificial-binary-operator" origin
  | artificialUnaryOperator origin => originKey "artificial-unary-operator" origin
  | artificialBooleanOperator origin => originKey "artificial-boolean-operator" origin
  | artificialSubscript origin => originKey "artificial-subscript" origin
  | artificialWalrusOperator origin => originKey "artificial-walrus" origin
  | artificialSlice origin => originKey "artificial-slice" origin
  | artificialAwait origin => originKey "artificial-await" origin
  | identifierExpression location identifier =>
    "|".intercalate [location.pp, "identifier", identifier]
  | formatStringArtificial location => "|".intercalate [location.pp, "format-string-artificial"]
  | formatStringStringify location => "|".intercalate [location.pp, "format-string-stringify"]
  | constant location value => "|".intercalate [location.pp, "constant", pp value]

/-- The labels in front of an origin. -/
def originLabels : List (String × (Origin → ExpressionIdentifier Constant)) :=
  [("artificial-attribute-access", artificialAttributeAccess),
   ("artificial-call", artificialCall),
   ("artificial-comparison-operator", artificialComparisonOperator),
   ("artificial-binary-operator", artificialBinaryOperator),
   ("artificial-unary-operator", artificialUnaryOperator),
   ("artificial-boolean-operator", artificialBooleanOperator),
   ("artificial-subscript", artificialSubscript),
   ("artificial-walrus", artificialWalrusOperator),
   ("artificial-slice", artificialSlice),
   ("artificial-await", artificialAwait)]

def fromJsonKey (str : String) : Except String (ExpressionIdentifier Constant) :=
  match split '|' str with
  | [] => .error ("Invalid expression identifier: `" ++ str ++ "`")
  | locationStr :: rest => do
    let location ← Location.fromString locationStr
    match rest with
    | [] => return .regular location
    | label :: rest =>
      match originLabels.lookup label with
      | some artificial => do
        let kind ← kindFromJson ("|".intercalate rest)
        return artificial ⟨kind, location⟩
      | none =>
        match label, rest with
        | "identifier", [identifier] => return .identifierExpression location identifier
        | "format-string-artificial", [] => return .formatStringArtificial location
        | "format-string-stringify", [] => return .formatStringStringify location
        | _, _ => .error ("Invalid or unsupported expression identifier: `" ++ str ++ "`")

/-! ## 2. Well-formed identifiers -/

/-- The origin of the expression, if preprocessing made it. -/
def origin? : ExpressionIdentifier Constant → Option Origin
  | artificialAttributeAccess origin | artificialCall origin
  | artificialComparisonOperator origin | artificialBinaryOperator origin
  | artificialUnaryOperator origin | artificialBooleanOperator origin
  | artificialSubscript origin | artificialWalrusOperator origin
  | artificialSlice origin | artificialAwait origin => some origin
  | _ => none

def mapOrigin (f : Origin → Origin) : ExpressionIdentifier Constant → ExpressionIdentifier Constant
  | artificialAttributeAccess origin => artificialAttributeAccess (f origin)
  | artificialCall origin => artificialCall (f origin)
  | artificialComparisonOperator origin => artificialComparisonOperator (f origin)
  | artificialBinaryOperator origin => artificialBinaryOperator (f origin)
  | artificialUnaryOperator origin => artificialUnaryOperator (f origin)
  | artificialBooleanOperator origin => artificialBooleanOperator (f origin)
  | artificialSubscript origin => artificialSubscript (f origin)
  | artificialWalrusOperator origin => artificialWalrusOperator (f origin)
  | artificialSlice origin => artificialSlice (f origin)
  | artificialAwait origin => artificialAwait (f origin)
  | identifier => identifier

def WellFormed : ExpressionIdentifier Constant → Prop
  | regular location | formatStringArtificial location | formatStringStringify location =>
    location.NonNegative
  | identifierExpression location identifier => location.NonNegative ∧ Unseparated identifier
  | constant _ _ => False
  | identifier => ∀ origin ∈ identifier.origin?, origin.location.NonNegative ∧ origin.kind.Chain

/-- The lists that the printer forgets to reverse are palindromes. -/
def Palindromic (identifier : ExpressionIdentifier Constant) : Prop :=
  ∀ origin ∈ identifier.origin?, origin.kind.Palindromic

/-! ## 3. Reading a key -/

theorem fromJsonKey_originKey {label : String} {origin : Origin}
    {artificial : Origin → ExpressionIdentifier Constant}
    (hlabel : originLabels.lookup label = some artificial) (hbar : '|' ∉ label.toList)
    (h : origin.location.NonNegative ∧ origin.kind.Chain) :
    fromJsonKey (originKey label origin) = .ok (artificial origin.mirrored) := by
  have hsplit : split '|' (originKey label origin) =
      [origin.location.pp, label, ppKindJson origin.kind] := by
    refine split_intercalate (by simp) ?_
    simp [Location.bar_not_mem_pp h.1, hbar, bar_not_mem_ppKindJson h.2]
  rw [fromJsonKey, hsplit]
  dsimp only
  rw [Location.fromString_pp h.1]
  dsimp only [bind, Except.bind]
  rw [hlabel]
  dsimp only
  rw [String.intercalate_singleton, kindFromJson_ppKindJson h.2]
  rfl

/-- **What is read of a key.** -/
theorem fromJsonKey_jsonKey (pp : Constant → String) {identifier : ExpressionIdentifier Constant}
    (h : identifier.WellFormed) :
    fromJsonKey (jsonKey pp identifier) = .ok (identifier.mapOrigin Origin.mirrored) := by
  cases identifier with
  | constant location value => exact h.elim
  | regular location =>
    have hsplit : split '|' location.pp = [location.pp] :=
      split_of_not_mem (Location.bar_not_mem_pp h)
    show fromJsonKey location.pp = _
    rw [fromJsonKey, hsplit]
    dsimp only
    rw [Location.fromString_pp h]
    rfl
  | identifierExpression location identifier =>
    have hbar : '|' ∉ identifier.toList := h.2.free (Or.inl rfl)
    have hsplit : split '|' ("|".intercalate [location.pp, "identifier", identifier]) =
        [location.pp, "identifier", identifier] := by
      refine split_intercalate (by simp) ?_
      simp [Location.bar_not_mem_pp h.1, hbar]
    show fromJsonKey ("|".intercalate [location.pp, "identifier", identifier]) = _
    rw [fromJsonKey, hsplit]
    dsimp only
    rw [Location.fromString_pp h.1]
    rfl
  | formatStringArtificial location =>
    have hsplit : split '|' ("|".intercalate [location.pp, "format-string-artificial"]) =
        [location.pp, "format-string-artificial"] :=
      split_intercalate (by simp) (by simp [Location.bar_not_mem_pp h])
    show fromJsonKey ("|".intercalate [location.pp, "format-string-artificial"]) = _
    rw [fromJsonKey, hsplit]
    dsimp only
    rw [Location.fromString_pp h]
    rfl
  | formatStringStringify location =>
    have hsplit : split '|' ("|".intercalate [location.pp, "format-string-stringify"]) =
        [location.pp, "format-string-stringify"] :=
      split_intercalate (by simp) (by simp [Location.bar_not_mem_pp h])
    show fromJsonKey ("|".intercalate [location.pp, "format-string-stringify"]) = _
    rw [fromJsonKey, hsplit]
    dsimp only
    rw [Location.fromString_pp h]
    rfl
  | _ => exact fromJsonKey_originKey rfl (by decide) (h _ rfl)

/-! ## 4. The round trip -/

variable {identifier identifier' : ExpressionIdentifier Constant}

theorem mirrored_mirrored (identifier : ExpressionIdentifier Constant) :
    (identifier.mapOrigin Origin.mirrored).mapOrigin Origin.mirrored = identifier := by
  have horigin (origin : Origin) : origin.mirrored.mirrored = origin :=
    congrArg (Origin.mk · origin.location) origin.kind.mirrored_mirrored
  cases identifier with
  | regular | identifierExpression | formatStringArtificial | formatStringStringify
  | constant => rfl
  | _ origin => simp only [mapOrigin, horigin]

theorem mapOrigin_mirrored_eq_self_iff :
    identifier.mapOrigin Origin.mirrored = identifier ↔ identifier.Palindromic := by
  have horigin (origin : Origin) : origin.mirrored = origin ↔ origin.kind.Palindromic := by
    rw [← Kind.mirrored_eq_self_iff]
    exact ⟨congrArg Origin.kind, congrArg (Origin.mk · origin.location)⟩
  unfold Palindromic
  cases identifier with
  | regular | identifierExpression | formatStringArtificial | formatStringStringify
  | constant => simp [mapOrigin, origin?]
  | _ origin => simp [mapOrigin, origin?, horigin]

theorem jsonKey_injective {pp : Constant → String} (h : identifier.WellFormed)
    (h' : identifier'.WellFormed) (hkey : jsonKey pp identifier = jsonKey pp identifier') :
    identifier = identifier' := by
  have hread := fromJsonKey_jsonKey pp h
  rw [hkey, fromJsonKey_jsonKey pp h'] at hread
  have hmirrored := congrArg (mapOrigin Origin.mirrored) (Except.ok.inj hread)
  rw [mirrored_mirrored, mirrored_mirrored] at hmirrored
  exact hmirrored.symm

/-- **A key is read back to its identifier if and only if no printed list is turned round; distinct
    identifiers have distinct keys.** -/
theorem fromJsonKey_jsonKey_iff (pp : Constant → String)
    (identifier : ExpressionIdentifier Constant) (h : identifier.WellFormed) :
    (fromJsonKey (jsonKey pp identifier) = .ok identifier ↔ identifier.Palindromic) ∧
      ∀ identifier' : ExpressionIdentifier Constant, identifier'.WellFormed →
        jsonKey pp identifier = jsonKey pp identifier' → identifier = identifier' := by
  constructor
  · rw [fromJsonKey_jsonKey pp h, ← mapOrigin_mirrored_eq_self_iff]
    exact ⟨Except.ok.inj, congrArg Except.ok⟩
  · exact fun identifier' h' hkey => jsonKey_injective h h' hkey

def firstLine : Location := ⟨⟨1, 0⟩, ⟨1, 9⟩⟩

theorem firstLine_nonNegative : firstLine.NonNegative :=
  ⟨⟨by decide, by decide⟩, by decide, by decide⟩

/-- The attribute access `enum.auto` on the first line, with the origin that the expansion of a
    functional enumeration gives it. -/
def enumAuto (attributes : List Identifier) : ExpressionIdentifier Empty :=
  artificialAttributeAccess (Origin.create none firstLine (.functionalEnumImplicitAuto attributes))

theorem enumAuto_wellFormed {attributes : List Identifier} (hne : attributes ≠ [])
    (h : ∀ identifier ∈ attributes, Unseparated identifier) :
    (enumAuto attributes).WellFormed := by
  intro origin horigin
  obtain rfl := Option.some.inj horigin
  exact ⟨firstLine_nonNegative, chain_create ⟨hne, h⟩ (by simp)⟩

/-- A list of one name. -/
theorem fromJsonKey_jsonKey_single :
    (fromJsonKey (jsonKey Empty.elim (enumAuto ["auto"])) = .ok (enumAuto ["auto"]) ↔
      (enumAuto ["auto"]).Palindromic) ∧
    ∀ identifier' : ExpressionIdentifier Empty, identifier'.WellFormed →
      jsonKey Empty.elim (enumAuto ["auto"]) = jsonKey Empty.elim identifier' →
        enumAuto ["auto"] = identifier' :=
  fromJsonKey_jsonKey_iff Empty.elim (enumAuto ["auto"])
    (enumAuto_wellFormed (by simp) (by simp [Unseparated]))

/-- `auto.enum` is read where `enum.auto` was printed. -/
theorem not_roundTrip : (enumAuto ["auto", "enum"]).WellFormed ∧
    fromJsonKey (jsonKey Empty.elim (enumAuto ["auto", "enum"])) ≠
      .ok (enumAuto ["auto", "enum"]) := by
  have hwf : (enumAuto ["auto", "enum"]).WellFormed :=
    enumAuto_wellFormed (by simp) (by simp [Unseparated])
  refine ⟨hwf, fun hread => ?_⟩
  rw [fromJsonKey_jsonKey Empty.elim hwf] at hread
  have hpalindrome := mapOrigin_mirrored_eq_self_iff.mp (Except.ok.inj hread) _ rfl
  exact absurd hpalindrome (by simp [Origin.create, Kind.Palindromic])

end ExpressionIdentifier

end Pysa
