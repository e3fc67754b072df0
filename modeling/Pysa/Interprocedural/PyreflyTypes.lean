/-
  Subject: PACKED IDENTIFIERS (`pyreflyTypes.ml`). An integer of 63 bits holds the id of a module
    and, within it, that of a class or of a function.

  * `ClassId.encode`, `ClassId.decode`, `CallableId.encode`, `CallableId.decode`;
  * `ClassId.toNat_encode`, `CallableId.toNat_encode` -- the fields do not overlap;
  * `compareIds` -- modules are compared first;
  * `packed_identifiers` -- **what is encoded is decoded, and the ids of a module stand together**.

  A failed assertion, and a failure, is `none`.
-/
import Mathlib.Order.Compare
import Pysa.Lib.PackedBits

namespace Pysa.PyreflyTypes

open PackedBits

/-- OCaml's native integer. -/
abbrev Word := BitVec 63

def ModuleId.bitWidth : ℕ := 24

def LocalClassId.bitWidth : ℕ := 17

inductive LocalFunctionId where
  | function (funcDefIndex : Word)
  | moduleTopLevel
  | classTopLevel (localClassId : Word)
  | classField (classId fieldId : Word)
  | functionDecoratedTarget (funcDefIndex : Word)
  deriving DecidableEq

/-- Both kinds of ids are compared by module first, and then as integers. -/
def compareIds (moduleIdAsInt : Word → Word) (left right : Word) : Ordering :=
  match compare (moduleIdAsInt left).toInt (moduleIdAsInt right).toInt with
  | .eq => compare left.toInt right.toInt
  | result => result

/-! ## 1. Classes -/

namespace ClassId

def moduleIdShift : ℕ := 35

def encode (moduleId localClassId : Word) : Option Word :=
  if fits moduleId ModuleId.bitWidth then
    if fits localClassId LocalClassId.bitWidth then
      some (moduleId <<< moduleIdShift ||| localClassId)
    else none
  else none

def moduleIdAsInt (value : Word) : Word := value >>> moduleIdShift &&& mask ModuleId.bitWidth

def moduleId (value : Word) : Word := moduleIdAsInt value

def localClassId (value : Word) : Word := value &&& mask LocalClassId.bitWidth

def decode (value : Word) : Word × Word := (moduleId value, localClassId value)

def compare (left right : Word) : Ordering := compareIds moduleIdAsInt left right

def equal (left right : Word) : Bool := left == right

end ClassId

/-! ## 2. Callables -/

namespace CallableId

def tagShift : ℕ := 59

def tagBits : ℕ := 3

def moduleIdShift : ℕ := 35

def payloadBitWidth : ℕ := 35

def classFieldIdBitWidth : ℕ := payloadBitWidth - LocalClassId.bitWidth

def functionTag : Word := 0

def functionDecoratedTargetTag : Word := 1

def moduleTopLevelTag : Word := 2

def classTopLevelTag : Word := 3

def classFieldTag : Word := 4

/-- The tag and the payload of a local id. -/
def tagAndPayload : LocalFunctionId → Option (Word × Word)
  | .function funcDefIndex =>
    if fits funcDefIndex payloadBitWidth then some (functionTag, funcDefIndex) else none
  | .functionDecoratedTarget funcDefIndex =>
    if fits funcDefIndex payloadBitWidth then some (functionDecoratedTargetTag, funcDefIndex)
    else none
  | .moduleTopLevel => some (moduleTopLevelTag, 0)
  | .classTopLevel localClassId =>
    if fits localClassId LocalClassId.bitWidth then some (classTopLevelTag, localClassId) else none
  | .classField classId fieldId =>
    if fits classId LocalClassId.bitWidth then
      if fits fieldId classFieldIdBitWidth then
        some (classFieldTag, classId <<< classFieldIdBitWidth ||| fieldId)
      else none
    else none

def encode (moduleId : Word) (localFunctionId : LocalFunctionId) : Option Word :=
  if fits moduleId ModuleId.bitWidth then do
    let (tag, payload) ← tagAndPayload localFunctionId
    some (tag <<< tagShift ||| moduleId <<< moduleIdShift ||| payload)
  else none

def moduleIdAsInt (value : Word) : Word := value >>> moduleIdShift &&& mask ModuleId.bitWidth

def moduleId (value : Word) : Word := moduleIdAsInt value

def tag (value : Word) : Word := value >>> tagShift &&& mask tagBits

def localFunctionId (value : Word) : Option LocalFunctionId :=
  let payload := value &&& mask payloadBitWidth
  if tag value = functionTag then some (.function payload)
  else if tag value = functionDecoratedTargetTag then some (.functionDecoratedTarget payload)
  else if tag value = moduleTopLevelTag then some .moduleTopLevel
  else if tag value = classTopLevelTag then some (.classTopLevel payload)
  else if tag value = classFieldTag then
    some (.classField (payload >>> classFieldIdBitWidth &&& mask LocalClassId.bitWidth)
      (payload &&& mask classFieldIdBitWidth))
  else none

def decode (value : Word) : Option (Word × LocalFunctionId) := do
  let localFunctionId ← localFunctionId value
  some (moduleId value, localFunctionId)

def toDecorated (value : Word) : Option Word := do
  match ← localFunctionId value with
  | .function funcDefIndex => encode (moduleId value) (.functionDecoratedTarget funcDefIndex)
  | _ => none

def toUndecorated (value : Word) : Option Word := do
  match ← localFunctionId value with
  | .functionDecoratedTarget funcDefIndex => encode (moduleId value) (.function funcDefIndex)
  | _ => none

def compare (left right : Word) : Ordering := compareIds moduleIdAsInt left right

def equal (left right : Word) : Bool := left == right

end CallableId

/-! ## 3. What is encoded -/

/-- A word is its number. -/
theorem word_ext {a b : Word} (h : a.toNat = b.toNat) : a = b := BitVec.eq_of_toNat_eq h

theorem toInt_nonneg {a : Word} (h : a.toNat < 2 ^ 62) : 0 ≤ a.toInt := by
  rw [BitVec.toInt_eq_toNat_of_lt (by omega)]
  exact Int.natCast_nonneg _

namespace ClassId

theorem encode_isSome_iff {moduleId localClassId : Word} :
    (∃ value, encode moduleId localClassId = some value) ↔
      moduleId.toNat < 2 ^ 24 ∧ localClassId.toNat < 2 ^ 17 := by
  have hmodule : fits moduleId ModuleId.bitWidth = true ↔ _ := fits_iff (by decide)
  have hclass : fits localClassId LocalClassId.bitWidth = true ↔ _ := fits_iff (by decide)
  unfold encode
  constructor
  · rintro ⟨value, h⟩
    split at h
    case isTrue hm =>
      split at h
      case isTrue hc => exact ⟨hmodule.mp hm, hclass.mp hc⟩
      case isFalse => cases h
    case isFalse => cases h
  · rintro ⟨hm, hc⟩
    rw [if_pos (hmodule.mpr hm), if_pos (hclass.mpr hc)]
    exact ⟨_, rfl⟩

/-- **The fields of a class id do not overlap.** -/
theorem toNat_encode {moduleId localClassId value : Word}
    (h : encode moduleId localClassId = some value) :
    value.toNat = moduleId.toNat * 2 ^ 35 + localClassId.toNat := by
  obtain ⟨hm, hc⟩ := encode_isSome_iff.mp ⟨value, h⟩
  unfold encode at h
  split at h
  · split at h
    · cases h
      exact toNat_pack (show localClassId.toNat < 2 ^ 35 by omega)
        (show moduleId.toNat * 2 ^ 35 < 2 ^ 63 by omega)
    · cases h
  · cases h

theorem decode_encode {moduleId localClassId value : Word}
    (h : encode moduleId localClassId = some value) :
    0 ≤ value.toInt ∧ decode value = (moduleId, localClassId) := by
  obtain ⟨hm, hc⟩ := encode_isSome_iff.mp ⟨value, h⟩
  have hvalue := toNat_encode h
  refine ⟨toInt_nonneg (by omega), Prod.ext (word_ext ?_) (word_ext ?_)⟩
  · have hunpack : (ClassId.moduleId value).toNat = value.toNat / 2 ^ 35 % 2 ^ 24 := by
      rw [← toNat_shiftRight]
      exact toNat_and_mask (by decide) _
    show (ClassId.moduleId value).toNat = moduleId.toNat
    omega
  · have hunpack : (ClassId.localClassId value).toNat = value.toNat % 2 ^ 17 :=
      toNat_and_mask (by decide) _
    show (ClassId.localClassId value).toNat = localClassId.toNat
    omega

end ClassId

/-- The components of a local id have the asserted widths. -/
def LocalFunctionId.Fits : LocalFunctionId → Prop
  | .function funcDefIndex => funcDefIndex.toNat < 2 ^ 35
  | .moduleTopLevel => True
  | .classTopLevel localClassId => localClassId.toNat < 2 ^ 17
  | .classField classId fieldId => classId.toNat < 2 ^ 17 ∧ fieldId.toNat < 2 ^ 18
  | .functionDecoratedTarget funcDefIndex => funcDefIndex.toNat < 2 ^ 35

namespace CallableId

/-- One asserted component. -/
theorem ite_fits_eq_some {x : Word} {bits : ℕ} (hbits : bits + 1 < 63) {y : Option (Word × Word)}
    {z : Word × Word} : (if fits x bits then y else none) = some z ↔
      x.toNat < 2 ^ bits ∧ y = some z := by
  rw [← fits_iff hbits]
  split
  case isTrue h => exact ⟨fun hy => ⟨h, hy⟩, fun hy => hy.2⟩
  case isFalse h => exact iff_of_false (fun hy => by cases hy) (fun hy => h hy.1)

/-- Which local ids pass the assertions; the tag and the payload stay within their widths. -/
theorem tagAndPayload_isSome_iff {f : LocalFunctionId} :
    (∃ result, tagAndPayload f = some result) ↔ f.Fits := by
  cases f with
  | function i | functionDecoratedTarget i =>
    exact ⟨fun ⟨_, h⟩ => ((ite_fits_eq_some (by decide)).mp h).1,
      fun h => ⟨_, (ite_fits_eq_some (by decide)).mpr ⟨h, rfl⟩⟩⟩
  | moduleTopLevel => exact ⟨fun _ => trivial, fun _ => ⟨_, rfl⟩⟩
  | classTopLevel c =>
    exact ⟨fun ⟨_, h⟩ => ((ite_fits_eq_some (by decide)).mp h).1,
      fun h => ⟨_, (ite_fits_eq_some (by decide)).mpr ⟨h, rfl⟩⟩⟩
  | classField c i =>
    constructor
    · rintro ⟨_, h⟩
      obtain ⟨hc, h⟩ := (ite_fits_eq_some (by decide)).mp h
      exact ⟨hc, ((ite_fits_eq_some (by decide)).mp h).1⟩
    · exact fun h => ⟨_, (ite_fits_eq_some (by decide)).mpr
        ⟨h.1, (ite_fits_eq_some (by decide)).mpr ⟨h.2, rfl⟩⟩⟩

theorem toNat_classField {c i : Word} (hc : c.toNat < 2 ^ 17) (hi : i.toNat < 2 ^ 18) :
    (c <<< classFieldIdBitWidth ||| i).toNat = c.toNat * 2 ^ 18 + i.toNat :=
  toNat_pack hi (show c.toNat * 2 ^ 18 < 2 ^ 63 by omega)

theorem tagAndPayload_bounds {f : LocalFunctionId} {tag payload : Word}
    (h : tagAndPayload f = some (tag, payload)) : tag.toNat ≤ 4 ∧ payload.toNat < 2 ^ 35 := by
  have hfits := tagAndPayload_isSome_iff.mp ⟨_, h⟩
  cases f with
  | function i | functionDecoratedTarget i =>
    cases ((ite_fits_eq_some (by decide)).mp h).2
    exact ⟨by decide, hfits⟩
  | moduleTopLevel =>
    cases h
    exact ⟨by decide, by decide⟩
  | classTopLevel c =>
    cases ((ite_fits_eq_some (by decide)).mp h).2
    exact ⟨by decide, hfits.trans (by decide)⟩
  | classField c i =>
    obtain ⟨hc, h⟩ := (ite_fits_eq_some (by decide)).mp h
    cases ((ite_fits_eq_some (by decide)).mp h).2
    refine ⟨by decide, ?_⟩
    have ⟨hc, hi⟩ : c.toNat < 2 ^ 17 ∧ i.toNat < 2 ^ 18 := hfits
    rw [toNat_classField hc hi]
    omega

theorem encode_eq_some_iff {moduleId value : Word} {f : LocalFunctionId} :
    encode moduleId f = some value ↔ moduleId.toNat < 2 ^ 24 ∧ ∃ tag payload,
      tagAndPayload f = some (tag, payload) ∧
        value = tag <<< tagShift ||| moduleId <<< moduleIdShift ||| payload := by
  have hmodule : fits moduleId ModuleId.bitWidth = true ↔ _ := fits_iff (by decide)
  unfold encode
  rw [← show _ ↔ moduleId.toNat < 2 ^ 24 from hmodule]
  split
  case isTrue hm =>
    rw [Option.bind_eq_bind, Option.bind_eq_some_iff]
    constructor
    · rintro ⟨⟨tag, payload⟩, htag, h⟩
      cases h
      exact ⟨hm, tag, payload, htag, rfl⟩
    · rintro ⟨-, tag, payload, htag, rfl⟩
      exact ⟨_, htag, rfl⟩
  case isFalse hm => exact iff_of_false (fun h => by cases h) (fun h => hm h.1)

/-- **The fields of a callable id do not overlap.** -/
theorem toNat_value {moduleId tag payload : Word} (hmodule : moduleId.toNat < 2 ^ 24)
    (htag : tag.toNat ≤ 4) (hpayload : payload.toNat < 2 ^ 35) :
    (tag <<< tagShift ||| moduleId <<< moduleIdShift ||| payload).toNat =
      tag.toNat * 2 ^ 59 + (moduleId.toNat * 2 ^ 35 + payload.toNat) := by
  have hlow : (moduleId <<< moduleIdShift ||| payload).toNat =
      moduleId.toNat * 2 ^ 35 + payload.toNat :=
    toNat_pack hpayload (show moduleId.toNat * 2 ^ 35 < 2 ^ 63 by omega)
  rw [BitVec.or_assoc, ← hlow]
  exact toNat_pack (show (moduleId <<< moduleIdShift ||| payload).toNat < 2 ^ 59 by omega)
    (show tag.toNat * 2 ^ 59 < 2 ^ 63 by omega)

/-- The fields are found again. -/
theorem unpack {moduleId tag payload value : Word} (hmodule : moduleId.toNat < 2 ^ 24)
    (htag : tag.toNat ≤ 4) (hpayload : payload.toNat < 2 ^ 35)
    (h : value = tag <<< tagShift ||| moduleId <<< moduleIdShift ||| payload) :
    0 ≤ value.toInt ∧ CallableId.moduleId value = moduleId ∧ CallableId.tag value = tag ∧
      value &&& mask payloadBitWidth = payload := by
  have hvalue := toNat_value hmodule htag hpayload
  rw [← h] at hvalue
  have hmoduleId : (CallableId.moduleId value).toNat = value.toNat / 2 ^ 35 % 2 ^ 24 := by
    rw [← toNat_shiftRight]
    exact toNat_and_mask (by decide) _
  have htag' : (CallableId.tag value).toNat = value.toNat / 2 ^ 59 % 2 ^ 3 := by
    rw [← toNat_shiftRight]
    exact toNat_and_mask (by decide) _
  have hpayload' : (value &&& mask payloadBitWidth).toNat = value.toNat % 2 ^ 35 :=
    toNat_and_mask (by decide) _
  exact ⟨toInt_nonneg (by omega), word_ext (by omega), word_ext (by omega), word_ext (by omega)⟩

/-- A local id is found again from its tag and its payload. -/
theorem localFunctionId_eq {f : LocalFunctionId} {tag payload value : Word}
    (hf : tagAndPayload f = some (tag, payload)) (htag : CallableId.tag value = tag)
    (hpayload : value &&& mask payloadBitWidth = payload) :
    localFunctionId value = some f := by
  have hfits := tagAndPayload_isSome_iff.mp ⟨_, hf⟩
  unfold localFunctionId
  rw [htag, hpayload]
  cases f with
  | function i | functionDecoratedTarget i | classTopLevel i =>
    cases ((ite_fits_eq_some (by decide)).mp hf).2
    rfl
  | moduleTopLevel =>
    cases hf
    rfl
  | classField c i =>
    obtain ⟨-, hf⟩ := (ite_fits_eq_some (by decide)).mp hf
    cases ((ite_fits_eq_some (by decide)).mp hf).2
    have ⟨hc, hi⟩ : c.toNat < 2 ^ 17 ∧ i.toNat < 2 ^ 18 := hfits
    have hpack := toNat_classField hc hi
    have hclass : (c <<< classFieldIdBitWidth ||| i) >>> classFieldIdBitWidth &&&
        mask LocalClassId.bitWidth = c := by
      refine word_ext ?_
      rw [toNat_and_mask (by decide), toNat_shiftRight, hpack]
      show (c.toNat * 2 ^ 18 + i.toNat) / 2 ^ 18 % 2 ^ 17 = c.toNat
      omega
    have hfield : (c <<< classFieldIdBitWidth ||| i) &&& mask classFieldIdBitWidth = i := by
      refine word_ext ?_
      rw [toNat_and_mask (by decide), hpack]
      show (c.toNat * 2 ^ 18 + i.toNat) % 2 ^ 18 = i.toNat
      omega
    dsimp only
    rw [hclass, hfield]
    rfl

theorem decode_encode {moduleId value : Word} {f : LocalFunctionId}
    (h : encode moduleId f = some value) :
    0 ≤ value.toInt ∧ decode value = some (moduleId, f) := by
  obtain ⟨hmodule, tag, payload, hf, heq⟩ := encode_eq_some_iff.mp h
  obtain ⟨htag, hpayload⟩ := tagAndPayload_bounds hf
  obtain ⟨hnonneg, hm, ht, hp⟩ := unpack hmodule htag hpayload heq
  refine ⟨hnonneg, ?_⟩
  unfold decode
  rw [localFunctionId_eq hf ht hp, hm]
  rfl

theorem encode_isSome_iff {moduleId : Word} {f : LocalFunctionId} :
    (∃ value, encode moduleId f = some value) ↔ moduleId.toNat < 2 ^ 24 ∧ f.Fits := by
  rw [← tagAndPayload_isSome_iff]
  constructor
  · rintro ⟨value, h⟩
    obtain ⟨hmodule, tag, payload, hf, -⟩ := encode_eq_some_iff.mp h
    exact ⟨hmodule, _, hf⟩
  · rintro ⟨hmodule, ⟨tag, payload⟩, hf⟩
    exact ⟨_, encode_eq_some_iff.mpr ⟨hmodule, tag, payload, hf, rfl⟩⟩

theorem decode_eq_some_iff {value moduleId : Word} {f : LocalFunctionId} :
    decode value = some (moduleId, f) ↔
      CallableId.moduleId value = moduleId ∧ localFunctionId value = some f := by
  unfold decode
  cases localFunctionId value with
  | none => simp
  | some f' => simp

/-- A function, its decorated target, and back. -/
theorem toUndecorated_toDecorated {moduleId value funcDefIndex : Word}
    (h : encode moduleId (.function funcDefIndex) = some value) :
    ∃ decorated, toDecorated value = some decorated ∧ toUndecorated decorated = some value := by
  obtain ⟨hmodule, hlocal⟩ := decode_eq_some_iff.mp (decode_encode h).2
  have hfits := encode_isSome_iff.mp ⟨value, h⟩
  obtain ⟨decorated, hdecorated⟩ :
      ∃ decorated, encode moduleId (.functionDecoratedTarget funcDefIndex) = some decorated :=
    encode_isSome_iff.mpr hfits
  obtain ⟨hmodule', hlocal'⟩ := decode_eq_some_iff.mp (decode_encode hdecorated).2
  refine ⟨decorated, ?_, ?_⟩
  · unfold toDecorated
    rw [hlocal, hmodule]
    exact hdecorated
  · unfold toUndecorated
    rw [hlocal', hmodule']
    exact h

end CallableId

/-! ## 4. The order -/

section Order

variable (moduleIdAsInt : Word → Word)

/-- The three outcomes of a comparison. -/
theorem compareIds_cases (a b : Word) :
    compareIds moduleIdAsInt a b = .lt ∧ ((moduleIdAsInt a).toInt < (moduleIdAsInt b).toInt ∨
        (moduleIdAsInt a).toInt = (moduleIdAsInt b).toInt ∧ a.toInt < b.toInt) ∨
      compareIds moduleIdAsInt a b = .eq ∧ a = b ∨
      compareIds moduleIdAsInt a b = .gt ∧ ((moduleIdAsInt b).toInt < (moduleIdAsInt a).toInt ∨
        (moduleIdAsInt a).toInt = (moduleIdAsInt b).toInt ∧ b.toInt < a.toInt) := by
  unfold compareIds
  rcases lt_trichotomy (moduleIdAsInt a).toInt (moduleIdAsInt b).toInt with h | h | h
  · rw [compare_lt_iff_lt.mpr h]
    exact Or.inl ⟨rfl, Or.inl h⟩
  · rw [compare_eq_iff_eq.mpr h]
    rcases lt_trichotomy a.toInt b.toInt with h' | h' | h'
    · exact Or.inl ⟨compare_lt_iff_lt.mpr h', Or.inr ⟨h, h'⟩⟩
    · exact Or.inr (Or.inl ⟨compare_eq_iff_eq.mpr h', BitVec.eq_of_toInt_eq h'⟩)
    · exact Or.inr (Or.inr ⟨compare_gt_iff_gt.mpr h', Or.inr ⟨h, h'⟩⟩)
  · rw [compare_gt_iff_gt.mpr h]
    exact Or.inr (Or.inr ⟨rfl, Or.inl h⟩)

theorem compareIds_self (a : Word) : compareIds moduleIdAsInt a a = .eq := by
  rcases compareIds_cases moduleIdAsInt a a with ⟨-, h⟩ | ⟨h, -⟩ | ⟨-, h⟩
  · omega
  · exact h
  · omega

theorem compareIds_eq_iff {a b : Word} : compareIds moduleIdAsInt a b = .eq ↔ a = b := by
  constructor
  · intro h
    rcases compareIds_cases moduleIdAsInt a b with ⟨h', -⟩ | ⟨-, heq⟩ | ⟨h', -⟩
    · rw [h] at h'
      cases h'
    · exact heq
    · rw [h] at h'
      cases h'
  · rintro rfl
    exact compareIds_self moduleIdAsInt a

/-- When an id is not after another. -/
theorem compareIds_isLE_iff {a b : Word} : (compareIds moduleIdAsInt a b).isLE ↔
    (moduleIdAsInt a).toInt < (moduleIdAsInt b).toInt ∨
      (moduleIdAsInt a).toInt = (moduleIdAsInt b).toInt ∧ a.toInt ≤ b.toInt := by
  rcases compareIds_cases moduleIdAsInt a b with ⟨h, hlt⟩ | ⟨h, rfl⟩ | ⟨h, hlt⟩ <;> rw [h]
  · exact iff_of_true rfl (hlt.imp_right fun h => ⟨h.1, h.2.le⟩)
  · exact iff_of_true rfl (Or.inr ⟨rfl, le_rfl⟩)
  · exact iff_of_false (by decide) (by omega)

/-- A total order that agrees with equality. -/
structure TotalOrder (compare : Word → Word → Ordering) (equal : Word → Word → Bool) : Prop where
  equal : ∀ a b, compare a b = .eq ↔ equal a b = true
  swap : ∀ a b, (compare a b).swap = compare b a
  trans : ∀ a b c, (compare a b).isLE → (compare b c).isLE → (compare a c).isLE

theorem compareIds_totalOrder : TotalOrder (compareIds moduleIdAsInt) (· == ·) where
  equal a b := by rw [compareIds_eq_iff, beq_iff_eq]
  swap a b := by
    rcases compareIds_cases moduleIdAsInt a b with ⟨h, hlt⟩ | ⟨h, rfl⟩ | ⟨h, hlt⟩ <;> rw [h]
    · rcases compareIds_cases moduleIdAsInt b a with ⟨-, hlt'⟩ | ⟨-, rfl⟩ | ⟨h', -⟩
      · omega
      · omega
      · rw [h']
        rfl
    · rfl
    · rcases compareIds_cases moduleIdAsInt b a with ⟨h', -⟩ | ⟨-, rfl⟩ | ⟨-, hlt'⟩
      · rw [h']
        rfl
      · omega
      · omega
  trans a b c hab hbc := by
    rw [compareIds_isLE_iff] at hab hbc ⊢
    omega

/-- Between two ids of a module there are only ids of the module. -/
theorem compareIds_contiguous {a b c : Word} (hab : (compareIds moduleIdAsInt a b).isLE)
    (hbc : (compareIds moduleIdAsInt b c).isLE) (hac : moduleIdAsInt a = moduleIdAsInt c) :
    moduleIdAsInt b = moduleIdAsInt a := by
  rw [compareIds_isLE_iff] at hab hbc
  rw [← hac] at hbc
  exact BitVec.eq_of_toInt_eq (by omega)

end Order

/-- **Packed identifiers**: what fits is encoded as a non-negative integer and decoded again, so
    different ids have different integers; and the order puts the ids of a module together. -/
theorem packed_identifiers :
    (∀ moduleId f, moduleId.toNat < 2 ^ 24 → f.Fits → ∃ value,
      CallableId.encode moduleId f = some value ∧ 0 ≤ value.toInt ∧
        CallableId.decode value = some (moduleId, f)) ∧
    (∀ moduleId moduleId' f f' value, CallableId.encode moduleId f = some value →
      CallableId.encode moduleId' f' = some value → moduleId = moduleId' ∧ f = f') ∧
    (∀ moduleId funcDefIndex value,
      CallableId.encode moduleId (.function funcDefIndex) = some value →
      ∃ decorated, CallableId.toDecorated value = some decorated ∧
        CallableId.toUndecorated decorated = some value) ∧
    (∀ moduleId localClassId, moduleId.toNat < 2 ^ 24 → localClassId.toNat < 2 ^ 17 → ∃ value,
      ClassId.encode moduleId localClassId = some value ∧ 0 ≤ value.toInt ∧
        ClassId.decode value = (moduleId, localClassId)) ∧
    (∀ moduleId moduleId' localClassId localClassId' value,
      ClassId.encode moduleId localClassId = some value →
      ClassId.encode moduleId' localClassId' = some value →
        moduleId = moduleId' ∧ localClassId = localClassId') ∧
    (TotalOrder CallableId.compare CallableId.equal ∧ TotalOrder ClassId.compare ClassId.equal) ∧
    (∀ a b c, (CallableId.compare a b).isLE → (CallableId.compare b c).isLE →
      CallableId.moduleId a = CallableId.moduleId c →
      CallableId.moduleId b = CallableId.moduleId a) ∧
    ∀ a b c, (ClassId.compare a b).isLE → (ClassId.compare b c).isLE →
      ClassId.moduleId a = ClassId.moduleId c → ClassId.moduleId b = ClassId.moduleId a := by
  refine ⟨fun moduleId f hmodule hf => ?_, fun moduleId moduleId' f f' value h h' => ?_,
    fun _ _ _ => CallableId.toUndecorated_toDecorated, fun moduleId localClassId hmodule hclass => ?_,
    fun moduleId moduleId' localClassId localClassId' value h h' => ?_,
    ⟨compareIds_totalOrder _, compareIds_totalOrder _⟩, fun _ _ _ => compareIds_contiguous _,
    fun _ _ _ => compareIds_contiguous _⟩
  · obtain ⟨value, h⟩ := CallableId.encode_isSome_iff.mpr ⟨hmodule, hf⟩
    exact ⟨value, h, CallableId.decode_encode h⟩
  · have heq := (CallableId.decode_encode h).2.symm.trans (CallableId.decode_encode h').2
    exact Prod.mk.inj (Option.some.inj heq)
  · obtain ⟨value, h⟩ := ClassId.encode_isSome_iff.mpr ⟨hmodule, hclass⟩
    exact ⟨value, h, ClassId.decode_encode h⟩
  · have heq := (ClassId.decode_encode h).2.symm.trans (ClassId.decode_encode h').2
    exact Prod.mk.inj heq

/-- The largest module id, and the largest field of its largest class. -/
theorem packed_identifiers_largest : ∃ value,
    CallableId.encode (mask 24) (.classField (mask 17) (mask 18)) = some value ∧ 0 ≤ value.toInt ∧
      CallableId.decode value = some (mask 24, .classField (mask 17) (mask 18)) :=
  packed_identifiers.1 (mask 24) (.classField (mask 17) (mask 18)) (by decide)
    ⟨by decide, by decide⟩

end Pysa.PyreflyTypes
