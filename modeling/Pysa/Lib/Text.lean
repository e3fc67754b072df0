/-
  Subject: NUMBERS AND LISTS AS TEXT.

  * `Text.split` -- the parts between the separators; it takes apart what `String.intercalate` puts
    together, if no part has the separator in it;
  * `Text.intOfString` -- a number of a given width from its text: a sign, a base, digits with
    underscores between them;
  * `Text.intOfString_showInt` -- the decimal text of a number gives the number back.
-/
import Mathlib.Algebra.Order.Ring.Int
import Mathlib.Data.List.Basic

namespace Pysa.Text

/-! ## 1. Lists -/

def split (separator : Char) (text : String) : List String :=
  (text.toList.splitOn separator).map String.ofList

theorem split_intercalate {separator : Char} {parts : List String} (hparts : parts ≠ [])
    (h : ∀ part ∈ parts, separator ∉ part.toList) :
    split separator ((String.singleton separator).intercalate parts) = parts := by
  have hsplit : ([separator].intercalate (parts.map String.toList)).splitOn separator =
      parts.map String.toList := by
    refine List.splitOn_intercalate separator ?_ (by simpa using hparts)
    intro l hl
    obtain ⟨part, hpart, rfl⟩ := List.mem_map.mp hl
    exact h part hpart
  have hid : String.ofList ∘ String.toList = id := funext fun _ => String.ofList_toList
  rw [split, String.toList_intercalate, String.toList_singleton, hsplit, List.map_map, hid,
    List.map_id]

theorem split_of_not_mem {separator : Char} {text : String} (h : separator ∉ text.toList) :
    split separator text = [text] := by
  have hsplit : split separator ((String.singleton separator).intercalate [text]) = [text] :=
    split_intercalate (by simp) (by simpa)
  rwa [String.intercalate_singleton] at hsplit

theorem split_append {separator : Char} {left right : String} (hleft : separator ∉ left.toList)
    (hright : separator ∉ right.toList) :
    split separator (left ++ String.singleton separator ++ right) = [left, right] := by
  have hsplit : split separator ((String.singleton separator).intercalate [left, right]) =
      [left, right] :=
    split_intercalate (by simp) (by simp [hleft, hright])
  rwa [String.intercalate_cons_cons, String.intercalate_singleton] at hsplit

/-- A character of the whole is one of a part, or the separator. -/
theorem mem_intercalate {separator : String} {parts : List String} {c : Char}
    (h : c ∈ (separator.intercalate parts).toList) :
    c ∈ separator.toList ∨ ∃ part ∈ parts, c ∈ part.toList := by
  induction parts with
  | nil => cases h
  | cons part rest ih =>
    cases rest with
    | nil =>
      rw [String.intercalate_singleton] at h
      exact Or.inr ⟨part, List.mem_cons_self, h⟩
    | cons next rest =>
      rw [String.intercalate_cons_cons, String.toList_append, String.toList_append,
        List.mem_append, List.mem_append] at h
      rcases h with (h | h) | h
      · exact Or.inr ⟨part, List.mem_cons_self, h⟩
      · exact Or.inl h
      · rcases ih h with h | ⟨other, hother, h⟩
        · exact Or.inl h
        · exact Or.inr ⟨other, List.mem_cons_of_mem _ hother, h⟩

/-! ## 2. Numbers -/

def digitValue (c : Char) : Option ℕ :=
  if '0' ≤ c ∧ c ≤ '9' then some (c.toNat - '0'.toNat)
  else if 'A' ≤ c ∧ c ≤ 'F' then some (c.toNat - 'A'.toNat + 10)
  else if 'a' ≤ c ∧ c ≤ 'f' then some (c.toNat - 'a'.toNat + 10)
  else none

/-- The digits behind a value; underscores between them count for nothing. -/
def digitsValue (base : ℕ) : ℕ → List Char → Option ℕ
  | value, [] => some value
  | value, c :: rest =>
    if c = '_' then digitsValue base value rest
    else do
      let digit ← digitValue c
      guard (digit < base)
      digitsValue base (base * value + digit) rest

def splitSign : List Char → Bool × List Char
  | '-' :: rest => (true, rest)
  | '+' :: rest => (false, rest)
  | text => (false, text)

/-- The base, whether the number is signed, and the digits. -/
def splitBase : List Char → ℕ × Bool × List Char
  | '0' :: c :: rest =>
    if c = 'x' ∨ c = 'X' then (16, false, rest)
    else if c = 'o' ∨ c = 'O' then (8, false, rest)
    else if c = 'b' ∨ c = 'B' then (2, false, rest)
    else if c = 'u' ∨ c = 'U' then (10, false, rest)
    else (10, true, '0' :: c :: rest)
  | text => (10, true, text)

/-- `int_of_string` for integers of `w` bits. -/
def intOfString (w : ℕ) (text : String) : Option (BitVec w) := do
  let (negative, text) := splitSign text.toList
  let (base, signed, digits) := splitBase text
  guard (digits ≠ [] ∧ digits.head? ≠ some '_')
  let value ← digitsValue base 0 digits
  guard (value < if signed then (if negative then 2 ^ (w - 1) + 1 else 2 ^ (w - 1)) else 2 ^ w)
  return BitVec.ofInt w (if negative then -value else value)

/-- The decimal text. -/
def showInt {w : ℕ} (x : BitVec w) : String := toString x.toInt

theorem digitValue_of_isDigit {c : Char} (h : c.isDigit) :
    digitValue c = some (c.toNat - '0'.toNat) ∧ c.toNat - '0'.toNat < 10 := by
  obtain ⟨hlo, hhi⟩ := Char.isDigit_iff_toNat.mp h
  have hhi' : c.toNat ≤ 57 := hhi
  have hzero : '0'.toNat = 48 := rfl
  exact ⟨if_pos ⟨Char.le_def.mpr (UInt32.le_iff_toNat_le.mpr hlo),
    Char.le_def.mpr (UInt32.le_iff_toNat_le.mpr hhi)⟩, by omega⟩

theorem digitsValue_of_isDigit {digits : List Char} (h : ∀ c ∈ digits, c.isDigit) (value : ℕ) :
    digitsValue 10 value digits = some (Nat.ofDigitChars 10 digits value) := by
  induction digits generalizing value with
  | nil => rfl
  | cons c rest ih =>
    have hc : c.isDigit := h c List.mem_cons_self
    obtain ⟨hvalue, hlt⟩ := digitValue_of_isDigit hc
    have hunderscore : c ≠ '_' := by
      rintro rfl
      exact absurd hc (by decide)
    rw [digitsValue, if_neg hunderscore, hvalue, Nat.ofDigitChars_cons,
      ← ih (fun d hd => h d (List.mem_cons_of_mem _ hd)), Option.bind_eq_bind, Option.bind_some,
      guard, if_pos hlt]
    rfl

/-- A text of digits has no sign. -/
theorem splitSign_of_isDigit {digits : List Char} (h : ∀ c ∈ digits, c.isDigit) :
    splitSign digits = (false, digits) := by
  unfold splitSign
  split
  · exact absurd (h '-' List.mem_cons_self) (by decide)
  · exact absurd (h '+' List.mem_cons_self) (by decide)
  · rfl

theorem splitBase_of_isDigit {digits : List Char} (h : ∀ c ∈ digits, c.isDigit) :
    splitBase digits = (10, true, digits) := by
  unfold splitBase
  split
  case h_1 c rest =>
      have hc : c.isDigit := h c (by simp)
      have hletter : ∀ d : Char, d.isDigit = false → c ≠ d := by
        rintro d hd rfl
        rw [hc] at hd
        cases hd
      rw [if_neg (not_or.mpr ⟨hletter 'x' rfl, hletter 'X' rfl⟩),
        if_neg (not_or.mpr ⟨hletter 'o' rfl, hletter 'O' rfl⟩),
        if_neg (not_or.mpr ⟨hletter 'b' rfl, hletter 'B' rfl⟩),
        if_neg (not_or.mpr ⟨hletter 'u' rfl, hletter 'U' rfl⟩)]
  case h_2 => rfl

theorem isDigit_of_mem_toDigits {n : ℕ} : ∀ c ∈ Nat.toDigits 10 n, c.isDigit := fun _ =>
  Nat.isDigit_of_mem_toDigits (by decide) (by decide)

/-- The sign and the digits of a number. -/
theorem toList_toString (a : ℤ) :
    (toString a).toList = (if a < 0 then ['-'] else []) ++ Nat.toDigits 10 a.natAbs := by
  rw [Int.toString_eq_repr]
  cases a with
  | ofNat n => simp [Int.repr]
  | negSucc n => simp [Int.repr]

theorem toList_showInt {w : ℕ} (x : BitVec w) :
    (showInt x).toList = (if x.toInt < 0 then ['-'] else []) ++ Nat.toDigits 10 x.toInt.natAbs :=
  toList_toString x.toInt

/-- The text of a number has no other characters than digits and the sign. -/
theorem mem_toString {a : ℤ} {c : Char} (h : c ∈ (toString a).toList) :
    c.isDigit ∨ c = '-' ∧ a < 0 := by
  rw [toList_toString, List.mem_append] at h
  rcases h with h | h
  · split at h
    case isTrue hneg => exact Or.inr ⟨List.mem_singleton.mp h, hneg⟩
    case isFalse => cases h
  · exact Or.inl (isDigit_of_mem_toDigits c h)

theorem mem_showInt {w : ℕ} {x : BitVec w} {c : Char} (h : c ∈ (showInt x).toList) :
    c.isDigit ∨ c = '-' ∧ x.toInt < 0 := mem_toString h

/-- A sign and decimal digits of a number in range. -/
theorem intOfString_of_toDigits {w n : ℕ} {text : String} {negative : Bool}
    (hsign : splitSign text.toList = (negative, Nat.toDigits 10 n))
    (hlt : n < if negative then 2 ^ (w - 1) + 1 else 2 ^ (w - 1)) :
    intOfString w text = some (BitVec.ofInt w (if negative then -n else n)) := by
  have hhead : (Nat.toDigits 10 n).head? ≠ some '_' := by
    intro hhead
    exact Nat.underscore_not_in_toDigits (List.mem_of_head? hhead)
  unfold intOfString
  simp only [hsign, splitBase_of_isDigit isDigit_of_mem_toDigits,
    digitsValue_of_isDigit isDigit_of_mem_toDigits, Nat.ofDigitChars_ten_toDigits, if_true]
  simp [guard, hhead, hlt, Nat.toDigits_ne_nil]

/-- **The decimal text of a number gives the number back.** -/
theorem intOfString_showInt {w : ℕ} (x : BitVec w) : intOfString w (showInt x) = some x := by
  have hlo := x.le_toInt
  have hhi := x.toInt_lt
  have hpow : (2 : Int) ^ (w - 1) = ((2 ^ (w - 1) : ℕ) : Int) := (Int.natCast_pow 2 (w - 1)).symm
  rw [hpow] at hlo hhi
  have hsign := toList_showInt x
  by_cases hneg : x.toInt < 0
  · rw [if_pos hneg] at hsign
    have hlt : x.toInt.natAbs < if true then 2 ^ (w - 1) + 1 else 2 ^ (w - 1) := by
      rw [if_pos rfl]
      generalize 2 ^ (w - 1) = bound at hlo ⊢
      omega
    rw [intOfString_of_toDigits (show splitSign _ = (true, _) from congrArg splitSign hsign) hlt,
      if_pos rfl, show -(x.toInt.natAbs : Int) = x.toInt by omega, BitVec.ofInt_toInt]
  · rw [if_neg hneg] at hsign
    have hlt : x.toInt.natAbs < if false then 2 ^ (w - 1) + 1 else 2 ^ (w - 1) := by
      rw [if_neg Bool.false_ne_true]
      generalize 2 ^ (w - 1) = bound at hhi ⊢
      omega
    rw [intOfString_of_toDigits
        ((congrArg splitSign hsign).trans (splitSign_of_isDigit isDigit_of_mem_toDigits)) hlt,
      if_neg Bool.false_ne_true, show (x.toInt.natAbs : Int) = x.toInt by omega,
      BitVec.ofInt_toInt]

end Pysa.Text
