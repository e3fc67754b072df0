/-
  Subject: REPLACING AND CUTTING TEXT.

  * `Text.substrReplaceAll` -- every occurrence of a pattern, from the left and without overlaps;
    `replaceFrom_flatMap` -- on a text put together from chunks it works chunk by chunk;
  * `append_inj_of_stop` -- two texts that start with characters of a kind and go on with another
    kind are cut at the same place; `append_cons_inj`, `toString_append_inj` -- so are two before
    the same character, or behind a number.
-/
import Pysa.Lib.Text

namespace Pysa.Text

/-! ## 1. Replacing -/

/-- `skip` characters belong to the occurrence that was replaced last. -/
def replaceFrom (pattern replacement : List Char) : ℕ → List Char → List Char
  | _, [] => []
  | skip + 1, _ :: rest => replaceFrom pattern replacement skip rest
  | 0, c :: rest =>
    if pattern.isPrefixOf (c :: rest) then
      replacement ++ replaceFrom pattern replacement (pattern.length - 1) rest
    else c :: replaceFrom pattern replacement 0 rest

def substrReplaceAll (pattern replacement text : String) : String :=
  String.ofList (replaceFrom pattern.toList replacement.toList 0 text.toList)

theorem replaceFrom_flatMap {pattern replacement : List Char} {chunk next : Char → List Char}
    {text : List Char}
    (h : ∀ c ∈ text, ∀ rest, replaceFrom pattern replacement 0 (chunk c ++ rest) =
      next c ++ replaceFrom pattern replacement 0 rest) :
    replaceFrom pattern replacement 0 (text.flatMap chunk) = text.flatMap next := by
  induction text with
  | nil => rfl
  | cons c text ih =>
    rw [List.flatMap_cons, List.flatMap_cons, h c List.mem_cons_self,
      ih fun d hd => h d (List.mem_cons_of_mem _ hd)]

theorem replaceFrom_singleton (d : Char) (replacement text : List Char) :
    replaceFrom [d] replacement 0 text =
      text.flatMap fun c => if c = d then replacement else [c] := by
  have hchunks : replaceFrom [d] replacement 0 (text.flatMap fun c => [c]) =
      text.flatMap fun c => if c = d then replacement else [c] := by
    refine replaceFrom_flatMap fun c _ rest => ?_
    rw [List.singleton_append, replaceFrom]
    by_cases hc : c = d
    · rw [hc, if_pos (by simp), if_pos rfl]
      rfl
    · rw [if_neg (by simpa using fun h => hc h.symm), if_neg hc]
      rfl
  rwa [List.flatMap_singleton'] at hchunks

/-! ## 2. Cutting -/

/-- The second part of `rsplit2`. -/
def afterLast (separator : Char) (text : String) : String :=
  String.ofList (text.toList.reverse.takeWhile (· ≠ separator)).reverse

theorem afterLast_append {separator : Char} {left right : String}
    (h : separator ∉ right.toList) :
    afterLast separator (left ++ String.singleton separator ++ right) = right := by
  have hstop : (right.toList.reverse ++ (separator :: left.toList.reverse)).takeWhile
      (· ≠ separator) = right.toList.reverse := by
    rw [List.takeWhile_append_of_pos]
    · simp
    · intro c hc
      rw [List.mem_reverse] at hc
      exact decide_eq_true fun hce => h (hce ▸ hc)
  have hreverse : (left ++ String.singleton separator ++ right).toList.reverse =
      right.toList.reverse ++ (separator :: left.toList.reverse) := by
    simp
  rw [afterLast, hreverse, hstop, List.reverse_reverse, String.ofList_toList]

/-- The first part of `rsplit2`. -/
def beforeLast (separator : Char) (text : String) : String :=
  String.ofList (text.toList.reverse.dropWhile (· ≠ separator)).tail.reverse

theorem beforeLast_append {separator : Char} {left right : String}
    (h : separator ∉ right.toList) :
    beforeLast separator (left ++ String.singleton separator ++ right) = left := by
  have hreverse : (left ++ String.singleton separator ++ right).toList.reverse =
      right.toList.reverse ++ (separator :: left.toList.reverse) := by
    simp
  have hstop : (right.toList.reverse ++ (separator :: left.toList.reverse)).dropWhile
      (· ≠ separator) = separator :: left.toList.reverse := by
    rw [List.dropWhile_append_of_pos]
    · simp
    · intro c hc
      rw [List.mem_reverse] at hc
      exact decide_eq_true fun hce => h (hce ▸ hc)
  rw [beforeLast, hreverse, hstop, List.tail_cons, List.reverse_reverse, String.ofList_toList]

theorem intercalate_split (separator : Char) (text : String) :
    (String.singleton separator).intercalate (split separator text) = text := by
  rw [String.ext_iff, String.toList_intercalate, split, List.map_map, String.toList_singleton]
  have hid : String.toList ∘ String.ofList = id := funext fun _ => String.toList_ofList
  rw [hid, List.map_id, List.intercalate_splitOn]

theorem append_inj_of_stop {kind : Char → Bool} {l l' r r' : List Char}
    (hl : ∀ c ∈ l, kind c) (hl' : ∀ c ∈ l', kind c) (hr : ∀ c ∈ r.head?, kind c = false)
    (hr' : ∀ c ∈ r'.head?, kind c = false) (h : l ++ r = l' ++ r') : l = l' ∧ r = r' := by
  have htake : ∀ {l r : List Char}, (∀ c ∈ l, kind c) → (∀ c ∈ r.head?, kind c = false) →
      (l ++ r).takeWhile kind = l := by
    intro l r hl hr
    rw [List.takeWhile_append_of_pos hl]
    cases r with
    | nil => simp
    | cons c r => simp [hr c rfl]
  have hll : l = l' := by rw [← htake hl hr, h, htake hl' hr']
  exact ⟨hll, List.append_cancel_left (hll ▸ h)⟩

/-- Two texts before the same character, that is in neither. -/
theorem append_cons_inj {c : Char} {l l' r r' : List Char} (hl : c ∉ l) (hl' : c ∉ l')
    (h : l ++ c :: r = l' ++ c :: r') : l = l' ∧ r = r' := by
  have hkind : ∀ {l : List Char}, c ∉ l → ∀ d ∈ l, (fun d => d != c) d = true :=
    fun hl d hd => bne_iff_ne.mpr fun hdc => hl (hdc ▸ hd)
  have hstop : ∀ r : List Char, ∀ d ∈ (c :: r).head?, (fun d => d != c) d = false := by
    rintro r d ⟨⟩
    simp
  obtain ⟨hll, hrr⟩ := append_inj_of_stop (hkind hl) (hkind hl') (hstop r) (hstop r') h
  exact ⟨hll, (List.cons.inj hrr).2⟩

theorem toString_append_inj {a b : ℤ} {r r' : List Char}
    (hr : ∀ c ∈ r.head?, c.isDigit = false) (hr' : ∀ c ∈ r'.head?, c.isDigit = false)
    (h : (toString a).toList ++ r = (toString b).toList ++ r') : a = b ∧ r = r' := by
  have hdigits : ∀ {m n : ℕ} {r r' : List Char}, (∀ c ∈ r.head?, c.isDigit = false) →
      (∀ c ∈ r'.head?, c.isDigit = false) →
      Nat.toDigits 10 m ++ r = Nat.toDigits 10 n ++ r' → m = n ∧ r = r' := by
    intro m n r r' hr hr' h
    obtain ⟨hmn, hrr⟩ := append_inj_of_stop isDigit_of_mem_toDigits isDigit_of_mem_toDigits hr hr' h
    refine ⟨?_, hrr⟩
    have hvalue := congrArg (Nat.ofDigitChars 10 · 0) hmn
    simpa only [Nat.ofDigitChars_ten_toDigits] using hvalue
  have hhead : ∀ {m : ℕ} {r r' : List Char}, '-' :: r ≠ Nat.toDigits 10 m ++ r' := by
    intro m r r' h
    obtain ⟨c, rest, hm⟩ := List.exists_cons_of_ne_nil (Nat.toDigits_ne_nil (b := 10) (n := m))
    rw [hm, List.cons_append, List.cons.injEq] at h
    have hc : c.isDigit := isDigit_of_mem_toDigits (n := m) c (hm ▸ List.mem_cons_self)
    rw [← h.1] at hc
    exact absurd hc (by decide)
  rw [toList_toString, toList_toString] at h
  by_cases ha : a < 0 <;> by_cases hb : b < 0
  · rw [if_pos ha, if_pos hb] at h
    obtain ⟨hab, hrr⟩ := hdigits hr hr' (List.cons.inj h).2
    exact ⟨by omega, hrr⟩
  · rw [if_pos ha, if_neg hb] at h
    exact absurd h hhead
  · rw [if_neg ha, if_pos hb] at h
    exact absurd h.symm hhead
  · rw [if_neg ha, if_neg hb] at h
    obtain ⟨hab, hrr⟩ := hdigits hr hr' h
    exact ⟨by omega, hrr⟩

end Pysa.Text
