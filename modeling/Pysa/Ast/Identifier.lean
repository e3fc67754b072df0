/-
  Subject: IDENTIFIERS (`identifier.ml`).

  An identifier is a string. The parser leaves the stars of a starred parameter in front of its
  name; qualification puts a marker between two dollar signs behind the stars.

  * `splitStar`, `sanitized`, `isPrivateName` -- what the analysis reads off a name;
  * `Name` -- the names that a Python program can write: no dollar, no star, no slash.
-/
import Mathlib.Data.List.Basic

namespace Pysa

abbrev Identifier := String

namespace Identifier

/-! ## 1. Strings -/

def hasPrefix (start name : String) : Bool :=
  start.toList.isPrefixOf name.toList

def hasSuffix (finish name : String) : Bool :=
  finish.toList.isSuffixOf name.toList

def dropPrefix (name : String) (count : Nat) : String :=
  String.ofList (name.toList.drop count)

def chopPrefix (start name : String) : Option String :=
  if hasPrefix start name then some (dropPrefix name start.toList.length) else none

/-- The last position of a character. -/
def rindex (name : String) (c : Char) : Option Nat :=
  (name.toList.reverse.idxOf? c).map (name.toList.length - 1 - ·)

/-! ## 2. Names of the analysis -/

def splitStar (name : Identifier) : String × Identifier :=
  if hasPrefix "**" name then ("**", dropPrefix name 2)
  else if hasPrefix "*" name then ("*", dropPrefix name 1)
  else ("", name)

def sanitized (name : Identifier) : Identifier :=
  let (stars, name) := splitStar name
  let name :=
    match hasPrefix "$" name, rindex name '$' with
    | true, some index => if index > 0 then dropPrefix name (index + 1) else name
    | _, _ => name
  stars ++ name

def isPrivateName (name : Identifier) : Bool :=
  hasPrefix "__" name && !hasSuffix "__" name

/-! ## 3. Names of a program -/

/-- A name as a program writes it. -/
structure Name where
  text : String
  nonempty : text.toList ≠ []
  plain : ∀ c ∈ text.toList, c ≠ '$' ∧ c ≠ '*' ∧ c ≠ '/'

@[ext] theorem Name.ext {x y : Name} (h : x.text = y.text) : x = y := by
  cases x
  cases y
  cases h
  rfl

@[simp] theorem dropPrefix_append (start name : String) :
    dropPrefix (start ++ name) start.toList.length = name := by
  rw [dropPrefix, String.toList_append, List.drop_left, String.ofList_toList]

@[simp] theorem hasPrefix_append (start name : String) : hasPrefix start (start ++ name) = true := by
  rw [hasPrefix, String.toList_append, List.isPrefixOf_iff_prefix]
  exact List.prefix_append _ _

theorem chopPrefix_append (start name : String) :
    chopPrefix start (start ++ name) = some name := by
  rw [chopPrefix, if_pos (hasPrefix_append start name), dropPrefix_append]

/-- A name starts with none of the marks. -/
theorem Name.hasPrefix_eq_false (x : Name) {start : String} {c : Char}
    (hstart : start.toList.head? = some c) (hc : c = '$' ∨ c = '*' ∨ c = '/') :
    hasPrefix start x.text = false := by
  obtain ⟨rest, hrest⟩ := List.head?_eq_some_iff.mp hstart
  rw [hasPrefix, hrest]
  cases hx : x.text.toList with
  | nil => exact absurd hx x.nonempty
  | cons d tail =>
    have hd := x.plain d (hx ▸ List.mem_cons_self)
    have hne : c ≠ d := by
      rintro rfl
      rcases hc with rfl | rfl | rfl
      · exact hd.1 rfl
      · exact hd.2.1 rfl
      · exact hd.2.2 rfl
    simp [List.isPrefixOf, hne]

theorem Name.splitStar_eq (x : Name) : splitStar x.text = ("", x.text) := by
  have h2 : hasPrefix "**" x.text = false := x.hasPrefix_eq_false (c := '*') rfl (by simp)
  have h1 : hasPrefix "*" x.text = false := x.hasPrefix_eq_false (c := '*') rfl (by simp)
  rw [splitStar, h2, h1]
  rfl

theorem Name.sanitized_eq (x : Name) : sanitized x.text = x.text := by
  have h : hasPrefix "$" x.text = false := x.hasPrefix_eq_false (c := '$') rfl (by simp)
  rw [sanitized, x.splitStar_eq]
  simp [h]

theorem rindex_append (start name : String) (c : Char) (hstart : start.toList.getLast? = some c)
    (hname : c ∉ name.toList) :
    rindex (start ++ name) c = some (start.toList.length - 1) := by
  have hfirst : name.toList.reverse.findIdx? (· == c) = none := by
    rw [List.findIdx?_eq_none_iff]
    intro d hd
    rw [List.mem_reverse] at hd
    exact beq_eq_false_iff_ne.mpr fun h => hname (h ▸ hd)
  have hsecond : start.toList.reverse.findIdx? (· == c) = some 0 := by
    obtain ⟨init, hinit⟩ := List.getLast?_eq_some_iff.mp hstart
    rw [hinit, List.reverse_append]
    simp [List.findIdx?_cons]
  rw [rindex, List.idxOf?, String.toList_append, List.reverse_append, List.findIdx?_append, hfirst,
    hsecond]
  simp
  omega

/-! ## 4. Starred and marked names -/

theorem splitStar_star {name : Identifier} (h : hasPrefix "*" name = false) :
    splitStar ("*" ++ name) = ("*", name) := by
  have htwo : hasPrefix "**" ("*" ++ name) = false := by
    rw [hasPrefix, String.toList_append]
    exact h
  have hdrop := dropPrefix_append "*" name
  rw [splitStar, htwo, hasPrefix_append]
  exact congrArg (Prod.mk "*") hdrop

theorem splitStar_starStar (name : Identifier) : splitStar ("**" ++ name) = ("**", name) := by
  have hdrop := dropPrefix_append "**" name
  rw [splitStar, hasPrefix_append]
  exact congrArg (Prod.mk "**") hdrop

/-- Behind the stars a starred name is sanitized as any other name. -/
theorem sanitized_of_splitStar {stars name starred : Identifier} (h : splitStar name = ("", name))
    (hstars : splitStar starred = (stars, name)) : sanitized starred = stars ++ sanitized name := by
  rw [sanitized, hstars, sanitized, h]
  simp

theorem sanitized_marked (start : String) (x : Name) (hhead : start.toList.head? = some '$')
    (hlast : start.toList.getLast? = some '$') (hlength : 1 < start.toList.length) :
    sanitized (start ++ x.text) = x.text := by
  obtain ⟨rest, hrest⟩ := List.head?_eq_some_iff.mp hhead
  have hsplit : splitStar (start ++ x.text) = ("", start ++ x.text) := by
    simp [splitStar, hasPrefix, String.toList_append, hrest, List.isPrefixOf]
  have hdollar : hasPrefix "$" (start ++ x.text) = true := by
    simp [hasPrefix, String.toList_append, hrest, List.isPrefixOf]
  have hindex := rindex_append start x.text '$' hlast fun h => (x.plain _ h).1 rfl
  have hdrop : start.toList.length - 1 + 1 = start.toList.length := by omega
  rw [sanitized, hsplit]
  simp only [hdollar, hindex]
  rw [if_pos (by omega), hdrop, dropPrefix_append]
  simp

end Identifier

end Pysa
