/-
  Subject: LOCATIONS (`location.ml`): two positions of a line and a column.

  * `pp`, `fromString` -- a location as text and back;
  * `fromString_pp` -- **what is printed is read back**, if no line or column is negative: the
    separator of the positions is the sign of a number.
-/
import Pysa.Lib.Results
import Pysa.Lib.Text

namespace Pysa

open Text

structure Position where
  line : BitVec 63
  column : BitVec 63
  deriving DecidableEq

structure Location where
  start : Position
  stop : Position
  deriving DecidableEq

def safeIntOfString (s : String) : Except String (BitVec 63) :=
  match intOfString 63 s with
  | some value => .ok value
  | none => .error "int_of_string"

namespace Position

/-- `position_from_string`. -/
def fromString (position : String) : Except String Position := do
  let numbers ← (split ':' position).mapM safeIntOfString
  match numbers with
  | [line, column] => .ok ⟨line, column⟩
  | _ => .error "expected line:column"

def NonNegative (position : Position) : Prop :=
  0 ≤ position.line.toInt ∧ 0 ≤ position.column.toInt

end Position

namespace Location

def pp (location : Location) : String :=
  showInt location.start.line ++ ":" ++ showInt location.start.column ++ "-" ++
    (showInt location.stop.line ++ ":" ++ showInt location.stop.column)

def fromString (location : String) : Except String Location := do
  let positions ← (split '-' location).mapM Position.fromString
  match positions with
  | [start, stop] => .ok ⟨start, stop⟩
  | _ => .error "expected <position>-<position>"

def NonNegative (location : Location) : Prop :=
  location.start.NonNegative ∧ location.stop.NonNegative

end Location

theorem colon_not_mem_showInt {w : ℕ} (x : BitVec w) : ':' ∉ (showInt x).toList := by
  intro h
  rcases mem_showInt h with h | ⟨h, -⟩ <;> exact absurd h (by decide)

theorem safeIntOfString_showInt (x : BitVec 63) : safeIntOfString (showInt x) = .ok x := by
  rw [safeIntOfString, intOfString_showInt]

theorem Position.fromString_show (position : Position) :
    fromString (showInt position.line ++ ":" ++ showInt position.column) = .ok position := by
  have hsplit : split ':' (showInt position.line ++ ":" ++ showInt position.column) =
      [showInt position.line, showInt position.column] :=
    split_append (colon_not_mem_showInt _) (colon_not_mem_showInt _)
  rw [fromString, hsplit, List.mapM_cons, List.mapM_cons, safeIntOfString_showInt,
    safeIntOfString_showInt]
  rfl

/-- A character of a printed position. -/
theorem Position.mem_show {position : Position} (h : position.NonNegative) {c : Char}
    (hc : c ∈ (showInt position.line ++ ":" ++ showInt position.column).toList) :
    c.isDigit ∨ c = ':' := by
  rw [String.toList_append, String.toList_append, List.mem_append, List.mem_append] at hc
  rcases hc with (hc | hc) | hc
  · rcases mem_showInt hc with hc | ⟨-, hneg⟩
    · exact Or.inl hc
    · exact absurd h.1 (Int.not_le.mpr hneg)
  · exact Or.inr (List.mem_singleton.mp hc)
  · rcases mem_showInt hc with hc | ⟨-, hneg⟩
    · exact Or.inl hc
    · exact absurd h.2 (Int.not_le.mpr hneg)

/-- **What is printed is read back.** -/
theorem Location.fromString_pp {location : Location} (h : location.NonNegative) :
    fromString location.pp = .ok location := by
  have hminus {position : Position} (hposition : position.NonNegative) :
      '-' ∉ (showInt position.line ++ ":" ++ showInt position.column).toList := by
    intro hc
    rcases Position.mem_show hposition hc with hc | hc <;> exact absurd hc (by decide)
  have hsplit : split '-' location.pp =
      [showInt location.start.line ++ ":" ++ showInt location.start.column,
        showInt location.stop.line ++ ":" ++ showInt location.stop.column] :=
    split_append (hminus h.1) (hminus h.2)
  rw [fromString, hsplit, List.mapM_cons, List.mapM_cons, Position.fromString_show,
    Position.fromString_show]
  rfl

theorem Location.bar_not_mem_pp {location : Location} (h : location.NonNegative) :
    '|' ∉ location.pp.toList := by
  intro hc
  rw [pp, String.toList_append, String.toList_append, List.mem_append, List.mem_append] at hc
  rcases hc with (hc | hc) | hc
  · rcases Position.mem_show h.1 hc with hc | hc <;> exact absurd hc (by decide)
  · exact absurd hc (by decide)
  · rcases Position.mem_show h.2 hc with hc | hc <;> exact absurd hc (by decide)

end Pysa
