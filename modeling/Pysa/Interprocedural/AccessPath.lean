/-
  Subject: ROOTS OF ACCESS PATHS, and the matching of the actual arguments of a call to the
    formal parameters of a callable (`accessPath.ml`).

  * `Root` -- where an access path of a model starts;
  * `normalizeParameters` -- the roots of the parameters of a define;
  * `matchActualsToFormals` -- for every actual the roots that it may flow into, with the path
    inside the actual and the path inside the formal.
-/
import Mathlib.Data.Finset.Basic
import Pysa.Ast.Identifier
import Pysa.Domains.TreeDomain

namespace Pysa

universe u

/-! ## 1. Roots -/

structure CapturedVariable where
  name : String
  definingFunction : Nat
  deriving DecidableEq

inductive Root where
  | localResult
  | positionalParameter (position : Nat) (name : Identifier) (positionalOnly : Bool)
  | namedParameter (name : Identifier)
  | starParameter (position : Nat)
  | starStarParameter (excluded : Finset Identifier)
  | variable (name : Identifier)
  | capturedVariable (captured : CapturedVariable)
  deriving DecidableEq

namespace Root

def parameterPrefix : String := "$parameter$"

def chopParameterPrefix (name : Identifier) : Identifier :=
  match Identifier.chopPrefix parameterPrefix name with
  | some chopped => chopped
  | none => name

def prependParameterPrefix (name : Identifier) : Identifier := parameterPrefix ++ name

def parameterName : Root → Option Identifier
  | positionalParameter _ name _ | namedParameter name => some name
  | starParameter _ => some "*"
  | starStarParameter _ => some "**"
  | _ => none

end Root

/-! ## 2. Parameters -/

/-- A parameter of a define, its stars in front of its name. `E` are the expressions. -/
structure Parameter (E : Type u) where
  name : Identifier
  value : Option E

structure NormalizedParameter (E : Type u) where
  root : Root
  qualifiedName : Identifier
  original : Parameter E

section Normalize

variable {E : Type u}

def markAsPositionalOnly (parameter : NormalizedParameter E) : NormalizedParameter E :=
  let root :=
    match parameter.root with
    | .positionalParameter position name _ => .positionalParameter position name true
    | root => root
  { parameter with root }

/-- The position of the next parameter, whether a star was seen, the names so far, and the
    normalized parameters so far, the last one first. -/
abbrev NormalizeState (E : Type u) :=
  Nat × Bool × Finset Identifier × List (NormalizedParameter E)

def normalizeParameter (hasPep570Syntax : Bool) :
    NormalizeState E → Parameter E → NormalizeState E
  | (position, seenStar, excluded, normalized), original =>
    let qualifiedName := original.name
    if Identifier.sanitized qualifiedName = "/" then
      (position, seenStar, excluded, normalized.map markAsPositionalOnly)
    else if Identifier.hasPrefix "**" qualifiedName then
      let qualifiedName := Identifier.dropPrefix qualifiedName 2
      (position + 1, true, excluded,
        { root := .starStarParameter excluded, qualifiedName, original } :: normalized)
    else if Identifier.sanitized qualifiedName = "*" then
      (position, true, excluded, normalized)
    else if Identifier.hasPrefix "*" qualifiedName then
      let qualifiedName := Identifier.dropPrefix qualifiedName 1
      (position + 1, true, excluded,
        { root := .starParameter position, qualifiedName, original } :: normalized)
    else if seenStar then
      let unqualifiedName := Root.chopParameterPrefix qualifiedName
      (position + 1, true, insert unqualifiedName excluded,
        { root := .namedParameter unqualifiedName, qualifiedName, original } :: normalized)
    else
      let unqualifiedName := Root.chopParameterPrefix qualifiedName
      let positionalOnly :=
        !seenStar && !hasPep570Syntax && Identifier.isPrivateName unqualifiedName
      (position + 1, false, insert unqualifiedName excluded,
        { root := .positionalParameter position unqualifiedName positionalOnly, qualifiedName,
          original } :: normalized)

def hasPep570Syntax (parameters : List (Parameter E)) : Bool :=
  parameters.any fun parameter =>
    decide (Identifier.sanitized parameter.name = "/") ||
      decide (Identifier.sanitized parameter.name = "*")

def normalizeParameters (parameters : List (Parameter E)) : List (NormalizedParameter E) :=
  let (_, _, _, normalized) :=
    parameters.foldl (normalizeParameter (hasPep570Syntax parameters)) (0, false, ∅, [])
  normalized.reverse

end Normalize

/-! ## 3. Arguments -/

inductive Starred (E : Type u) where
  | once (value : E)
  | twice (value : E)

/-- What the matching sees of the expression of an argument. -/
inductive ArgumentValue (E : Type u) where
  | starred (value : Starred E)
  | other (value : E)

/-- `Call.Argument`. -/
structure Argument (E : Type u) where
  name : Option Identifier
  value : ArgumentValue E

structure ArgumentMatch where
  root : Root
  actualPath : List Label
  formalPath : List Label
  deriving DecidableEq

inductive ArgumentPosition where
  | precise (position : Nat)
  | approximate (position : Nat)
  deriving DecidableEq

namespace ArgumentPosition

def increment : ArgumentPosition → ArgumentPosition
  | precise n => precise (n + 1)
  | approximate n => approximate (n + 1)

def toApproximate : ArgumentPosition → ArgumentPosition
  | precise n => approximate n
  | approximate n => approximate n

end ArgumentPosition

/-! ## 4. Matching -/

/-- An actual that is bound by name: a keyword, or the entries of a dictionary. -/
inductive NameOrStarStar where
  | name (actualName : Identifier)
  | starStar

def filterToNamed (matchedNames : Finset Identifier) :
    NameOrStarStar → Root → Option ArgumentMatch
  | .name actualName, formal =>
    match formal with
    | .namedParameter name | .positionalParameter _ name _ =>
      if actualName = name then some ⟨formal, [], []⟩ else none
    | .starStarParameter excluded =>
      if actualName ∉ excluded then
        some ⟨formal, [], [.index (Root.chopParameterPrefix actualName)]⟩
      else none
    | _ => none
  | .starStar, formal =>
    match formal with
    | .namedParameter name | .positionalParameter _ name _ =>
      if name ∉ matchedNames then some ⟨formal, [.index name], []⟩ else none
    | .starStarParameter _ => some ⟨formal, [], []⟩
    | _ => none

/-- An actual that is bound by position: one value, or the elements of a sequence. -/
inductive PositionalActual where
  | one (position : ArgumentPosition)
  | star (position : ArgumentPosition)

def filterToPositional (actual : PositionalActual) (formal : Root) : Option ArgumentMatch :=
  match actual, formal with
  | .one (.precise actualPosition), .positionalParameter position _ _ =>
    if actualPosition = position then some ⟨formal, [], []⟩ else none
  | .one (.approximate minimalPosition), .positionalParameter position _ _ =>
    if minimalPosition ≤ position then some ⟨formal, [], []⟩ else none
  | .star (.precise actualPosition), .positionalParameter position _ _ =>
    if actualPosition ≤ position then
      some ⟨formal, [.index (toString (position - actualPosition))], []⟩
    else none
  | .star (.approximate minimalPosition), .positionalParameter position _ _ =>
    if minimalPosition ≤ position then some ⟨formal, [.anyIndex], []⟩ else none
  | .one (.precise actualPosition), .starParameter position =>
    if actualPosition ≥ position then
      some ⟨formal, [], [.index (toString (actualPosition - position))]⟩
    else none
  | .one (.approximate _), .starParameter _ => some ⟨formal, [], [.anyIndex]⟩
  | .star _, .starParameter _ => some ⟨formal, [], []⟩
  | _, _ => none

section Match

variable {E : Type u}

/-- The formals of one actual, and the position of the next one. -/
def matchActual (roots : List Root) (matchedNames : Finset Identifier)
    (position : ArgumentPosition) (argument : Argument E) :
    ArgumentPosition × List ArgumentMatch :=
  match argument.name, argument.value with
  | none, .starred (.once _) =>
    (position.toApproximate, roots.filterMap (filterToPositional (.star position)))
  | none, .starred (.twice _) => (position, roots.filterMap (filterToNamed matchedNames .starStar))
  | none, .other _ => (position.increment, roots.filterMap (filterToPositional (.one position)))
  | some name, _ =>
    let unqualifiedName := Root.chopParameterPrefix name
    (position, roots.filterMap (filterToNamed matchedNames (.name unqualifiedName)))

def unstarredPositional (argument : Argument E) : Bool :=
  match argument.name, argument.value with
  | some _, _ => false
  | none, .starred _ => false
  | none, .other _ => true

/-- The names that are bound already: of the keywords, and of the parameters that the unstarred
    arguments reach. -/
def matchedNames (arguments : List (Argument E)) (roots : List Root) : Finset Identifier :=
  let matchedNamedArguments :=
    (arguments.filterMap (·.name)).map Identifier.sanitized
  let matchedPositions := arguments.countP unstarredPositional
  let getMatchedRoot : Root → Option Identifier
    | .positionalParameter position name _ =>
      if position < matchedPositions then some name else none
    | _ => none
  (matchedNamedArguments ++ roots.filterMap getMatchedRoot).toFinset

def matchActualsToFormals (arguments : List (Argument E)) (roots : List Root) :
    List (Argument E × List ArgumentMatch) :=
  let (_, result) :=
    arguments.foldl
      (fun (position, result) argument =>
        let (next, formals) := matchActual roots (matchedNames arguments roots) position argument
        (next, (argument, formals) :: result))
      (ArgumentPosition.precise 0, [])
  result.reverse

end Match

end Pysa
