/-
  Subject: SETS OF INTEGERS AS PATRICIA TREES (`patriciaTreeSet.ml`).

  A node branches on the lowest bit at which its elements differ; its prefix holds the bits below.
  The functions are generic in the element operations; `int63` are those of the native integers.
  A shortcut on physical equality may or may not be taken, so every function that has one takes
  the test.

  * `PatriciaSet` -- the functions on sets, where the empty set is no tree.
-/
import Mathlib.Data.Finset.Basic
import Pysa.Lib.Basic
import Pysa.Lib.LowBits

namespace Pysa

universe u v

/-! ## 1. Elements -/

/-- The operations of an element (`ELEMENT`). -/
structure PatriciaElement (E : Type u) where
  equal : E → E → Bool
  compare : E → E → Ordering
  isZero : E → Bool
  addOne : E → E
  subtractOne : E → E
  bitwiseAnd : E → E → E
  bitwiseXor : E → E → E
  bitwiseNot : E → E

/-- `PatriciaTreeIntSet`. -/
def int63 : PatriciaElement Int63 where
  equal a b := decide (a = b)
  compare a b := compare a.toInt b.toInt
  isZero x := decide (x = 0#63)
  addOne x := x + 1#63
  subtractOne x := x - 1#63
  bitwiseAnd a b := a &&& b
  bitwiseXor a b := a ^^^ b
  bitwiseNot x := ~~~x

/-! ## 2. Trees -/

inductive PatriciaTree (E : Type u) where
  | leaf (element : E)
  | node (nodePrefix branchingBit : E) (left right : PatriciaTree E)
  deriving DecidableEq

namespace PatriciaTree

variable {E : Type u} (D : PatriciaElement E)

def isZeroBit (k m : E) : Bool := D.isZero (D.bitwiseAnd k m)

def lowestBit (x : E) : E := D.bitwiseAnd x (D.addOne (D.bitwiseNot x))

def branchingBit (a b : E) : E := lowestBit D (D.bitwiseXor a b)

def mask (k m : E) : E := D.bitwiseAnd k (D.subtractOne m)

def matchPrefix (k p m : E) : Bool := D.equal (mask D k m) p

def joinDisjoint (leftPrefix : E) (leftTree : PatriciaTree E) (rightPrefix : E)
    (rightTree : PatriciaTree E) : PatriciaTree E :=
  let m := branchingBit D leftPrefix rightPrefix
  if isZeroBit D leftPrefix m then .node (mask D leftPrefix m) m leftTree rightTree
  else .node (mask D leftPrefix m) m rightTree leftTree

def mem (element : E) : PatriciaTree E → Bool
  | leaf e => D.equal element e
  | node _ bit left right => if isZeroBit D element bit then mem element left else mem element right

def fold {A : Type v} (f : E → A → A) (tree : PatriciaTree E) (init : A) : A :=
  match tree with
  | leaf element => f element init
  | node _ _ left right => fold f right (fold f left init)

def cardinal : PatriciaTree E → Nat
  | leaf _ => 1
  | node _ _ left right => cardinal left + cardinal right

/-- The two tests of every binary function: the nodes have one prefix and branching bit; ... -/
def samePrefix (leftPrefix leftBit rightPrefix rightBit : E) : Bool :=
  D.equal leftPrefix rightPrefix && D.equal leftBit rightBit

/-- ... the right tree belongs into a subtree of the left one; ... -/
def rightInLeft (leftPrefix leftBit rightPrefix rightBit : E) : Bool :=
  D.compare leftBit rightBit == .lt && matchPrefix D rightPrefix leftPrefix leftBit

/-- ... the left tree belongs into a subtree of the right one. -/
def leftInRight (leftPrefix leftBit rightPrefix rightBit : E) : Bool :=
  D.compare leftBit rightBit == .gt && matchPrefix D leftPrefix rightPrefix rightBit

variable (phys : PhysEq (PatriciaTree E))

def add (toInsert : E) : PatriciaTree E → PatriciaTree E
  | leaf e =>
    if D.equal toInsert e then leaf e else joinDisjoint D toInsert (leaf toInsert) e (leaf e)
  | node p bit left right =>
    if matchPrefix D toInsert p bit then
      if isZeroBit D toInsert bit then
        let newLeft := add toInsert left
        if phys.test newLeft left then node p bit left right else node p bit newLeft right
      else
        let newRight := add toInsert right
        if phys.test newRight right then node p bit left right else node p bit left newRight
    else joinDisjoint D toInsert (leaf toInsert) p (node p bit left right)

/-- `insert_leaf` is `add` but for the leaf, which is given instead of built. -/
def insertLeaf (leafElement : E) (tree : PatriciaTree E) : PatriciaTree E :=
  add D phys leafElement tree

def remove (element : E) : PatriciaTree E → Option (PatriciaTree E)
  | leaf e => if D.equal element e then none else some (leaf e)
  | node p bit left right =>
    if matchPrefix D element p bit then
      if isZeroBit D element bit then
        match remove element left with
        | some newLeft =>
          if phys.test newLeft left then some (node p bit left right)
          else some (node p bit newLeft right)
        | none => some right
      else
        match remove element right with
        | some newRight =>
          if phys.test newRight right then some (node p bit left right)
          else some (node p bit left newRight)
        | none => some left
    else some (node p bit left right)

def union (left right : PatriciaTree E) : PatriciaTree E :=
  if phys.test left right then left
  else
    match left, right with
    | leaf e, _ => insertLeaf D phys e right
    | _, leaf e => insertLeaf D phys e left
    | node lp lb ll lr, node rp rb rl rr =>
      if samePrefix D lp lb rp rb then
        let newLeft := union ll rl
        let newRight := union lr rr
        if phys.test newLeft ll && phys.test newRight lr then left
        else if phys.test newLeft rl && phys.test newRight rr then right
        else node lp lb newLeft newRight
      else if rightInLeft D lp lb rp rb then
        if isZeroBit D rp lb then
          let newLeft := union ll (node rp rb rl rr)
          if phys.test ll newLeft then left else node lp lb newLeft lr
        else
          let newRight := union lr (node rp rb rl rr)
          if phys.test lr newRight then left else node lp lb ll newRight
      else if leftInRight D lp lb rp rb then
        if isZeroBit D lp rb then
          let newLeft := union (node lp lb ll lr) rl
          if phys.test rl newLeft then right else node rp rb newLeft rr
        else
          let newRight := union (node lp lb ll lr) rr
          if phys.test rr newRight then right else node rp rb rl newRight
      else joinDisjoint D lp left rp right
termination_by sizeOf left + sizeOf right

def inter (left right : PatriciaTree E) : Option (PatriciaTree E) :=
  if phys.test left right then some left
  else
    match left, right with
    | leaf e, _ => if mem D e right then some left else none
    | _, leaf e => if mem D e left then some right else none
    | node lp lb ll lr, node rp rb rl rr =>
      if samePrefix D lp lb rp rb then
        match inter ll rl, inter lr rr with
        | some newLeft, some newRight => some (union D phys newLeft newRight)
        | newLeft, none => newLeft
        | none, newRight => newRight
      else if rightInLeft D lp lb rp rb then
        if isZeroBit D rp lb then inter ll (node rp rb rl rr) else inter lr (node rp rb rl rr)
      else if leftInRight D lp lb rp rb then
        if isZeroBit D lp rb then inter (node lp lb ll lr) rl else inter (node lp lb ll lr) rr
      else none
termination_by sizeOf left + sizeOf right

def diff (left right : PatriciaTree E) : Option (PatriciaTree E) :=
  if phys.test left right then none
  else
    match left, right with
    | leaf e, _ => if mem D e right then none else some left
    | _, leaf e => remove D phys e left
    | node lp lb ll lr, node rp rb rl rr =>
      if samePrefix D lp lb rp rb then
        match diff ll rl, diff lr rr with
        | some newLeft, some newRight => some (union D phys newLeft newRight)
        | newLeft, none => newLeft
        | none, newRight => newRight
      else if rightInLeft D lp lb rp rb then
        if isZeroBit D rp lb then
          match diff ll (node rp rb rl rr) with
          | some newLeft => some (union D phys newLeft lr)
          | none => some lr
        else
          match diff lr (node rp rb rl rr) with
          | some newRight => some (union D phys ll newRight)
          | none => some ll
      else if leftInRight D lp lb rp rb then
        if isZeroBit D lp rb then diff (node lp lb ll lr) rl else diff (node lp lb ll lr) rr
      else some left
termination_by sizeOf left + sizeOf right

def equal (left right : PatriciaTree E) : Bool :=
  if phys.test left right then true
  else
    match left, right with
    | leaf e, leaf e' => D.equal e e'
    | node lp lb ll lr, node rp rb rl rr =>
      D.equal lp rp && D.equal lb rb && equal ll rl && equal lr rr
    | _, _ => false

def subset (left right : PatriciaTree E) : Bool :=
  if phys.test left right then true
  else
    match left, right with
    | leaf e, _ => mem D e right
    | _, leaf _ => false
    | node lp lb ll lr, node rp rb rl rr =>
      if samePrefix D lp lb rp rb then subset ll rl && subset lr rr
      else if leftInRight D lp lb rp rb then
        if isZeroBit D lp rb then subset ll rl && subset lr rl
        else subset ll rr && subset lr rr
      else false
termination_by sizeOf left + sizeOf right

/-- `map` adds the images one by one: the function may change the structure of the tree. -/
def map (f : E → E) (tree : PatriciaTree E) : Option (PatriciaTree E) :=
  fold (fun element result =>
    match result with
    | none => some (leaf (f element))
    | some tree => some (add D phys (f element) tree)) tree none

def filter (predicate : E → Bool) : PatriciaTree E → Option (PatriciaTree E)
  | leaf element => if predicate element then some (leaf element) else none
  | node p bit left right =>
    match filter predicate left, filter predicate right with
    | some newLeft, some newRight =>
      if phys.test newLeft left && phys.test newRight right then some (node p bit left right)
      else some (node p bit newLeft newRight)
    | newLeft, none => newLeft
    | none, newRight => newRight

end PatriciaTree

/-! ## 3. Sets -/

/-- `Make(Element).t`. -/
abbrev PatriciaSet (E : Type u) := Option (PatriciaTree E)

namespace PatriciaSet

variable {E : Type u} (D : PatriciaElement E) (phys : PhysEq (PatriciaTree E))

def empty : PatriciaSet E := none

def isEmpty (set : PatriciaSet E) : Bool := set.isNone

def add (element : E) : PatriciaSet E → PatriciaSet E
  | some tree => some (tree.add D phys element)
  | none => some (.leaf element)

def mem (element : E) : PatriciaSet E → Bool
  | some tree => tree.mem D element
  | none => false

def singleton (element : E) : PatriciaSet E := some (.leaf element)

def remove (element : E) : PatriciaSet E → PatriciaSet E
  | some tree => tree.remove D phys element
  | none => none

def union (left right : PatriciaSet E) : PatriciaSet E :=
  match left, right with
  | some leftTree, some rightTree => some (leftTree.union D phys rightTree)
  | _, none => left
  | none, _ => right

def inter (left right : PatriciaSet E) : PatriciaSet E :=
  match left, right with
  | some leftTree, some rightTree => leftTree.inter D phys rightTree
  | _, _ => none

def diff (set toRemove : PatriciaSet E) : PatriciaSet E :=
  match set, toRemove with
  | some setTree, some toRemoveTree => setTree.diff D phys toRemoveTree
  | _, _ => set

def equal (left right : PatriciaSet E) : Bool :=
  match left, right with
  | some leftTree, some rightTree => leftTree.equal D phys rightTree
  | none, none => true
  | _, _ => false

def subset (left right : PatriciaSet E) : Bool :=
  match left, right with
  | some leftTree, some rightTree => leftTree.subset D phys rightTree
  | some _, none => false
  | none, _ => true

def map (f : E → E) : PatriciaSet E → PatriciaSet E
  | some tree => tree.map D phys f
  | none => none

def fold {A : Type v} (f : E → A → A) (set : PatriciaSet E) (init : A) : A :=
  match set with
  | some tree => tree.fold f init
  | none => init

def filter (predicate : E → Bool) : PatriciaSet E → PatriciaSet E
  | some tree => tree.filter phys predicate
  | none => none

def cardinal : PatriciaSet E → Nat
  | some tree => tree.cardinal
  | none => 0

def elements (set : PatriciaSet E) : List E :=
  set.fold (fun element result => element :: result) []

def ofList (elements : List E) : PatriciaSet E :=
  elements.foldl (fun result element => add D phys element result) empty

end PatriciaSet

end Pysa
