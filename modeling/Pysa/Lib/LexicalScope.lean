/-
  Subject: NAMES IN NESTED BLOCKS, some of which declare names global or nonlocal. Nothing here
    names the analyser.

  * `Frame` -- a block: the names it declares global, those it declares nonlocal, those it binds;
  * `resolve` -- where a name is found from inside nested blocks, and how it is declared there;
  * `Has` -- the name is bound at a place;
  * `Narrower` -- a block with the same declarations and no more names;
  * `resolve_eq_iff` -- **narrower blocks resolve a name in the same way if and only if they still
    bind it at the place where it was found**.
-/
import Mathlib.Data.Finset.Basic
import Mathlib.Data.List.Forall2

namespace Pysa

universe u v

namespace LexicalScope

/-! ## 1. Places -/

inductive Place where
  | module
  | block (depth : ℕ)
  deriving DecidableEq

namespace Place

/-- The same place, seen from one block further in. -/
def outward : Place → Place
  | module => module
  | block depth => block (depth + 1)

/-- What is at the place: the blocks are listed from the inside. -/
def at_ {α : Type u} (atModule : α) (blocks : List α) : Place → Option α
  | module => some atModule
  | block depth => blocks[depth]?

@[simp] theorem at_outward {α : Type u} (atModule head : α) (tail : List α) (place : Place) :
    place.outward.at_ atModule (head :: tail) = place.at_ atModule tail := by
  cases place <;> rfl

theorem at_map {α : Type u} {β : Type v} (f : α → β) (atModule : α) (blocks : List α)
    (place : Place) :
    place.at_ (f atModule) (blocks.map f) = (place.at_ atModule blocks).map f := by
  cases place with
  | module => rfl
  | block depth => exact List.getElem?_map

/-- Whether there is something at the place depends on the number of blocks only. -/
theorem isSome_at {α : Type u} {β : Type v} (atModule : α) (atModule' : β) {blocks : List α}
    {blocks' : List β} (hlength : blocks.length = blocks'.length) (place : Place) :
    (place.at_ atModule blocks).isSome = (place.at_ atModule' blocks').isSome := by
  cases place with
  | module => rfl
  | block depth => rw [Bool.eq_iff_iff, at_, at_, isSome_getElem?, isSome_getElem?, hlength]

end Place

/-- How the name is declared in the block where it is used. -/
inductive Locality where
  | undeclared
  | nonlocal
  | global
  deriving DecidableEq

inductive AccessKind where
  | currentScope
  | outerScope (locality : Locality)
  deriving DecidableEq

/-! ## 2. Resolution -/

structure Frame (N : Type u) where
  globals : Finset N
  nonlocals : Finset N
  locals : Finset N

variable {N : Type u} {x : N}

/-- The name is bound at the place. -/
def Has (module : Finset N) (frames : List (Frame N)) (x : N) (place : Place) : Prop :=
  ∃ names, place.at_ module (frames.map Frame.locals) = some names ∧ x ∈ names

theorem has_outward {module : Finset N} {frame : Frame N} {rest : List (Frame N)}
    {place : Place} : Has module (frame :: rest) x place.outward ↔ Has module rest x place := by
  rw [Has, List.map_cons, Place.at_outward]
  exact Iff.rfl

theorem has_here {module : Finset N} {frame : Frame N} {rest : List (Frame N)} :
    Has module (frame :: rest) x (.block 0) ↔ x ∈ frame.locals := by
  constructor
  · intro h
    obtain ⟨names, hnames, hx⟩ := h
    rw [← Option.some.inj hnames] at hx
    exact hx
  · exact fun h => ⟨frame.locals, rfl, h⟩

theorem has_module {module : Finset N} {frames : List (Frame N)} :
    Has module frames x .module ↔ x ∈ module := by
  constructor
  · intro h
    obtain ⟨names, hnames, hx⟩ := h
    rw [← Option.some.inj hnames] at hx
    exact hx
  · exact fun h => ⟨module, rfl, h⟩

variable [DecidableEq N]

/-- The module, if the search may end there and the name is bound there. -/
def inModule (module : Finset N) (x : N) (excludeGlobal : Bool) : Option Place :=
  if excludeGlobal = false ∧ x ∈ module then some .module else none

/-- The search through the enclosing blocks. -/
def enclosing (module : Finset N) (x : N) (excludeGlobal : Bool) : List (Frame N) → Option Place
  | [] => inModule module x excludeGlobal
  | frame :: rest =>
    if x ∈ frame.globals then inModule module x excludeGlobal
    else if x ∈ frame.nonlocals then (enclosing module x excludeGlobal rest).map Place.outward
    else if x ∈ frame.locals then some (.block 0)
    else (enclosing module x excludeGlobal rest).map Place.outward

def resolve (module : Finset N) (x : N) : List (Frame N) → Option (AccessKind × Place)
  | [] => (inModule module x false).map fun place => (.currentScope, place)
  | frame :: rest =>
    if x ∈ frame.globals then
      (inModule module x false).map fun place => (.outerScope .global, place)
    else if x ∈ frame.nonlocals then
      (enclosing module x true rest).map fun place => (.outerScope .nonlocal, place.outward)
    else if x ∈ frame.locals then some (.currentScope, .block 0)
    else
      (enclosing module x false rest).map fun place => (.outerScope .undeclared, place.outward)

theorem inModule_eq_some {module : Finset N} {excludeGlobal : Bool} {place : Place}
    (h : inModule module x excludeGlobal = some place) :
    place = .module ∧ excludeGlobal = false ∧ x ∈ module := by
  rw [inModule] at h
  split at h
  · rename_i hfound
    exact ⟨(Option.some.inj h).symm, hfound⟩
  · cases h

/-! ## 3. What is found is bound -/

theorem enclosing_has {module : Finset N} {excludeGlobal : Bool} {frames : List (Frame N)}
    {place : Place} (h : enclosing module x excludeGlobal frames = some place) :
    Has module frames x place := by
  induction frames generalizing place with
  | nil =>
    obtain ⟨hplace, -, hx⟩ := inModule_eq_some h
    rw [hplace]
    exact has_module.mpr hx
  | cons frame rest ih =>
    have houter : (enclosing module x excludeGlobal rest).map Place.outward = some place →
        Has module (frame :: rest) x place := by
      intro h
      obtain ⟨inner, hinner, hplace⟩ := Option.map_eq_some_iff.mp h
      rw [← hplace]
      exact has_outward.mpr (ih hinner)
    rw [enclosing] at h
    split at h
    · obtain ⟨hplace, -, hx⟩ := inModule_eq_some h
      rw [hplace]
      exact has_module.mpr hx
    · split at h
      · exact houter h
      · split at h
        · rename_i hx
          rw [← Option.some.inj h]
          exact has_here.mpr hx
        · exact houter h

theorem resolve_has {module : Finset N} {frames : List (Frame N)} {kind : AccessKind}
    {place : Place} (h : resolve module x frames = some (kind, place)) :
    Has module frames x place := by
  have hmodule : ∀ kind' : AccessKind,
      (inModule module x false).map (fun place => (kind', place)) = some (kind, place) →
        Has module frames x place := by
    intro kind' h
    obtain ⟨found, hfound, hpair⟩ := Option.map_eq_some_iff.mp h
    obtain ⟨hplace, -, hx⟩ := inModule_eq_some hfound
    rw [← (Prod.mk.inj hpair).2, hplace]
    exact has_module.mpr hx
  cases frames with
  | nil => exact hmodule _ h
  | cons frame rest =>
    have houter : ∀ (kind' : AccessKind) (excludeGlobal : Bool),
        (enclosing module x excludeGlobal rest).map (fun place => (kind', place.outward)) =
          some (kind, place) → Has module (frame :: rest) x place := by
      intro kind' excludeGlobal h
      obtain ⟨found, hfound, hpair⟩ := Option.map_eq_some_iff.mp h
      rw [← (Prod.mk.inj hpair).2]
      exact has_outward.mpr (enclosing_has hfound)
    rw [resolve] at h
    split at h
    · exact hmodule _ h
    · split at h
      · exact houter _ _ h
      · split at h
        · rename_i hx
          rw [← (Prod.mk.inj (Option.some.inj h)).2]
          exact has_here.mpr hx
        · exact houter _ _ h

/-- A block that does not declare the name binds it or leaves it to the enclosing ones. -/
theorem resolve_undeclared {module : Finset N} {frame : Frame N} {rest : List (Frame N)}
    (hglobal : x ∉ frame.globals) (hnonlocal : x ∉ frame.nonlocals) {kind : AccessKind}
    {place : Place} (h : resolve module x (frame :: rest) = some (kind, place)) :
    kind = .currentScope ∨ kind = .outerScope .undeclared := by
  rw [resolve, if_neg hglobal, if_neg hnonlocal] at h
  split at h
  · exact .inl (Prod.mk.inj (Option.some.inj h)).1.symm
  · obtain ⟨found, -, hpair⟩ := Option.map_eq_some_iff.mp h
    exact .inr (Prod.mk.inj hpair).1.symm

/-! ## 4. Narrower blocks -/

/-- The same declarations, and no more names. -/
structure Narrower (narrow wide : Frame N) : Prop where
  globals : narrow.globals = wide.globals
  nonlocals : narrow.nonlocals = wide.nonlocals
  locals : narrow.locals ⊆ wide.locals

variable {module module' : Finset N} {narrow wide : List (Frame N)}

theorem inModule_none (hmodule : module ⊆ module') {excludeGlobal : Bool}
    (h : inModule module' x excludeGlobal = none) : inModule module x excludeGlobal = none := by
  rw [inModule] at h ⊢
  rw [if_neg]
  intro hfound
  rw [if_pos ⟨hfound.1, hmodule hfound.2⟩] at h
  cases h

theorem enclosing_none (hmodule : module ⊆ module') {excludeGlobal : Bool}
    (hframes : List.Forall₂ Narrower narrow wide)
    (h : enclosing module' x excludeGlobal wide = none) :
    enclosing module x excludeGlobal narrow = none := by
  induction hframes with
  | nil => exact inModule_none hmodule h
  | @cons frame frame' rest rest' hframe hrest ih =>
    rw [enclosing] at h ⊢
    rw [hframe.globals, hframe.nonlocals]
    split at h
    · rename_i hglobal
      rw [if_pos hglobal]
      exact inModule_none hmodule h
    · rename_i hglobal
      rw [if_neg hglobal]
      split at h
      · rename_i hnonlocal
        rw [if_pos hnonlocal, ih (Option.map_eq_none_iff.mp h)]
        rfl
      · rename_i hnonlocal
        rw [if_neg hnonlocal]
        split at h
        · cases h
        · rename_i hlocal
          rw [if_neg fun hx => hlocal (hframe.locals hx), ih (Option.map_eq_none_iff.mp h)]
          rfl

theorem inModule_some {excludeGlobal : Bool} {place : Place}
    (h : inModule module' x excludeGlobal = some place) (hhas : Has module narrow x place) :
    inModule module x excludeGlobal = some place := by
  obtain ⟨hplace, hexclude, -⟩ := inModule_eq_some h
  rw [hplace] at hhas ⊢
  rw [inModule, if_pos ⟨hexclude, has_module.mp hhas⟩]

/-- If the name is bound where it was found, it is found there. -/
theorem enclosing_some {excludeGlobal : Bool} (hframes : List.Forall₂ Narrower narrow wide)
    {place : Place} (h : enclosing module' x excludeGlobal wide = some place)
    (hhas : Has module narrow x place) : enclosing module x excludeGlobal narrow = some place := by
  induction hframes generalizing place with
  | nil => exact inModule_some h hhas
  | @cons frame frame' rest rest' hframe hrest ih =>
    have houter : (enclosing module' x excludeGlobal rest').map Place.outward = some place →
        (enclosing module x excludeGlobal rest).map Place.outward = some place := by
      intro h
      obtain ⟨inner, hinner, hplace⟩ := Option.map_eq_some_iff.mp h
      rw [← hplace] at hhas ⊢
      rw [ih hinner (has_outward.mp hhas)]
      rfl
    rw [enclosing] at h ⊢
    rw [hframe.globals, hframe.nonlocals]
    split at h
    · rename_i hglobal
      rw [if_pos hglobal]
      exact inModule_some h hhas
    · rename_i hglobal
      rw [if_neg hglobal]
      split at h
      · rename_i hnonlocal
        rw [if_pos hnonlocal]
        exact houter h
      · rename_i hnonlocal
        rw [if_neg hnonlocal]
        split at h
        · rw [← Option.some.inj h] at hhas ⊢
          rw [if_pos (has_here.mp hhas)]
        · rename_i hlocal
          rw [if_neg fun hx => hlocal (hframe.locals hx)]
          exact houter h

theorem resolve_none (hmodule : module ⊆ module') (hframes : List.Forall₂ Narrower narrow wide)
    (h : resolve module' x wide = none) : resolve module x narrow = none := by
  cases hframes with
  | nil =>
    rw [resolve, Option.map_eq_none_iff] at h ⊢
    exact inModule_none hmodule h
  | @cons frame frame' rest rest' hframe hrest =>
    rw [resolve] at h ⊢
    rw [hframe.globals, hframe.nonlocals]
    split at h
    · rename_i hglobal
      rw [if_pos hglobal, inModule_none hmodule (Option.map_eq_none_iff.mp h)]
      rfl
    · rename_i hglobal
      rw [if_neg hglobal]
      split at h
      · rename_i hnonlocal
        rw [if_pos hnonlocal, enclosing_none hmodule hrest (Option.map_eq_none_iff.mp h)]
        rfl
      · rename_i hnonlocal
        rw [if_neg hnonlocal]
        split at h
        · cases h
        · rename_i hlocal
          rw [if_neg fun hx => hlocal (hframe.locals hx),
            enclosing_none hmodule hrest (Option.map_eq_none_iff.mp h)]
          rfl

theorem resolve_some (hframes : List.Forall₂ Narrower narrow wide) {kind : AccessKind}
    {place : Place} (h : resolve module' x wide = some (kind, place))
    (hhas : Has module narrow x place) : resolve module x narrow = some (kind, place) := by
  have hmoduleCase : ∀ kind' : AccessKind,
      (inModule module' x false).map (fun place => (kind', place)) = some (kind, place) →
        (inModule module x false).map (fun place => (kind', place)) = some (kind, place) := by
    intro kind' h
    obtain ⟨found, hfound, hpair⟩ := Option.map_eq_some_iff.mp h
    rw [← (Prod.mk.inj hpair).2] at hhas
    rw [inModule_some hfound hhas]
    exact congrArg some hpair
  cases hframes with
  | nil => exact hmoduleCase _ h
  | @cons frame frame' rest rest' hframe hrest =>
    have houter : ∀ (kind' : AccessKind) (excludeGlobal : Bool),
        (enclosing module' x excludeGlobal rest').map (fun place => (kind', place.outward)) =
            some (kind, place) →
          (enclosing module x excludeGlobal rest).map (fun place => (kind', place.outward)) =
            some (kind, place) := by
      intro kind' excludeGlobal h
      obtain ⟨found, hfound, hpair⟩ := Option.map_eq_some_iff.mp h
      rw [← (Prod.mk.inj hpair).2] at hhas
      rw [enclosing_some hrest hfound (has_outward.mp hhas)]
      exact congrArg some hpair
    rw [resolve] at h ⊢
    rw [hframe.globals, hframe.nonlocals]
    split at h
    · rename_i hglobal
      rw [if_pos hglobal]
      exact hmoduleCase _ h
    · rename_i hglobal
      rw [if_neg hglobal]
      split at h
      · rename_i hnonlocal
        rw [if_pos hnonlocal]
        exact houter _ _ h
      · rename_i hnonlocal
        rw [if_neg hnonlocal]
        split at h
        · have hpair := Prod.mk.inj (Option.some.inj h)
          rw [← hpair.2] at hhas
          rw [if_pos (has_here.mp hhas)]
          exact h
        · rename_i hlocal
          rw [if_neg fun hx => hlocal (hframe.locals hx)]
          exact houter _ _ h

/-- **Narrower blocks resolve a name in the same way if and only if they still bind it at the place
    where it was found.** -/
theorem resolve_eq_iff (hmodule : module ⊆ module')
    (hframes : List.Forall₂ Narrower narrow wide) :
    resolve module x narrow = resolve module' x wide ↔
      ∀ kind place, resolve module' x wide = some (kind, place) → Has module narrow x place := by
  constructor
  · intro h kind place hwide
    exact resolve_has (h.trans hwide)
  · intro h
    cases hwide : resolve module' x wide with
    | none => exact resolve_none hmodule hframes hwide
    | some found => exact resolve_some hframes hwide (h found.1 found.2 hwide)

end LexicalScope

end Pysa
