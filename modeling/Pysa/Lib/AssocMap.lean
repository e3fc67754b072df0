/-
  Subject: FINITE MAPS as association lists with distinct keys. Nothing here names the analyser.

  * `update`, `mapM` -- the operations that Mathlib's `AList` does not have;
  * `count` -- the number of keys, after an insertion and a removal;
  * `foldl_entries_read` -- a fold over the entries, read key by key;
  * `nodup_filterMap` -- what entries become has distinct keys if it keeps them.
-/
import Mathlib.Data.List.AList

namespace Pysa

universe u v w

/-- A finite map from `K` to `V`. -/
abbrev AssocMap (K : Type u) (V : Type v) := AList fun _ : K => V

namespace AssocMap

variable {K : Type u} {V : Type v} {W : Type w} {ε : Type}

section Update

variable [DecidableEq K]

theorem lookup_singleton (key key' : K) (value : V) :
    (AList.singleton key value : AssocMap K V).lookup key' =
      if key' = key then some value else none := by
  have hlist : (AList.singleton key value : AssocMap K V).lookup key' =
      List.dlookup key' [(⟨key, value⟩ : Sigma fun _ : K => V)] := rfl
  rw [hlist]
  split
  · rename_i h
    rw [h]
    exact List.dlookup_cons_eq _ _ _
  · rename_i h
    exact List.dlookup_cons_ne _ _ h

/-- The map with a new value at `key`, computed from the old one if there is one. -/
def update (key : K) (f : Option V → V) (map : AssocMap K V) : AssocMap K V :=
  map.insert key (f (map.lookup key))

theorem mem_update {key key' : K} {f : Option V → V} {map : AssocMap K V} :
    key' ∈ update key f map ↔ key' = key ∨ key' ∈ map :=
  AList.mem_insert _

/-- Updates at the elements of a list add these to the keys. -/
theorem mem_foldl_update {keys : List K} {f : Option V → V} {map : AssocMap K V} {key : K} :
    key ∈ keys.foldl (fun map key => update key f map) map ↔ key ∈ keys ∨ key ∈ map := by
  induction keys generalizing map with
  | nil => simp
  | cons key' rest ih =>
    rw [List.foldl_cons, ih, mem_update, List.mem_cons]
    constructor
    · rintro (h | h | h)
      · exact Or.inl (Or.inr h)
      · exact Or.inl (Or.inl h)
      · exact Or.inr h
    · rintro ((h | h) | h)
      · exact Or.inr (Or.inl h)
      · exact Or.inl h
      · exact Or.inr (Or.inr h)

/-- An update changes the value of its key only. -/
theorem lookup_update {key key' : K} {f : Option V → V} {map : AssocMap K V} :
    (update key f map).lookup key' =
      if key' = key then some (f (map.lookup key)) else map.lookup key' := by
  unfold update
  split
  · rename_i h
    rw [h, AList.lookup_insert]
  · rename_i h
    exact AList.lookup_insert_ne h

/-- Updates that only increase the values: a lookup after them is at least the one before, and at
    the keys of the list at least the update. -/
theorem lookup_foldl_update {keys : List K} {f : Option V → V} {P : V → Prop}
    {map : AssocMap K V} {key : K} (hmono : ∀ value, P value → P (f (some value)))
    (h : (∃ value, map.lookup key = some value ∧ P value) ∨ key ∈ keys ∧ ∀ old, P (f old)) :
    ∃ value, (keys.foldl (fun map key => update key f map) map).lookup key = some value ∧
      P value := by
  induction keys generalizing map with
  | nil =>
    rcases h with h | ⟨h, -⟩
    · exact h
    · cases h
  | cons first rest ih =>
    rw [List.foldl_cons]
    apply ih
    rw [lookup_update]
    by_cases hkey : key = first
    · left
      rw [if_pos hkey]
      refine ⟨_, rfl, ?_⟩
      rcases h with ⟨value, hvalue, hP⟩ | ⟨-, hnew⟩
      · rw [← hkey, hvalue]
        exact hmono value hP
      · exact hnew _
    · rw [if_neg hkey]
      exact h.imp_right fun ⟨hmem, hnew⟩ =>
        ⟨(List.mem_cons.mp hmem).resolve_left hkey, hnew⟩

/-- The number of keys. -/
def count (map : AssocMap K V) : ℕ := map.keys.length

theorem count_insert (key : K) (value : V) (map : AssocMap K V) :
    count (map.insert key value) =
      if (map.lookup key).isSome then count map else count map + 1 := by
  unfold count
  rw [AList.keys_insert, List.length_cons]
  by_cases hmem : key ∈ map
  · have hpos : 0 < map.keys.length := List.length_pos_of_mem (AList.mem_keys.mp hmem)
    rw [if_pos (AList.lookup_isSome.mpr hmem),
      List.length_erase_of_mem (AList.mem_keys.mp hmem)]
    omega
  · rw [if_neg (fun h => hmem (AList.lookup_isSome.mp h)),
      List.erase_of_not_mem fun h => hmem (AList.mem_keys.mpr h)]

theorem count_erase (key : K) (map : AssocMap K V) :
    count (map.erase key) = if (map.lookup key).isSome then count map - 1 else count map := by
  unfold count
  rw [AList.keys_erase]
  by_cases hmem : key ∈ map
  · rw [if_pos (AList.lookup_isSome.mpr hmem),
      List.length_erase_of_mem (AList.mem_keys.mp hmem)]
  · rw [if_neg (fun h => hmem (AList.lookup_isSome.mp h)),
      List.erase_of_not_mem fun h => hmem (AList.mem_keys.mpr h)]

theorem count_pos {key : K} {map : AssocMap K V} (h : (map.lookup key).isSome) :
    0 < count map :=
  List.length_pos_of_mem (AList.mem_keys.mp (AList.lookup_isSome.mp h))

/-- What is found after a removal was found before it. -/
theorem lookup_of_erase {key key' : K} {value : V} {map : AssocMap K V}
    (h : (map.erase key).lookup key' = some value) : key' ≠ key ∧ map.lookup key' = some value := by
  by_cases hkey : key' = key
  · rw [hkey, AList.lookup_erase] at h
    cases h
  · rw [AList.lookup_erase_ne hkey] at h
    exact ⟨hkey, h⟩

/-- What is found after an insertion is the new binding, or was found before it. -/
theorem lookup_of_insert {key key' : K} {value value' : V} {map : AssocMap K V}
    (h : (map.insert key value).lookup key' = some value') :
    (key' = key ∧ value' = value) ∨ map.lookup key' = some value' := by
  by_cases hkey : key' = key
  · rw [hkey, AList.lookup_insert] at h
    exact Or.inl ⟨hkey, (Option.some.inj h).symm⟩
  · rw [AList.lookup_insert_ne hkey] at h
    exact Or.inr h

/-- Every value of the map satisfies `P`. -/
def AllValues (P : V → Prop) (map : AssocMap K V) : Prop := ∀ entry ∈ map.entries, P entry.2

theorem AllValues.update {P : V → Prop} {key : K} {f : Option V → V} {map : AssocMap K V}
    (h : AllValues P map) (hnone : P (f none)) (hsome : ∀ value, P value → P (f (some value))) :
    AllValues P (AssocMap.update key f map) := by
  intro entry hentry
  rw [AssocMap.update, AList.entries_insert] at hentry
  rcases List.mem_cons.mp hentry with rfl | hentry
  · dsimp only
    cases hlookup : map.lookup key with
    | none => exact hnone
    | some value => exact hsome value (h _ (AList.mem_lookup_iff.mp hlookup))
  · exact h entry ((List.kerase_sublist key _).subset hentry)

theorem AllValues.foldl_update {P : V → Prop} {keys : List K} {f : Option V → V}
    {map : AssocMap K V} (h : AllValues P map) (hnone : P (f none))
    (hsome : ∀ value, P value → P (f (some value))) :
    AllValues P (keys.foldl (fun map key => AssocMap.update key f map) map) := by
  induction keys generalizing map with
  | nil => exact h
  | cons key rest ih => exact ih (h.update hnone hsome)

/-- A fold over the entries whose step for an entry changes what is read at its key only. -/
theorem foldl_entries_read {S : Type*} {R : Type*} {step : S → (Sigma fun _ : K => V) → S}
    (read : S → K → R) {g : K → V → R → R}
    (hother : ∀ entry s key, key ≠ entry.1 → read (step s entry) key = read s key)
    (hself : ∀ entry s, read (step s entry) entry.1 = g entry.1 entry.2 (read s entry.1))
    (map : AssocMap K V) (init : S) (key : K) :
    read (map.entries.foldl step init) key =
      (map.lookup key).elim (read init key) fun value => g key value (read init key) := by
  have hlist (entries : List (Sigma fun _ : K => V)) (hnodup : entries.NodupKeys) (init : S) :
      read (entries.foldl step init) key =
        (entries.dlookup key).elim (read init key) fun value => g key value (read init key) := by
    induction entries generalizing init with
    | nil => rfl
    | cons entry rest ih =>
      obtain ⟨hfirst, hrest⟩ := List.nodupKeys_cons.mp hnodup
      rw [List.foldl_cons, ih hrest]
      by_cases hkey : key = entry.1
      · subst hkey
        rw [List.dlookup_cons_eq, List.dlookup_eq_none.mpr hfirst]
        exact hself entry init
      · rw [List.dlookup_cons_ne _ _ hkey, hother entry init key hkey]
  exact hlist map.entries map.nodupKeys init

end Update

/-! ## Maps that may fail -/

def mapEntries (f : V → Except ε W) :
    List (Sigma fun _ : K => V) → Except ε (List (Sigma fun _ : K => W))
  | [] => .ok []
  | ⟨key, value⟩ :: rest =>
    match f value, mapEntries f rest with
    | .ok value, .ok rest => .ok (⟨key, value⟩ :: rest)
    | .error e, _ => .error e
    | _, .error e => .error e

theorem keys_mapEntries {f : V → Except ε W} {entries : List (Sigma fun _ : K => V)}
    {result : List (Sigma fun _ : K => W)} (h : mapEntries f entries = .ok result) :
    result.keys = entries.keys := by
  induction entries generalizing result with
  | nil =>
    cases h
    rfl
  | cons entry rest ih =>
    unfold mapEntries at h
    cases hvalue : f entry.2 with
    | error e =>
      rw [hvalue] at h
      cases h
    | ok value =>
      cases hrest : mapEntries f rest with
      | error e =>
        rw [hvalue, hrest] at h
        cases h
      | ok rest' =>
        rw [hvalue, hrest] at h
        cases h
        rw [List.keys_cons, List.keys_cons, ih hrest]

def mapM (f : V → Except ε W) (map : AssocMap K V) : Except ε (AssocMap K W) :=
  match h : mapEntries f map.entries with
  | .error e => .error e
  | .ok result =>
    .ok ⟨result, by
      rw [List.NodupKeys, keys_mapEntries h]
      exact map.keys_nodup⟩

theorem mem_mapM {f : V → Except ε W} {map : AssocMap K V} {result : AssocMap K W}
    (h : mapM f map = .ok result) (key : K) : key ∈ result ↔ key ∈ map := by
  unfold mapM at h
  split at h
  · cases h
  · rename_i result' hresult
    cases h
    rw [AList.mem_mk, keys_mapEntries hresult]
    rfl

theorem mem_mapEntries {f : V → Except ε W} {entries : List (Sigma fun _ : K => V)}
    {result : List (Sigma fun _ : K => W)} (h : mapEntries f entries = .ok result) {key : K}
    {value : V} (hmem : ⟨key, value⟩ ∈ entries) :
    ∃ value', f value = .ok value' ∧ ⟨key, value'⟩ ∈ result := by
  induction entries generalizing result with
  | nil => cases hmem
  | cons entry rest ih =>
    unfold mapEntries at h
    cases hvalue : f entry.2 with
    | error e =>
      rw [hvalue] at h
      cases h
    | ok first =>
      cases hrest : mapEntries f rest with
      | error e =>
        rw [hvalue, hrest] at h
        cases h
      | ok rest' =>
        rw [hvalue, hrest] at h
        cases h
        rcases List.mem_cons.mp hmem with rfl | hmem
        · exact ⟨first, hvalue, List.mem_cons_self⟩
        · obtain ⟨value', hvalue', hmem'⟩ := ih hrest hmem
          exact ⟨value', hvalue', List.mem_cons_of_mem _ hmem'⟩

/-- The value of a key is mapped. -/
theorem lookup_mapM [DecidableEq K] {f : V → Except ε W} {map : AssocMap K V}
    {result : AssocMap K W} (h : mapM f map = .ok result) {key : K} {value : V}
    (hlookup : map.lookup key = some value) :
    ∃ value', f value = .ok value' ∧ result.lookup key = some value' := by
  unfold mapM at h
  split at h
  · cases h
  · rename_i result' hresult
    obtain ⟨value', hvalue', hmem⟩ := mem_mapEntries hresult (AList.mem_lookup_iff.mp hlookup)
    cases h
    exact ⟨value', hvalue', AList.mem_lookup_iff.mpr hmem⟩

theorem mapEntries_isOk {f : V → Except ε W} {entries : List (Sigma fun _ : K => V)}
    (h : ∀ entry ∈ entries, ∃ value, f entry.2 = .ok value) :
    ∃ result, mapEntries f entries = .ok result := by
  induction entries with
  | nil => exact ⟨[], rfl⟩
  | cons entry rest ih =>
    obtain ⟨value, hvalue⟩ := h entry List.mem_cons_self
    obtain ⟨result, hresult⟩ := ih fun entry hentry => h entry (List.mem_cons_of_mem _ hentry)
    refine ⟨⟨entry.1, value⟩ :: result, ?_⟩
    unfold mapEntries
    rw [hvalue, hresult]

theorem mapM_isOk {f : V → Except ε W} {map : AssocMap K V}
    (h : ∀ entry ∈ map.entries, ∃ value, f entry.2 = .ok value) :
    ∃ result, mapM f map = .ok result := by
  obtain ⟨result, hresult⟩ := mapEntries_isOk h
  unfold mapM
  split
  · rename_i e herror
    rw [hresult] at herror
    cases herror
  · exact ⟨_, rfl⟩

/-- What some entries become has distinct keys if it keeps them. -/
theorem nodup_filterMap {f : (Sigma fun _ : K => V) → Option W} {key : W → K}
    {map : AssocMap K V} (h : ∀ entry ∈ map.entries, ∀ w, f entry = some w → key w = entry.1) :
    ((map.entries.filterMap f).map key).Nodup := by
  have hsub : ∀ entries : List (Sigma fun _ : K => V),
      (∀ entry ∈ entries, ∀ w, f entry = some w → key w = entry.1) →
        ((entries.filterMap f).map key).Sublist (entries.map Sigma.fst) := by
    intro entries hentries
    induction entries with
    | nil => exact List.Sublist.refl _
    | cons entry rest ih =>
      have hrest := ih fun other hother => hentries other (List.mem_cons_of_mem _ hother)
      rw [List.filterMap_cons]
      split
      · exact hrest.cons _
      · rename_i w hw
        rw [List.map_cons, List.map_cons, hentries entry List.mem_cons_self w hw]
        exact hrest.cons_cons _
  exact map.keys_nodup.sublist (hsub map.entries h)

end AssocMap

end Pysa
