/-
  Subject: FINITE MAPS AND SETS KEPT SORTED. Nothing here names the analyser.

  A map is its strictly increasing list of keys and a total function on the keys that occur, so
  two maps with the same lookups are equal (`ext_find?`) and no operation has to re-prove that
  the representation is well formed. A tree type may nest through this structure: its invariant
  speaks about the keys only.

  * `find?`, `add`, `remove`, `setOrRemove`, `filterMapi`, `merge` -- each with its lookup lemma;
  * `fold` -- in increasing key order; `fold_once` follows the step of one key, `find?_fold`
    computes a lookup in a map that was built by a fold whose step for `k` touches the entry `k`
    only;
  * `foldM` -- a fold whose step may fail;
  * `bindings` -- the list that a fold runs over;
  * `sum` -- of a number over the values, compared value by value (`sum_le_sum`);
  * `attach` -- the same map with the proof that a value occurs, for recursion through `fold`;
  * `SortedSet` -- `add`, `remove`, `union`, `filter`, `diff`, `inter`, `ofList`, each with its
    membership lemma, `any`, `all`, `subset`, `fold` in increasing order, and `ext`.
-/
import Mathlib.Algebra.Order.BigOperators.Group.Finset
import Mathlib.Data.Finset.Sort
import Mathlib.Order.Lex

namespace Pysa

universe u v w

/-- A finite map: its keys in increasing order, and a value for each of them. -/
structure SortedMap (K : Type u) [LinearOrder K] (V : Type v) where
  keys : List K
  sorted : keys.Pairwise (· < ·)
  get : {k // k ∈ keys} → V

namespace SortedMap

variable {K : Type u} [LinearOrder K] {V : Type v} {W : Type w}

/-! ## 1. Lookups -/

/-- The value bound to `k`, if any. -/
def find? (k : K) (m : SortedMap K V) : Option V :=
  if h : k ∈ m.keys then some (m.get ⟨k, h⟩) else none

theorem find?_of_mem {m : SortedMap K V} {k : K} (h : k ∈ m.keys) :
    m.find? k = some (m.get ⟨k, h⟩) := dif_pos h

theorem find?_eq_none {m : SortedMap K V} {k : K} : m.find? k = none ↔ k ∉ m.keys := by
  unfold find?
  split <;> simp_all

theorem isSome_find? {m : SortedMap K V} {k : K} : (m.find? k).isSome ↔ k ∈ m.keys := by
  rw [← not_iff_not, ← find?_eq_none]
  cases m.find? k <;> simp

theorem mem_of_find? {m : SortedMap K V} {k : K} {v : V} (h : m.find? k = some v) :
    k ∈ m.keys := isSome_find?.mp (by rw [h]; rfl)

theorem get_of_find? {m : SortedMap K V} {k : K} {v : V} (h : m.find? k = some v) :
    m.get ⟨k, mem_of_find? h⟩ = v := by
  rw [find?_of_mem (mem_of_find? h)] at h
  exact Option.some.inj h

theorem find?_get (m : SortedMap K V) (k : {k // k ∈ m.keys}) :
    m.find? k.1 = some (m.get k) := find?_of_mem k.2

/-- Two strictly increasing lists with the same members are equal. -/
theorem keys_ext {l₁ l₂ : List K} (h₁ : l₁.Pairwise (· < ·)) (h₂ : l₂.Pairwise (· < ·))
    (h : ∀ k, k ∈ l₁ ↔ k ∈ l₂) : l₁ = l₂ :=
  (List.perm_of_nodup_nodup_toFinset_eq (h₁.imp ne_of_lt) (h₂.imp ne_of_lt)
    (by ext k; simp [h k])).eq_of_pairwise
      (fun _ _ _ _ hab hba => absurd hab (not_lt.mpr hba.le)) h₁ h₂

/-- **A map is determined by its lookups.** -/
theorem ext_find? {m m' : SortedMap K V} (h : ∀ k, m.find? k = m'.find? k) : m = m' := by
  obtain ⟨ks, hs, g⟩ := m
  obtain ⟨ks', hs', g'⟩ := m'
  have hk : ks = ks' := keys_ext hs hs' fun k => by
    have := isSome_find? (m := ⟨ks, hs, g⟩) (k := k)
    rw [h k, isSome_find?] at this
    exact this.symm
  subst hk
  congr 1
  funext k
  have := h k.1
  rw [find?_of_mem k.2, find?_of_mem k.2] at this
  exact Option.some.inj this

/-! ## 2. Building maps -/

/-- The empty map. -/
def empty : SortedMap K V := ⟨[], .nil, fun k => absurd k.2 List.not_mem_nil⟩

@[simp] theorem find?_empty (k : K) : (empty : SortedMap K V).find? k = none :=
  find?_eq_none.mpr List.not_mem_nil

/-- No key is bound. -/
def isEmpty (m : SortedMap K V) : Bool := m.keys.isEmpty

theorem isEmpty_iff {m : SortedMap K V} : m.isEmpty = true ↔ ∀ k, m.find? k = none := by
  simp only [isEmpty, List.isEmpty_iff, find?_eq_none, List.eq_nil_iff_forall_not_mem]

theorem isEmpty_iff_eq {m : SortedMap K V} : m.isEmpty = true ↔ m = empty := by
  rw [isEmpty_iff]
  exact ⟨fun h => ext_find? fun k => by rw [h, find?_empty], fun h k => by rw [h, find?_empty]⟩

theorem exists_of_not_isEmpty {m : SortedMap K V} (h : ¬ m.isEmpty = true) :
    ∃ k v, m.find? k = some v := by
  rw [isEmpty_iff] at h
  push Not at h
  obtain ⟨k, hk⟩ := h
  exact ⟨k, Option.ne_none_iff_exists'.mp hk⟩

/-- Insertion of a key into an increasing list. -/
def insertKey (k : K) : List K → List K
  | [] => [k]
  | k' :: ks => if k < k' then k :: k' :: ks else if k = k' then k' :: ks else k' :: insertKey k ks

theorem mem_insertKey {k x : K} {l : List K} : x ∈ insertKey k l ↔ x = k ∨ x ∈ l := by
  induction l with
  | nil => simp [insertKey]
  | cons k' ks ih =>
    simp only [insertKey]
    split_ifs with h1 h2
    · simp
    · subst h2; simp
    · simp only [List.mem_cons, ih]
      tauto

theorem sorted_insertKey {k : K} {l : List K} (h : l.Pairwise (· < ·)) :
    (insertKey k l).Pairwise (· < ·) := by
  induction l with
  | nil => simp [insertKey]
  | cons k' ks ih =>
    simp only [insertKey]
    rw [List.pairwise_cons] at h
    split_ifs with h1 h2
    · refine List.pairwise_cons.mpr ⟨fun a ha => ?_, List.pairwise_cons.mpr h⟩
      rcases List.mem_cons.mp ha with rfl | ha
      · exact h1
      · exact h1.trans (h.1 a ha)
    · exact List.pairwise_cons.mpr h
    · refine List.pairwise_cons.mpr ⟨fun a ha => ?_, ih h.2⟩
      rcases mem_insertKey.mp ha with rfl | ha
      · exact lt_of_le_of_ne (not_lt.mp h1) (Ne.symm h2)
      · exact h.1 a ha

/-- `m` with `k` bound to `v`. -/
def add (k : K) (v : V) (m : SortedMap K V) : SortedMap K V :=
  ⟨insertKey k m.keys, sorted_insertKey m.sorted, fun x =>
    if hx : x.1 ∈ m.keys ∧ x.1 ≠ k then m.get ⟨x.1, hx.1⟩ else v⟩

theorem find?_add (k x : K) (v : V) (m : SortedMap K V) :
    (m.add k v).find? x = if x = k then some v else m.find? x := by
  by_cases hx : x = k
  · subst hx
    rw [if_pos rfl, find?_of_mem (show x ∈ (m.add x v).keys from mem_insertKey.mpr (Or.inl rfl))]
    simp [add]
  · rw [if_neg hx]
    by_cases hm : x ∈ m.keys
    · rw [find?_of_mem hm,
        find?_of_mem (show x ∈ (m.add k v).keys from mem_insertKey.mpr (Or.inr hm))]
      simp [add, hx, hm]
    · rw [find?_eq_none.mpr hm, find?_eq_none]
      exact fun h => (mem_insertKey.mp h).elim hx hm

/-- The map that binds `k` only. -/
def singleton (k : K) (v : V) : SortedMap K V := empty.add k v

theorem find?_singleton (k x : K) (v : V) :
    (singleton k v).find? x = if x = k then some v else none := by
  rw [singleton, find?_add, find?_empty]

/-- `m` without `k`. -/
def remove (k : K) (m : SortedMap K V) : SortedMap K V :=
  ⟨m.keys.filter (· ≠ k), m.sorted.filter _, fun x => m.get ⟨x.1, (List.mem_filter.mp x.2).1⟩⟩

theorem find?_remove (k x : K) (m : SortedMap K V) :
    (m.remove k).find? x = if x = k then none else m.find? x := by
  unfold find? remove
  by_cases hx : x = k <;> by_cases hm : x ∈ m.keys <;> simp [hx, hm]

/-- Bind `k` to the value given, or remove it when there is none. -/
def setOrRemove (k : K) (value : Option V) (m : SortedMap K V) : SortedMap K V :=
  match value with
  | none => m.remove k
  | some v => m.add k v

theorem find?_setOrRemove (k x : K) (value : Option V) (m : SortedMap K V) :
    (m.setOrRemove k value).find? x = if x = k then value else m.find? x := by
  cases value with
  | none => exact find?_remove k x m
  | some v => exact find?_add k x v m

/-- Rebind `k` to what `f` makes of its present value. -/
def update (k : K) (f : Option V → Option V) (m : SortedMap K V) : SortedMap K V :=
  m.setOrRemove k (f (m.find? k))

theorem find?_update (k x : K) (f : Option V → Option V) (m : SortedMap K V) :
    (m.update k f).find? x = if x = k then f (m.find? k) else m.find? x :=
  find?_setOrRemove k x _ m

/-- An update that always binds `k` adds it to the keys. -/
theorem mem_keys_update {k x : K} {f : Option V → V} {m : SortedMap K V} :
    x ∈ (m.update k fun old => some (f old)).keys ↔ x = k ∨ x ∈ m.keys := by
  rw [← isSome_find?, find?_update, ← isSome_find? (m := m)]
  by_cases hx : x = k <;> simp [hx]

/-! ## 3. Mapping and filtering -/

/-- Keep the keys at which `f` has a value, with that value. -/
def filterMapi (f : K → V → Option W) (m : SortedMap K V) : SortedMap K W where
  keys := m.keys.filter fun k => ((m.find? k).bind (f k)).isSome
  sorted := m.sorted.filter _
  get k := ((m.find? k.1).bind (f k.1)).get (List.mem_filter.mp k.2).2

theorem find?_filterMapi (f : K → V → Option W) (m : SortedMap K V) (k : K) :
    (m.filterMapi f).find? k = (m.find? k).bind (f k) := by
  by_cases h : k ∈ (m.filterMapi f).keys
  · rw [find?_of_mem h]
    exact Option.some_get _
  · rw [find?_eq_none.mpr h]
    simp only [filterMapi, List.mem_filter, not_and, Bool.not_eq_true,
      Option.isSome_eq_false_iff, Option.isNone_iff_eq_none] at h
    by_cases hk : k ∈ m.keys
    · exact (h hk).symm
    · rw [find?_eq_none.mpr hk]; rfl

/-- `filterMapi` for a function of the value only. -/
def filterMap (f : V → Option W) (m : SortedMap K V) : SortedMap K W := m.filterMapi fun _ v => f v

theorem find?_filterMap (f : V → Option W) (m : SortedMap K V) (k : K) :
    (m.filterMap f).find? k = (m.find? k).bind f := find?_filterMapi _ m k

/-- The same map, each value with the proof that it occurs. -/
def attach (m : SortedMap K V) : SortedMap K {v : V // ∃ k, m.find? k = some v} :=
  ⟨m.keys, m.sorted, fun k => ⟨m.get k, k.1, find?_get m k⟩⟩

theorem find?_attach (m : SortedMap K V) (k : K) : (m.attach.find? k).map (·.1) = m.find? k := by
  by_cases h : k ∈ m.keys
  · rw [find?_of_mem h, find?_of_mem (show k ∈ m.attach.keys from h)]
    rfl
  · rw [find?_eq_none.mpr h, find?_eq_none.mpr (show k ∉ m.attach.keys from h)]
    rfl

/-- A binding of the attached map is one of the map. -/
theorem find?_of_attach {m : SortedMap K V} {k : K} {v : {v : V // ∃ k, m.find? k = some v}}
    (h : m.attach.find? k = some v) : m.find? k = some v.1 := by
  rw [← find?_attach, h]
  rfl

@[simp] theorem attach_filterMapi (f : K → V → Option W) (m : SortedMap K V) :
    m.attach.filterMapi (fun k v => f k v.1) = m.filterMapi f := by
  refine ext_find? fun k => ?_
  rw [find?_filterMapi, find?_filterMapi, ← find?_attach m k]
  cases m.attach.find? k <;> rfl

@[simp] theorem attach_filterMap (f : V → Option W) (m : SortedMap K V) :
    m.attach.filterMap (fun v => f v.1) = m.filterMap f := attach_filterMapi (fun _ v => f v) m

/-- Does every binding pass the test? -/
def all (f : K → V → Bool) (m : SortedMap K V) : Bool := m.keys.attach.all fun k => f k.1 (m.get k)

theorem all_iff {f : K → V → Bool} {m : SortedMap K V} :
    m.all f = true ↔ ∀ k v, m.find? k = some v → f k v = true := by
  simp only [all, List.all_eq_true, List.mem_attach, forall_const, Subtype.forall]
  constructor
  · intro h k v hv
    rw [← get_of_find? hv]
    exact h k (mem_of_find? hv)
  · intro h k hk
    exact h k _ (find?_of_mem hk)

theorem attach_all_iff {m : SortedMap K V} {f : K → {v : V // ∃ k, m.find? k = some v} → Bool} :
    m.attach.all f = true ↔ ∀ k v (h : m.find? k = some v), f k ⟨v, k, h⟩ = true := by
  rw [all_iff]
  constructor
  · intro h k v hv
    have hm : k ∈ m.keys := mem_of_find? hv
    have hk : m.attach.find? k = some (m.attach.get ⟨k, hm⟩) := find?_of_mem (m := m.attach) hm
    have hv' : m.get ⟨k, hm⟩ = v := get_of_find? hv
    subst hv'
    exact h k _ hk
  · intro h k v hv
    exact h k v.1 (find?_of_attach hv)

/-! ## 4. Folds -/

/-- Fold over the bindings in increasing key order. -/
def fold {A : Type w} (f : K → V → A → A) (init : A) (m : SortedMap K V) : A :=
  m.keys.attach.foldl (fun acc k => f k.1 (m.get k) acc) init

@[simp] theorem attach_fold {A : Type w} (f : K → V → A → A) (init : A) (m : SortedMap K V) :
    m.attach.fold (fun k v acc => f k v.1 acc) init = m.fold f init := rfl

/-- **Fold induction**: what holds at the start and is kept by the step for each binding holds at
    the end. -/
theorem fold_induction {A : Type w} {f : K → V → A → A} {init : A} {m : SortedMap K V}
    (P : A → Prop) (h0 : P init) (hs : ∀ k v acc, m.find? k = some v → P acc → P (f k v acc)) :
    P (m.fold f init) := by
  unfold fold
  generalize m.keys.attach = ks
  induction ks generalizing init with
  | nil => exact h0
  | cons k ks ih => exact ih (hs _ _ _ (find?_get m k) h0)

/-- What a single step establishes and every other step keeps holds at the end. -/
theorem fold_establishes {A : Type w} {f : K → V → A → A} {init : A} {m : SortedMap K V}
    (P : A → Prop) {k : K} {v : V} (hk : m.find? k = some v) (h1 : ∀ acc, P (f k v acc))
    (hs : ∀ k' v' acc, m.find? k' = some v' → P acc → P (f k' v' acc)) :
    P (m.fold f init) := by
  unfold fold
  have hmem : (⟨k, mem_of_find? hk⟩ : {k // k ∈ m.keys}) ∈ m.keys.attach := List.mem_attach _ _
  obtain ⟨ks₁, ks₂, hks⟩ := List.append_of_mem hmem
  rw [hks, List.foldl_append, List.foldl_cons, get_of_find? hk]
  generalize ks₁.foldl (fun acc k => f k.1 (m.get k) acc) init = acc
  have h2 := h1 acc
  generalize f k v acc = acc' at h2
  clear hks
  induction ks₂ generalizing acc' with
  | nil => exact h2
  | cons k' ks ih => exact ih _ (hs _ _ _ (find?_get m k') h2)

/-- **One step of a fold**: what the steps before a key keep, its own step turns into what the
    steps after it keep. -/
theorem fold_once {A : Type w} {f : K → V → A → A} {init : A} {m : SortedMap K V}
    (P Q : A → Prop) {k : K} {v : V} (hk : m.find? k = some v) (h0 : P init)
    (hbefore : ∀ k' v' acc, k' ≠ k → m.find? k' = some v' → P acc → P (f k' v' acc))
    (h1 : ∀ acc, P acc → Q (f k v acc))
    (hafter : ∀ k' v' acc, k' ≠ k → m.find? k' = some v' → Q acc → Q (f k' v' acc)) :
    Q (m.fold f init) := by
  have hrun : ∀ (R : A → Prop) (ks : List {k // k ∈ m.keys}), (∀ x ∈ ks, x.1 ≠ k) →
      (∀ k' v' acc, k' ≠ k → m.find? k' = some v' → R acc → R (f k' v' acc)) →
      ∀ acc, R acc → R (ks.foldl (fun acc k => f k.1 (m.get k) acc) acc) := by
    intro R ks hne hstep
    induction ks with
    | nil => exact fun _ hacc => hacc
    | cons x rest ih =>
      rw [List.forall_mem_cons] at hne
      exact fun acc hacc => ih hne.2 _ (hstep _ _ _ hne.1 (find?_get m x) hacc)
  have hmem : (⟨k, mem_of_find? hk⟩ : {k // k ∈ m.keys}) ∈ m.keys.attach := List.mem_attach _ _
  obtain ⟨before, after, hks⟩ := List.append_of_mem hmem
  have hnodup : (m.keys.attach.map (·.1)).Nodup := by
    rw [List.attach_map_subtype_val]
    exact m.sorted.imp ne_of_lt
  rw [hks, List.map_append, List.map_cons, List.nodup_append, List.nodup_cons] at hnodup
  obtain ⟨-, ⟨hnotAfter, -⟩, hdisjoint⟩ := hnodup
  unfold fold
  rw [hks, List.foldl_append, List.foldl_cons, get_of_find? hk]
  refine hrun Q after (fun x hx hkey => hnotAfter (List.mem_map.mpr ⟨x, hx, hkey⟩)) hafter _
    (h1 _ (hrun P before (fun x hx hkey => ?_) hbefore _ h0))
  exact hdisjoint x.1 (List.mem_map_of_mem hx) k List.mem_cons_self hkey

/-- A fold over a map with other values at the same keys. -/
theorem fold_map {A : Type w} {V' : Type*} {m : SortedMap K V} {m' : SortedMap K V'} {g : V → V'}
    (h : ∀ k, m'.find? k = (m.find? k).map g) (f : K → V' → A → A) (init : A) :
    m'.fold f init = m.fold (fun k v acc => f k (g v) acc) init := by
  obtain ⟨ks, hs, get⟩ := m
  obtain ⟨ks', hs', get'⟩ := m'
  have hkeys : ks = ks' := keys_ext hs hs' fun k => by
    have hk := isSome_find? (m := ⟨ks', hs', get'⟩) (k := k)
    rw [h k, Option.isSome_map, isSome_find?] at hk
    exact hk
  subst hkeys
  refine List.foldl_ext _ _ _ fun acc k _ => ?_
  have hk := h k.1
  rw [find?_get ⟨ks, hs, get'⟩ k, find?_get ⟨ks, hs, get⟩ k, Option.map_some] at hk
  rw [Option.some.inj hk]

/-- **A lookup in a map built by a fold**: when the step for `k` leaves the other entries alone
    and makes `g k v old` of the entry `k`, each bound key was stepped over exactly once. -/
theorem find?_fold {f : K → V → SortedMap K W → SortedMap K W} {init : SortedMap K W}
    {m : SortedMap K V} (g : K → V → Option W → Option W)
    (hother : ∀ k v acc x, x ≠ k → (f k v acc).find? x = acc.find? x)
    (hself : ∀ k v acc, (f k v acc).find? k = g k v (acc.find? k)) (x : K) :
    (m.fold f init).find? x =
      match m.find? x with
      | some v => g x v (init.find? x)
      | none => init.find? x := by
  have key : ∀ (ks : List {k // k ∈ m.keys}), (ks.map (·.1)).Nodup → ∀ acc : SortedMap K W,
      (ks.foldl (fun acc k => f k.1 (m.get k) acc) acc).find? x =
        if h : ∃ hx : x ∈ m.keys, ⟨x, hx⟩ ∈ ks then g x (m.get ⟨x, h.1⟩) (acc.find? x)
        else acc.find? x := by
    intro ks
    induction ks with
    | nil => intro _ acc; simp
    | cons k ks ih =>
      intro hn acc
      rw [List.map_cons, List.nodup_cons] at hn
      rw [List.foldl_cons, ih hn.2]
      by_cases hx : x = k.1
      · -- `x` is the key of this step, so no later step touches it
        have hlater : ¬ ∃ hx : x ∈ m.keys, ⟨x, hx⟩ ∈ ks := by
          rintro ⟨h1, h2⟩
          exact hn.1 (hx ▸ List.mem_map.mpr ⟨_, h2, rfl⟩)
        obtain ⟨k, hk⟩ := k
        subst hx
        rw [dif_neg hlater, dif_pos ⟨hk, List.mem_cons_self⟩, hself]
      · rw [hother _ _ _ _ hx]
        have : (∃ hx : x ∈ m.keys, ⟨x, hx⟩ ∈ k :: ks) ↔ ∃ hx : x ∈ m.keys, ⟨x, hx⟩ ∈ ks := by
          constructor
          · rintro ⟨h1, h2⟩
            refine ⟨h1, (List.mem_cons.mp h2).resolve_left fun e => hx ?_⟩
            rw [← e]
          · rintro ⟨h1, h2⟩
            exact ⟨h1, List.mem_cons_of_mem _ h2⟩
        simp only [this]
  have hnd : (m.keys.attach.map (·.1)).Nodup := by
    rw [List.attach_map_subtype_val]
    exact m.sorted.imp ne_of_lt
  unfold fold
  rw [key _ hnd init]
  by_cases h : x ∈ m.keys
  · rw [dif_pos ⟨h, List.mem_attach _ _⟩, find?_of_mem h]
  · rw [dif_neg (fun ⟨h1, _⟩ => h h1), find?_eq_none.mpr h]

/-- `find?_fold` for a fold that sets or removes each key. -/
theorem find?_fold_setOrRemove {init : SortedMap K W} {m : SortedMap K V} (g : K → V → Option W)
    (x : K) :
    (m.fold (fun k v acc => acc.setOrRemove k (g k v)) init).find? x =
      match m.find? x with
      | some v => g x v
      | none => init.find? x :=
  find?_fold (fun k v _ => g k v)
    (fun _ _ _ _ hx => by rw [find?_setOrRemove, if_neg hx])
    (fun _ _ _ => by rw [find?_setOrRemove, if_pos rfl]) x

/-- The map that a fold rebuilds from nothing. -/
theorem find?_fold_add (g : K → V → W) (m : SortedMap K V) (x : K) :
    (m.fold (fun k v acc => acc.add k (g k v)) empty).find? x = (m.find? x).map (g x) := by
  refine (find?_fold_setOrRemove (fun k v => some (g k v)) x).trans ?_
  cases m.find? x with
  | none => exact find?_empty x
  | some v => rfl

/-- A fold whose step may fail; the first failure ends it. -/
def foldM {A : Type w} {ε : Type} (f : K → V → A → Except ε A) (init : A) (m : SortedMap K V) :
    Except ε A :=
  m.fold (fun k v acc => acc.bind (f k v)) (.ok init)

/-- When each step has a value, so has the fold. -/
theorem foldM_eq_ok {A : Type w} {ε : Type} {f : K → V → A → Except ε A} {g : K → V → A → A}
    {init : A} {m : SortedMap K V} (h : ∀ k v acc, m.find? k = some v → f k v acc = .ok (g k v acc)) :
    m.foldM f init = .ok (m.fold g init) := by
  unfold foldM fold
  generalize m.keys.attach = ks
  induction ks generalizing init with
  | nil => rfl
  | cons k ks ih =>
    rw [List.foldl_cons, List.foldl_cons, ← ih]
    congr 1
    exact h _ _ _ (find?_get m k)

/-! ## 5. Bindings and sums -/

/-- The bindings in increasing key order. -/
def bindings (m : SortedMap K V) : List (K × V) := m.keys.attach.map fun k => (k.1, m.get k)

theorem mem_bindings {m : SortedMap K V} {k : K} {v : V} :
    (k, v) ∈ m.bindings ↔ m.find? k = some v := by
  unfold bindings
  rw [List.mem_map]
  constructor
  · intro h
    obtain ⟨k', -, h⟩ := h
    rw [Prod.mk.injEq] at h
    rw [← h.1, ← h.2]
    exact find?_get m k'
  · intro h
    exact ⟨⟨k, mem_of_find? h⟩, List.mem_attach _ _, by rw [get_of_find? h]⟩

theorem sorted_bindings (m : SortedMap K V) : m.bindings.Pairwise (·.1 < ·.1) := by
  have hkeys : (m.keys.attach.map (·.1)).Pairwise (· < ·) := by
    rw [List.attach_map_subtype_val]
    exact m.sorted
  unfold bindings
  rw [List.pairwise_map] at hkeys ⊢
  exact hkeys

theorem fold_eq_foldl {A : Type w} (f : K → V → A → A) (init : A) (m : SortedMap K V) :
    m.fold f init = m.bindings.foldl (fun acc binding => f binding.1 binding.2 acc) init := by
  unfold fold bindings
  rw [List.foldl_map]

def sum (f : V → ℕ) (m : SortedMap K V) : ℕ := m.fold (fun _ v total => f v + total) 0

theorem sum_eq (f : V → ℕ) (m : SortedMap K V) :
    m.sum f = ∑ k ∈ m.keys.toFinset, ((m.find? k).map f).getD 0 := by
  have hfold : ∀ (keys : List {k // k ∈ m.keys}) (total : ℕ),
      keys.foldl (fun total k => f (m.get k) + total) total =
        (keys.map fun k => ((m.find? k.1).map f).getD 0).sum + total := by
    intro keys
    induction keys with
    | nil => exact fun total => (Nat.zero_add total).symm
    | cons k keys ih =>
      intro total
      rw [List.foldl_cons, ih, List.map_cons, List.sum_cons, find?_get, Option.map_some,
        Option.getD_some]
      omega
  rw [List.sum_toFinset _ (m.sorted.imp ne_of_lt)]
  refine (hfold m.keys.attach 0).trans ?_
  rw [Nat.add_zero, ← List.attach_map_subtype_val m.keys, List.map_map, List.attach_map_subtype_val]
  rfl

/-- Fewer and smaller values have a smaller sum. -/
theorem sum_le_sum {m : SortedMap K V} {m' : SortedMap K W} {f : V → ℕ} {g : W → ℕ}
    (h : ∀ k v, m.find? k = some v → ∃ v', m'.find? k = some v' ∧ f v ≤ g v') :
    m.sum f ≤ m'.sum g := by
  rw [sum_eq, sum_eq]
  refine (Finset.sum_le_sum fun k hk => ?_).trans (Finset.sum_le_sum_of_subset fun k hk => ?_)
  · obtain ⟨v', hv', hle⟩ := h k _ (find?_of_mem (List.mem_toFinset.mp hk))
    rw [find?_of_mem (List.mem_toFinset.mp hk), hv']
    exact hle
  · obtain ⟨v', hv', -⟩ := h k _ (find?_of_mem (List.mem_toFinset.mp hk))
    exact List.mem_toFinset.mpr (mem_of_find? hv')

theorem le_sum {m : SortedMap K V} {k : K} {v : V} (hk : m.find? k = some v) (f : V → ℕ) :
    f v ≤ m.sum f := by
  rw [sum_eq]
  have hle := Finset.single_le_sum (f := fun k => ((m.find? k).map f).getD 0)
    (fun _ _ => Nat.zero_le _) (List.mem_toFinset.mpr (mem_of_find? hk))
  rwa [hk] at hle

/-! ## 6. Merging -/

/-- What a key is bound to in two maps: on the left only, on the right only, or in both. -/
inductive Side (V : Type v) (W : Type w) where
  | left (v : V)
  | right (w : W)
  | both (v : V) (w : W)

/-- The side of a pair of lookups; `none` when neither map binds the key. -/
def side (l : Option V) (r : Option W) : Option (Side V W) :=
  match l, r with
  | some v, none => some (.left v)
  | none, some w => some (.right w)
  | some v, some w => some (.both v w)
  | none, none => none

/-- Every key of either map, with its side. -/
def merge (l : SortedMap K V) (r : SortedMap K W) : SortedMap K (Side V W) :=
  r.fold (fun k w acc => acc.setOrRemove k (side (l.find? k) (some w)))
    (l.filterMapi fun _ v => some (.left v))

theorem find?_merge (l : SortedMap K V) (r : SortedMap K W) (k : K) :
    (l.merge r).find? k = side (l.find? k) (r.find? k) := by
  rw [merge, find?_fold_setOrRemove, find?_filterMapi]
  cases l.find? k <;> cases r.find? k <;> rfl

/-- The bindings of both maps; `f` combines the values of a key of both. -/
def union (l : SortedMap K V) (f : V → V → V) (r : SortedMap K V) : SortedMap K V :=
  (l.merge r).filterMap fun
    | .left v => some v
    | .right w => some w
    | .both v w => some (f v w)

theorem find?_union (f : V → V → V) (l r : SortedMap K V) (k : K) :
    (l.union f r).find? k =
      match l.find? k, r.find? k with
      | some v, some w => some (f v w)
      | some v, none => some v
      | none, right => right := by
  rw [union, find?_filterMap, find?_merge]
  cases l.find? k <;> cases r.find? k <;> rfl

end SortedMap

/-! ## 7. Sets -/

/-- A finite set: its elements in increasing order. -/
structure SortedSet (K : Type u) [LinearOrder K] where
  elements : List K
  sorted : elements.Pairwise (· < ·)

namespace SortedSet

variable {K : Type u} [LinearOrder K]

instance : Membership K (SortedSet K) := ⟨fun set x => x ∈ set.elements⟩

instance : DecidableEq (SortedSet K) := fun s t =>
  decidable_of_iff (s.elements = t.elements) (by cases s; cases t; simp)

instance (x : K) (set : SortedSet K) : Decidable (x ∈ set) :=
  inferInstanceAs (Decidable (x ∈ set.elements))

theorem mem_elements {x : K} {set : SortedSet K} : x ∈ set.elements ↔ x ∈ set := Iff.rfl

theorem ext {s t : SortedSet K} (h : ∀ x, x ∈ s ↔ x ∈ t) : s = t := by
  obtain ⟨elements, hsorted⟩ := s
  obtain ⟨elements', hsorted'⟩ := t
  obtain rfl : elements = elements' := SortedMap.keys_ext hsorted hsorted' h
  rfl

theorem nodup (set : SortedSet K) : set.elements.Nodup := set.sorted.imp ne_of_lt

def empty : SortedSet K := ⟨[], .nil⟩

@[simp] theorem notMem_empty (x : K) : x ∉ (empty : SortedSet K) := List.not_mem_nil

def add (x : K) (set : SortedSet K) : SortedSet K :=
  ⟨SortedMap.insertKey x set.elements, SortedMap.sorted_insertKey set.sorted⟩

@[simp] theorem mem_add {x y : K} {set : SortedSet K} : y ∈ add x set ↔ y = x ∨ y ∈ set :=
  SortedMap.mem_insertKey

def singleton (x : K) : SortedSet K := add x empty

@[simp] theorem mem_singleton {x y : K} : y ∈ singleton x ↔ y = x := by simp [singleton]

def remove (x : K) (set : SortedSet K) : SortedSet K :=
  ⟨set.elements.filter (· ≠ x), set.sorted.filter _⟩

@[simp] theorem mem_remove {x y : K} {set : SortedSet K} :
    y ∈ remove x set ↔ y ∈ set ∧ y ≠ x := by
  rw [← mem_elements, remove, List.mem_filter, decide_eq_true_eq]
  rfl

def addAll (list : List K) (set : SortedSet K) : SortedSet K :=
  list.foldl (fun set x => add x set) set

theorem mem_addAll {list : List K} {set : SortedSet K} {x : K} :
    x ∈ addAll list set ↔ x ∈ list ∨ x ∈ set := by
  unfold addAll
  induction list generalizing set with
  | nil => simp
  | cons y rest ih =>
    rw [List.foldl_cons, ih, mem_add, List.mem_cons]
    constructor
    · rintro (h | h | h)
      · exact Or.inl (Or.inr h)
      · exact Or.inl (Or.inl h)
      · exact Or.inr h
    · rintro ((h | h) | h)
      · exact Or.inr (Or.inl h)
      · exact Or.inl h
      · exact Or.inr (Or.inr h)

def ofList (list : List K) : SortedSet K := addAll list empty

@[simp] theorem mem_ofList {list : List K} {x : K} : x ∈ ofList list ↔ x ∈ list := by
  simp [ofList, mem_addAll]

def union (s t : SortedSet K) : SortedSet K := addAll s.elements t

@[simp] theorem mem_union {s t : SortedSet K} {x : K} : x ∈ union s t ↔ x ∈ s ∨ x ∈ t :=
  mem_addAll

def filter (p : K → Bool) (set : SortedSet K) : SortedSet K :=
  ⟨set.elements.filter p, set.sorted.filter _⟩

@[simp] theorem mem_filter {p : K → Bool} {set : SortedSet K} {x : K} :
    x ∈ filter p set ↔ x ∈ set ∧ p x = true := List.mem_filter

def diff (s t : SortedSet K) : SortedSet K := s.filter fun x => decide (x ∉ t)

@[simp] theorem mem_diff {s t : SortedSet K} {x : K} : x ∈ diff s t ↔ x ∈ s ∧ x ∉ t := by
  rw [diff, mem_filter, decide_eq_true_eq]

def inter (s t : SortedSet K) : SortedSet K := s.filter fun x => decide (x ∈ t)

@[simp] theorem mem_inter {s t : SortedSet K} {x : K} : x ∈ inter s t ↔ x ∈ s ∧ x ∈ t := by
  rw [inter, mem_filter, decide_eq_true_eq]

/-- `Set.exists`. -/
def any (p : K → Bool) (set : SortedSet K) : Bool := set.elements.any p

theorem any_iff {p : K → Bool} {set : SortedSet K} :
    set.any p = true ↔ ∃ x ∈ set, p x = true := List.any_eq_true

/-- `Set.for_all`. -/
def all (p : K → Bool) (set : SortedSet K) : Bool := set.elements.all p

theorem all_iff {p : K → Bool} {set : SortedSet K} :
    set.all p = true ↔ ∀ x ∈ set, p x = true := List.all_eq_true

def subset (s t : SortedSet K) : Bool := s.all fun x => decide (x ∈ t)

theorem subset_iff {s t : SortedSet K} : s.subset t = true ↔ ∀ x ∈ s, x ∈ t := by
  simp only [subset, all_iff, decide_eq_true_eq]

def isEmpty (set : SortedSet K) : Bool := set.elements.isEmpty

theorem isEmpty_iff {set : SortedSet K} : set.isEmpty = true ↔ ∀ x, x ∉ set := by
  unfold isEmpty
  rw [List.isEmpty_iff, List.eq_nil_iff_forall_not_mem]
  rfl

theorem isEmpty_iff_eq {set : SortedSet K} : set.isEmpty = true ↔ set = empty :=
  isEmpty_iff.trans ⟨fun h => ext fun x => iff_of_false (h x) (notMem_empty x),
    fun h x => h ▸ notMem_empty x⟩

/-- `Set.fold`: in increasing order. -/
def fold {A : Type v} (f : K → A → A) (set : SortedSet K) (init : A) : A :=
  set.elements.foldl (fun acc x => f x acc) init

end SortedSet

end Pysa
