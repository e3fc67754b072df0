/-
  Subject: TABLES WITH LINEAR PROBING. Nothing here names the analyser.

  * `probe` -- the slot that a search looks at after so many others; `probe_injective`,
    `exists_probe` -- as many searches as there are slots visit each slot once;
  * `Probed` -- each key is in one slot, and the slots between its home and this slot are taken;
  * `Passed` -- what a search has seen; `absent_of_free` -- when it has shown that its key is in no
    slot;
  * `Probed.insert` -- taking a free slot keeps the table probed;
  * `Grows` -- slots that are taken stay as they are.
-/
import Mathlib.Logic.Function.Basic
import Mathlib.Data.Nat.ModEq

namespace Pysa

universe u

namespace LinearProbing

/-! ## 1. The slots that a search visits -/

/-- The slot at the distance `d` from the home slot. -/
def probe (size home d : ℕ) : ℕ := (home + d) % size

theorem probe_lt {size : ℕ} (hsize : 0 < size) (home d : ℕ) : probe size home d < size :=
  Nat.mod_lt _ hsize

theorem probe_zero {size home : ℕ} (hhome : home < size) : probe size home 0 = home :=
  Nat.mod_eq_of_lt hhome

theorem probe_succ (size home d : ℕ) : (probe size home d + 1) % size = probe size home (d + 1) := by
  rw [probe, probe, Nat.mod_add_mod, Nat.add_assoc]

theorem probe_injective {size home d e : ℕ} (hd : d < size) (he : e < size)
    (h : probe size home d = probe size home e) : d = e := by
  have hmod : d ≡ e [MOD size] := Nat.ModEq.add_left_cancel' home h
  rwa [Nat.ModEq, Nat.mod_eq_of_lt hd, Nat.mod_eq_of_lt he] at hmod

theorem exists_probe {size home s : ℕ} (hhome : home < size) (hs : s < size) :
    ∃ d < size, probe size home d = s := by
  by_cases hle : home ≤ s
  · refine ⟨s - home, by omega, ?_⟩
    rw [probe, Nat.add_sub_cancel' hle, Nat.mod_eq_of_lt hs]
  · refine ⟨s + size - home, by omega, ?_⟩
    rw [probe, show home + (s + size - home) = s + size by omega, Nat.add_mod_right,
      Nat.mod_eq_of_lt hs]

/-- After as many slots as there are, the search is back at its home slot, and not before. -/
theorem probe_succ_eq_home_iff {size home d : ℕ} (hhome : home < size) (hd : d < size) :
    probe size home (d + 1) = home ↔ d + 1 = size := by
  constructor
  · intro h
    by_contra hne
    have hzero := probe_injective (show d + 1 < size by omega) (show 0 < size by omega)
      (h.trans (probe_zero hhome).symm)
    omega
  · intro h
    rw [h, probe, Nat.add_mod_right, Nat.mod_eq_of_lt hhome]

/-! ## 2. Tables -/

variable {K : Type u} {size : ℕ} {home : K → ℕ} {table table' : ℕ → Option K} {k : K} {d s : ℕ}

/-- Each key is in one slot, and all slots from its home to this slot are taken. -/
structure Probed (size : ℕ) (home : K → ℕ) (table : ℕ → Option K) : Prop where
  unique : ∀ {s s' k}, s < size → s' < size → table s = some k → table s' = some k → s = s'
  gapless : ∀ {s k}, s < size → table s = some k →
    ∃ d < size, s = probe size (home k) d ∧ ∀ e < d, table (probe size (home k) e) ≠ none

/-- The search for the key has passed `d` slots, all of them taken by something else. -/
def Passed (size : ℕ) (home : K → ℕ) (table : ℕ → Option K) (k : K) (d : ℕ) : Prop :=
  ∀ e < d, table (probe size (home k) e) ≠ none ∧ table (probe size (home k) e) ≠ some k

theorem Passed.zero : Passed size home table k 0 := fun _ he => absurd he (Nat.not_lt_zero _)

theorem Passed.succ (h : Passed size home table k d)
    (hfree : table (probe size (home k) d) ≠ none)
    (hkey : table (probe size (home k) d) ≠ some k) : Passed size home table k (d + 1) := by
  intro e he
  rcases Nat.lt_succ_iff_lt_or_eq.mp he with he | rfl
  · exact h e he
  · exact ⟨hfree, hkey⟩

theorem Probed.empty : Probed size home fun _ => (none : Option K) where
  unique := fun _ _ h _ => absurd h.symm (Option.some_ne_none _)
  gapless := fun _ h => absurd h.symm (Option.some_ne_none _)

/-- A search that comes to a free slot has shown that its key is in no slot. -/
theorem Probed.absent_of_free (h : Probed size home table) (hpassed : Passed size home table k d)
    (hd : d < size) (hfree : table (probe size (home k) d) = none) (hs : s < size) :
    table s ≠ some k := by
  intro hkey
  obtain ⟨e, he, rfl, hgapless⟩ := h.gapless hs hkey
  rcases Nat.lt_trichotomy e d with hlt | rfl | hgt
  · exact (hpassed e hlt).2 hkey
  · exact Option.some_ne_none _ (hkey.symm.trans hfree)
  · exact hgapless d hgt hfree

/-- A key that is in a slot stops the search for it there. -/
theorem Probed.passed_le (h : Probed size home table) (hpassed : Passed size home table k d)
    (hs : s < size) (hkey : table s = some k) :
    ∃ e, d ≤ e ∧ e < size ∧ s = probe size (home k) e ∧ Passed size home table k e := by
  obtain ⟨e, he, rfl, hgapless⟩ := h.gapless hs hkey
  refine ⟨e, ?_, he, rfl, fun e' he' => ⟨hgapless e' he', fun hkey' => ?_⟩⟩
  · by_contra hlt
    exact (hpassed e (by omega)).2 hkey
  · have hsize : 0 < size := Nat.zero_lt_of_lt hs
    have heq := h.unique (probe_lt hsize _ _) hs hkey' hkey
    exact absurd (probe_injective (he'.trans he) he heq) (Nat.ne_of_lt he')

/-! ## 3. Taking a slot -/

/-- Slots that are taken stay as they are. -/
def Grows (table table' : ℕ → Option K) : Prop := ∀ s, table s ≠ none → table' s = table s

theorem Grows.passed (h : Grows table table') (hpassed : Passed size home table k d) :
    Passed size home table' k d := by
  intro e he
  rw [h _ (hpassed e he).1]
  exact hpassed e he

theorem grows_update {slot : Option K} (hfree : table s = none) :
    Grows table (Function.update table s slot) := by
  intro s' hs'
  refine Function.update_of_ne ?_ _ _
  rintro rfl
  exact hs' hfree

/-- A search that comes to a free slot may put its key there. -/
theorem Probed.insert (h : Probed size home table) (hpassed : Passed size home table k d)
    (hd : d < size) (hfree : table (probe size (home k) d) = none) :
    Probed size home (Function.update table (probe size (home k) d) (some k)) := by
  have hgrows : Grows table (Function.update table (probe size (home k) d) (some k)) :=
    grows_update hfree
  have habsent : ∀ s < size, table s ≠ some k := fun s hs => h.absent_of_free hpassed hd hfree hs
  have hkey : ∀ {s k'}, s < size →
      Function.update table (probe size (home k) d) (some k) s = some k' →
      (s = probe size (home k) d ∧ k' = k) ∨ (k' ≠ k ∧ table s = some k') := by
    intro s k' hs hs'
    by_cases heq : s = probe size (home k) d
    · rw [heq, Function.update_self, Option.some.injEq] at hs'
      exact .inl ⟨heq, hs'.symm⟩
    · rw [Function.update_of_ne heq] at hs'
      refine .inr ⟨?_, hs'⟩
      rintro rfl
      exact habsent s hs hs'
  constructor
  · intro s s' k' hs hs' h₁ h₂
    rcases hkey hs h₁ with ⟨rfl, rfl⟩ | ⟨hne, h₁⟩
    · rcases hkey hs' h₂ with ⟨rfl, -⟩ | ⟨hne, -⟩
      · rfl
      · exact absurd rfl hne
    · rcases hkey hs' h₂ with ⟨-, rfl⟩ | ⟨-, h₂⟩
      · exact absurd rfl hne
      · exact h.unique hs hs' h₁ h₂
  · intro s k' hs h₁
    rcases hkey hs h₁ with ⟨rfl, rfl⟩ | ⟨-, h₁⟩
    · exact ⟨d, hd, rfl, fun e he => (hgrows.passed hpassed e he).1⟩
    · obtain ⟨e, he, heq, hgapless⟩ := h.gapless hs h₁
      refine ⟨e, he, heq, fun e' he' => ?_⟩
      rw [hgrows _ (hgapless e' he')]
      exact hgapless e' he'

end LinearProbing

end Pysa
