/-
  Subject: SCHEDULER POLICIES (`configuration.ml`, `scheduler.ml`): how many chunks the inputs of a
    parallel computation are cut into.

  * `SchedulerPolicy.ofYojson` -- reads a policy, field by field;
  * `Policy.fixedChunkSize`, `Policy.fixedChunkCount`, `Policy.fromConfiguration` -- the assertions
    and the arithmetic of 63 bits;
  * `SchedulerPolicy.Usable` -- the fields that the assertions accept, without an overflow;
  * `SchedulerPolicy.usable_iff` -- **a policy that was read gives a positive number of chunks exactly where
    it is usable.**
-/
import Pysa.Lib.Json
import Pysa.Lib.Text

namespace Pysa

/-- The default of an optional field is another field. -/
inductive SchedulerPolicy where
  | fixedChunkSize (minimumChunkSize : Option Int63) (minimumChunksPerWorker : Int63)
      (preferredChunkSize : Int63)
  | fixedChunkCount (minimumChunksPerWorker : Option Int63) (minimumChunkSize : Int63)
      (preferredChunksPerWorker : Int63)
  deriving DecidableEq

namespace SchedulerPolicy

open Json Text

/-! ## 1. Reading -/

def positiveIntMember (key : String) (json : Json) : Except String Int63 := do
  let value ← json.intMember key
  if value.toInt < 1 then throw ("Expected positive integer, got " ++ showInt value)
  return value

def optionalPositiveIntMember (key : String) (json : Json) : Except String (Option Int63) := do
  match ← json.optionalIntMember key with
  | some value =>
    if value.toInt < 1 then throw ("Expected positive integer, got " ++ showInt value)
    return some value
  | none => return none

def ofYojson (json : Json) : Except String SchedulerPolicy := do
  let kind ← json.stringMember "kind"
  match kind with
  | "fixed_chunk_size" =>
    let minimumChunkSize ← optionalPositiveIntMember "minimum_chunk_size" json
    let minimumChunksPerWorker ← positiveIntMember "minimum_chunks_per_worker" json
    let preferredChunkSize ← positiveIntMember "preferred_chunk_size" json
    return fixedChunkSize minimumChunkSize minimumChunksPerWorker preferredChunkSize
  | "fixed_chunk_count" =>
    let minimumChunksPerWorker ← json.optionalIntMember "minimum_chunks_per_worker"
    let minimumChunkSize ← positiveIntMember "minimum_chunk_size" json
    let preferredChunksPerWorker ← positiveIntMember "preferred_chunks_per_worker" json
    return fixedChunkCount minimumChunksPerWorker minimumChunkSize preferredChunksPerWorker
  | _ => throw ("Invalid scheduler policy: get `" ++ kind ++
      "`, expected: fixed_chunk_size or fixed_chunk_count")

end SchedulerPolicy

namespace Policy

/-! ## 2. The number of chunks -/

/-- How a policy fails. -/
inductive Failure where
  | assertion
  | divisionByZero
  deriving DecidableEq

/-- `assert`. -/
def check (condition : Prop) [Decidable condition] : Except Failure Unit :=
  if condition then .ok () else .error .assertion

/-- `/`, which rounds towards zero. -/
def divide (x y : Int63) : Except Failure Int63 :=
  if y = 0 then .error .divisionByZero else .ok (x.sdiv y)

/-- The policy that `fixed_chunk_size` returns. -/
def fixedChunkSizePolicy (minimumChunkSize minimumChunksPerWorker preferredChunkSize
    numberOfWorkers numberOfTasks : Int63) : Except Failure Int63 := do
  let preferredChunkCount := (← divide numberOfTasks preferredChunkSize) + 1
  let minimumChunkCount := minimumChunksPerWorker * numberOfWorkers
  if preferredChunkCount.toInt ≥ minimumChunkCount.toInt then
    return preferredChunkCount
  else
    let fallbackChunkSize ← divide numberOfTasks minimumChunkCount
    if fallbackChunkSize.toInt ≥ minimumChunkSize.toInt then return minimumChunkCount
    else return 1

def fixedChunkSize (minimumChunkSize : Option Int63)
    (minimumChunksPerWorker preferredChunkSize : Int63) :
    Except Failure (Int63 → Int63 → Except Failure Int63) := do
  let minimumChunkSize := minimumChunkSize.getD preferredChunkSize
  check (minimumChunkSize.toInt ≥ 0)
  check (preferredChunkSize.toInt ≥ minimumChunkSize.toInt)
  check (minimumChunksPerWorker.toInt ≥ 0)
  return fixedChunkSizePolicy minimumChunkSize minimumChunksPerWorker preferredChunkSize

/-- The policy that `fixed_chunk_count` returns. -/
def fixedChunkCountPolicy (minimumChunksPerWorker minimumChunkSize preferredChunksPerWorker
    numberOfWorkers numberOfTasks : Int63) : Except Failure Int63 := do
  let preferredChunkCount := preferredChunksPerWorker * numberOfWorkers
  let preferredChunkSize ← divide numberOfTasks preferredChunkCount
  if preferredChunkSize.toInt ≥ minimumChunkSize.toInt then
    return preferredChunkCount
  else
    let minimumChunkCount := minimumChunksPerWorker * numberOfWorkers
    let fallbackChunkCount := (← divide numberOfTasks minimumChunkSize) + 1
    if fallbackChunkCount.toInt ≥ minimumChunkCount.toInt then return fallbackChunkCount
    else return 1

def fixedChunkCount (minimumChunksPerWorker : Option Int63)
    (minimumChunkSize preferredChunksPerWorker : Int63) :
    Except Failure (Int63 → Int63 → Except Failure Int63) := do
  let minimumChunksPerWorker := minimumChunksPerWorker.getD preferredChunksPerWorker
  check (minimumChunksPerWorker.toInt ≥ 0)
  check (preferredChunksPerWorker.toInt ≥ minimumChunksPerWorker.toInt)
  check (minimumChunksPerWorker.toInt ≥ 0)
  return fixedChunkCountPolicy minimumChunksPerWorker minimumChunkSize preferredChunksPerWorker

def fromConfiguration :
    SchedulerPolicy → Except Failure (Int63 → Int63 → Except Failure Int63)
  | .fixedChunkSize minimumChunkSize minimumChunksPerWorker preferredChunkSize =>
    fixedChunkSize minimumChunkSize minimumChunksPerWorker preferredChunkSize
  | .fixedChunkCount minimumChunksPerWorker minimumChunkSize preferredChunksPerWorker =>
    fixedChunkCount minimumChunksPerWorker minimumChunkSize preferredChunksPerWorker

/-! ## 3. Integers of 63 bits -/

def maxInt : ℤ := 4611686018427387903

def minInt : ℤ := -4611686018427387904

theorem toInt_mem (x : Int63) : minInt ≤ x.toInt ∧ x.toInt ≤ maxInt :=
  ⟨BitVec.le_toInt x, BitVec.toInt_le⟩

theorem toInt_succ (x : Int63) :
    (x + 1).toInt = if x.toInt = maxInt then minInt else x.toInt + 1 := by
  have hx := toInt_mem x
  have hone : (1 : Int63).toInt = 1 := rfl
  rw [BitVec.toInt_add, hone]
  unfold maxInt minInt at *
  split
  · rename_i heq
    rw [heq]
    rfl
  · refine Int.bmod_eq_of_le ?_ ?_ <;> omega

/-- A quotient by a positive number. -/
theorem toInt_sdiv_of_pos {x y : Int63} (hx : 0 ≤ x.toInt) (hy : 1 ≤ y.toInt) :
    (x.sdiv y).toInt = x.toInt / y.toInt := by
  have hmem := toInt_mem x
  have hle : x.toInt / y.toInt ≤ x.toInt := Int.ediv_le_self _ hx
  have hnonneg : 0 ≤ x.toInt / y.toInt := Int.ediv_nonneg hx (by omega)
  rw [BitVec.toInt_sdiv, Int.tdiv_eq_ediv_of_nonneg hx]
  unfold maxInt minInt at *
  refine Int.bmod_eq_of_le ?_ ?_ <;> omega

theorem divide_of_ne {x y : Int63} (hy : y.toInt ≠ 0) : divide x y = .ok (x.sdiv y) := by
  refine if_neg ?_
  rintro rfl
  exact absurd rfl hy

/-- Only the largest number by one gives the largest quotient. -/
theorem ediv_eq_maxInt_iff {x y : Int63} (hx : 0 ≤ x.toInt) (hy : 1 ≤ y.toInt) :
    x.toInt / y.toInt = maxInt ↔ x.toInt = maxInt ∧ y.toInt = 1 := by
  have hmem := toInt_mem x
  constructor
  · intro heq
    have hmul : x.toInt / y.toInt * y.toInt ≤ x.toInt := Int.ediv_mul_le _ (by omega)
    rw [heq] at hmul
    unfold maxInt minInt at *
    omega
  · rintro ⟨hmax, hone⟩
    rw [hmax, hone]
    rfl

/-- A quotient by a negative number. -/
theorem toInt_sdiv_of_neg {x y : Int63} (hx : 0 ≤ x.toInt) (hy : y.toInt < 0) :
    (x.sdiv y).toInt ≤ 0 := by
  have hne : x ≠ BitVec.intMin 63 := by
    rintro rfl
    exact absurd hx (by decide)
  rw [BitVec.toInt_sdiv_of_ne_or_ne x y (Or.inl hne)]
  exact Int.tdiv_nonpos_of_nonneg_of_nonpos hx hy.le

/-- A number of chunks that is counted from the size of a chunk: one more than the quotient. -/
theorem toInt_count {tasks size : Int63} (htasks : 0 ≤ tasks.toInt) (hsize : 1 ≤ size.toInt) :
    (tasks.sdiv size + 1).toInt =
      if tasks.toInt = maxInt ∧ size.toInt = 1 then minInt else tasks.toInt / size.toInt + 1 := by
  rw [toInt_succ, toInt_sdiv_of_pos htasks hsize]
  exact if_congr (ediv_eq_maxInt_iff htasks hsize) rfl rfl

/-! ## 4. Usable policies -/

/-- There is a value, and it is positive. -/
def Positive (count : Except Failure Int63) : Prop := ∃ value, count = .ok value ∧ 1 ≤ value.toInt

theorem positive_ok {value : Int63} : Positive (.ok value) ↔ 1 ≤ value.toInt := by
  constructor
  · rintro ⟨value, heq, hpositive⟩
    cases heq
    exact hpositive
  · exact fun hpositive => ⟨value, rfl, hpositive⟩

theorem not_positive_error {failure : Failure} : ¬ Positive (.error failure) :=
  fun ⟨_, heq, _⟩ => nomatch heq

theorem fixedChunkSizePolicy_positive_iff (minimumChunksPerWorker numberOfWorkers : Int63)
    {minimumChunkSize preferredChunkSize numberOfTasks : Int63} (hminimum : 1 ≤ minimumChunkSize.toInt)
    (hpreferred : 1 ≤ preferredChunkSize.toInt) (htasks : 0 ≤ numberOfTasks.toInt) :
    Positive (fixedChunkSizePolicy minimumChunkSize minimumChunksPerWorker preferredChunkSize
        numberOfWorkers numberOfTasks) ↔
      ¬ ((numberOfTasks.toInt = maxInt ∧ preferredChunkSize.toInt = 1) ∧
        ((minimumChunksPerWorker * numberOfWorkers).toInt = minInt ∨
          (minimumChunksPerWorker * numberOfWorkers).toInt = 0)) := by
  have hcount := toInt_count htasks hpreferred
  have hone : (1 : Int63).toInt = 1 := rfl
  unfold fixedChunkSizePolicy
  rw [divide_of_ne (by omega)]
  dsimp only [bind, Except.bind, pure, Except.pure]
  generalize minimumChunksPerWorker * numberOfWorkers = minimum
  generalize numberOfTasks.sdiv preferredChunkSize + 1 = preferred at hcount ⊢
  have hrange := toInt_mem minimum
  have hquotient : 0 ≤ numberOfTasks.toInt / preferredChunkSize.toInt :=
    Int.ediv_nonneg htasks (by omega)
  by_cases hoverflow : numberOfTasks.toInt = maxInt ∧ preferredChunkSize.toInt = 1
  · rw [if_pos hoverflow] at hcount
    rw [and_iff_right hoverflow, not_or]
    split
    · -- the number of chunks has overflowed, and so has the smallest one
      rw [positive_ok]
      unfold maxInt minInt at *
      omega
    · by_cases hzero : minimum.toInt = 0
      · obtain rfl : minimum = 0 := BitVec.eq_of_toInt_eq hzero
        rw [divide, if_pos rfl]
        exact iff_of_false not_positive_error fun h => h.2 rfl
      · rw [divide_of_ne hzero]
        dsimp only
        have hpositive : Positive (if (numberOfTasks.sdiv minimum).toInt ≥ minimumChunkSize.toInt
            then .ok minimum else .ok 1) := by
          split
          · rename_i hge
            rw [positive_ok]
            by_contra hneg
            have := toInt_sdiv_of_neg htasks (y := minimum) (by omega)
            omega
          · exact positive_ok.mpr hone.ge
        refine iff_of_true hpositive ⟨?_, hzero⟩
        unfold maxInt minInt at *
        omega
  · rw [if_neg hoverflow] at hcount
    refine iff_of_true ?_ fun h => hoverflow h.1
    split
    · rw [positive_ok]
      omega
    · rw [divide_of_ne (by omega)]
      dsimp only
      split
      · rw [positive_ok]
        omega
      · exact positive_ok.mpr hone.ge

theorem fixedChunkCountPolicy_positive_iff
    (minimumChunksPerWorker preferredChunksPerWorker numberOfWorkers : Int63)
    {minimumChunkSize numberOfTasks : Int63} (hsize : 1 ≤ minimumChunkSize.toInt) (htasks : 0 ≤ numberOfTasks.toInt) :
    Positive (fixedChunkCountPolicy minimumChunksPerWorker minimumChunkSize
        preferredChunksPerWorker numberOfWorkers numberOfTasks) ↔
      (preferredChunksPerWorker * numberOfWorkers).toInt ≠ 0 ∧
        ¬ ((numberOfTasks.toInt = maxInt ∧ minimumChunkSize.toInt = 1) ∧
          (preferredChunksPerWorker * numberOfWorkers).toInt < 0 ∧
          (minimumChunksPerWorker * numberOfWorkers).toInt = minInt) := by
  have hcount := toInt_count htasks hsize
  have hone : (1 : Int63).toInt = 1 := rfl
  have hquotient : 0 ≤ numberOfTasks.toInt / minimumChunkSize.toInt :=
    Int.ediv_nonneg htasks (by omega)
  unfold fixedChunkCountPolicy
  rw [divide_of_ne (y := minimumChunkSize) (by omega)]
  dsimp only [bind, Except.bind, pure, Except.pure]
  generalize minimumChunksPerWorker * numberOfWorkers = minimum
  generalize preferredChunksPerWorker * numberOfWorkers = preferred
  generalize numberOfTasks.sdiv minimumChunkSize + 1 = fallback at hcount ⊢
  have hrange := toInt_mem minimum
  have hrange' := toInt_mem preferred
  by_cases hzero : preferred.toInt = 0
  · obtain rfl : preferred = 0 := BitVec.eq_of_toInt_eq hzero
    rw [divide, if_pos rfl]
    exact iff_of_false not_positive_error fun h => h.1 rfl
  · rw [divide_of_ne hzero, and_iff_right hzero]
    dsimp only
    by_cases hnegative : preferred.toInt < 0
    · have hsdiv := toInt_sdiv_of_neg htasks hnegative
      rw [if_neg (by omega)]
      by_cases hoverflow : numberOfTasks.toInt = maxInt ∧ minimumChunkSize.toInt = 1
      · rw [if_pos hoverflow] at hcount
        split
        · rw [positive_ok]
          unfold maxInt minInt at *
          omega
        · refine iff_of_true (positive_ok.mpr hone.ge) fun h => ?_
          omega
      · rw [if_neg hoverflow] at hcount
        refine iff_of_true ?_ fun h => hoverflow h.1
        split
        · rw [positive_ok]
          omega
        · exact positive_ok.mpr hone.ge
    · refine iff_of_true ?_ fun h => hnegative h.2.1
      split
      · rw [positive_ok]
        omega
      · rename_i hsmall
        have hpositive : 1 ≤ preferred.toInt := by omega
        rw [toInt_sdiv_of_pos htasks hpositive] at hsmall
        -- the largest number of tasks would have been large enough for the preferred count
        have hoverflow : ¬ (numberOfTasks.toInt = maxInt ∧ minimumChunkSize.toInt = 1) := by
          rintro ⟨hmax, hmin⟩
          have : 1 ≤ numberOfTasks.toInt / preferred.toInt :=
            Int.le_ediv_of_mul_le (by omega) (by omega)
          omega
        rw [if_neg hoverflow] at hcount
        split
        · rw [positive_ok]
          omega
        · exact positive_ok.mpr hone.ge

/-- A policy is there if its assertions hold. -/
theorem check_bind_eq_ok {condition : Prop} [Decidable condition] {β : Type}
    {next : Except Failure β} {value : β} :
    (check condition >>= fun _ => next) = .ok value ↔ condition ∧ next = .ok value := by
  unfold check
  split
  · rename_i h
    exact (and_iff_right h).symm
  · rename_i h
    exact iff_of_false nofun fun hnext => h hnext.1

theorem fixedChunkSize_eq_ok {minimumChunkSize : Option Int63}
    {minimumChunksPerWorker preferredChunkSize : Int63}
    {policy : Int63 → Int63 → Except Failure Int63} :
    fixedChunkSize minimumChunkSize minimumChunksPerWorker preferredChunkSize = .ok policy ↔
      (0 ≤ (minimumChunkSize.getD preferredChunkSize).toInt ∧
        (minimumChunkSize.getD preferredChunkSize).toInt ≤ preferredChunkSize.toInt ∧
        0 ≤ minimumChunksPerWorker.toInt) ∧
      fixedChunkSizePolicy (minimumChunkSize.getD preferredChunkSize) minimumChunksPerWorker
        preferredChunkSize = policy := by
  unfold fixedChunkSize
  simp only [check_bind_eq_ok, pure, Except.pure, Except.ok.injEq, and_assoc, ge_iff_le]

theorem fixedChunkCount_eq_ok {minimumChunksPerWorker : Option Int63}
    {minimumChunkSize preferredChunksPerWorker : Int63}
    {policy : Int63 → Int63 → Except Failure Int63} :
    fixedChunkCount minimumChunksPerWorker minimumChunkSize preferredChunksPerWorker = .ok policy ↔
      (0 ≤ (minimumChunksPerWorker.getD preferredChunksPerWorker).toInt ∧
        (minimumChunksPerWorker.getD preferredChunksPerWorker).toInt ≤
          preferredChunksPerWorker.toInt ∧
        0 ≤ (minimumChunksPerWorker.getD preferredChunksPerWorker).toInt) ∧
      fixedChunkCountPolicy (minimumChunksPerWorker.getD preferredChunksPerWorker)
        minimumChunkSize preferredChunksPerWorker = policy := by
  unfold fixedChunkCount
  simp only [check_bind_eq_ok, pure, Except.pure, Except.ok.injEq, and_assoc, ge_iff_le]

end Policy

namespace SchedulerPolicy

/-- What `ofYojson` checks: the minimum of chunks for each worker of `fixed_chunk_count` may be any
    number. -/
def Checked : SchedulerPolicy → Prop
  | fixedChunkSize minimumChunkSize minimumChunksPerWorker preferredChunkSize =>
    (∀ size ∈ minimumChunkSize, 1 ≤ size.toInt) ∧ 1 ≤ minimumChunksPerWorker.toInt ∧
      1 ≤ preferredChunkSize.toInt
  | fixedChunkCount _ minimumChunkSize preferredChunksPerWorker =>
    1 ≤ minimumChunkSize.toInt ∧ 1 ≤ preferredChunksPerWorker.toInt

theorem positiveIntMember_spec {key : String} {json : Json} {value : Int63}
    (h : positiveIntMember key json = .ok value) : 1 ≤ value.toInt := by
  unfold positiveIntMember at h
  simp only [bind, Except.bind] at h
  split at h
  · cases h
  · split at h
    · cases h
    · rename_i hge
      cases h
      exact Int.not_lt.mp hge

theorem optionalPositiveIntMember_spec {key : String} {json : Json} {value : Option Int63}
    (h : optionalPositiveIntMember key json = .ok value) : ∀ x ∈ value, 1 ≤ x.toInt := by
  unfold optionalPositiveIntMember at h
  simp only [bind, Except.bind] at h
  split at h
  · cases h
  · split at h
    · split at h
      · cases h
      · rename_i hge
        cases h
        intro x hx
        cases hx
        exact Int.not_lt.mp hge
    · cases h
      exact nofun

theorem checked_ofYojson {json : Json} {policy : SchedulerPolicy}
    (h : ofYojson json = .ok policy) : policy.Checked := by
  unfold ofYojson at h
  simp only [bind, Except.bind] at h
  split at h
  · cases h
  · split at h
    · split at h
      · cases h
      · rename_i hsize
        split at h
        · cases h
        · rename_i hperWorker
          split at h
          · cases h
          · rename_i hpreferred
            cases h
            exact ⟨optionalPositiveIntMember_spec hsize, positiveIntMember_spec hperWorker,
              positiveIntMember_spec hpreferred⟩
    · split at h
      · cases h
      · split at h
        · cases h
        · rename_i hsize
          split at h
          · cases h
          · rename_i hpreferred
            cases h
            exact ⟨positiveIntMember_spec hsize, positiveIntMember_spec hpreferred⟩
    · cases h

/-- The fields are ordered as the assertions demand, and no product or sum overflows to a number of
    chunks that is not positive. -/
def Usable (numberOfWorkers numberOfTasks : Int63) : SchedulerPolicy → Prop
  | fixedChunkSize minimumChunkSize minimumChunksPerWorker preferredChunkSize =>
    (minimumChunkSize.getD preferredChunkSize).toInt ≤ preferredChunkSize.toInt ∧
      ¬ ((numberOfTasks.toInt = Policy.maxInt ∧ preferredChunkSize.toInt = 1) ∧
        ((minimumChunksPerWorker * numberOfWorkers).toInt = Policy.minInt ∨
          (minimumChunksPerWorker * numberOfWorkers).toInt = 0))
  | fixedChunkCount minimumChunksPerWorker minimumChunkSize preferredChunksPerWorker =>
    (0 ≤ (minimumChunksPerWorker.getD preferredChunksPerWorker).toInt ∧
      (minimumChunksPerWorker.getD preferredChunksPerWorker).toInt ≤
        preferredChunksPerWorker.toInt) ∧
      (preferredChunksPerWorker * numberOfWorkers).toInt ≠ 0 ∧
      ¬ ((numberOfTasks.toInt = Policy.maxInt ∧ minimumChunkSize.toInt = 1) ∧
        (preferredChunksPerWorker * numberOfWorkers).toInt < 0 ∧
        (minimumChunksPerWorker.getD preferredChunksPerWorker * numberOfWorkers).toInt =
          Policy.minInt)

/-- **A policy that was read passes the assertions and gives a positive number of chunks if and
    only if it is usable.** -/
theorem usable_iff (json : Json) (policy : SchedulerPolicy) (h : ofYojson json = .ok policy)
    (numberOfWorkers numberOfTasks : Int63) (htasks : 0 ≤ numberOfTasks.toInt) :
    (∃ chunks count, Policy.fromConfiguration policy = .ok chunks ∧
        chunks numberOfWorkers numberOfTasks = .ok count ∧ 1 ≤ count.toInt) ↔
      policy.Usable numberOfWorkers numberOfTasks := by
  have hchecked := checked_ofYojson h
  cases policy with
  | fixedChunkSize minimumChunkSize minimumChunksPerWorker preferredChunkSize =>
    obtain ⟨hsize, hperWorker, hpreferred⟩ := hchecked
    have hminimum : 1 ≤ (minimumChunkSize.getD preferredChunkSize).toInt := by
      cases minimumChunkSize with
      | none => exact hpreferred
      | some size => exact hsize size rfl
    have hpositive := Policy.fixedChunkSizePolicy_positive_iff minimumChunksPerWorker
      numberOfWorkers hminimum hpreferred htasks
    rw [Usable, ← hpositive]
    constructor
    · rintro ⟨chunks, count, hchunks, hcount, hpos⟩
      obtain ⟨⟨-, hle, -⟩, rfl⟩ := Policy.fixedChunkSize_eq_ok.mp hchunks
      exact ⟨hle, count, hcount, hpos⟩
    · rintro ⟨hle, count, hcount, hpos⟩
      exact ⟨_, count, Policy.fixedChunkSize_eq_ok.mpr ⟨⟨by omega, hle, by omega⟩, rfl⟩, hcount,
        hpos⟩
  | fixedChunkCount minimumChunksPerWorker minimumChunkSize preferredChunksPerWorker =>
    obtain ⟨hsize, hpreferred⟩ := hchecked
    have hpositive := Policy.fixedChunkCountPolicy_positive_iff
      (minimumChunksPerWorker.getD preferredChunksPerWorker) preferredChunksPerWorker
      numberOfWorkers hsize htasks
    rw [Usable, ← hpositive]
    constructor
    · rintro ⟨chunks, count, hchunks, hcount, hpos⟩
      obtain ⟨⟨hnonneg, hle, -⟩, rfl⟩ := Policy.fixedChunkCount_eq_ok.mp hchunks
      exact ⟨⟨hnonneg, hle⟩, count, hcount, hpos⟩
    · rintro ⟨⟨hnonneg, hle⟩, count, hcount, hpos⟩
      exact ⟨_, count, Policy.fixedChunkCount_eq_ok.mpr ⟨⟨hnonneg, hle, hnonneg⟩, rfl⟩, hcount,
        hpos⟩

/-- A policy with a smaller minimum, ten workers and a hundred tasks. -/
theorem usable_example :
    let json := Json.assoc [("kind", .string "fixed_chunk_size"), ("minimum_chunk_size", .int 2),
      ("minimum_chunks_per_worker", .int 1), ("preferred_chunk_size", .int 10)]
    ∃ chunks count, Policy.fromConfiguration (.fixedChunkSize (some 2) 1 10) = .ok chunks ∧
      ofYojson json = .ok (.fixedChunkSize (some 2) 1 10) ∧
      chunks 10 100 = .ok count ∧ 1 ≤ count.toInt := by
  intro json
  have hread : ofYojson json = .ok (.fixedChunkSize (some 2) 1 10) := rfl
  obtain ⟨chunks, count, hchunks, hcount, hpos⟩ :=
    (usable_iff json _ hread 10 100 (by decide)).mpr ⟨by decide, by decide⟩
  exact ⟨chunks, count, hchunks, hread, hcount, hpos⟩

/-- Three objects that are read: a minimum above the preferred size and a negative minimum fail an
    assertion, and a product that overflows to zero divides by zero. -/
theorem not_usable :
    let size := Json.assoc [("kind", .string "fixed_chunk_size"), ("minimum_chunk_size", .int 2),
      ("minimum_chunks_per_worker", .int 1), ("preferred_chunk_size", .int 1)]
    let count := fun minimum preferred => Json.assoc [("kind", .string "fixed_chunk_count"),
      ("minimum_chunks_per_worker", .int minimum), ("minimum_chunk_size", .int 1),
      ("preferred_chunks_per_worker", .int preferred)]
    (ofYojson size).map (fun policy => (Policy.fromConfiguration policy).map fun chunks =>
        chunks 1 1) = .ok (.error .assertion) ∧
      (ofYojson (count (-1) 1)).map (fun policy => (Policy.fromConfiguration policy).map
        fun chunks => chunks 1 1) = .ok (.error .assertion) ∧
      (ofYojson (count 1 2305843009213693952)).map (fun policy =>
        (Policy.fromConfiguration policy).map fun chunks => chunks 4 1) =
          .ok (.ok (.error .divisionByZero)) :=
  ⟨rfl, rfl, rfl⟩

end SchedulerPolicy

end Pysa
