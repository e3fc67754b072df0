/-
  Subject: THE FILES OF A MODULE, IN THE ORDER OF THEIR PRIORITY (`moduleTracker.ml`).

  * `insertBefore`, `removeOne` -- the same without the list of what has been passed;
  * `ordered_iff` -- the comparison orders the files of a module, and the two operations work, if
    and only if different files differ in what is compared.
-/
import Mathlib.Data.List.Sort
import Pysa.Ast.ModulePath

namespace Pysa.ModuleTracker

open ModulePath

/-! ## 1. Insertion and removal -/

/-- `failwith` with what its text names. -/
inductive Failure where
  | invariantViolation (description : String) (left right : ModulePath)
  | illegalState (description : String) (qualifier : Reference)
deriving DecidableEq

def sameModuleCompare (configuration : Configuration) (left right : ModulePath) : ℤ :=
  priorityAwareCompare configuration left.raw right.raw

def failIfRawPathsNotEqual (description : String) (left right : ModulePath) : Except Failure Unit :=
  if left.raw = right.raw then .ok () else .error (.invariantViolation description left right)

def insertFrom (configuration : Configuration) (toInsert : ModulePath)
    (existingPaths sofar : List ModulePath) : List ModulePath → Except Failure (List ModulePath)
  | [] => .ok (sofar.reverse ++ [toInsert])
  | currentPath :: rest =>
    if sameModuleCompare configuration toInsert currentPath = 0 then do
      failIfRawPathsNotEqual "Module paths that compare as equal should have same raw path"
        toInsert currentPath
      pure existingPaths
    else if sameModuleCompare configuration toInsert currentPath < 0 then
      .ok (sofar.reverse ++ toInsert :: currentPath :: rest)
    else insertFrom configuration toInsert existingPaths (currentPath :: sofar) rest

def insertModulePath (configuration : Configuration) (toInsert : ModulePath)
    (existingPaths : List ModulePath) : Except Failure (List ModulePath) :=
  insertFrom configuration toInsert existingPaths [] existingPaths

def removeFrom (configuration : Configuration) (toRemove : ModulePath)
    (existingPaths sofar : List ModulePath) : List ModulePath → Except Failure (List ModulePath)
  | [] => .ok existingPaths
  | currentPath :: rest =>
    if sameModuleCompare configuration toRemove currentPath = 0 then do
      failIfRawPathsNotEqual "Module paths that compare as equal should have same raw path"
        toRemove currentPath
      pure (sofar.reverse ++ rest)
    else if sameModuleCompare configuration toRemove currentPath < 0 then .ok existingPaths
    else removeFrom configuration toRemove existingPaths (currentPath :: sofar) rest

def removeModulePath (configuration : Configuration) (toRemove : ModulePath)
    (existingPaths : List ModulePath) : Except Failure (List ModulePath) :=
  removeFrom configuration toRemove existingPaths [] existingPaths

/-- Files into an empty list, one after the other. -/
def insertModulePaths (configuration : Configuration) (files : List ModulePath) :
    Except Failure (List ModulePath) :=
  files.foldlM (fun paths file => insertModulePath configuration file paths) []

/-! ## 2. The same on the rest of the list alone -/

/-- Insertion into what has not been passed. -/
def insertBefore (configuration : Configuration) (toInsert : ModulePath) :
    List ModulePath → Except Failure (List ModulePath)
  | [] => .ok [toInsert]
  | currentPath :: rest =>
    if sameModuleCompare configuration toInsert currentPath = 0 then do
      failIfRawPathsNotEqual "Module paths that compare as equal should have same raw path"
        toInsert currentPath
      pure (currentPath :: rest)
    else if sameModuleCompare configuration toInsert currentPath < 0 then
      .ok (toInsert :: currentPath :: rest)
    else (currentPath :: ·) <$> insertBefore configuration toInsert rest

/-- Removal from what has not been passed. -/
def removeOne (configuration : Configuration) (toRemove : ModulePath) :
    List ModulePath → Except Failure (List ModulePath)
  | [] => .ok []
  | currentPath :: rest =>
    if sameModuleCompare configuration toRemove currentPath = 0 then do
      failIfRawPathsNotEqual "Module paths that compare as equal should have same raw path"
        toRemove currentPath
      pure rest
    else if sameModuleCompare configuration toRemove currentPath < 0 then
      .ok (currentPath :: rest)
    else (currentPath :: ·) <$> removeOne configuration toRemove rest

theorem insertFrom_eq (configuration : Configuration) (toInsert : ModulePath)
    (sofar rest : List ModulePath) :
    insertFrom configuration toInsert (sofar.reverse ++ rest) sofar rest =
      (sofar.reverse ++ ·) <$> insertBefore configuration toInsert rest := by
  induction rest generalizing sofar with
  | nil => rfl
  | cons currentPath rest ih =>
    rw [insertFrom, insertBefore]
    split_ifs
    · cases failIfRawPathsNotEqual _ toInsert currentPath <;> rfl
    · rfl
    · have hih := ih (currentPath :: sofar)
      rw [List.reverse_cons, List.append_assoc, List.singleton_append] at hih
      rw [hih, Functor.map_map]
      simp only [List.append_assoc, List.singleton_append]

theorem insertModulePath_eq (configuration : Configuration) (toInsert : ModulePath)
    (existingPaths : List ModulePath) :
    insertModulePath configuration toInsert existingPaths =
      insertBefore configuration toInsert existingPaths :=
  (insertFrom_eq configuration toInsert [] existingPaths).trans (id_map _)

theorem removeFrom_eq (configuration : Configuration) (toRemove : ModulePath)
    (sofar rest : List ModulePath) :
    removeFrom configuration toRemove (sofar.reverse ++ rest) sofar rest =
      (sofar.reverse ++ ·) <$> removeOne configuration toRemove rest := by
  induction rest generalizing sofar with
  | nil => rw [List.append_nil]; exact congrArg Except.ok (List.append_nil _).symm
  | cons currentPath rest ih =>
    rw [removeFrom, removeOne]
    split_ifs
    · cases failIfRawPathsNotEqual _ toRemove currentPath <;> rfl
    · rfl
    · have hih := ih (currentPath :: sofar)
      rw [List.reverse_cons, List.append_assoc, List.singleton_append] at hih
      rw [hih, Functor.map_map]
      simp only [List.append_assoc, List.singleton_append]

theorem removeModulePath_eq (configuration : Configuration) (toRemove : ModulePath)
    (existingPaths : List ModulePath) :
    removeModulePath configuration toRemove existingPaths =
      removeOne configuration toRemove existingPaths :=
  (removeFrom_eq configuration toRemove [] existingPaths).trans (id_map _)

theorem insertBefore_cases {configuration : Configuration} {toInsert currentPath : ModulePath}
    {rest paths : List ModulePath}
    (h : insertBefore configuration toInsert (currentPath :: rest) = .ok paths) :
    (sameModuleCompare configuration toInsert currentPath = 0 ∧
        toInsert.raw = currentPath.raw ∧ paths = currentPath :: rest) ∨
      (sameModuleCompare configuration toInsert currentPath < 0 ∧
        paths = toInsert :: currentPath :: rest) ∨
      (0 < sameModuleCompare configuration toInsert currentPath ∧
        ∃ inserted, insertBefore configuration toInsert rest = .ok inserted ∧
          paths = currentPath :: inserted) := by
  rw [insertBefore, failIfRawPathsNotEqual] at h
  split_ifs at h with hzero hraw hneg
  · exact .inl ⟨hzero, hraw, (Except.ok.inj h).symm⟩
  · cases h
  · exact .inr (.inl ⟨hneg, (Except.ok.inj h).symm⟩)
  · refine .inr (.inr ⟨by omega, ?_⟩)
    cases hrest : insertBefore configuration toInsert rest with
    | error failure => rw [hrest] at h; cases h
    | ok inserted => exact ⟨inserted, rfl, by rw [hrest] at h; exact (Except.ok.inj h).symm⟩

theorem removeOne_cases {configuration : Configuration} {toRemove currentPath : ModulePath}
    {rest paths : List ModulePath}
    (h : removeOne configuration toRemove (currentPath :: rest) = .ok paths) :
    (sameModuleCompare configuration toRemove currentPath = 0 ∧
        toRemove.raw = currentPath.raw ∧ paths = rest) ∨
      (sameModuleCompare configuration toRemove currentPath < 0 ∧ paths = currentPath :: rest) ∨
      (0 < sameModuleCompare configuration toRemove currentPath ∧
        ∃ left, removeOne configuration toRemove rest = .ok left ∧
          paths = currentPath :: left) := by
  rw [removeOne, failIfRawPathsNotEqual] at h
  split_ifs at h with hzero hraw hneg
  · exact .inl ⟨hzero, hraw, (Except.ok.inj h).symm⟩
  · cases h
  · exact .inr (.inl ⟨hneg, (Except.ok.inj h).symm⟩)
  · refine .inr (.inr ⟨by omega, ?_⟩)
    cases hrest : removeOne configuration toRemove rest with
    | error failure => rw [hrest] at h; cases h
    | ok left => exact ⟨left, rfl, by rw [hrest] at h; exact (Except.ok.inj h).symm⟩

/-- A file is there afterwards, itself or an equal one; nothing else comes and nothing goes. -/
theorem mem_insertBefore {configuration : Configuration} {toInsert : ModulePath}
    {existing paths : List ModulePath}
    (h : insertBefore configuration toInsert existing = .ok paths) :
    (∀ file ∈ paths, file = toInsert ∨ file ∈ existing) ∧ existing ⊆ paths ∧
      ∃ file ∈ paths, file.raw = toInsert.raw := by
  induction existing generalizing paths with
  | nil =>
    obtain rfl := Except.ok.inj h
    exact ⟨fun file hfile => .inl (List.mem_singleton.mp hfile), List.nil_subset _,
      toInsert, List.mem_singleton_self _, rfl⟩
  | cons currentPath rest ih =>
    obtain ⟨-, hraw, rfl⟩ | ⟨-, rfl⟩ | ⟨-, inserted, hinserted, rfl⟩ := insertBefore_cases h
    · exact ⟨fun file hfile => .inr hfile, List.Subset.refl _,
        currentPath, List.mem_cons_self, hraw.symm⟩
    · exact ⟨fun file hfile => List.mem_cons.mp hfile, List.subset_cons_self _ _,
        toInsert, List.mem_cons_self, rfl⟩
    · obtain ⟨hsub, hsup, file, hfile, hraw⟩ := ih hinserted
      refine ⟨fun file hfile => ?_, List.cons_subset_cons _ hsup,
        file, List.mem_cons_of_mem _ hfile, hraw⟩
      rcases List.mem_cons.mp hfile with rfl | hrest
      · exact .inr List.mem_cons_self
      · exact (hsub file hrest).imp_right (List.mem_cons_of_mem _)

theorem removeOne_sublist {configuration : Configuration} {toRemove : ModulePath}
    {existing paths : List ModulePath}
    (h : removeOne configuration toRemove existing = .ok paths) : paths.Sublist existing := by
  induction existing generalizing paths with
  | nil =>
    obtain rfl := Except.ok.inj h
    exact List.Sublist.refl _
  | cons currentPath rest ih =>
    obtain ⟨-, -, rfl⟩ | ⟨-, rfl⟩ | ⟨-, left, hleft, rfl⟩ := removeOne_cases h
    · exact List.sublist_cons_self _ _
    · exact List.Sublist.refl _
    · exact (ih hleft).cons_cons _

/-! ## 3. The order of a module's files -/

/-- A file with a valid suffix, of the module of this name. -/
structure SourceFile (configuration : Configuration) (qualifier : Reference) where
  path : ModulePath
  valid : isValidFilenameRaw configuration path.raw.relative = true
  mapped : qualifierOf configuration path.raw.relative = some path.qualifier
  same : path.qualifier = qualifier

/-- The order that the comparison is to give. -/
def Before (configuration : Configuration) (left right : Raw) : Prop :=
  lexDifference (priorityKeys configuration left) (priorityKeys configuration right) < 0

theorem before_asymm {configuration : Configuration} {left right : Raw}
    (h : Before configuration left right) : ¬Before configuration right left := by
  rw [Before] at h ⊢
  rw [lexDifference_swap]
  omega

theorem before_trans {configuration : Configuration} {left middle right : Raw}
    (hleft : Before configuration left middle) (hright : Before configuration middle right) :
    Before configuration left right :=
  lexDifference_trans hleft hright

/-- Different files differ in what is compared: whether they are stubs, their search path, whether
    they are `__init__` files, the place of their extension, whether they are in a stub package,
    the number of their directories. -/
def DifferentKeys (configuration : Configuration) (files : List ModulePath) : Prop :=
  ∀ left ∈ files, ∀ right ∈ files,
    priorityKeys configuration left.raw = priorityKeys configuration right.raw →
      left.raw = right.raw

/-- What the comparison and the two operations are to do on the files of a module. -/
structure Ordered (configuration : Configuration) (files : List ModulePath) : Prop where
  antisymmetric : ∀ left ∈ files, ∀ right ∈ files,
    sameModuleCompare configuration left right < 0 ↔ 0 < sameModuleCompare configuration right left
  transitive : ∀ left ∈ files, ∀ middle ∈ files, ∀ right ∈ files,
    sameModuleCompare configuration left middle < 0 →
      sameModuleCompare configuration middle right < 0 →
        sameModuleCompare configuration left right < 0
  equal : ∀ left ∈ files, ∀ right ∈ files,
    sameModuleCompare configuration left right = 0 → left.raw = right.raw
  inserts : ∀ toInsert ∈ files, ∀ existing ⊆ files,
    ∃ paths, insertModulePath configuration toInsert existing = .ok paths
  removes : ∀ toRemove ∈ files, ∀ existing ⊆ files,
    ∃ paths, removeModulePath configuration toRemove existing = .ok paths
  sorted : ∀ inserted ⊆ files, ∃ paths, insertModulePaths configuration inserted = .ok paths ∧
    paths.Pairwise (fun left right => sameModuleCompare configuration left right < 0) ∧
      (paths.map ModulePath.raw).Nodup ∧
        ∀ raw, raw ∈ paths.map ModulePath.raw ↔ raw ∈ inserted.map ModulePath.raw
  anyOrder : ∀ inserted ⊆ files, ∀ inserted' ⊆ files,
    (∀ raw, raw ∈ inserted.map ModulePath.raw ↔ raw ∈ inserted'.map ModulePath.raw) →
      (List.map ModulePath.raw <$> insertModulePaths configuration inserted) =
        List.map ModulePath.raw <$> insertModulePaths configuration inserted'

section Files

variable {configuration : Configuration} {files : List ModulePath}

theorem sign_sameModuleCompare
    (hvalid : ∀ file ∈ files, isValidFilenameRaw configuration file.raw.relative = true)
    {left right : ModulePath} (hleft : left ∈ files) (hright : right ∈ files) :
    (sameModuleCompare configuration left right).sign =
      (lexDifference (priorityKeys configuration left.raw)
        (priorityKeys configuration right.raw)).sign :=
  sign_priorityAwareCompare (hvalid left hleft) (hvalid right hright)

theorem sameModuleCompare_neg
    (hvalid : ∀ file ∈ files, isValidFilenameRaw configuration file.raw.relative = true)
    {left right : ModulePath} (hleft : left ∈ files) (hright : right ∈ files) :
    sameModuleCompare configuration left right < 0 ↔ Before configuration left.raw right.raw := by
  rw [Before, ← Int.sign_eq_neg_one_iff_neg, sign_sameModuleCompare hvalid hleft hright,
    Int.sign_eq_neg_one_iff_neg]

theorem sameModuleCompare_pos
    (hvalid : ∀ file ∈ files, isValidFilenameRaw configuration file.raw.relative = true)
    {left right : ModulePath} (hleft : left ∈ files) (hright : right ∈ files) :
    0 < sameModuleCompare configuration left right ↔ Before configuration right.raw left.raw := by
  rw [Before, lexDifference_swap, ← Int.sign_eq_one_iff_pos,
    sign_sameModuleCompare hvalid hleft hright, Int.sign_eq_one_iff_pos]
  omega

theorem sameModuleCompare_zero
    (hvalid : ∀ file ∈ files, isValidFilenameRaw configuration file.raw.relative = true)
    {left right : ModulePath} (hleft : left ∈ files) (hright : right ∈ files) :
    sameModuleCompare configuration left right = 0 ↔
      priorityKeys configuration left.raw = priorityKeys configuration right.raw := by
  have hlength : (priorityKeys configuration left.raw).length =
      (priorityKeys configuration right.raw).length := rfl
  rw [← lexDifference_eq_zero_iff hlength, ← Int.sign_eq_zero_iff_zero,
    sign_sameModuleCompare hvalid hleft hright, Int.sign_eq_zero_iff_zero]

theorem insertBefore_ok
    (hequal : ∀ left ∈ files, ∀ right ∈ files,
      sameModuleCompare configuration left right = 0 → left.raw = right.raw)
    {toInsert : ModulePath} (hinsert : toInsert ∈ files) {existing : List ModulePath}
    (hexisting : existing ⊆ files) :
    ∃ paths, insertBefore configuration toInsert existing = .ok paths := by
  induction existing with
  | nil => exact ⟨_, rfl⟩
  | cons currentPath rest ih =>
    obtain ⟨hcurrent, hrest⟩ := List.cons_subset.mp hexisting
    obtain ⟨inserted, hinserted⟩ := ih hrest
    rw [insertBefore, failIfRawPathsNotEqual, hinserted]
    split_ifs with hzero hraw
    · exact ⟨_, rfl⟩
    · exact absurd (hequal toInsert hinsert currentPath hcurrent hzero) hraw
    · exact ⟨_, rfl⟩
    · exact ⟨_, rfl⟩

theorem removeOne_ok
    (hequal : ∀ left ∈ files, ∀ right ∈ files,
      sameModuleCompare configuration left right = 0 → left.raw = right.raw)
    {toRemove : ModulePath} (hremove : toRemove ∈ files) {existing : List ModulePath}
    (hexisting : existing ⊆ files) :
    ∃ paths, removeOne configuration toRemove existing = .ok paths := by
  induction existing with
  | nil => exact ⟨_, rfl⟩
  | cons currentPath rest ih =>
    obtain ⟨hcurrent, hrest⟩ := List.cons_subset.mp hexisting
    obtain ⟨left, hleft⟩ := ih hrest
    rw [removeOne, failIfRawPathsNotEqual, hleft]
    split_ifs with hzero hraw
    · exact ⟨_, rfl⟩
    · exact absurd (hequal toRemove hremove currentPath hcurrent hzero) hraw
    · exact ⟨_, rfl⟩
    · exact ⟨_, rfl⟩

theorem pairwise_insertBefore
    (hvalid : ∀ file ∈ files, isValidFilenameRaw configuration file.raw.relative = true)
    {toInsert : ModulePath} (hinsert : toInsert ∈ files) {existing paths : List ModulePath}
    (hexisting : existing ⊆ files)
    (hsorted : (existing.map ModulePath.raw).Pairwise (Before configuration))
    (h : insertBefore configuration toInsert existing = .ok paths) :
    (paths.map ModulePath.raw).Pairwise (Before configuration) := by
  induction existing generalizing paths with
  | nil =>
    obtain rfl := Except.ok.inj h
    exact List.pairwise_singleton _ _
  | cons currentPath rest ih =>
    obtain ⟨hcurrent, hrest⟩ := List.cons_subset.mp hexisting
    obtain ⟨hfirst, htail⟩ := List.pairwise_cons.mp hsorted
    obtain ⟨-, -, rfl⟩ | ⟨hneg, rfl⟩ | ⟨hpos, inserted, hinserted, rfl⟩ := insertBefore_cases h
    · exact hsorted
    · have hbefore := (sameModuleCompare_neg hvalid hinsert hcurrent).mp hneg
      refine List.pairwise_cons.mpr ⟨fun raw hraw => ?_, hsorted⟩
      rcases List.mem_cons.mp hraw with rfl | hraw
      · exact hbefore
      · exact before_trans hbefore (hfirst raw hraw)
    · have hafter := (sameModuleCompare_pos hvalid hinsert hcurrent).mp hpos
      refine List.pairwise_cons.mpr ⟨fun raw hraw => ?_, ih hrest htail hinserted⟩
      obtain ⟨file, hfile, rfl⟩ := List.mem_map.mp hraw
      rcases (mem_insertBefore hinserted).1 file hfile with rfl | hold
      · exact hafter
      · exact hfirst _ (List.mem_map_of_mem hold)

/-- One file after the other, from a list that is sorted. -/
theorem foldlM_insertModulePath
    (hvalid : ∀ file ∈ files, isValidFilenameRaw configuration file.raw.relative = true)
    (hequal : ∀ left ∈ files, ∀ right ∈ files,
      sameModuleCompare configuration left right = 0 → left.raw = right.raw)
    {inserted existing : List ModulePath} (hinserted : inserted ⊆ files)
    (hexisting : existing ⊆ files)
    (hsorted : (existing.map ModulePath.raw).Pairwise (Before configuration)) :
    ∃ paths, inserted.foldlM (fun paths file => insertModulePath configuration file paths) existing
        = .ok paths ∧ paths ⊆ files ∧
      (paths.map ModulePath.raw).Pairwise (Before configuration) ∧
        ∀ raw, raw ∈ paths.map ModulePath.raw ↔
          raw ∈ existing.map ModulePath.raw ∨ raw ∈ inserted.map ModulePath.raw := by
  induction inserted generalizing existing with
  | nil =>
    refine ⟨existing, rfl, hexisting, hsorted, fun raw => ?_⟩
    rw [List.map_nil]
    exact (or_iff_left List.not_mem_nil).symm
  | cons file rest ih =>
    obtain ⟨hfile, hrest⟩ := List.cons_subset.mp hinserted
    obtain ⟨next, hnext⟩ := insertBefore_ok hequal hfile hexisting
    obtain ⟨hsub, hsup, same, hsame, hraw⟩ := mem_insertBefore hnext
    have hnextSub : next ⊆ files := fun path hpath => (hsub path hpath).elim (· ▸ hfile)
      (hexisting ·)
    obtain ⟨paths, hpaths, hpathsSub, hpathsSorted, hmem⟩ := ih hrest hnextSub
      (pairwise_insertBefore hvalid hfile hexisting hsorted hnext)
    refine ⟨paths, ?_, hpathsSub, hpathsSorted, fun raw => ?_⟩
    · rw [List.foldlM_cons, insertModulePath_eq, hnext]
      exact hpaths
    · have hnextMem : raw ∈ next.map ModulePath.raw ↔
          raw ∈ existing.map ModulePath.raw ∨ raw = file.raw := by
        constructor
        · intro h
          obtain ⟨path, hpath, rfl⟩ := List.mem_map.mp h
          exact (hsub path hpath).elim (fun h => .inr (congrArg _ h))
            fun h => .inl (List.mem_map_of_mem h)
        · rintro (h | rfl)
          · exact List.map_subset _ hsup h
          · exact List.mem_map.mpr ⟨same, hsame, hraw⟩
      rw [hmem, hnextMem, List.map_cons, List.mem_cons, or_assoc]

theorem ordered_of_differentKeys
    (hvalid : ∀ file ∈ files, isValidFilenameRaw configuration file.raw.relative = true)
    (hkeys : DifferentKeys configuration files) : Ordered configuration files := by
  have hequal : ∀ left ∈ files, ∀ right ∈ files,
      sameModuleCompare configuration left right = 0 → left.raw = right.raw :=
    fun left hleft right hright h =>
      hkeys left hleft right hright ((sameModuleCompare_zero hvalid hleft hright).mp h)
  have hinsertAll := fun (inserted : List ModulePath) (hinserted : inserted ⊆ files) =>
    foldlM_insertModulePath hvalid hequal hinserted (List.nil_subset _) List.Pairwise.nil
  have hirrefl : Std.Irrefl (Before configuration) := ⟨fun raw h => before_asymm h h⟩
  have hasymm : Std.Antisymm (Before configuration) :=
    ⟨fun left right h h' => absurd h' (before_asymm h)⟩
  refine ⟨fun left hleft right hright => ?_, fun left hleft middle hmiddle right hright => ?_,
    hequal, fun toInsert hinsert existing hexisting => ?_,
    fun toRemove hremove existing hexisting => ?_, fun inserted hinserted => ?_,
    fun inserted hinserted inserted' hinserted' hsame => ?_⟩
  · rw [sameModuleCompare_neg hvalid hleft hright, sameModuleCompare_pos hvalid hright hleft]
  · rw [sameModuleCompare_neg hvalid hleft hmiddle, sameModuleCompare_neg hvalid hmiddle hright,
      sameModuleCompare_neg hvalid hleft hright]
    exact before_trans
  · rw [insertModulePath_eq]
    exact insertBefore_ok hequal hinsert hexisting
  · rw [removeModulePath_eq]
    exact removeOne_ok hequal hremove hexisting
  · obtain ⟨paths, hpaths, hsub, hsorted, hmem⟩ := hinsertAll inserted hinserted
    refine ⟨paths, hpaths, ?_, ?_, fun raw => ?_⟩
    · rw [List.pairwise_map] at hsorted
      exact hsorted.imp_of_mem fun hleft hright h =>
        (sameModuleCompare_neg hvalid (hsub hleft) (hsub hright)).mpr h
    · exact hsorted.nodup
    · rw [hmem, List.map_nil]
      exact or_iff_right List.not_mem_nil
  · obtain ⟨paths, hpaths, -, hsorted, hmem⟩ := hinsertAll inserted hinserted
    obtain ⟨paths', hpaths', -, hsorted', hmem'⟩ := hinsertAll inserted' hinserted'
    rw [insertModulePaths, insertModulePaths, hpaths, hpaths']
    refine congrArg Except.ok (hsorted.eq_of_mem_iff hsorted' fun raw => ?_)
    rw [hmem, hmem', hsame]

end Files

/-- **The priorities order the files of a module**: if and only if different ones differ in what is
    compared. -/
theorem ordered_iff {configuration : Configuration} {qualifier : Reference}
    (files : List (SourceFile configuration qualifier)) :
    Ordered configuration (files.map SourceFile.path) ↔
      DifferentKeys configuration (files.map SourceFile.path) := by
  have hvalid : ∀ path ∈ files.map SourceFile.path,
      isValidFilenameRaw configuration path.raw.relative = true := by
    intro path hpath
    obtain ⟨file, -, rfl⟩ := List.mem_map.mp hpath
    exact file.valid
  refine ⟨fun hordered left hleft right hright hkeys => ?_, ordered_of_differentKeys hvalid⟩
  exact hordered.equal left hleft right hright
    ((sameModuleCompare_zero hvalid hleft hright).mpr hkeys)

/-- A dot in the name of a directory or of a file: two files of one module with one rank. -/
theorem dotted_not_ordered :
    ¬∀ (configuration : Configuration) (qualifier : Reference)
      (files : List (SourceFile configuration qualifier)),
      Ordered configuration (files.map SourceFile.path) := by
  intro h
  let module := ["a", "b", "c"]
  let directory : SourceFile [] module :=
    ⟨⟨⟨"a.b/c.py", 0⟩, module, true⟩, by decide, by decide, rfl⟩
  let file : SourceFile [] module :=
    ⟨⟨⟨"a/b.c.py", 0⟩, module, true⟩, by decide, by decide, rfl⟩
  have hequal := (h [] module [directory, file]).equal directory.path (by simp) file.path (by simp)
    (by decide)
  exact absurd (congrArg Raw.relative hequal) (by decide)

end Pysa.ModuleTracker
