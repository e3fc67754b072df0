/-
  Subject: WHICH FILE OF A MODULE COMES FIRST (`modulePath.ml`).

  * `qualifierFromRelativePath` -- the module of a file; several files may have one;
  * `priorityAwareCompare` -- stubs, search paths, packages, extensions, stub packages and
    directories, the first difference decides;
  * `priorityKeys` -- the same as a list of numbers; `sign_priorityAwareCompare` -- on files with
    valid suffixes the comparison is that of these lists.
-/
import Pysa.Lib.Replace

namespace Pysa

open Pysa.Text

namespace ModulePath

/-! ## 1. Files -/

/-- `Configuration.Extension`. -/
structure Extension where
  suffix : String
  includeSuffixInModuleQualifier : Bool

/-- The extensions of the configuration. -/
abbrev Configuration := List Extension

def extensionSuffixes (configuration : Configuration) : List String :=
  configuration.map Extension.suffix

def isSuffix (suffix path : String) : Bool := suffix.toList.isSuffixOf path.toList

def isPathPythonStub (path : String) : Bool := isSuffix ".pyi" path

def isPathPythonInit (path : String) : Bool :=
  isSuffix "__init__.pyi" path || isSuffix "__init__.py" path

/-- `Filename.parts`, without the directory that a relative path starts from. -/
def fileNamePartsForRelativePath (path : String) : List String :=
  match (split '/' path).filter (· ≠ "") with
  | "." :: "." :: parts => parts
  | "." :: parts => parts
  | parts => parts

/-- `Filename.split_extension`: what follows the last dot, if it is in the name of the file. -/
def splitExtension (path : String) : Option String :=
  if path.toList.contains '.' then
    let extension := afterLast '.' path
    if extension.toList.contains '/' then none else some extension
  else none

def getExtension (path : String) : String := (splitExtension path).elim "" ("." ++ ·)

def stripStubSuffix (name : String) : String :=
  if isSuffix "-stubs" name then
    String.ofList (name.toList.take (name.toList.length - "-stubs".toList.length))
  else name

def stripStubPackage (pathParts : List String) : List String := pathParts.map stripStubSuffix

def isInStubPackage (path : String) : Bool :=
  stripStubPackage (fileNamePartsForRelativePath path) ≠ fileNamePartsForRelativePath path

/-- `is_valid_filename_raw`: no hidden file, and a suffix that is looked for. -/
def isValidFilenameRaw (configuration : Configuration) (path : String) : Bool :=
  (split '/' path).getLast?.all (fun name => name.toList.head? ≠ some '.') &&
    (".py" :: ".pyi" :: extensionSuffixes configuration).contains (getExtension path)

/-! ## 2. Qualifiers -/

abbrev Reference := List String

/-- The name of a file without its last suffix; a dot in front is no suffix. -/
def withoutSuffix (name : String) : String :=
  let suffix := name.toList.reverse.takeWhile (· ≠ '.')
  let stem := name.toList.length - suffix.length - 1
  if name.toList.contains '.' && stem ≠ 0 then String.ofList (name.toList.take stem) else name

def stripImplicitQualifierParts : List String → List String
  | ["builtins"] => []
  | ["builtins", "future"] => []
  | "__init__" :: rest => rest
  | elements => elements

/-- `qualifier_from_relative_path`; a path that only goes to a directory has no file. -/
def qualifierFromRelativePath (relative : String) : Option Reference :=
  if relative = "" then some []
  else
    match (stripStubPackage (fileNamePartsForRelativePath relative)).reverse with
    | [] => none
    | last :: rest =>
      some (((stripImplicitQualifierParts (withoutSuffix last :: rest)).reverse.map
        (split '.')).flatten)

/-- The qualifier of a file, with its suffix if the configuration says so. -/
def qualifierOf (configuration : Configuration) (relative : String) : Option Reference :=
  match configuration.find? fun extension => isSuffix extension.suffix relative with
  | some ⟨_, true⟩ => qualifierFromRelativePath (relative ++ ".py")
  | _ => qualifierFromRelativePath relative

/-! ## 3. Priorities -/

structure Raw where
  relative : String
  priority : ℤ
deriving DecidableEq

/-- The left one comes first if only it has the property. -/
def comesFirst (left right : Bool) : ℤ :=
  match left, right with
  | true, false => -1
  | false, true => 1
  | _, _ => 0

def intCompare (left right : ℤ) : ℤ := if left < right then -1 else if left = right then 0 else 1

def findExtensionIndex (configuration : Configuration) (path : String) : Option ℕ :=
  let extensions := extensionSuffixes configuration
  let extensions := if extensions.contains ".py" then extensions else ".py" :: extensions
  extensions.findIdx? fun extension => getExtension path = extension

def extensionOrder (configuration : Configuration) (left right : String) : ℤ :=
  match findExtensionIndex configuration left, findExtensionIndex configuration right with
  | some l, some r => l - r
  | _, _ => 0

def countSlashes (path : String) : ℤ := path.toList.count '/'

/-- The first nonzero comparison. -/
def firstNonzero (comparisons : List ℤ) : ℤ := (comparisons.find? (· ≠ 0)).getD 0

def priorityAwareCompare (configuration : Configuration) (left right : Raw) : ℤ :=
  firstNonzero [
    comesFirst (isPathPythonStub left.relative) (isPathPythonStub right.relative),
    intCompare left.priority right.priority,
    comesFirst (isPathPythonInit left.relative) (isPathPythonInit right.relative),
    extensionOrder configuration left.relative right.relative,
    comesFirst (isInStubPackage left.relative) (isInStubPackage right.relative),
    countSlashes right.relative - countSlashes left.relative]

/-! ## 4. Lists of numbers -/

/-- The first difference of two lists. -/
def lexDifference : List ℤ → List ℤ → ℤ
  | k :: ks, l :: ls => if k = l then lexDifference ks ls else k - l
  | _, _ => 0

theorem lexDifference_eq_zero_iff {ks ls : List ℤ} (h : ks.length = ls.length) :
    lexDifference ks ls = 0 ↔ ks = ls := by
  induction ks generalizing ls with
  | nil =>
    rw [List.length_eq_zero_iff.mp h.symm]
    exact ⟨fun _ => rfl, fun _ => rfl⟩
  | cons k ks ih =>
    cases ls with
    | nil => cases h
    | cons l ls =>
      rw [lexDifference, List.cons.injEq]
      by_cases hkl : k = l
      · rw [if_pos hkl, ih (Nat.succ.inj h)]
        exact ⟨fun hks => ⟨hkl, hks⟩, fun hks => hks.2⟩
      · rw [if_neg hkl]
        exact ⟨fun hzero => absurd (by omega) hkl, fun hks => absurd hks.1 hkl⟩

theorem lexDifference_swap (ks ls : List ℤ) : lexDifference ls ks = -lexDifference ks ls := by
  induction ks generalizing ls with
  | nil => cases ls <;> rfl
  | cons k ks ih =>
    cases ls with
    | nil => rfl
    | cons l ls =>
      rw [lexDifference, lexDifference]
      by_cases hkl : k = l
      · rw [if_pos hkl, if_pos hkl.symm, ih]
      · rw [if_neg hkl, if_neg (Ne.symm hkl)]
        omega

theorem lexDifference_trans {ks ls ms : List ℤ} (hkl : lexDifference ks ls < 0)
    (hlm : lexDifference ls ms < 0) : lexDifference ks ms < 0 := by
  induction ks generalizing ls ms with
  | nil => cases hkl
  | cons k ks ih =>
    cases ls with
    | nil => cases hkl
    | cons l ls =>
      cases ms with
      | nil => cases hlm
      | cons m ms =>
        rw [lexDifference] at hkl hlm ⊢
        split_ifs at hkl hlm ⊢ <;> first | exact ih hkl hlm | omega

/-- Comparisons decide as the keys do if each agrees with its key as long as the earlier keys are
    equal. -/
theorem sign_firstNonzero_cons {comparison k l : ℤ} {comparisons ks ls : List ℤ}
    (hhead : comparison.sign = (k - l).sign)
    (hrest : k = l → (firstNonzero comparisons).sign = (lexDifference ks ls).sign) :
    (firstNonzero (comparison :: comparisons)).sign = (lexDifference (k :: ks) (l :: ls)).sign := by
  rw [lexDifference]
  by_cases hkl : k = l
  · rw [hkl, sub_self, Int.sign_zero, Int.sign_eq_zero_iff_zero] at hhead
    rw [if_pos hkl, ← hrest hkl, hhead]
    rfl
  · have hne : comparison ≠ 0 := by
      rintro rfl
      rw [Int.sign_zero, eq_comm, Int.sign_eq_zero_iff_zero] at hhead
      omega
    rw [if_neg hkl, ← hhead]
    simp [firstNonzero, hne]

/-! ## 5. The comparison is that of lists of numbers -/

def rank (first : Bool) : ℤ := if first then 0 else 1

/-- What the comparison looks at, in its order; the smaller list comes first. -/
def priorityKeys (configuration : Configuration) (raw : Raw) : List ℤ :=
  [rank (isPathPythonStub raw.relative), raw.priority, rank (isPathPythonInit raw.relative),
    (findExtensionIndex configuration raw.relative).elim 0 Nat.cast,
    rank (isInStubPackage raw.relative), -countSlashes raw.relative]

theorem rank_inj {left right : Bool} (h : rank left = rank right) : left = right := by
  cases left <;> cases right <;> first | rfl | cases h

theorem sign_comesFirst (left right : Bool) :
    (comesFirst left right).sign = (rank left - rank right).sign := by
  cases left <;> cases right <;> rfl

theorem sign_intCompare (left right : ℤ) :
    (intCompare left right).sign = (left - right).sign := by
  rw [intCompare]
  split_ifs with hlt heq
  · rw [Int.sign_eq_neg_one_of_neg (by omega : left - right < 0)]
    rfl
  · rw [heq, sub_self]
  · rw [Int.sign_eq_one_of_pos (by omega : 0 < left - right)]
    rfl

theorem suffix_afterLast {c : Char} {text : String} (h : c ∈ text.toList) :
    c :: (afterLast c text).toList <:+ text.toList := by
  obtain ⟨after, before, heq, hafter⟩ := List.eq_append_cons_of_mem (List.mem_reverse.mpr h)
  have hlist : text.toList = before.reverse ++ c :: after.reverse := by
    rw [← List.reverse_reverse text.toList, heq]
    simp
  have htext : text = String.ofList before.reverse ++ String.singleton c ++
      String.ofList after.reverse := by
    rw [← String.toList_inj, hlist]
    simp
  have hlast : afterLast c text = String.ofList after.reverse := by
    rw [htext]
    exact afterLast_append (by simpa using hafter)
  rw [hlast, String.toList_ofList, hlist]
  exact List.suffix_append _ _

theorem getExtension_of_stub {path : String} (h : isPathPythonStub path = true) :
    getExtension path = ".pyi" := by
  obtain ⟨stem, hstem⟩ := List.isSuffixOf_iff_suffix.mp h
  have hpath : path = String.ofList stem ++ String.singleton '.' ++ "pyi" := by
    rw [← String.toList_inj, ← hstem]
    simp
  have hafter : afterLast '.' path = "pyi" := by
    rw [hpath]
    exact afterLast_append (by decide)
  have hdot : path.toList.contains '.' = true := by
    rw [List.contains_iff_mem, ← hstem]
    exact List.mem_append_right stem (by decide)
  rw [getExtension, splitExtension, if_pos hdot, hafter]
  rfl

theorem stub_of_getExtension {path : String} (h : getExtension path = ".pyi") :
    isPathPythonStub path = true := by
  rw [getExtension, splitExtension] at h
  split_ifs at h with hdot
  · dsimp only at h
    split_ifs at h
    · cases congrArg String.toList h
    · have hafter : (afterLast '.' path).toList = "pyi".toList := by
        have hcons := congrArg String.toList h
        rw [Option.elim_some, String.toList_append] at hcons
        exact List.cons_injective hcons
      have hsuffix := suffix_afterLast (List.contains_iff_mem.mp hdot)
      rw [hafter] at hsuffix
      exact List.isSuffixOf_iff_suffix.mpr hsuffix
  · cases congrArg String.toList h

theorem getExtension_eq_pyi_iff {path : String} :
    getExtension path = ".pyi" ↔ isPathPythonStub path = true :=
  ⟨stub_of_getExtension, getExtension_of_stub⟩

/-- The first suffix that is looked for is `.py`, so every valid file that is no stub has a
    place. -/
theorem findExtensionIndex_isSome {configuration : Configuration} {path : String}
    (hvalid : isValidFilenameRaw configuration path = true) (hstub : getExtension path ≠ ".pyi") :
    (findExtensionIndex configuration path).isSome := by
  have hmem : getExtension path ∈ ".py" :: ".pyi" :: extensionSuffixes configuration :=
    List.contains_iff_mem.mp (Bool.and_eq_true_iff.mp hvalid).2
  have hfind : getExtension path ∈ (if (extensionSuffixes configuration).contains ".py" then
      extensionSuffixes configuration else ".py" :: extensionSuffixes configuration) := by
    split_ifs with hpy
    · rcases List.mem_cons.mp hmem with heq | hrest
      · rw [heq]
        exact List.contains_iff_mem.mp hpy
      · exact (List.mem_cons.mp hrest).resolve_left hstub
    · rcases List.mem_cons.mp hmem with heq | hrest
      · exact heq ▸ List.mem_cons_self
      · exact List.mem_cons_of_mem _ ((List.mem_cons.mp hrest).resolve_left hstub)
  rw [findExtensionIndex, List.findIdx?_isSome, List.any_eq_true]
  exact ⟨_, hfind, decide_eq_true rfl⟩

/-- Stubs all have one extension, other valid files have places in the list. -/
theorem extensionOrder_eq {configuration : Configuration} {left right : String}
    (hleft : isValidFilenameRaw configuration left = true)
    (hright : isValidFilenameRaw configuration right = true)
    (hstub : isPathPythonStub left = isPathPythonStub right) :
    extensionOrder configuration left right =
      (findExtensionIndex configuration left).elim 0 Nat.cast -
        (findExtensionIndex configuration right).elim 0 Nat.cast := by
  have hiff : getExtension left = ".pyi" ↔ getExtension right = ".pyi" := by
    rw [getExtension_eq_pyi_iff, getExtension_eq_pyi_iff, hstub]
  by_cases hpyi : getExtension left = ".pyi"
  · have heq : findExtensionIndex configuration left = findExtensionIndex configuration right := by
      rw [findExtensionIndex, findExtensionIndex, hpyi, hiff.mp hpyi]
    rw [extensionOrder, heq]
    cases findExtensionIndex configuration right with
    | none => rfl
    | some r => rfl
  · obtain ⟨l, hl⟩ := Option.isSome_iff_exists.mp (findExtensionIndex_isSome hleft hpyi)
    obtain ⟨r, hr⟩ := Option.isSome_iff_exists.mp
      (findExtensionIndex_isSome hright (hpyi ∘ hiff.mpr))
    rw [extensionOrder, hl, hr]
    rfl

/-- On valid files the comparison is that of the keys. -/
theorem sign_priorityAwareCompare {configuration : Configuration} {left right : Raw}
    (hleft : isValidFilenameRaw configuration left.relative = true)
    (hright : isValidFilenameRaw configuration right.relative = true) :
    (priorityAwareCompare configuration left right).sign =
      (lexDifference (priorityKeys configuration left) (priorityKeys configuration right)).sign := by
  refine sign_firstNonzero_cons (sign_comesFirst _ _) fun hstub => ?_
  refine sign_firstNonzero_cons (sign_intCompare _ _) fun _ => ?_
  refine sign_firstNonzero_cons (sign_comesFirst _ _) fun _ => ?_
  refine sign_firstNonzero_cons (congrArg Int.sign
    (extensionOrder_eq hleft hright (rank_inj hstub))) fun _ => ?_
  refine sign_firstNonzero_cons (sign_comesFirst _ _) fun _ => ?_
  refine sign_firstNonzero_cons ?_ fun _ => rfl
  congr 1
  omega

end ModulePath

/-- A file as the module of its name. -/
structure ModulePath where
  raw : ModulePath.Raw
  qualifier : ModulePath.Reference
  shouldTypeCheck : Bool
deriving DecidableEq

end Pysa
