/-
  Subject: NAMING THE MODULES OF A PROJECT (`pyreflyReport.ml`, `ModuleQualifier`;
    `pyreflyApi.ml`, `create_module_qualifiers`).

  * `create`, `bareModuleName` -- a qualifier is the escaped name of the module, behind a path if
    several modules have that name; `bareModuleName_create` -- the name can be read back;
  * `createModuleQualifiers_unique` -- **all modules get different qualifiers, from which their names
    can be read back**, and so do the top-level modules that are added.
-/
import Mathlib.Data.Finset.Card
import Mathlib.Data.List.Sort
import Pysa.Lib.Replace

namespace Pysa

open Pysa.Text

namespace ModuleQualifiers

/-! ## 1. References -/

abbrev Reference := List String

def Reference.create (name : String) : Reference :=
  if name = "" then []
  else if name = "..." then [name]
  else split '.' name

def showReference (reference : Reference) : String := ".".intercalate reference

/-- The name of a module: parts without dots, and without the backslash that marks an escape. -/
structure ValidName (name : Reference) : Prop where
  nonempty : name ≠ []
  noDot : ∀ part ∈ name, '.' ∉ part.toList
  noBackslash : ∀ part ∈ name, '\\' ∉ part.toList

theorem showReference_create {name : String} {c : Char} (hc : c ∈ name.toList) (hdot : c ≠ '.') :
    showReference (Reference.create name) = name := by
  have hempty : name ≠ "" := by
    rintro rfl
    simp at hc
  have hdots : name ≠ "..." := by
    rintro rfl
    simp at hc
    exact hdot hc
  rw [Reference.create, if_neg hempty, if_neg hdots]
  exact intercalate_split '.' name

/-! ## 2. Qualifiers -/

def isSpecial (c : Char) : Bool := c == ':' || c == '#' || c == '$' || c == '@'

def escapeSpecialCharacters (s : String) : String :=
  substrReplaceAll "@" "\\x40" (substrReplaceAll "$" "\\x24"
    (substrReplaceAll "#" "\\x23" (substrReplaceAll ":" "\\x3a" s)))

def unescapeSpecialCharacters (s : String) : String :=
  substrReplaceAll "\\x40" "@" (substrReplaceAll "\\x24" "$"
    (substrReplaceAll "\\x23" "#" (substrReplaceAll "\\x3a" ":" s)))

/-- `ModuleQualifier.create`. -/
def create (path : Option String) (moduleName : Reference) : Reference :=
  let moduleName :=
    if moduleName.any fun s => s.toList.any isSpecial then
      moduleName.map escapeSpecialCharacters
    else moduleName
  match path with
  | none => moduleName
  | some path => Reference.create (path ++ ":" ++ showReference moduleName)

/-- `ModuleQualifier.bare_module_name`. -/
def bareModuleName (qualifier : Reference) : Reference :=
  let reference :=
    if qualifier.any fun s => s.toList.contains ':' then
      split '.' (afterLast ':' (showReference qualifier))
    else qualifier
  reference.map unescapeSpecialCharacters

/-- What a special character is escaped to. -/
def code (c : Char) : List Char :=
  if c = ':' then ['\\', 'x', '3', 'a']
  else if c = '#' then ['\\', 'x', '2', '3']
  else if c = '$' then ['\\', 'x', '2', '4']
  else ['\\', 'x', '4', '0']

/-- The escape of a character, if only the listed ones are escaped. -/
def escapeOf (escaped : List Char) (c : Char) : List Char := if c ∈ escaped then code c else [c]

theorem toList_escape (s : String) :
    (escapeSpecialCharacters s).toList = s.toList.flatMap (escapeOf [':', '#', '$', '@']) := by
  simp only [escapeSpecialCharacters, substrReplaceAll, String.toList_ofList]
  change replaceFrom ['@'] ['\\', 'x', '4', '0'] 0 (replaceFrom ['$'] ['\\', 'x', '2', '4'] 0
    (replaceFrom ['#'] ['\\', 'x', '2', '3'] 0 (replaceFrom [':'] ['\\', 'x', '3', 'a'] 0
      s.toList))) = _
  rw [replaceFrom_singleton, replaceFrom_singleton, replaceFrom_singleton, replaceFrom_singleton,
    List.flatMap_assoc, List.flatMap_assoc, List.flatMap_assoc]
  congr 1
  funext c
  by_cases hcolon : c = ':'
  · subst hcolon
    decide
  by_cases hhash : c = '#'
  · subst hhash
    decide
  by_cases hdollar : c = '$'
  · subst hdollar
    decide
  by_cases hat : c = '@'
  · subst hat
    decide
  simp [escapeOf, hcolon, hhash, hdollar, hat]

/-- Taking back one escape leaves the others. -/
theorem replaceFrom_code {d : Char} {escaped text : List Char} (hd : d ∈ [':', '#', '$', '@'])
    (hescaped : escaped ⊆ [':', '#', '$', '@']) (hmem : d ∉ escaped) (hs : '\\' ∉ text) :
    replaceFrom (code d) [d] 0 (text.flatMap (escapeOf (d :: escaped))) =
      text.flatMap (escapeOf escaped) := by
  refine replaceFrom_flatMap fun c hc rest => ?_
  have hbackslash : '\\' ≠ c := fun h => hs (h ▸ hc)
  by_cases hcd : c = d
  · rw [escapeOf, escapeOf, if_pos (hcd ▸ List.mem_cons_self), if_neg (hcd ▸ hmem), hcd]
    simp only [List.mem_cons, List.not_mem_nil, or_false] at hd
    rcases hd with rfl | rfl | rfl | rfl <;> rfl
  · by_cases hce : c ∈ escaped
    · rw [escapeOf, escapeOf, if_pos (List.mem_cons_of_mem _ hce), if_pos hce]
      have hspecial := hescaped hce
      simp only [List.mem_cons, List.not_mem_nil, or_false] at hd hspecial
      rcases hd with rfl | rfl | rfl | rfl <;> rcases hspecial with rfl | rfl | rfl | rfl <;>
        first
        | exact absurd rfl hcd
        | rfl
    · have hnot : c ∉ d :: escaped := by simp [hcd, hce]
      rw [escapeOf, escapeOf, if_neg hnot, if_neg hce, List.singleton_append, List.singleton_append]
      have hcode : ∃ rest', code d = '\\' :: rest' := by
        unfold code
        split_ifs <;> exact ⟨_, rfl⟩
      obtain ⟨rest', hcode⟩ := hcode
      rw [hcode, replaceFrom, if_neg]
      simp [hbackslash]

theorem unescape_escape {s : String} (hs : '\\' ∉ s.toList) :
    unescapeSpecialCharacters (escapeSpecialCharacters s) = s := by
  have hall : escapeOf [] = fun c => [c] := by
    funext c
    simp [escapeOf]
  rw [String.ext_iff]
  simp only [unescapeSpecialCharacters, substrReplaceAll, String.toList_ofList, toList_escape]
  change replaceFrom (code '@') ['@'] 0 (replaceFrom (code '$') ['$'] 0
    (replaceFrom (code '#') ['#'] 0 (replaceFrom (code ':') [':'] 0 _))) = _
  rw [replaceFrom_code (by decide) (by decide) (by decide) hs,
    replaceFrom_code (by decide) (by decide) (by decide) hs,
    replaceFrom_code (by decide) (by decide) (by decide) hs,
    replaceFrom_code (by decide) (by decide) (by decide) hs, hall, List.flatMap_singleton']

/-- Escaping adds nothing but backslashes, letters and digits, and leaves no special character. -/
theorem mem_escape {s : String} {c : Char} (h : c ∈ (escapeSpecialCharacters s).toList) :
    isSpecial c = false ∧ (c ∈ s.toList ∨ c ∈ ['\\', 'x', '0', '2', '3', '4', 'a']) := by
  rw [toList_escape, List.mem_flatMap] at h
  obtain ⟨d, hd, h⟩ := h
  rw [escapeOf] at h
  split_ifs at h with hspecial
  · have hcode : c ∈ ['\\', 'x', '0', '2', '3', '4', 'a'] := by
      unfold code at h
      split_ifs at h <;> simp only [List.mem_cons, List.not_mem_nil, or_false] at h ⊢ <;> tauto
    refine ⟨?_, Or.inr hcode⟩
    simp only [List.mem_cons, List.not_mem_nil, or_false] at hcode
    rcases hcode with rfl | rfl | rfl | rfl | rfl | rfl | rfl <;> rfl
  · rw [List.mem_singleton] at h
    subst h
    refine ⟨?_, Or.inl hd⟩
    simpa [isSpecial, and_assoc] using hspecial

theorem escape_of_not_special {s : String} (h : s.toList.any isSpecial = false) :
    escapeSpecialCharacters s = s := by
  rw [String.ext_iff, toList_escape]
  have hsingle : s.toList.flatMap (escapeOf [':', '#', '$', '@']) =
      s.toList.flatMap fun c => [c] := by
    refine List.flatMap_congr fun c hc => ?_
    have hnot := List.any_eq_false.mp h c hc
    rw [escapeOf, if_neg]
    simpa [isSpecial, and_assoc] using hnot
  rw [hsingle, List.flatMap_singleton']

/-- A name without special characters is its own escape. -/
theorem escapedName_eq (moduleName : Reference) :
    (if moduleName.any fun s => s.toList.any isSpecial then
      moduleName.map escapeSpecialCharacters else moduleName) =
      moduleName.map escapeSpecialCharacters := by
  split_ifs with hany
  · rfl
  · have hnot : ∀ s ∈ moduleName, escapeSpecialCharacters s = s := by
      intro s hs
      refine escape_of_not_special (Bool.eq_false_iff.mpr fun hspecial => hany ?_)
      exact List.any_eq_true.mpr ⟨s, hs, hspecial⟩
    rw [List.map_congr_left hnot, List.map_id']

theorem create_none (moduleName : Reference) :
    create none moduleName = moduleName.map escapeSpecialCharacters := by
  rw [create, escapedName_eq]

theorem create_some (path : String) (moduleName : Reference) :
    create (some path) moduleName =
      Reference.create
        (path ++ ":" ++ showReference (moduleName.map escapeSpecialCharacters)) := by
  rw [create, escapedName_eq]

theorem showReference_create_some (path : String) (moduleName : Reference) :
    showReference (create (some path) moduleName) =
      path ++ ":" ++ showReference (moduleName.map escapeSpecialCharacters) := by
  rw [create_some]
  exact showReference_create (c := ':') (by simp) (by decide)

/-- For one name, different paths give different qualifiers. -/
theorem create_some_injective {path path' : String} {moduleName : Reference}
    (h : create (some path) moduleName = create (some path') moduleName) : path = path' := by
  have hshow := congrArg showReference h
  rw [showReference_create_some, showReference_create_some, String.ext_iff] at hshow
  simp only [String.toList_append, List.append_assoc] at hshow
  rw [String.ext_iff]
  exact List.append_cancel_right hshow

theorem unescape_escapedName {name : Reference} (h : ∀ part ∈ name, '\\' ∉ part.toList) :
    (name.map escapeSpecialCharacters).map unescapeSpecialCharacters = name := by
  have hid : ∀ part ∈ name, (unescapeSpecialCharacters ∘ escapeSpecialCharacters) part = part :=
    fun part hpart => unescape_escape (h part hpart)
  rw [List.map_map, List.map_congr_left hid, List.map_id']

theorem colon_notMem_escape (s : String) : ':' ∉ (escapeSpecialCharacters s).toList := by
  intro h
  exact absurd (mem_escape h).1 (by decide)

theorem noDot_escape {name : Reference} (h : ∀ part ∈ name, '.' ∉ part.toList) :
    ∀ part ∈ name.map escapeSpecialCharacters, '.' ∉ part.toList := by
  intro part hpart hmem
  obtain ⟨s, hs, rfl⟩ := List.mem_map.mp hpart
  rcases (mem_escape hmem).2 with hmem | hmem
  · exact h s hs hmem
  · exact absurd hmem (by decide)

/-- What is read of a qualifier is the name, as far as it can be escaped and taken back. -/
theorem bareModuleName_eq {name : Reference} (hnonempty : name ≠ [])
    (hnoDot : ∀ part ∈ name, '.' ∉ part.toList) (path : Option String) :
    bareModuleName (create path name) =
      (name.map escapeSpecialCharacters).map unescapeSpecialCharacters := by
  have hcolon : ∀ part ∈ name.map escapeSpecialCharacters, ':' ∉ part.toList := by
    intro part hpart
    obtain ⟨s, -, rfl⟩ := List.mem_map.mp hpart
    exact colon_notMem_escape s
  cases path with
  | none =>
    have hany : ((name.map escapeSpecialCharacters).any fun s => s.toList.contains ':') = false := by
      rw [List.any_eq_false]
      intro part hpart
      simpa using hcolon part hpart
    rw [bareModuleName, create_none, hany, if_neg Bool.false_ne_true]
  | some path =>
    have hshow := showReference_create_some path name
    have hany : ((create (some path) name).any fun s => s.toList.contains ':') = true := by
      -- Otherwise the colon behind the path would be one of a dot.
      have hmem : ':' ∈ (showReference (create (some path) name)).toList := by
        rw [hshow]
        simp
      rcases mem_intercalate hmem with hdot | ⟨part, hpart, hmem⟩
      · exact absurd hdot (by decide)
      · exact List.any_eq_true.mpr ⟨part, hpart, by simpa using hmem⟩
    have hcolonShow : ':' ∉ (showReference (name.map escapeSpecialCharacters)).toList := by
      intro hmem
      rcases mem_intercalate hmem with hdot | ⟨part, hpart, hmem⟩
      · exact absurd hdot (by decide)
      · exact hcolon part hpart hmem
    have hparts : split '.' (showReference (name.map escapeSpecialCharacters)) =
        name.map escapeSpecialCharacters :=
      split_intercalate (by simpa using hnonempty) (noDot_escape hnoDot)
    have hafter : afterLast ':' (path ++ ":" ++ showReference (name.map escapeSpecialCharacters)) =
        showReference (name.map escapeSpecialCharacters) := afterLast_append hcolonShow
    rw [bareModuleName, hany, if_pos rfl, hshow, hafter, hparts]

/-- **The name of a module can be read from its qualifier.** -/
theorem bareModuleName_create {name : Reference} (hname : ValidName name) (path : Option String) :
    bareModuleName (create path name) = name := by
  rw [bareModuleName_eq hname.nonempty hname.noDot, unescape_escapedName hname.noBackslash]

/-! ## 3. Paths -/

/-- The path of a file of the project: it starts with a slash. -/
@[ext]
structure AbsolutePath where
  text : String
  absolute : text.toList.head? = some '/'
deriving DecidableEq

inductive ModulePath where
  | filesystem (path : AbsolutePath)
  | namespaceDirectory (path : String)
  | memory (path : String)
  | bundledTypeshed (path : String)
  | bundledTypeshedThirdParty (path : String)
  | bundledThirdParty (path : String)
deriving DecidableEq

def ModulePath.path : ModulePath → String
  | .filesystem path => path.text
  | .namespaceDirectory path => path
  | .memory path => path
  | .bundledTypeshed path => path
  | .bundledTypeshedThirdParty path => path
  | .bundledThirdParty path => path

def pyrePathElements (path : String) : List String := split '/' path

def modulePathElements : ModulePath → List String
  | .filesystem path => pyrePathElements path.text
  | .namespaceDirectory path => "namespace:/" :: pyrePathElements path
  | .memory path => "memory:/" :: pyrePathElements path
  | .bundledTypeshed path => "typeshed:/" :: pyrePathElements path
  | .bundledTypeshedThirdParty path => "typeshed-third-party:/" :: pyrePathElements path
  | .bundledThirdParty path => "third-party:/" :: pyrePathElements path

/-- The whole path as a prefix of a qualifier. -/
def wholePath (path : ModulePath) : String := "/".intercalate (modulePathElements path)

theorem intercalate_pyrePathElements (path : String) :
    "/".intercalate (pyrePathElements path) = path := intercalate_split '/' path

theorem pyrePathElements_ne_nil (path : String) : pyrePathElements path ≠ [] := by
  rw [pyrePathElements, split, ne_eq, List.map_eq_nil_iff]
  exact List.splitOn_ne_nil _ _

theorem intercalate_scheme (scheme path : String) :
    ("/".intercalate (scheme :: pyrePathElements path)).toList =
      scheme.toList ++ '/' :: path.toList := by
  obtain ⟨first, rest, hpath⟩ := List.exists_cons_of_ne_nil (pyrePathElements_ne_nil path)
  have hjoin := intercalate_pyrePathElements path
  rw [hpath] at hjoin
  rw [hpath, String.intercalate_cons_cons, hjoin]
  simp

/-- Whole paths tell the modules apart. -/
theorem wholePath_injective : Function.Injective wholePath := by
  intro a b h
  have htext := congrArg String.toList h
  have hslash : ∀ (path : AbsolutePath) (text : List Char), text.head? ≠ some '/' →
      path.text.toList ≠ text := fun path _ hhead heq => hhead (heq ▸ path.absolute)
  -- The schemes differ within their first nine characters, and none starts with a slash.
  cases a <;> cases b <;>
    simp [wholePath, modulePathElements, intercalate_scheme, intercalate_pyrePathElements,
      -String.toList_intercalate, AbsolutePath.ext_iff] at htext ⊢
  any_goals exact String.toList_inj.mp htext
  any_goals exact hslash _ _ (by simp) htext
  all_goals exact hslash _ _ (by simp) htext.symm

/-! ## 4. The modules of one name -/

structure PythonVersion where
  major : ℤ
  minor : ℤ
  micro : ℤ
deriving DecidableEq

/-- `ProjectFile.Module`. -/
structure ProjectModule where
  moduleId : ℤ
  moduleName : Reference
  absoluteSourcePath : ModulePath
  pythonVersion : PythonVersion
  platform : String

structure SysInfo where
  pythonVersion : PythonVersion
  platform : Option String

structure Module where
  moduleId : ℤ
  moduleName : Reference
  /-- The artifact of the module is found from it. -/
  absoluteSourcePath : Option ModulePath
  sysInfo : SysInfo

def Module.fromProject (moduleInfo : ProjectModule) : Module where
  moduleId := moduleInfo.moduleId
  moduleName := moduleInfo.moduleName
  absoluteSourcePath := some moduleInfo.absoluteSourcePath
  sysInfo := ⟨moduleInfo.pythonVersion, some moduleInfo.platform⟩

inductive Error where
  | noSourceFilesToAnalyze
  | noUniqueQualifier
  /-- `List.hd_exn` of an empty list. -/
  | noModule
  /-- `ModuleQualifier.Map.of_alist_exn` of a list with a key twice. -/
  | duplicateKey
deriving DecidableEq

def countDistinct {β : Type} [DecidableEq β] (list : List β) : ℕ := list.dedup.length

def prefixOf (prefixLength : ℕ) (path : List String) : String :=
  "/".intercalate (path.take prefixLength).reverse

/-- The suffixes of one length, if they tell the source paths apart. -/
def uniquePrefixes (modulesWithPath : List (List String × ProjectModule)) (prefixLength : ℕ) :
    Option (List (String × ProjectModule)) :=
  let distinctPaths := countDistinct (modulesWithPath.map Prod.fst)
  let distinctPrefixes :=
    countDistinct (modulesWithPath.map fun entry => prefixOf prefixLength entry.1)
  if distinctPaths = distinctPrefixes then
    some (modulesWithPath.map fun entry => (prefixOf prefixLength entry.1, entry.2))
  else none

/-- The shortest such suffixes; `1000 - remaining` is the length that is tried. -/
def findShortestUniquePrefix (modulesWithPath : List (List String × ProjectModule)) :
    ℕ → Except Error (List (String × ProjectModule))
  | 0 => (uniquePrefixes modulesWithPath 1000).elim (.error .noUniqueQualifier) .ok
  | remaining + 1 =>
    (uniquePrefixes modulesWithPath (1000 - (remaining + 1))).elim
      (findShortestUniquePrefix modulesWithPath remaining) .ok

def PythonVersion.format (version : PythonVersion) : String :=
  "py" ++ toString version.major ++ "." ++ toString version.minor ++ "." ++ toString version.micro

def sysInfoElement (shouldAddPythonVersion shouldAddPlatform : Bool) (moduleInfo : ProjectModule) :
    String :=
  let prefixes := if shouldAddPythonVersion then [moduleInfo.pythonVersion.format] else []
  let prefixes := if shouldAddPlatform then prefixes ++ [moduleInfo.platform] else prefixes
  "[" ++ "-".intercalate prefixes ++ "]"

def shouldAddPythonVersion (modules : List ProjectModule) : Bool :=
  1 < countDistinct (modules.map fun m => m.pythonVersion)

def shouldAddPlatform (modules : List ProjectModule) : Bool :=
  1 < countDistinct (modules.map fun m => m.platform)

def shouldAddPathPrefix (modules : List ProjectModule) : Bool :=
  1 < countDistinct (modules.map fun m => modulePathElements m.absoluteSourcePath)

/-- The path prefix of each module. -/
def addPathPrefix (modules : List ProjectModule) : Except Error (List (String × ProjectModule)) :=
  if shouldAddPathPrefix modules then
    findShortestUniquePrefix
      (modules.map fun m => ((modulePathElements m.absoluteSourcePath).reverse, m)) 999
  else .ok (modules.map fun m => ("", m))

def addSysInfo (modules : List ProjectModule) (prefixed : List (String × ProjectModule)) :
    List (String × ProjectModule) :=
  let version := shouldAddPythonVersion modules
  let platform := shouldAddPlatform modules
  if version || platform then
    prefixed.map fun entry => (sysInfoElement version platform entry.2 ++ entry.1, entry.2)
  else prefixed

def makeUniqueQualifiers (moduleName : Reference) (modules : List ProjectModule) :
    Except Error (List (Reference × Module)) :=
  match modules with
  | [moduleInfo] => .ok [(create none moduleName, .fromProject moduleInfo)]
  | _ => do
    let prefixed ← addPathPrefix modules
    .ok ((addSysInfo modules prefixed).map fun entry =>
      (create (some entry.1) moduleName, .fromProject entry.2))

/-! ## 5. All modules -/

abbrev ModuleMap := List (Reference × List (Reference × Module))

/-- `Reference.compare`: the parts are compared one after the other, and so are their characters. -/
def referenceLt (left right : Reference) : Bool :=
  left.lex right fun a b => a.toList.lex b.toList fun c d => decide (c.toNat < d.toNat)

/-- The modules by their names, in the order of the names; the last module comes first. -/
def moduleNames (modules : List ProjectModule) : List Reference :=
  (modules.map fun m => m.moduleName).dedup.insertionSort fun a b => referenceLt b a = false

def modulesNamed (modules : List ProjectModule) (moduleName : Reference) : List ProjectModule :=
  (modules.filter fun m => m.moduleName = moduleName).reverse

def addImplicitModule (defaultSysInfo : SysInfo) (sofar : ModuleMap × Option ℤ)
    (moduleName : Reference) : ModuleMap × Option ℤ :=
  match moduleName with
  | head :: _ :: _ =>
    if sofar.1.any fun entry => entry.1 = [head] then sofar
    else
      let nextModuleId := sofar.2.elim 0 (· + 1)
      (sofar.1 ++ [([head], [(create none [head], ⟨nextModuleId, [head], none, defaultSysInfo⟩)])],
        some nextModuleId)
  | _ => sofar

def addImplicitTopLevelModules (moduleMap : ModuleMap) : Except Error ModuleMap :=
  match moduleMap with
  | [] => .error .noSourceFilesToAnalyze
  | (_, []) :: _ => .error .noModule
  | (_, (_, first) :: _) :: _ =>
    let lastModuleId := (moduleMap.flatMap fun entry => entry.2.map fun e => e.2.moduleId).max?
    .ok ((moduleMap.map Prod.fst).foldl (addImplicitModule first.sysInfo)
      (moduleMap, lastModuleId)).1

def withTopLevelModules (addToplevelModules : Bool) (moduleMap : ModuleMap) :
    Except Error ModuleMap :=
  if addToplevelModules then addImplicitTopLevelModules moduleMap else .ok moduleMap

def ofAlistExn (entries : List (Reference × Module)) : Except Error (List (Reference × Module)) :=
  if (entries.map Prod.fst).Nodup then .ok entries else .error .duplicateKey

def createModuleQualifiers (addToplevelModules : Bool) (modules : List ProjectModule) :
    Except Error (List (Reference × Module)) := do
  let moduleMap ← (moduleNames modules).mapM fun name => do
    let entries ← makeUniqueQualifiers name (modulesNamed modules name)
    .ok (name, entries)
  let moduleMap ← withTopLevelModules addToplevelModules moduleMap
  ofAlistExn (moduleMap.flatMap Prod.snd)

/-! ## 6. The modules of one name are told apart -/

theorem countDistinct_map_eq_iff {β γ : Type} [DecidableEq β] [DecidableEq γ] (l : List β)
    (f : β → γ) :
    countDistinct l = countDistinct (l.map f) ↔ ∀ a ∈ l, ∀ b ∈ l, f a = f b → a = b := by
  have himage : (l.map f).toFinset = l.toFinset.image f := by
    ext x
    simp
  rw [countDistinct, countDistinct, ← List.card_toFinset, ← List.card_toFinset, himage, eq_comm,
    Finset.card_image_iff]
  constructor
  · intro h a ha b hb hab
    exact h (by simpa using ha) (by simpa using hb) hab
  · intro h a ha b hb hab
    exact h a (by simpa using ha) b (by simpa using hb) hab

theorem eq_of_countDistinct {β γ : Type} [DecidableEq γ] {l : List β} {f : β → γ}
    (h : ¬ 1 < countDistinct (l.map f)) {a b : β} (ha : a ∈ l) (hb : b ∈ l) : f a = f b := by
  rw [countDistinct, ← List.card_toFinset, not_lt, Finset.card_le_one] at h
  exact h _ (by simpa using ⟨a, ha, rfl⟩) _ (by simpa using ⟨b, hb, rfl⟩)

theorem modulePathElements_injective : Function.Injective modulePathElements := by
  intro a b h
  exact wholePath_injective (congrArg ("/".intercalate ·) h)

theorem prefixOf_reverse {path : List String} {prefixLength : ℕ} (h : path.length ≤ prefixLength) :
    prefixOf prefixLength path.reverse = "/".intercalate path := by
  rw [prefixOf, List.take_of_length_le (by simpa using h), List.reverse_reverse]

/-- The source path of a module has fewer than a thousand components. -/
def ShortPath (moduleInfo : ProjectModule) : Prop :=
  (pyrePathElements moduleInfo.absoluteSourcePath.path).length < 1000

theorem length_modulePathElements {moduleInfo : ProjectModule} (h : ShortPath moduleInfo) :
    (modulePathElements moduleInfo.absoluteSourcePath).length ≤ 1000 := by
  unfold ShortPath at h
  cases hpath : moduleInfo.absoluteSourcePath <;>
    simp only [hpath, ModulePath.path, modulePathElements, List.length_cons] at h ⊢ <;> omega

/-- The source paths that are looked at, backwards. -/
def withPath (modules : List ProjectModule) : List (List String × ProjectModule) :=
  modules.map fun m => ((modulePathElements m.absoluteSourcePath).reverse, m)

/-- The suffixes that are found tell the source paths apart. -/
theorem uniquePrefixes_spec {modules : List ProjectModule} {prefixLength : ℕ}
    {prefixed : List (String × ProjectModule)}
    (h : uniquePrefixes (withPath modules) prefixLength = some prefixed) :
    ∃ pre : ProjectModule → String, prefixed = modules.map (fun m => (pre m, m)) ∧
      ∀ m ∈ modules, ∀ m' ∈ modules, pre m = pre m' →
        m.absoluteSourcePath = m'.absoluteSourcePath := by
  rw [uniquePrefixes] at h
  split_ifs at h with hcount
  refine ⟨fun m => prefixOf prefixLength (modulePathElements m.absoluteSourcePath).reverse, ?_, ?_⟩
  · rw [← Option.some.inj h, withPath, List.map_map]
    rfl
  · intro m hm m' hm' heq
    have hmap : ((withPath modules).map fun entry => prefixOf prefixLength entry.1) =
        ((withPath modules).map Prod.fst).map (prefixOf prefixLength) := by
      rw [List.map_map]
      rfl
    rw [hmap, countDistinct_map_eq_iff] at hcount
    have hmem : ∀ m ∈ modules, (modulePathElements m.absoluteSourcePath).reverse ∈
        (withPath modules).map Prod.fst := by
      intro m hm
      rw [withPath, List.map_map]
      exact List.mem_map.mpr ⟨m, hm, rfl⟩
    exact modulePathElements_injective
      (List.reverse_injective (hcount _ (hmem m hm) _ (hmem m' hm') heq))

/-- Suffixes as long as the paths are the paths. -/
theorem uniquePrefixes_isSome {modules : List ProjectModule}
    (h : ∀ m ∈ modules, ShortPath m) : (uniquePrefixes (withPath modules) 1000).isSome := by
  have hmap : ((withPath modules).map fun entry => prefixOf 1000 entry.1) =
      ((withPath modules).map Prod.fst).map (prefixOf 1000) := by
    rw [List.map_map]
    rfl
  rw [uniquePrefixes, if_pos]
  · rfl
  · rw [hmap, countDistinct_map_eq_iff]
    intro a ha b hb heq
    rw [withPath, List.map_map] at ha hb
    obtain ⟨m, hm, rfl⟩ := List.mem_map.mp ha
    obtain ⟨m', hm', rfl⟩ := List.mem_map.mp hb
    simp only [Function.comp] at heq ⊢
    rw [prefixOf_reverse (length_modulePathElements (h m hm)),
      prefixOf_reverse (length_modulePathElements (h m' hm'))] at heq
    have hpath : m.absoluteSourcePath = m'.absoluteSourcePath := wholePath_injective heq
    rw [hpath]

/-- **A prefix is found**, at the latest at the length of the paths. -/
theorem findShortestUniquePrefix_spec {modules : List ProjectModule}
    (h : ∀ m ∈ modules, ShortPath m) (remaining : ℕ) :
    ∃ pre : ProjectModule → String,
      findShortestUniquePrefix (withPath modules) remaining =
        .ok (modules.map fun m => (pre m, m)) ∧
      ∀ m ∈ modules, ∀ m' ∈ modules, pre m = pre m' →
        m.absoluteSourcePath = m'.absoluteSourcePath := by
  induction remaining with
  | zero =>
    obtain ⟨prefixed, hprefixed⟩ := Option.isSome_iff_exists.mp (uniquePrefixes_isSome h)
    obtain ⟨pre, rfl, hpre⟩ := uniquePrefixes_spec hprefixed
    exact ⟨pre, by rw [findShortestUniquePrefix, hprefixed, Option.elim_some], hpre⟩
  | succ remaining ih =>
    cases hprefixed : uniquePrefixes (withPath modules) (1000 - (remaining + 1)) with
    | none =>
      rw [findShortestUniquePrefix, hprefixed, Option.elim_none]
      exact ih
    | some prefixed =>
      obtain ⟨pre, rfl, hpre⟩ := uniquePrefixes_spec hprefixed
      exact ⟨pre, by rw [findShortestUniquePrefix, hprefixed, Option.elim_some], hpre⟩

theorem addPathPrefix_spec {modules : List ProjectModule} (h : ∀ m ∈ modules, ShortPath m) :
    ∃ pre : ProjectModule → String,
      addPathPrefix modules = .ok (modules.map fun m => (pre m, m)) ∧
      ∀ m ∈ modules, ∀ m' ∈ modules, pre m = pre m' →
        m.absoluteSourcePath = m'.absoluteSourcePath := by
  rw [addPathPrefix]
  split_ifs with hadd
  · exact findShortestUniquePrefix_spec h 999
  · refine ⟨fun _ => "", rfl, fun m hm m' hm' _ => ?_⟩
    rw [shouldAddPathPrefix, decide_eq_true_iff] at hadd
    exact modulePathElements_injective (eq_of_countDistinct hadd hm hm')

/-! ## 7. System information -/

theorem format_append_inj {a b : PythonVersion} {r r' : List Char}
    (hr : ∀ c ∈ r.head?, c.isDigit = false) (hr' : ∀ c ∈ r'.head?, c.isDigit = false)
    (h : a.format.toList ++ r = b.format.toList ++ r') : a = b ∧ r = r' := by
  have hdot : ∀ rest : List Char, ∀ c ∈ (".".toList ++ rest).head?, c.isDigit = false := by
    rintro rest c ⟨⟩
    rfl
  obtain ⟨major, minor, micro⟩ := a
  obtain ⟨major', minor', micro'⟩ := b
  simp only [PythonVersion.format, String.toList_append, List.append_assoc] at h
  obtain ⟨hmajor, h⟩ := toString_append_inj (hdot _) (hdot _) (List.append_cancel_left h)
  obtain ⟨hminor, h⟩ := toString_append_inj (hdot _) (hdot _) (List.append_cancel_left h)
  obtain ⟨hmicro, h⟩ := toString_append_inj hr hr' (List.append_cancel_left h)
  exact ⟨by rw [hmajor, hminor, hmicro], h⟩

theorem bracket_notMem_format (version : PythonVersion) : ']' ∉ version.format.toList := by
  intro h
  simp only [PythonVersion.format, String.toList_append, List.mem_append] at h
  have hnumber : ∀ a : ℤ, ']' ∉ (toString a).toList := by
    intro a ha
    rcases mem_toString ha with hdigit | ⟨hsign, -⟩
    · exact absurd hdigit (by decide)
    · exact absurd hsign (by decide)
  rcases h with ((((h | h) | h) | h) | h) | h
  · exact absurd h (by decide)
  · exact hnumber _ h
  · exact absurd h (by decide)
  · exact hnumber _ h
  · exact absurd h (by decide)
  · exact hnumber _ h

/-- What stands between the brackets. -/
def sysInfoText (version platform : Bool) (moduleInfo : ProjectModule) : String :=
  let prefixes := if version then [moduleInfo.pythonVersion.format] else []
  "-".intercalate (if platform then prefixes ++ [moduleInfo.platform] else prefixes)

theorem bracket_notMem_sysInfoText {version platform : Bool} {moduleInfo : ProjectModule}
    (h : ']' ∉ moduleInfo.platform.toList) :
    ']' ∉ (sysInfoText version platform moduleInfo).toList := by
  intro htext
  have hformat := bracket_notMem_format moduleInfo.pythonVersion
  rcases mem_intercalate htext with hmem | ⟨part, hpart, hmem⟩
  · exact absurd hmem (by decide)
  · cases version <;> cases platform <;>
      simp only [if_true, Bool.false_eq_true, if_false, List.nil_append, List.cons_append,
        List.mem_cons, List.not_mem_nil, or_false] at hpart
    · exact h (hpart ▸ hmem)
    · exact hformat (hpart ▸ hmem)
    · rcases hpart with rfl | rfl
      · exact hformat hmem
      · exact h hmem

/-- The text says what it is made of. -/
theorem sysInfoText_inj {version platform : Bool} {m m' : ProjectModule}
    (h : sysInfoText version platform m = sysInfoText version platform m') :
    (version = true → m.pythonVersion = m'.pythonVersion) ∧
      (platform = true → m.platform = m'.platform) := by
  have hnil : ∀ c ∈ ([] : List Char).head?, c.isDigit = false := fun _ hc => by cases hc
  have hdash : ∀ rest : List Char, ∀ c ∈ ("-".toList ++ rest).head?, c.isDigit = false := by
    rintro rest c ⟨⟩
    rfl
  cases version <;> cases platform <;>
    simp only [sysInfoText, if_true, Bool.false_eq_true, if_false, List.nil_append,
      List.cons_append, String.intercalate_singleton, String.intercalate_cons_cons] at h
  · exact ⟨fun h => absurd h (by decide), fun h => absurd h (by decide)⟩
  · exact ⟨fun h => absurd h (by decide), fun _ => h⟩
  · have htext : m.pythonVersion.format.toList ++ [] = m'.pythonVersion.format.toList ++ [] := by
      rw [h]
    exact ⟨fun _ => (format_append_inj hnil hnil htext).1, fun h => absurd h (by decide)⟩
  · have htext := congrArg String.toList h
    simp only [String.toList_append, List.append_assoc] at htext
    obtain ⟨hversion, hrest⟩ := format_append_inj (hdash _) (hdash _) htext
    exact ⟨fun _ => hversion, fun _ => String.toList_inj.mp (List.append_cancel_left hrest)⟩

theorem sysInfoElement_append_inj {version platform : Bool} {m m' : ProjectModule}
    {path path' : String} (hm : ']' ∉ m.platform.toList) (hm' : ']' ∉ m'.platform.toList)
    (h : sysInfoElement version platform m ++ path = sysInfoElement version platform m' ++ path') :
    (version = true → m.pythonVersion = m'.pythonVersion) ∧
      (platform = true → m.platform = m'.platform) ∧ path = path' := by
  have htext := congrArg String.toList h
  change (("[" ++ sysInfoText version platform m ++ "]") ++ path).toList =
    (("[" ++ sysInfoText version platform m' ++ "]") ++ path').toList at htext
  simp only [String.toList_append, List.append_assoc] at htext
  obtain ⟨hinner, hrest⟩ := append_cons_inj (bracket_notMem_sysInfoText hm)
    (bracket_notMem_sysInfoText hm') (List.append_cancel_left htext)
  obtain ⟨hversion, hplatform⟩ := sysInfoText_inj (String.toList_inj.mp hinner)
  exact ⟨hversion, hplatform, String.toList_inj.mp hrest⟩

/-- Source path, version and platform can be told from the path of a qualifier. -/
theorem addSysInfo_spec {modules : List ProjectModule} (pre : ProjectModule → String)
    (hplatform : ∀ m ∈ modules, ']' ∉ m.platform.toList) :
    ∃ path : ProjectModule → String,
      addSysInfo modules (modules.map fun m => (pre m, m)) = modules.map (fun m => (path m, m)) ∧
      ∀ m ∈ modules, ∀ m' ∈ modules, path m = path m' →
        m.pythonVersion = m'.pythonVersion ∧ m.platform = m'.platform ∧ pre m = pre m' := by
  have hversionOff : ¬ shouldAddPythonVersion modules = true → ∀ m ∈ modules, ∀ m' ∈ modules,
      m.pythonVersion = m'.pythonVersion := by
    intro hoff m hm m' hm'
    rw [shouldAddPythonVersion, decide_eq_true_iff] at hoff
    exact eq_of_countDistinct hoff hm hm'
  have hplatformOff : ¬ shouldAddPlatform modules = true → ∀ m ∈ modules, ∀ m' ∈ modules,
      m.platform = m'.platform := by
    intro hoff m hm m' hm'
    rw [shouldAddPlatform, decide_eq_true_iff] at hoff
    exact eq_of_countDistinct hoff hm hm'
  rw [addSysInfo]
  split_ifs with hadd
  · refine ⟨fun m => sysInfoElement (shouldAddPythonVersion modules) (shouldAddPlatform modules) m ++
      pre m, by rw [List.map_map]; rfl, fun m hm m' hm' heq => ?_⟩
    obtain ⟨hversion, hplat, hpre⟩ :=
      sysInfoElement_append_inj (hplatform m hm) (hplatform m' hm') heq
    refine ⟨?_, ?_, hpre⟩
    · by_cases hon : shouldAddPythonVersion modules = true
      · exact hversion hon
      · exact hversionOff hon m hm m' hm'
    · by_cases hon : shouldAddPlatform modules = true
      · exact hplat hon
      · exact hplatformOff hon m hm m' hm'
  · rw [Bool.or_eq_true, not_or] at hadd
    exact ⟨pre, rfl, fun m hm m' hm' heq =>
      ⟨hversionOff hadd.1 m hm m' hm', hplatformOff hadd.2 m hm m' hm', heq⟩⟩

/-! ## 8. All modules are told apart -/

/-- What the modules of a project are: no two of them agree on name, source path, version and
    platform. -/
structure Distinguished (modules : List ProjectModule) : Prop where
  nodup : (modules.map fun m =>
    (m.moduleName, m.absoluteSourcePath, m.pythonVersion, m.platform)).Nodup
  name : ∀ m ∈ modules, ValidName m.moduleName
  path : ∀ m ∈ modules, ShortPath m
  platform : ∀ m ∈ modules, ']' ∉ m.platform.toList

theorem Distinguished.eq {modules : List ProjectModule} (h : Distinguished modules)
    {m m' : ProjectModule} (hm : m ∈ modules) (hm' : m' ∈ modules)
    (hname : m.moduleName = m'.moduleName) (hpath : m.absoluteSourcePath = m'.absoluteSourcePath)
    (hversion : m.pythonVersion = m'.pythonVersion) (hplatform : m.platform = m'.platform) :
    m = m' :=
  List.inj_on_of_nodup_map h.nodup hm hm' (by rw [hname, hpath, hversion, hplatform])

theorem mem_modulesNamed {modules : List ProjectModule} {moduleName : Reference}
    {m : ProjectModule} :
    m ∈ modulesNamed modules moduleName ↔ m ∈ modules ∧ m.moduleName = moduleName := by
  simp [modulesNamed]

/-- The modules of one name get different qualifiers. -/
theorem makeUniqueQualifiers_spec {modules : List ProjectModule} (h : Distinguished modules)
    (moduleName : Reference) :
    ∃ qualifier : ProjectModule → Reference,
      makeUniqueQualifiers moduleName (modulesNamed modules moduleName) =
        .ok ((modulesNamed modules moduleName).map fun m => (qualifier m, .fromProject m)) ∧
      (∀ m, ∃ path, qualifier m = create path moduleName) ∧
      ∀ m ∈ modulesNamed modules moduleName, ∀ m' ∈ modulesNamed modules moduleName,
        qualifier m = qualifier m' → m = m' := by
  have hmem : ∀ m ∈ modulesNamed modules moduleName, m ∈ modules ∧ m.moduleName = moduleName :=
    fun m hm => mem_modulesNamed.mp hm
  unfold makeUniqueQualifiers
  split
  case h_1 moduleInfo hgroup =>
    rw [hgroup]
    refine ⟨fun _ => create none moduleName, rfl, fun _ => ⟨none, rfl⟩, fun m hm m' hm' _ => ?_⟩
    rw [List.mem_singleton] at hm hm'
    rw [hm, hm']
  case h_2 =>
    have hshort : ∀ m ∈ modulesNamed modules moduleName, ShortPath m :=
      fun m hm => h.path m (hmem m hm).1
    have hplatforms : ∀ m ∈ modulesNamed modules moduleName, ']' ∉ m.platform.toList :=
      fun m hm => h.platform m (hmem m hm).1
    obtain ⟨pre, hprefixed, hpre⟩ := addPathPrefix_spec hshort
    obtain ⟨path, hsysInfo, hpath⟩ := addSysInfo_spec pre hplatforms
    refine ⟨fun m => create (some (path m)) moduleName, ?_, fun m => ⟨some (path m), rfl⟩, ?_⟩
    · rw [hprefixed]
      change Except.ok (List.map _ (addSysInfo _ (List.map _ _))) = _
      rw [hsysInfo, List.map_map]
      rfl
    · intro m hm m' hm' heq
      obtain ⟨hversion, hplatform, hpreEq⟩ := hpath m hm m' hm' (create_some_injective heq)
      exact h.eq (hmem m hm).1 (hmem m' hm').1 ((hmem m hm).2.trans (hmem m' hm').2.symm)
        (hpre m hm m' hm' hpreEq) hversion hplatform

/-- What each map of modules by their names is. -/
structure ModuleMap.Good (moduleMap : ModuleMap) : Prop where
  names : (moduleMap.map Prod.fst).Nodup
  nonempty : ∀ entry ∈ moduleMap, entry.2 ≠ []
  qualifiers : ∀ entry ∈ moduleMap, (entry.2.map Prod.fst).Nodup
  bareName : ∀ entry ∈ moduleMap, ∀ e ∈ entry.2,
    bareModuleName e.1 = entry.1 ∧ e.2.moduleName = entry.1

namespace ModuleMap.Good

theorem nodup_qualifiers {moduleMap : ModuleMap} (h : moduleMap.Good) :
    ((moduleMap.flatMap Prod.snd).map Prod.fst).Nodup := by
  rw [List.map_flatMap, List.nodup_flatMap]
  refine ⟨h.qualifiers, ?_⟩
  have hpairwise := (List.pairwise_map.mp h.names).imp_of_mem (S := fun entry entry' =>
    (entry.2.map Prod.fst).Disjoint (entry'.2.map Prod.fst)) ?_
  · exact hpairwise
  · intro entry entry' hentry hentry' hname qualifier hq hq'
    obtain ⟨e, he, rfl⟩ := List.mem_map.mp hq
    obtain ⟨e', he', heq⟩ := List.mem_map.mp hq'
    refine hname ?_
    rw [← (h.bareName entry hentry e he).1, ← (h.bareName entry' hentry' e' he').1, heq]

/-- The step: an implicit module has a name of its own. -/
theorem addImplicitModule {sofar : ModuleMap × Option ℤ} (h : sofar.1.Good)
    {moduleName : Reference} (hname : ValidName moduleName)
    (defaultSysInfo : SysInfo) :
    (ModuleQualifiers.addImplicitModule defaultSysInfo sofar moduleName).1.Good ∧
      sofar.1 ⊆ (ModuleQualifiers.addImplicitModule defaultSysInfo sofar moduleName).1 := by
  unfold ModuleQualifiers.addImplicitModule
  split
  case h_2 => exact ⟨h, List.Subset.refl _⟩
  case h_1 head next rest =>
    split_ifs with hany
    · exact ⟨h, List.Subset.refl _⟩
    · have hnew : [head] ∉ sofar.1.map Prod.fst := by
        intro hmem
        obtain ⟨entry, hentry, heq⟩ := List.mem_map.mp hmem
        exact hany (List.any_eq_true.mpr ⟨entry, hentry, by simpa using heq⟩)
      have hhead : bareModuleName (create none [head]) = [head] := by
        have hvalid : ValidName [head] :=
          ⟨List.cons_ne_nil _ _,
            fun part hpart => hname.noDot part (List.mem_singleton.mp hpart ▸ List.mem_cons_self),
            fun part hpart =>
              hname.noBackslash part (List.mem_singleton.mp hpart ▸ List.mem_cons_self)⟩
        exact bareModuleName_create hvalid none
      refine ⟨⟨?_, ?_, ?_, ?_⟩, List.subset_append_left _ _⟩
      · rw [List.map_append, List.nodup_append_comm]
        exact List.nodup_cons.mpr ⟨hnew, h.names⟩
      · intro entry hentry
        rcases List.mem_append.mp hentry with hentry | hentry
        · exact h.nonempty entry hentry
        · rw [List.mem_singleton.mp hentry]
          exact List.cons_ne_nil _ _
      · intro entry hentry
        rcases List.mem_append.mp hentry with hentry | hentry
        · exact h.qualifiers entry hentry
        · rw [List.mem_singleton.mp hentry]
          exact List.nodup_singleton _
      · intro entry hentry e he
        rcases List.mem_append.mp hentry with hentry | hentry
        · exact h.bareName entry hentry e he
        · rw [List.mem_singleton.mp hentry, List.mem_singleton] at he
          rw [List.mem_singleton.mp hentry, he]
          exact ⟨hhead, rfl⟩

/-- The run over all names. -/
theorem foldl_addImplicitModule {names : List Reference} (hnames : ∀ name ∈ names, ValidName name)
    (defaultSysInfo : SysInfo) {sofar : ModuleMap × Option ℤ} (h : sofar.1.Good) :
    (names.foldl (ModuleQualifiers.addImplicitModule defaultSysInfo) sofar).1.Good ∧
      sofar.1 ⊆ (names.foldl (ModuleQualifiers.addImplicitModule defaultSysInfo) sofar).1 := by
  induction names generalizing sofar with
  | nil => exact ⟨h, List.Subset.refl _⟩
  | cons name rest ih =>
    obtain ⟨hstep, hsubset⟩ := h.addImplicitModule (hnames name List.mem_cons_self) defaultSysInfo
    obtain ⟨hrun, hrest⟩ := ih (fun n hn => hnames n (List.mem_cons_of_mem _ hn)) hstep
    exact ⟨hrun, List.Subset.trans hsubset hrest⟩

theorem withTopLevelModules {addToplevelModules : Bool} {moduleMap : ModuleMap}
    (h : moduleMap.Good) (hne : addToplevelModules = true → moduleMap ≠ [])
    (hnames : ∀ name ∈ moduleMap.map Prod.fst, ValidName name) :
    ∃ extended : ModuleMap,
      ModuleQualifiers.withTopLevelModules addToplevelModules moduleMap = .ok extended ∧
      extended.Good ∧ moduleMap ⊆ extended := by
  rw [ModuleQualifiers.withTopLevelModules]
  split_ifs with hadd
  · unfold addImplicitTopLevelModules
    split
    case h_1 => exact absurd rfl (hne hadd)
    case h_2 name rest => exact absurd rfl (h.nonempty (name, []) List.mem_cons_self)
    case h_3 => exact ⟨_, rfl, foldl_addImplicitModule hnames _ h⟩
  · exact ⟨moduleMap, rfl, h, List.Subset.refl _⟩

end ModuleMap.Good

theorem mapM_ok {β γ : Type} {f : β → Except Error γ} {g : β → γ} {l : List β}
    (h : ∀ a ∈ l, f a = .ok (g a)) : l.mapM f = .ok (l.map g) := by
  induction l with
  | nil => rfl
  | cons a l ih =>
    rw [List.mapM_cons, h a List.mem_cons_self, ih fun b hb => h b (List.mem_cons_of_mem _ hb)]
    rfl

theorem mem_moduleNames {modules : List ProjectModule} {name : Reference} :
    name ∈ moduleNames modules ↔ ∃ m ∈ modules, m.moduleName = name := by
  rw [moduleNames, List.mem_insertionSort, List.mem_dedup, List.mem_map]

theorem nodup_moduleNames (modules : List ProjectModule) : (moduleNames modules).Nodup :=
  (List.perm_insertionSort _ _).nodup_iff.mpr (List.nodup_dedup _)

/-- The map of the project's own modules, by their qualifiers. -/
def ownModules (qualifier : Reference → ProjectModule → Reference) (modules : List ProjectModule) :
    ModuleMap :=
  (moduleNames modules).map fun name =>
    (name, (modulesNamed modules name).map fun m => (qualifier name m, .fromProject m))

theorem map_fst_ownModules (qualifier : Reference → ProjectModule → Reference)
    (modules : List ProjectModule) :
    (ownModules qualifier modules).map Prod.fst = moduleNames modules := by
  rw [ownModules, List.map_map]
  exact List.map_id' (moduleNames modules)

theorem good_ownModules {modules : List ProjectModule} (h : Distinguished modules)
    {qualifier : Reference → ProjectModule → Reference}
    (hcreate : ∀ name m, ∃ path, qualifier name m = create path name)
    (hinj : ∀ name, ∀ m ∈ modulesNamed modules name, ∀ m' ∈ modulesNamed modules name,
      qualifier name m = qualifier name m' → m = m') :
    (ownModules qualifier modules).Good where
  names := by
    rw [map_fst_ownModules]
    exact nodup_moduleNames modules
  nonempty := by
    intro entry hentry
    obtain ⟨name, hname, rfl⟩ := List.mem_map.mp hentry
    obtain ⟨m, hm, hmname⟩ := mem_moduleNames.mp hname
    exact List.ne_nil_of_mem (List.mem_map_of_mem (mem_modulesNamed.mpr ⟨hm, hmname⟩))
  qualifiers := by
    intro entry hentry
    obtain ⟨name, -, rfl⟩ := List.mem_map.mp hentry
    have hnodup : (modulesNamed modules name).Nodup :=
      List.nodup_reverse.mpr ((List.Nodup.of_map _ h.nodup).filter _)
    rw [List.map_map]
    exact hnodup.map_on fun m hm m' hm' heq => hinj name m hm m' hm' heq
  bareName := by
    intro entry hentry e he
    obtain ⟨name, -, rfl⟩ := List.mem_map.mp hentry
    obtain ⟨m, hm, rfl⟩ := List.mem_map.mp he
    obtain ⟨hmem, hmname⟩ := mem_modulesNamed.mp hm
    obtain ⟨path, hpath⟩ := hcreate name m
    refine ⟨?_, hmname⟩
    change bareModuleName (qualifier name m) = name
    rw [hpath]
    exact bareModuleName_create (hmname ▸ h.name m hmem) path

/-- **The modules of a project get different qualifiers, from which their names can be read back**,
    and so do the top-level modules that are added; only a project without modules is refused them. -/
theorem createModuleQualifiers_unique (addToplevelModules : Bool) {modules : List ProjectModule}
    (h : Distinguished modules) (hne : addToplevelModules = true → modules ≠ []) :
    ∃ (qualifierMap : List (Reference × Module)) (qualifierOf : ProjectModule → Reference),
      createModuleQualifiers addToplevelModules modules = .ok qualifierMap ∧
      (qualifierMap.map Prod.fst).Nodup ∧
      (∀ m ∈ modules, (qualifierOf m, .fromProject m) ∈ qualifierMap) ∧
      (∀ m ∈ modules, ∀ m' ∈ modules, qualifierOf m = qualifierOf m' → m = m') ∧
      ∀ entry ∈ qualifierMap, bareModuleName entry.1 = entry.2.moduleName := by
  choose qualifier hmake hcreate hinj using makeUniqueQualifiers_spec h
  have hgood := good_ownModules h hcreate hinj
  have hmapM : ((moduleNames modules).mapM fun name => do
      let entries ← makeUniqueQualifiers name (modulesNamed modules name)
      Except.ok (name, entries)) = .ok (ownModules qualifier modules) :=
    mapM_ok fun name _ => by rw [hmake]; rfl
  have hbare : ∀ m ∈ modules, bareModuleName (qualifier m.moduleName m) = m.moduleName := by
    intro m hm
    obtain ⟨path, hpath⟩ := hcreate m.moduleName m
    rw [hpath]
    exact bareModuleName_create (h.name m hm) path
  have hnames : ∀ name ∈ (ownModules qualifier modules).map Prod.fst, ValidName name := by
    intro name hname
    rw [map_fst_ownModules, mem_moduleNames] at hname
    obtain ⟨m, hm, rfl⟩ := hname
    exact h.name m hm
  have hown : ∀ m ∈ modules, (m.moduleName, (modulesNamed modules m.moduleName).map fun m' =>
      (qualifier m.moduleName m', Module.fromProject m')) ∈ ownModules qualifier modules :=
    fun m hm => List.mem_map_of_mem (mem_moduleNames.mpr ⟨m, hm, rfl⟩)
  have hownNe : addToplevelModules = true → ownModules qualifier modules ≠ [] := by
    intro hadd
    obtain ⟨m, hm⟩ := List.exists_mem_of_ne_nil modules (hne hadd)
    exact List.ne_nil_of_mem (hown m hm)
  obtain ⟨extended, hextended, hgood', hsubset⟩ := hgood.withTopLevelModules hownNe hnames
  refine ⟨extended.flatMap Prod.snd, fun m => qualifier m.moduleName m, ?_,
    hgood'.nodup_qualifiers, fun m hm => ?_, fun m hm m' hm' heq => ?_, fun entry hentry => ?_⟩
  · rw [createModuleQualifiers, hmapM]
    change (do
      let moduleMap ← withTopLevelModules addToplevelModules (ownModules qualifier modules)
      ofAlistExn (moduleMap.flatMap Prod.snd)) = _
    rw [hextended]
    exact if_pos hgood'.nodup_qualifiers
  · exact List.mem_flatMap.mpr
      ⟨_, hsubset (hown m hm), List.mem_map.mpr ⟨m, mem_modulesNamed.mpr ⟨hm, rfl⟩, rfl⟩⟩
  · have hname : m.moduleName = m'.moduleName := by
      rw [← hbare m hm, ← hbare m' hm']
      exact congrArg bareModuleName heq
    have heq' : qualifier m.moduleName m = qualifier m.moduleName m' := heq.trans (by rw [hname])
    exact hinj _ m (mem_modulesNamed.mpr ⟨hm, rfl⟩) m' (mem_modulesNamed.mpr ⟨hm', hname.symm⟩) heq'
  · obtain ⟨named, hnamed, he⟩ := List.mem_flatMap.mp hentry
    have hentryName := hgood'.bareName named hnamed entry he
    exact hentryName.1.trans hentryName.2.symm

/-- A module whose source is in memory. -/
def projectModule (moduleName : Reference) (path : String) : ProjectModule :=
  ⟨0, moduleName, .memory path, ⟨3, 12, 0⟩, "linux"⟩

theorem createModuleQualifiers_unique_two :
    let modules := [projectModule ["a", "b"] "x/a/b.py", projectModule ["a", "b"] "y/a/b.py"]
    ∃ (qualifierMap : List (Reference × Module)) (qualifierOf : ProjectModule → Reference),
      createModuleQualifiers true modules = .ok qualifierMap ∧
      (qualifierMap.map Prod.fst).Nodup ∧
      (∀ m ∈ modules, (qualifierOf m, .fromProject m) ∈ qualifierMap) ∧
      (∀ m ∈ modules, ∀ m' ∈ modules, qualifierOf m = qualifierOf m' → m = m') ∧
      ∀ entry ∈ qualifierMap, bareModuleName entry.1 = entry.2.moduleName := by
  intro modules
  have hname : ValidName ["a", "b"] := ⟨by decide, by decide, by decide⟩
  refine createModuleQualifiers_unique true ⟨by decide +kernel, ?_, ?_, ?_⟩
    fun _ => List.cons_ne_nil _ _
  · simpa [modules, projectModule] using hname
  · unfold ShortPath
    decide +kernel
  · decide

/-- A project without modules is refused, and modules without a name do not get it back. -/
theorem not_createModuleQualifiers_unique :
    createModuleQualifiers true [] = .error .noSourceFilesToAnalyze ∧
      ∃ entries, createModuleQualifiers false [projectModule [] "a", projectModule [] "b"] =
        .ok entries ∧ ∃ entry ∈ entries, bareModuleName entry.1 ≠ entry.2.moduleName := by
  refine ⟨rfl, _, rfl, ?_⟩
  decide +kernel

end ModuleQualifiers

end Pysa
