/-
  Subject: FINDING THE DEFINITIONS THAT A MODEL NAMES (`pyreflyApi.ml`,
    `resolve_user_qualified_name`).

  * `userName` -- the name, as it is rewritten before the search;
  * `findModuleQualifiers` -- the modules of the longest prefix;
  * `resolveUserQualifiedName` -- the callables, classes, attributes or globals of these modules;
  * `Project`, `readOnly` -- the tables that a project is stored in;
  * `finds_definition` -- **a name that is not rewritten finds its definition**, and no class or
    function of another name;
  * `filter_not_found` -- a module with the name of a builtin is looked for in `builtins`.
-/
import Pysa.Ast.Location
import Pysa.Interprocedural.TargetSymbolicName

namespace Pysa.QualifiedNames

open Pysa.ModuleQualifiers (Reference showReference bareModuleName)

/-! ## 1. The name of the user -/

def builtinsSymbols : List String :=
  ["__build_class__", "__import__", "abs", "aiter", "all", "anext", "any", "ascii",
    "BaseException", "bin", "bool", "bytearray", "bytes", "callable", "chr", "classmethod",
    "compile", "complex", "delattr", "dict", "dir", "enumerate", "eval", "Exception", "exec",
    "filter", "float", "format", "frozenset", "function", "GeneratorExit", "getattr", "globals",
    "hasattr", "hash", "hex", "id", "input", "int", "isinstance", "issubclass", "iter",
    "KeyboardInterrupt", "len", "list", "map", "max", "memoryview", "min", "next", "object",
    "open", "ord", "pow", "print", "property", "range", "repr", "reversed", "round", "set",
    "setattr", "slice", "sorted", "staticmethod", "str", "sum", "super", "SystemExit", "tuple",
    "type", "vars", "zip"]

namespace Reference

/-- `Reference.first`. -/
def first (reference : Reference) : String := reference.headD ""

/-- `Reference.last`. -/
def last (reference : Reference) : String := reference.getLastD ""

def dropPrefixFrom : (stripped : Bool) → (reference pre : Reference) → Option Reference
  | false, [_], _ => none
  | _, reference, [] => some reference
  | _, [], _ :: _ => none
  | _, head :: tail, preHead :: preTail =>
    if preHead = head then dropPrefixFrom true tail preTail else none

/-- `Reference.drop_prefix`. -/
def dropPrefix (pre reference : Reference) : Reference :=
  (dropPrefixFrom false reference pre).getD reference

end Reference

def addBuiltinsPrefix (name : Reference) : Reference :=
  if Reference.first name ∈ builtinsSymbols then "builtins" :: name else name

def mangleTopLevelName (name : Reference) : Reference :=
  match name.reverse with
  | [] => []
  | head :: tail =>
    ((if head = "__top_level__" then "$toplevel"
      else if head = "__class_top_level__" then "$class_toplevel"
      else head) :: tail).reverse

def demangleClassAttribute (name : Reference) : Reference :=
  if name.contains "__class__" then
    match name.reverse with
    | last :: parent :: rest => if parent = "__class__" then (last :: rest).reverse else name
    | _ => name
  else name

/-- The name that is looked for. -/
def userName (name : Reference) : Reference :=
  addBuiltinsPrefix (demangleClassAttribute (mangleTopLevelName name))

/-! ## 2. The tables -/

abbrev ModuleId := ℕ

/-- A class or a callable by its module and its number in the module. -/
abbrev DefinitionId := ModuleId × ℕ

inductive NameLocation where
  | defineName (location : Location)
  | moduleTopLevel
  | className (location : Location)
  | unknownForClassField

structure CallableMetadata where
  nameLocation : NameLocation
  isPropertyGetter : Bool
  isPropertySetter : Bool
  parentIsClass : Bool

structure ReadOnly (Signature : Type) where
  callableMetadata : DefinitionId → Option CallableMetadata
  callableUndecoratedSignatures : DefinitionId → Option (List Signature)
  classNameLocation : DefinitionId → Option Location
  classFields : DefinitionId → Option (List (String × Location))
  moduleGlobals : ModuleId → Option (List (String × Location))
  moduleNameToIds : Reference → Option (List ModuleId)
  moduleCallables : ModuleId → Option (List DefinitionId)
  moduleClasses : ModuleId → Option (List DefinitionId)
  fullyQualifiedNameOfCallableId : DefinitionId → Reference
  fullyQualifiedNameOfClassId : DefinitionId → Reference
  moduleQualifierOfId : ModuleId → Reference

structure Function (Signature : Type) where
  callableId : DefinitionId
  defineName : Reference
  importedName : Option Reference
  undecoratedSignatures : Option (List Signature)
  isPropertyGetter : Bool
  isPropertySetter : Bool
  isMethod : Bool
  location : Option Location

inductive Global (Signature : Type) where
  | classDefinition (classId : DefinitionId) (className : String) (location : Option Location)
  | module (moduleId : ModuleId)
  | function (function : Function Signature)
  | classAttribute (classId : DefinitionId) (name : Reference) (location : Option Location)
  | moduleGlobal (name : Reference) (moduleId : ModuleId) (location : Option Location)

inductive ModuleResolutionResult (Signature : Type) where
  | resolved (global : Global Signature)
  | unresolved (moduleId : ModuleId) (moduleName suffix : Reference)

inductive ResolutionResult (Signature : Type) where
  | moduleFound (moduleName : Option Reference) (results : List (ModuleResolutionResult Signature))
  | baseModuleNotFound

/-! ## 3. The search -/

section Resolve

variable {Signature : Type} (api : ReadOnly Signature)

def assertSharedMemoryKeyExists {A : Type} (message : String) : Option A → Except String A
  | some value => .ok value
  | none => .error ("unexpected: " ++ message)

/-- `try_candidate`, with the parts of the candidate from the last one on. -/
def tryCandidate : (candidate : List String) → (suffix : Reference) →
    Option (List ModuleId × Reference × Reference)
  | [], _ => none
  | last :: pre, suffix =>
    let moduleIds := (api.moduleNameToIds (last :: pre).reverse).getD []
    if !moduleIds.isEmpty then some (moduleIds, suffix, (last :: pre).reverse)
    else tryCandidate pre (FullyQualifiedName.combine (ModuleQualifiers.Reference.create last) suffix)

def findModuleQualifiers (name : Reference) : Option (List ModuleId × Reference × Reference) :=
  tryCandidate api name.reverse []

def localNameOfFullyQualifiedName (bareModuleName fullyQualifiedName : Reference) : Reference :=
  Reference.dropPrefix bareModuleName (targetSymbolicName fullyQualifiedName)

def callableLocation : NameLocation → Option Location
  | .defineName location => some location
  | .className location => some location
  | .moduleTopLevel => some ⟨⟨1, 0⟩, ⟨1, 0⟩⟩
  | .unknownForClassField => none

def matchingCallable (isPropertySetter : Bool) (bareModuleName suffix : Reference)
    (callableId : DefinitionId) : Except String (Option (Global Signature)) := do
  let fullyQualifiedName := api.fullyQualifiedNameOfCallableId callableId
  if localNameOfFullyQualifiedName bareModuleName fullyQualifiedName = suffix then
    let metadata ← assertSharedMemoryKeyExists "missing metadata for callable"
      (api.callableMetadata callableId)
    if isPropertySetter = metadata.isPropertySetter then
      let undecoratedSignatures ← assertSharedMemoryKeyExists
        "missing undecorated signatures for callable" (api.callableUndecoratedSignatures callableId)
      pure (some (.function
        { callableId
          defineName := fullyQualifiedName
          importedName := none
          undecoratedSignatures := some undecoratedSignatures
          isPropertyGetter := metadata.isPropertyGetter
          isPropertySetter := metadata.isPropertySetter
          isMethod := metadata.parentIsClass
          location := callableLocation metadata.nameLocation }))
    else pure none
  else pure none

def findMatchingCallables (isPropertySetter : Bool) (bareModuleName suffix : Reference)
    (moduleId : ModuleId) : Except String (List (Global Signature)) := do
  let results ← ((api.moduleCallables moduleId).getD []).mapM
    (matchingCallable api isPropertySetter bareModuleName suffix)
  pure (results.filterMap id)

def matchingClass (bareModuleName suffix : Reference) (classId : DefinitionId) :
    Except String (Option (Global Signature)) := do
  let className := api.fullyQualifiedNameOfClassId classId
  if localNameOfFullyQualifiedName bareModuleName className = suffix then
    let nameLocation ← assertSharedMemoryKeyExists "missing class metadata"
      (api.classNameLocation classId)
    pure (some (.classDefinition classId (showReference className) (some nameLocation)))
  else pure none

def findMatchingClasses (bareModuleName suffix : Reference) (moduleId : ModuleId) :
    Except String (List (Global Signature)) := do
  let results ← ((api.moduleClasses moduleId).getD []).mapM
    (matchingClass api bareModuleName suffix)
  pure (results.filterMap id)

def matchingClassAttribute (bareModuleName classSuffix : Reference) (attributeName : String)
    (classId : DefinitionId) : Option (Global Signature) := do
  let className := api.fullyQualifiedNameOfClassId classId
  if localNameOfFullyQualifiedName bareModuleName className = classSuffix then
    let fields ← api.classFields classId
    let location ← fields.lookup attributeName
    pure (.classAttribute classId
      (FullyQualifiedName.combine className (ModuleQualifiers.Reference.create attributeName))
      (some location))
  else none

def findMatchingClassAttributes (bareModuleName suffix : Reference) (moduleId : ModuleId) :
    List (Global Signature) :=
  if suffix.length < 2 then []
  else
    ((api.moduleClasses moduleId).getD []).filterMap
      (matchingClassAttribute api bareModuleName suffix.dropLast (Reference.last suffix))

def findMatchingModuleGlobals (suffix : Reference) (moduleId : ModuleId) :
    List (Global Signature) :=
  if suffix.length ≠ 1 then []
  else
    let globalName := Reference.last suffix
    match api.moduleGlobals moduleId with
    | none => []
    | some globals =>
      match globals.lookup globalName with
      | some location =>
        [.moduleGlobal
          (FullyQualifiedName.combine (api.moduleQualifierOfId moduleId)
            (ModuleQualifiers.Reference.create globalName)) moduleId (some location)]
      | none => []

def resolveInQualifier (isPropertySetter : Bool) (bareModuleName suffix : Reference)
    (moduleId : ModuleId) : Except String (List (ModuleResolutionResult Signature)) := do
  let results ← findMatchingCallables api isPropertySetter bareModuleName suffix moduleId
  if !results.isEmpty then pure (results.map .resolved)
  else
    let results ← findMatchingClasses api bareModuleName suffix moduleId
    if !results.isEmpty then pure (results.map .resolved)
    else
      let results := findMatchingClassAttributes api bareModuleName suffix moduleId
      if !results.isEmpty then pure (results.map .resolved)
      else
        let results := findMatchingModuleGlobals api suffix moduleId
        if !results.isEmpty then pure (results.map .resolved)
        else pure [.unresolved moduleId bareModuleName suffix]

def resolveUserQualifiedName (isPropertySetter : Bool) (name : Reference) :
    Except String (ResolutionResult Signature) :=
  match findModuleQualifiers api (userName name) with
  | none => .ok .baseModuleNotFound
  | some (moduleIds, suffix, bareModuleName) =>
    if suffix.isEmpty then
      .ok (.moduleFound (some bareModuleName)
        (moduleIds.map fun moduleId => .resolved (.module moduleId)))
    else do
      let results ← moduleIds.mapM (resolveInQualifier api isPropertySetter bareModuleName suffix)
      pure (.moduleFound (some bareModuleName) results.flatten)

end Resolve

/-! ## 4. Projects -/

def Definition.isPropertySetter : Definition → Bool
  | .function _ isPropertySetter => isPropertySetter
  | .classDefinition _ _ => false

/-- A module with what is stored beside the names of its definitions, by their number. -/
structure ProjectModule (Signature : Type) where
  name : Reference
  path : Option String
  definitions : Children Definition
  nameLocation : ℕ → NameLocation
  isPropertyGetter : ℕ → Bool
  parentIsClass : ℕ → Bool
  undecoratedSignatures : ℕ → List Signature
  classNameLocation : ℕ → Location
  fields : ℕ → List (String × Location)
  globals : List (String × Location)

def ProjectModule.qualifier {Signature : Type} (entry : ProjectModule Signature) : Reference :=
  ModuleQualifiers.create entry.path entry.name

/-- The modules in the order of their qualifiers. -/
abbrev Project (Signature : Type) := List (ProjectModule Signature)

namespace Project

variable {Signature : Type} (project : Project Signature)

def moduleExists (qualifier : Reference) : Bool :=
  (project.map ProjectModule.qualifier).contains qualifier

def definitions (entry : ProjectModule Signature) : List QualifiedDefinition :=
  moduleDefinitions entry.qualifier project.moduleExists entry.definitions

def definition (id : DefinitionId) : Option QualifiedDefinition :=
  project[id.1]?.bind fun entry => (project.definitions entry)[id.2]?

/-- The classes or the callables of a module, the last one first. -/
def definitionIds (isClass : Bool) (moduleId : ModuleId) (entry : ProjectModule Signature) :
    List DefinitionId :=
  (((project.definitions entry).zipIdx.filter fun d => d.1.definition.isClass == isClass).map
    fun d => (moduleId, d.2)).reverse

def moduleIds (name : Reference) : List ModuleId :=
  (project.zipIdx.filter fun entry => bareModuleName entry.1.qualifier == name).map Prod.snd

def readOnly : ReadOnly Signature where
  callableMetadata id := project[id.1]?.bind fun entry =>
    (project.definition id).map fun d =>
      ⟨entry.nameLocation id.2, entry.isPropertyGetter id.2, d.definition.isPropertySetter,
        entry.parentIsClass id.2⟩
  callableUndecoratedSignatures id := project[id.1]?.map fun entry => entry.undecoratedSignatures id.2
  classNameLocation id := project[id.1]?.map fun entry => entry.classNameLocation id.2
  classFields id := project[id.1]?.map fun entry => entry.fields id.2
  moduleGlobals moduleId := project[moduleId]?.map ProjectModule.globals
  moduleNameToIds name :=
    if (project.moduleIds name).isEmpty then none else some (project.moduleIds name)
  moduleCallables moduleId := project[moduleId]?.map (project.definitionIds false moduleId)
  moduleClasses moduleId := project[moduleId]?.map (project.definitionIds true moduleId)
  fullyQualifiedNameOfCallableId id := ((project.definition id).map (·.qualifiedName)).getD []
  fullyQualifiedNameOfClassId id := ((project.definition id).map (·.qualifiedName)).getD []
  moduleQualifierOfId moduleId := (project[moduleId]?.map ProjectModule.qualifier).getD []

end Project

/-! ## 5. Names -/

theorem dropPrefixFrom_append (pre : Reference) {reference : Reference} :
    Reference.dropPrefixFrom true (pre ++ reference) pre = some reference := by
  induction pre with
  | nil => cases reference <;> rfl
  | cons head pre ih => rw [List.cons_append, Reference.dropPrefixFrom, if_pos rfl, ih]; simp

theorem dropPrefix_append {pre reference : Reference} (hpre : pre ≠ []) (hreference : reference ≠ []) :
    Reference.dropPrefix pre (pre ++ reference) = reference := by
  obtain ⟨head, pre, rfl⟩ := List.exists_cons_of_ne_nil hpre
  have hne : pre ++ reference ≠ [] := by simp [hreference]
  obtain ⟨second, rest, hrest⟩ := List.exists_cons_of_ne_nil hne
  rw [Reference.dropPrefix, List.cons_append, hrest, Reference.dropPrefixFrom, if_pos rfl, ← hrest,
    dropPrefixFrom_append]
  · rfl
  all_goals simp

theorem create_plainName {name : String} (h : PlainName name) :
    ModuleQualifiers.Reference.create name = [name] := by
  have hdots : name ≠ "..." := by
    rintro rfl
    exact absurd (h.notMem (c := '.') (by decide)) (by decide)
  rw [ModuleQualifiers.Reference.create, if_neg h.identifier.nonempty, if_neg hdots]
  exact Text.split_of_not_mem (h.notMem (by decide))

/-- What of a name makes it be rewritten. -/
structure NotRewritten (name : Reference) : Prop where
  builtins : Reference.first name ∉ builtinsSymbols
  topLevel : Reference.last name ≠ "__top_level__"
  classTopLevel : Reference.last name ≠ "__class_top_level__"
  classAttribute : Reference.last name.dropLast ≠ "__class__"

theorem userName_of_notRewritten {name : Reference} (h : NotRewritten name) :
    userName name = name := by
  have hmangle : mangleTopLevelName name = name := by
    unfold mangleTopLevelName
    cases hreverse : name.reverse with
    | nil => exact (List.reverse_eq_nil_iff.mp hreverse).symm
    | cons last rest =>
      have hname : name = rest.reverse ++ [last] := by
        rw [← List.reverse_reverse name, hreverse, List.reverse_cons]
      have hlast : Reference.last name = last := by rw [hname, Reference.last]; simp
      dsimp only
      rw [if_neg (hlast ▸ h.topLevel), if_neg (hlast ▸ h.classTopLevel), hname, List.reverse_cons]
  have hdemangle : demangleClassAttribute name = name := by
    unfold demangleClassAttribute
    split
    · split
      · rename_i last parent rest hreverse
        have hname : name = rest.reverse ++ [parent] ++ [last] := by
          rw [← List.reverse_reverse name, hreverse, List.reverse_cons, List.reverse_cons]
        have hparent : Reference.last name.dropLast = parent := by
          rw [hname, List.dropLast_concat, Reference.last]
          simp
        rw [if_neg (hparent ▸ h.classAttribute)]
      · rfl
    · rfl
  rw [userName, hmangle, hdemangle, addBuiltinsPrefix, if_neg h.builtins]

section Search

variable {Signature : Type} {api : ReadOnly Signature} {moduleName : Reference}
  {moduleIds : List ModuleId}

/-- The longest prefix is found. -/
theorem tryCandidate_append (hname : moduleName ≠ [])
    (hids : api.moduleNameToIds moduleName = some moduleIds) (hne : moduleIds ≠ [])
    {localName : Reference} (hplain : ∀ part ∈ localName, PlainName part)
    (hlonger : ∀ k, 0 < k → k ≤ localName.length →
      api.moduleNameToIds (moduleName ++ localName.take k) = none) (suffix : Reference) :
    tryCandidate api (moduleName ++ localName).reverse suffix =
      some (moduleIds, localName ++ suffix, moduleName) := by
  induction localName using List.reverseRecOn generalizing suffix with
  | nil =>
    obtain ⟨last, pre, hreverse⟩ := List.exists_cons_of_ne_nil
      (fun hnil => hname (List.reverse_eq_nil_iff.mp hnil) : moduleName.reverse ≠ [])
    have hmodule : (last :: pre).reverse = moduleName := by rw [← hreverse, List.reverse_reverse]
    have hempty : moduleIds.isEmpty = false := by simpa using hne
    rw [List.append_nil, hreverse, tryCandidate, hmodule, hids]
    simp [hempty]
  | append_singleton localName last ih =>
    have hlast := hplain last (List.mem_append_right _ List.mem_cons_self)
    have hnone := hlonger (localName ++ [last]).length (by simp) le_rfl
    rw [List.take_length] at hnone
    have hreverse : (moduleName ++ (localName ++ [last])).reverse =
        last :: (moduleName ++ localName).reverse := by
      rw [← List.append_assoc, List.reverse_append, List.reverse_singleton, List.singleton_append]
    have hcandidate : (last :: (moduleName ++ localName).reverse).reverse =
        moduleName ++ (localName ++ [last]) := by rw [← hreverse, List.reverse_reverse]
    have hcombine : FullyQualifiedName.combine (ModuleQualifiers.Reference.create last) suffix =
        last :: suffix := by
      rw [create_plainName hlast, FullyQualifiedName.combine, if_neg]
      · rfl
      · simpa using hlast.identifier.nonempty
    rw [hreverse, tryCandidate, hcandidate, hnone, hcombine]
    simp only [Option.getD_none, List.isEmpty_nil, Bool.not_true, Bool.false_eq_true, if_false]
    rw [ih (fun part hpart => hplain part (List.mem_append_left _ hpart)) (fun k hpos hle => ?_),
      List.append_assoc, List.singleton_append]
    have hk := hlonger k hpos (hle.trans (by simp))
    rwa [List.take_append_of_le_length hle] at hk

end Search

/-! ## 6. Definitions are found -/

theorem bareModuleName_plainName {name : Reference} (hname : ModuleName name) (hne : name ≠ [])
    (hplain : ∀ part ∈ name, PlainName part) (path : Option String) :
    bareModuleName (ModuleQualifiers.create path name) = name := by
  have hsame : ∀ part ∈ name, (ModuleQualifiers.unescapeSpecialCharacters ∘
      ModuleQualifiers.escapeSpecialCharacters) part = part := by
    intro part hpart
    rw [Function.comp_apply, (hplain part hpart).escape, (hplain part hpart).unescape]
  rw [ModuleQualifiers.bareModuleName_eq hne hname.noDot, List.map_map, List.map_congr_left hsame,
    List.map_id']

namespace Global

variable {Signature : Type}

def IsDefinition (isClass : Bool) (id : DefinitionId) : Global Signature → Prop
  | .classDefinition classId _ _ => isClass = true ∧ classId = id
  | .function found => isClass = false ∧ found.callableId = id
  | .module _ => False
  | .classAttribute _ _ _ => False
  | .moduleGlobal _ _ _ => False

/-- The symbolic name of a class or function. -/
def symbolicName (api : ReadOnly Signature) : Global Signature → Option Reference
  | .classDefinition classId _ _ =>
    some (targetSymbolicName (api.fullyQualifiedNameOfClassId classId))
  | .function found => some (targetSymbolicName found.defineName)
  | .module _ => none
  | .classAttribute _ _ _ => none
  | .moduleGlobal _ _ _ => none

end Global

structure ProjectModule.Valid {Signature : Type} (entry : ProjectModule Signature) : Prop where
  name : ModuleName entry.name
  nonempty : entry.name ≠ []
  identifiers : entry.definitions.Identifiers

namespace Project

variable {Signature : Type} {project : Project Signature}

/-- A name finds a definition, and no class or function of another name. -/
def Finds (project : Project Signature) (id : DefinitionId) (d : QualifiedDefinition)
    (moduleName name : Reference) : Prop :=
  ∃ results, resolveUserQualifiedName project.readOnly d.definition.isPropertySetter name =
      .ok (.moduleFound (some moduleName) results) ∧
    (∃ global, .resolved global ∈ results ∧ global.IsDefinition d.definition.isClass id) ∧
    ∀ global, .resolved global ∈ results → ∀ symbolic,
      global.symbolicName project.readOnly = some symbolic → symbolic = name

theorem mem_moduleIds {name : Reference} {moduleId : ModuleId} :
    moduleId ∈ project.moduleIds name ↔
      ∃ entry, project[moduleId]? = some entry ∧ bareModuleName entry.qualifier = name := by
  simp only [moduleIds, List.mem_map, List.mem_filter, beq_iff_eq, Prod.exists]
  constructor
  · rintro ⟨entry, i, ⟨hmem, hname⟩, rfl⟩
    exact ⟨entry, List.mem_zipIdx_iff_getElem?.mp hmem, hname⟩
  · rintro ⟨entry, hentry, hname⟩
    exact ⟨entry, moduleId, ⟨List.mem_zipIdx_iff_getElem?.mpr hentry, hname⟩, rfl⟩

theorem mem_definitionIds {isClass : Bool} {moduleId : ModuleId} {entry : ProjectModule Signature}
    (hentry : project[moduleId]? = some entry) {id : DefinitionId} :
    id ∈ project.definitionIds isClass moduleId entry ↔
      id.1 = moduleId ∧ ∃ d, project.definition id = some d ∧ d.definition.isClass = isClass := by
  simp only [definitionIds, List.mem_reverse, List.mem_map, List.mem_filter, beq_iff_eq,
    Prod.exists]
  constructor
  · rintro ⟨d, j, ⟨hmem, hclass⟩, rfl⟩
    refine ⟨rfl, d, ?_, hclass⟩
    rw [definition, hentry]
    exact List.mem_zipIdx_iff_getElem?.mp hmem
  · rintro ⟨rfl, d, hd, hclass⟩
    rw [definition, hentry] at hd
    exact ⟨d, id.2, ⟨List.mem_zipIdx_iff_getElem?.mpr hd, hclass⟩, rfl⟩

section Module

variable {moduleName localName : Reference} {moduleId : ModuleId} {entry : ProjectModule Signature}

/-- In a module of this name, the definitions with a local name are those with the whole name. -/
theorem localName_eq_iff (hmodule : moduleName ≠ []) (hentry : project[moduleId]? = some entry)
    (hvalid : entry.Valid) (hbare : bareModuleName entry.qualifier = moduleName) {number : ℕ}
    {d : QualifiedDefinition} (hd : project.definition (moduleId, number) = some d) :
    localNameOfFullyQualifiedName moduleName d.qualifiedName = localName ↔
      targetSymbolicName d.qualifiedName = moduleName ++ localName := by
  rw [definition, hentry] at hd
  obtain ⟨localPart, hne, hsymbolic, -⟩ := targetSymbolicName_definition hvalid.name hvalid.nonempty
    hvalid.identifiers (List.mem_of_getElem? hd)
  have hname : bareModuleName (ModuleQualifiers.create entry.path entry.name) = moduleName := hbare
  rw [hname] at hsymbolic
  rw [localNameOfFullyQualifiedName, hsymbolic, dropPrefix_append hmodule hne,
    List.append_right_inj]

theorem matchingCallable_eq (hentry : project[moduleId]? = some entry) {isPropertySetter : Bool}
    {number : ℕ} {d : QualifiedDefinition} (hd : project.definition (moduleId, number) = some d) :
    ∃ function : Function Signature, function.callableId = (moduleId, number) ∧
      function.defineName = d.qualifiedName ∧
      matchingCallable project.readOnly isPropertySetter moduleName localName (moduleId, number) =
        .ok (if localNameOfFullyQualifiedName moduleName d.qualifiedName = localName ∧
          isPropertySetter = d.definition.isPropertySetter then some (.function function)
        else none) := by
  have hname : project.readOnly.fullyQualifiedNameOfCallableId (moduleId, number) =
      d.qualifiedName := by
    simp only [readOnly, hd, Option.map_some, Option.getD_some]
  have hmetadata : assertSharedMemoryKeyExists "missing metadata for callable"
      (project.readOnly.callableMetadata (moduleId, number)) =
        .ok ⟨entry.nameLocation number, entry.isPropertyGetter number,
          d.definition.isPropertySetter, entry.parentIsClass number⟩ := by
    simp only [readOnly, hentry, hd, Option.bind_some, Option.map_some, assertSharedMemoryKeyExists]
  have hsignatures : assertSharedMemoryKeyExists "missing undecorated signatures for callable"
      (project.readOnly.callableUndecoratedSignatures (moduleId, number)) =
        .ok (entry.undecoratedSignatures number) := by
    simp only [readOnly, hentry, Option.map_some, assertSharedMemoryKeyExists]
  refine ⟨⟨(moduleId, number), d.qualifiedName, none, some (entry.undecoratedSignatures number),
    entry.isPropertyGetter number, d.definition.isPropertySetter, entry.parentIsClass number,
    callableLocation (entry.nameLocation number)⟩, rfl, rfl, ?_⟩
  rw [matchingCallable, hname]
  by_cases hlocal : localNameOfFullyQualifiedName moduleName d.qualifiedName = localName
  · simp only [hlocal, if_true, hmetadata, hsignatures, bind, Except.bind, true_and]
    split_ifs <;> rfl
  · simp only [hlocal, if_false, false_and]
    rfl

theorem matchingClass_eq (hentry : project[moduleId]? = some entry) {number : ℕ}
    {d : QualifiedDefinition} (hd : project.definition (moduleId, number) = some d) :
    ∃ className location, matchingClass project.readOnly moduleName localName (moduleId, number) =
      .ok (if localNameOfFullyQualifiedName moduleName d.qualifiedName = localName then
        some (.classDefinition (moduleId, number) className location) else none) := by
  have hname : project.readOnly.fullyQualifiedNameOfClassId (moduleId, number) =
      d.qualifiedName := by
    simp only [readOnly, hd, Option.map_some, Option.getD_some]
  refine ⟨showReference d.qualifiedName, some (entry.classNameLocation number), ?_⟩
  rw [matchingClass, hname]
  by_cases hlocal : localNameOfFullyQualifiedName moduleName d.qualifiedName = localName
  · simp [hlocal, readOnly, hentry, assertSharedMemoryKeyExists]
  · simp [hlocal]
    rfl

variable (localName) in
/-- The functions of a module with a name and a setter flag. -/
theorem findMatchingCallables_spec (hmodule : moduleName ≠ [])
    (hentry : project[moduleId]? = some entry) (hvalid : entry.Valid)
    (hbare : bareModuleName entry.qualifier = moduleName) (isPropertySetter : Bool) :
    ∃ results, findMatchingCallables project.readOnly isPropertySetter moduleName localName
        moduleId = .ok results ∧
      (∀ global ∈ results, ∃ number d, project.definition (moduleId, number) = some d ∧
        d.definition.isClass = false ∧ d.definition.isPropertySetter = isPropertySetter ∧
        targetSymbolicName d.qualifiedName = moduleName ++ localName ∧
        global.symbolicName project.readOnly = some (moduleName ++ localName)) ∧
      ∀ number d, project.definition (moduleId, number) = some d → d.definition.isClass = false →
        d.definition.isPropertySetter = isPropertySetter →
        targetSymbolicName d.qualifiedName = moduleName ++ localName →
        ∃ global ∈ results, global.IsDefinition false (moduleId, number) := by
  have hids : (project.readOnly.moduleCallables moduleId).getD [] =
      project.definitionIds false moduleId entry := by
    simp only [readOnly, hentry, Option.map_some, Option.getD_some]
  obtain ⟨results, hresults⟩ : ∃ results, (project.definitionIds false moduleId entry).mapM
      (matchingCallable project.readOnly isPropertySetter moduleName localName) = .ok results := by
    refine Results.mapM_exists fun id hid => ?_
    obtain ⟨rfl, d, hd, -⟩ := (mem_definitionIds hentry).mp hid
    obtain ⟨found, -, -, hmatching⟩ := matchingCallable_eq hentry hd
    exact ⟨_, hmatching⟩
  obtain ⟨hall, heach⟩ := Results.mapM_mem hresults
  refine ⟨results.filterMap id, ?_, fun global hglobal => ?_, fun number d hd hfunction hsetter hname => ?_⟩
  · simp only [findMatchingCallables, hids, hresults, bind, Except.bind]
    rfl
  · obtain ⟨result, hresult, rfl⟩ := List.mem_filterMap.mp hglobal
    obtain ⟨id, hid, hmatch⟩ := heach _ hresult
    obtain ⟨rfl, d, hd, hfunction⟩ := (mem_definitionIds hentry).mp hid
    obtain ⟨found, -, hdefine, hmatching⟩ := matchingCallable_eq hentry hd
    rw [hmatching] at hmatch
    split_ifs at hmatch with hcondition
    · cases hmatch
      have hname := (localName_eq_iff hmodule hentry hvalid hbare hd).mp hcondition.1
      exact ⟨id.2, d, hd, hfunction, hcondition.2.symm, hname,
        congrArg some ((congrArg targetSymbolicName hdefine).trans hname)⟩
    · cases hmatch
  · obtain ⟨result, hresult, hmatch⟩ := hall (moduleId, number)
      ((mem_definitionIds hentry).mpr ⟨rfl, d, hd, hfunction⟩)
    obtain ⟨found, hid, -, hmatching⟩ := matchingCallable_eq hentry hd
    rw [hmatching, if_pos ⟨(localName_eq_iff hmodule hentry hvalid hbare hd).mpr hname,
      hsetter.symm⟩] at hmatch
    cases hmatch
    exact ⟨.function found, List.mem_filterMap.mpr ⟨_, hresult, rfl⟩, rfl, hid⟩

variable (localName) in
theorem findMatchingClasses_spec (hmodule : moduleName ≠ [])
    (hentry : project[moduleId]? = some entry) (hvalid : entry.Valid)
    (hbare : bareModuleName entry.qualifier = moduleName) :
    ∃ results, findMatchingClasses project.readOnly moduleName localName moduleId = .ok results ∧
      (∀ global ∈ results,
        global.symbolicName project.readOnly = some (moduleName ++ localName)) ∧
      ∀ number d, project.definition (moduleId, number) = some d → d.definition.isClass = true →
        targetSymbolicName d.qualifiedName = moduleName ++ localName →
        ∃ global ∈ results, global.IsDefinition true (moduleId, number) := by
  have hids : (project.readOnly.moduleClasses moduleId).getD [] =
      project.definitionIds true moduleId entry := by
    simp only [readOnly, hentry, Option.map_some, Option.getD_some]
  obtain ⟨results, hresults⟩ : ∃ results, (project.definitionIds true moduleId entry).mapM
      (matchingClass project.readOnly moduleName localName) = .ok results := by
    refine Results.mapM_exists fun id hid => ?_
    obtain ⟨rfl, d, hd, -⟩ := (mem_definitionIds hentry).mp hid
    obtain ⟨className, location, hmatching⟩ := matchingClass_eq hentry hd
    exact ⟨_, hmatching⟩
  obtain ⟨hall, heach⟩ := Results.mapM_mem hresults
  refine ⟨results.filterMap id, ?_, fun global hglobal => ?_, fun number d hd hclass hname => ?_⟩
  · simp only [findMatchingClasses, hids, hresults, bind, Except.bind]
    rfl
  · obtain ⟨result, hresult, rfl⟩ := List.mem_filterMap.mp hglobal
    obtain ⟨id, hid, hmatch⟩ := heach _ hresult
    obtain ⟨rfl, d, hd, -⟩ := (mem_definitionIds hentry).mp hid
    obtain ⟨className, location, hmatching⟩ := matchingClass_eq hentry hd
    rw [hmatching] at hmatch
    split_ifs at hmatch with hlocal
    · cases hmatch
      have hstored : project.readOnly.fullyQualifiedNameOfClassId (id.1, id.2) =
          d.qualifiedName := by
        simp only [readOnly, hd, Option.map_some, Option.getD_some]
      exact congrArg some ((congrArg targetSymbolicName hstored).trans
        ((localName_eq_iff hmodule hentry hvalid hbare hd).mp hlocal))
    · cases hmatch
  · obtain ⟨result, hresult, hmatch⟩ := hall (moduleId, number)
      ((mem_definitionIds hentry).mpr ⟨rfl, d, hd, hclass⟩)
    obtain ⟨className, location, hmatching⟩ := matchingClass_eq hentry hd
    rw [hmatching, if_pos ((localName_eq_iff hmodule hentry hvalid hbare hd).mpr hname)] at hmatch
    cases hmatch
    exact ⟨.classDefinition (moduleId, number) className location,
      List.mem_filterMap.mpr ⟨_, hresult, rfl⟩, rfl, rfl⟩

theorem symbolicName_classAttribute {suffix : Reference} {global : Global Signature}
    (h : global ∈ findMatchingClassAttributes project.readOnly moduleName suffix moduleId) :
    global.symbolicName project.readOnly = none := by
  unfold findMatchingClassAttributes at h
  split_ifs at h
  · cases h
  · obtain ⟨classId, -, hmatch⟩ := List.mem_filterMap.mp h
    unfold matchingClassAttribute at hmatch
    dsimp only at hmatch
    split_ifs at hmatch
    obtain ⟨fields, -, hmatch⟩ := Option.bind_eq_some_iff.mp hmatch
    obtain ⟨location, -, hmatch⟩ := Option.bind_eq_some_iff.mp hmatch
    cases hmatch
    rfl

theorem symbolicName_moduleGlobal {suffix : Reference} {global : Global Signature}
    (h : global ∈ findMatchingModuleGlobals project.readOnly suffix moduleId) :
    global.symbolicName project.readOnly = none := by
  unfold findMatchingModuleGlobals at h
  split_ifs at h
  · cases h
  · dsimp only at h
    split at h
    · cases h
    · split at h
      · rw [List.mem_singleton.mp h]
        rfl
      · cases h

variable (project moduleName localName) in
/-- In a module of the name, only classes and functions of the whole name are found, and among them
    each definition with the flag that no callable hides. -/
def ResolvesIn (isPropertySetter : Bool) (moduleId : ModuleId) : Prop :=
  ∃ results, resolveInQualifier project.readOnly isPropertySetter moduleName localName moduleId =
      .ok results ∧
    (∀ global, .resolved global ∈ results → ∀ symbolic,
      global.symbolicName project.readOnly = some symbolic → symbolic = moduleName ++ localName) ∧
    ∀ number d, project.definition (moduleId, number) = some d →
      d.definition.isPropertySetter = isPropertySetter →
      targetSymbolicName d.qualifiedName = moduleName ++ localName →
      (d.definition.isClass = true → ∀ number other,
        project.definition (moduleId, number) = some other → other.definition.isClass = false →
        other.definition.isPropertySetter = isPropertySetter →
        targetSymbolicName other.qualifiedName ≠ moduleName ++ localName) →
      ∃ global, .resolved global ∈ results ∧
        global.IsDefinition d.definition.isClass (moduleId, number)

theorem resolveInQualifier_spec (hmodule : moduleName ≠ [])
    (hentry : project[moduleId]? = some entry) (hvalid : entry.Valid)
    (hbare : bareModuleName entry.qualifier = moduleName) (isPropertySetter : Bool) :
    project.ResolvesIn moduleName localName isPropertySetter moduleId := by
  obtain ⟨callables, hcallables, honly, hfunctions⟩ := findMatchingCallables_spec
    localName hmodule hentry hvalid hbare isPropertySetter
  obtain ⟨classes, hclasses, honlyClasses, hclassFound⟩ := findMatchingClasses_spec
    localName hmodule hentry hvalid hbare
  have hresolved : ∀ {globals : List (Global Signature)} {global : Global Signature},
      .resolved global ∈ globals.map ModuleResolutionResult.resolved → global ∈ globals := by
    intro globals global hmem
    obtain ⟨other, hother, heq⟩ := List.mem_map.mp hmem
    cases heq
    exact hother
  cases hnoCallables : callables.isEmpty with
  | false =>
    refine ⟨callables.map .resolved, ?_, fun global hglobal symbolic hsymbolic => ?_,
      fun number d hd hsetter hname hhidden => ?_⟩
    · simp only [resolveInQualifier, hcallables, bind, Except.bind, hnoCallables, Bool.not_false,
        if_true]
      rfl
    · obtain ⟨-, -, -, -, -, -, hname⟩ := honly global (hresolved hglobal)
      exact (Option.some.inj (hsymbolic.symm.trans hname))
    · cases hclass : d.definition.isClass with
      | false =>
        obtain ⟨global, hglobal, hfound⟩ := hfunctions number d hd hclass hsetter hname
        exact ⟨global, List.mem_map_of_mem hglobal, hfound⟩
      | true =>
        have hne : callables ≠ [] := fun hnil => by
          rw [hnil] at hnoCallables
          cases hnoCallables
        obtain ⟨callable, rest, hcons⟩ := List.exists_cons_of_ne_nil hne
        obtain ⟨number', other, hother, hfunction, hsetter', hname', -⟩ :=
          honly callable (hcons ▸ List.mem_cons_self)
        exact absurd hname' (hhidden hclass number' other hother hfunction hsetter')
  | true =>
    have hnil : callables = [] := List.isEmpty_iff.mp hnoCallables
    have hclassOnly : ∀ number d, project.definition (moduleId, number) = some d →
        d.definition.isPropertySetter = isPropertySetter →
        targetSymbolicName d.qualifiedName = moduleName ++ localName →
        d.definition.isClass = true := by
      intro number d hd hsetter hname
      by_contra hclass
      obtain ⟨global, hglobal, -⟩ := hfunctions number d hd (Bool.eq_false_of_not_eq_true hclass)
        hsetter hname
      rw [hnil] at hglobal
      cases hglobal
    cases hnoClasses : classes.isEmpty with
    | false =>
      refine ⟨classes.map .resolved, ?_, fun global hglobal symbolic hsymbolic => ?_,
        fun number d hd hsetter hname _ => ?_⟩
      · simp only [resolveInQualifier, hcallables, hclasses, bind, Except.bind, hnoCallables,
          hnoClasses, Bool.not_true, Bool.not_false, Bool.false_eq_true, if_false, if_true]
        rfl
      · have hname := honlyClasses global (hresolved hglobal)
        exact (Option.some.inj (hsymbolic.symm.trans hname))
      · have hclass := hclassOnly number d hd hsetter hname
        obtain ⟨global, hglobal, hfound⟩ := hclassFound number d hd hclass hname
        exact ⟨global, List.mem_map_of_mem hglobal, hclass ▸ hfound⟩
    | true =>
      have hresults : ∃ results, resolveInQualifier project.readOnly isPropertySetter moduleName
            localName moduleId = .ok results ∧
          ∀ global, .resolved global ∈ results →
            global.symbolicName project.readOnly = none := by
        simp only [resolveInQualifier, hcallables, hclasses, bind, Except.bind, hnoCallables,
          hnoClasses, Bool.not_true, Bool.false_eq_true, if_false]
        split_ifs
        · exact ⟨_, rfl, fun global hglobal => symbolicName_classAttribute (hresolved hglobal)⟩
        · exact ⟨_, rfl, fun global hglobal => symbolicName_moduleGlobal (hresolved hglobal)⟩
        · exact ⟨_, rfl, fun global hglobal => by cases List.mem_singleton.mp hglobal⟩
      obtain ⟨results, hok, hnone⟩ := hresults
      refine ⟨results, hok, fun global hglobal symbolic hsymbolic => ?_,
        fun number d hd hsetter hname _ => ?_⟩
      · rw [hnone global hglobal] at hsymbolic
        cases hsymbolic
      · obtain ⟨global, hglobal, -⟩ :=
          hclassFound number d hd (hclassOnly number d hd hsetter hname) hname
        rw [List.isEmpty_iff.mp hnoClasses] at hglobal
        cases hglobal

end Module

/-- **A name finds its definition**, if nothing of it is rewritten: the first part is none of the
    builtins, the last one no name of a toplevel, and the one before it not `__class__`. All parts
    are identifiers, no longer prefix is a module, and no callable of the name hides a class. -/
theorem finds_definition (hproject : ∀ entry ∈ project, entry.Valid) {moduleId : ModuleId}
    {number : ℕ} {entry : ProjectModule Signature} (hentry : project[moduleId]? = some entry)
    {d : QualifiedDefinition} (hd : project.definition (moduleId, number) = some d)
    (hmodule : ∀ part ∈ entry.name, PlainName part)
    (hlocal : ∀ part ∈ d.localName, PlainName part)
    (hlonger : ∀ k, 0 < k → k ≤ d.localName.length → ∀ other ∈ project,
      bareModuleName other.qualifier ≠ entry.name ++ d.localName.take k)
    (hhidden : d.definition.isClass = true → ∀ number other,
      project.definition (moduleId, number) = some other → other.definition.isClass = false →
      other.definition.isPropertySetter = d.definition.isPropertySetter →
      targetSymbolicName other.qualifiedName ≠ entry.name ++ d.localName)
    (hname : NotRewritten (entry.name ++ d.localName)) :
    targetSymbolicName d.qualifiedName = entry.name ++ d.localName ∧
      project.Finds (moduleId, number) d entry.name (entry.name ++ d.localName) := by
  have hvalid := hproject entry (List.mem_of_getElem? hentry)
  have hbare : bareModuleName entry.qualifier = entry.name :=
    bareModuleName_plainName hvalid.name hvalid.nonempty hmodule entry.path
  have hdefinitions := hd
  rw [definition, hentry] at hdefinitions
  obtain ⟨localPart, hne, hsymbolic, hsame⟩ := targetSymbolicName_definition hvalid.name
    hvalid.nonempty hvalid.identifiers (List.mem_of_getElem? hdefinitions)
  have hbareCreate : bareModuleName (ModuleQualifiers.create entry.path entry.name) = entry.name :=
    hbare
  rw [hbareCreate, hsame hlocal] at hsymbolic
  rw [hsame hlocal] at hne
  have hself : moduleId ∈ project.moduleIds entry.name := mem_moduleIds.mpr ⟨entry, hentry, hbare⟩
  have hids : project.readOnly.moduleNameToIds entry.name = some (project.moduleIds entry.name) := by
    simp only [readOnly]
    rw [if_neg]
    simpa using List.ne_nil_of_mem hself
  have hnone : ∀ k, 0 < k → k ≤ d.localName.length →
      project.readOnly.moduleNameToIds (entry.name ++ d.localName.take k) = none := by
    intro k hpos hle
    simp only [readOnly]
    rw [if_pos]
    rw [List.isEmpty_iff, List.eq_nil_iff_forall_not_mem]
    intro other hother
    obtain ⟨otherEntry, hotherEntry, hotherName⟩ := mem_moduleIds.mp hother
    exact hlonger k hpos hle otherEntry (List.mem_of_getElem? hotherEntry) hotherName
  have hfound : findModuleQualifiers project.readOnly (userName (entry.name ++ d.localName)) =
      some (project.moduleIds entry.name, d.localName, entry.name) := by
    rw [userName_of_notRewritten hname, findModuleQualifiers, tryCandidate_append hvalid.nonempty hids
      (List.ne_nil_of_mem hself) hlocal hnone, List.append_nil]
  have hspec : ∀ other ∈ project.moduleIds entry.name,
      project.ResolvesIn entry.name d.localName d.definition.isPropertySetter other := by
    intro other hother
    obtain ⟨otherEntry, hotherEntry, hotherName⟩ := mem_moduleIds.mp hother
    exact resolveInQualifier_spec hvalid.nonempty hotherEntry
      (hproject otherEntry (List.mem_of_getElem? hotherEntry)) hotherName _
  obtain ⟨results, hresults⟩ : ∃ results, (project.moduleIds entry.name).mapM
      (resolveInQualifier project.readOnly d.definition.isPropertySetter entry.name d.localName) =
        .ok results :=
    Results.mapM_exists fun other hother => by
      obtain ⟨results, hok, -, -⟩ := hspec other hother
      exact ⟨results, hok⟩
  obtain ⟨hall, heach⟩ := Results.mapM_mem hresults
  refine ⟨hsymbolic, results.flatten, ?_, ?_, fun global hglobal symbolic hglobalName => ?_⟩
  · have hempty : d.localName.isEmpty = false := by simpa using hne
    rw [resolveUserQualifiedName, hfound]
    dsimp only
    rw [hempty, if_neg Bool.false_ne_true, hresults]
    rfl
  · obtain ⟨own, hown, hok⟩ := hall moduleId hself
    obtain ⟨own', hok', -, hcontains⟩ := hspec moduleId hself
    cases Except.ok.inj (hok.symm.trans hok')
    obtain ⟨global, hglobal, hdefinition⟩ := hcontains number d hd rfl hsymbolic hhidden
    exact ⟨global, List.mem_flatten.mpr ⟨own, hown, hglobal⟩, hdefinition⟩
  · obtain ⟨own, hown, hmem⟩ := List.mem_flatten.mp hglobal
    obtain ⟨other, hother, hok⟩ := heach own hown
    obtain ⟨own', hok', honly, -⟩ := hspec other hother
    cases Except.ok.inj (hok.symm.trans hok')
    exact honly global hmem symbolic hglobalName

/-- A module with one function. -/
def sampleModule (moduleName functionName : String) : ProjectModule Unit where
  name := [moduleName]
  path := none
  definitions := .cons (.function functionName false) .nil .nil
  nameLocation := fun _ => .moduleTopLevel
  isPropertyGetter := fun _ => false
  parentIsClass := fun _ => false
  undecoratedSignatures := fun _ => []
  classNameLocation := fun _ => ⟨⟨1, 0⟩, ⟨1, 0⟩⟩
  fields := fun _ => []
  globals := []

theorem plainName_of_notMem {name : String} (hne : name ≠ "") (hdot : '.' ∉ name.toList)
    (hhash : '#' ∉ name.toList) (hcolon : ':' ∉ name.toList) (hdollar : '$' ∉ name.toList)
    (hat : '@' ∉ name.toList) (hbackslash : '\\' ∉ name.toList) : PlainName name :=
  ⟨isIdentifier_of_notMem hne hdot hhash hcolon hdollar, hat, hbackslash⟩

theorem plainName_filter : PlainName "filter" :=
  plainName_of_notMem (by decide) (by decide) (by decide) (by decide) (by decide) (by decide)
    (by decide)

theorem plainName_foo : PlainName "foo" :=
  plainName_of_notMem (by decide) (by decide) (by decide) (by decide) (by decide) (by decide)
    (by decide)

theorem sampleModule_valid {moduleName functionName : String} (hmodule : PlainName moduleName)
    (hfunction : PlainName functionName) : (sampleModule moduleName functionName).Valid := by
  refine ⟨⟨fun part hpart => ?_, fun heq => ?_⟩, List.cons_ne_nil _ _,
    hfunction.identifier, trivial, trivial⟩
  · rw [List.mem_singleton.mp hpart]
    exact hmodule.notMem (by decide)
  · exact hmodule.identifier.nonempty (List.cons.inj heq).1

theorem bareModuleName_sampleModule {moduleName : String} (functionName : String)
    (hmodule : PlainName moduleName) :
    bareModuleName (sampleModule moduleName functionName).qualifier = [moduleName] := by
  refine bareModuleName_plainName ⟨fun part hpart => ?_, fun heq => ?_⟩ (List.cons_ne_nil _ _)
    (fun part hpart => ?_) none
  · rw [List.mem_singleton.mp hpart]
    exact hmodule.notMem (by decide)
  · exact hmodule.identifier.nonempty (List.cons.inj heq).1
  · rw [List.mem_singleton.mp hpart]
    exact hmodule

/-- A module with a function and two setters of one name. -/
def settersModule (path : String) : ProjectModule Unit := { sampleModule "foo" "foo" with
  path := some path
  definitions := .cons (.function "foo" false) .nil
    (.cons (.function "foo" true) .nil (.cons (.function "foo" true) .nil .nil)) }

def secondSetter : QualifiedDefinition :=
  ⟨["b:foo", "foo@setter$2"], ["foo"], .function "foo" true⟩

/-- The second setter of the second of two modules of one name. No name here has a separator:
    before one stands a longer prefix that is a module. -/
theorem finds_definition_sample :
    Project.definition [settersModule "a", settersModule "b"] (1, 3) = some secondSetter ∧
      targetSymbolicName secondSetter.qualifiedName = ["foo", "foo"] ∧
      Finds [settersModule "a", settersModule "b"] (1, 3) secondSetter ["foo"] ["foo", "foo"] := by
  have hparts : ∀ part ∈ ["foo"], PlainName part := by
    intro part hpart
    rw [List.mem_singleton.mp hpart]
    exact plainName_foo
  have hfoo := plainName_foo.identifier
  have hvalid := sampleModule_valid plainName_foo plainName_foo
  have hmem : ∀ entry ∈ [settersModule "a", settersModule "b"], ∃ path, entry = settersModule path :=
    List.forall_mem_cons.mpr ⟨⟨"a", rfl⟩, List.forall_mem_singleton.mpr ⟨"b", rfl⟩⟩
  have hentry : [settersModule "a", settersModule "b"][1]? = some (settersModule "b") := rfl
  have hsetter : Project.definition [settersModule "a", settersModule "b"] (1, 3) =
      some secondSetter := rfl
  refine ⟨hsetter, finds_definition (fun entry hentry => ?_) hentry hsetter hparts hparts
    (fun k hpos hle other hother heq => ?_) (fun hclass => by cases hclass)
    ⟨by decide, by decide, by decide, by decide⟩⟩
  · obtain ⟨path, rfl⟩ := hmem entry hentry
    exact ⟨hvalid.name, hvalid.nonempty, hfoo, trivial, hfoo, trivial, hfoo, trivial, trivial⟩
  · obtain ⟨path, rfl⟩ := hmem other hother
    have hbare := bareModuleName_plainName hvalid.name hvalid.nonempty hparts (some path)
    have hlength := congrArg List.length (hbare.symm.trans heq)
    obtain rfl : k = 1 := le_antisymm hle hpos
    cases hlength

/-- **A function of a module with the name of a builtin is not found**: the name is looked for in
    the module `builtins`. Names of toplevels and of class attributes are rewritten, too. -/
theorem filter_not_found :
    userName ["foo", "__top_level__"] = ["foo", "$toplevel"] ∧
      userName ["foo", "__class_top_level__"] = ["foo", "$class_toplevel"] ∧
      userName ["foo", "__class__", "bar"] = ["foo", "bar"] ∧
      (sampleModule "filter" "foo").Valid ∧ PlainName "filter" ∧ PlainName "foo" ∧
      bareModuleName (sampleModule "filter" "foo").qualifier = ["filter"] ∧
      ∃ d, Project.definition [sampleModule "filter" "foo"] (0, 1) = some d ∧
        d.localName = ["foo"] ∧ d.definition.isClass = false ∧
        resolveUserQualifiedName (readOnly [sampleModule "filter" "foo"])
            d.definition.isPropertySetter ["filter", "foo"] = .ok .baseModuleNotFound ∧
        ¬ Finds [sampleModule "filter" "foo"] (0, 1) d ["filter"] ["filter", "foo"] := by
  have hbare := bareModuleName_sampleModule "foo" plainName_filter
  have hnone : ∀ name, name ≠ ["filter"] →
      (readOnly [sampleModule "filter" "foo"]).moduleNameToIds name = none := by
    intro name hne
    simp only [readOnly]
    rw [if_pos]
    rw [List.isEmpty_iff, List.eq_nil_iff_forall_not_mem]
    intro moduleId hmem
    obtain ⟨entry, hentry, hname⟩ := mem_moduleIds.mp hmem
    rw [List.mem_singleton.mp (List.mem_of_getElem? hentry), hbare] at hname
    exact hne hname.symm
  have hresolve : resolveUserQualifiedName (readOnly [sampleModule "filter" "foo"]) false
      ["filter", "foo"] = .ok .baseModuleNotFound := by
    have huser : userName ["filter", "foo"] = ["builtins", "filter", "foo"] := by decide
    have hsearch : findModuleQualifiers (readOnly [sampleModule "filter" "foo"])
        ["builtins", "filter", "foo"] = none := by
      rw [findModuleQualifiers, List.reverse_cons, List.reverse_cons, List.reverse_singleton]
      simp only [List.cons_append, List.nil_append, tryCandidate, List.reverse_cons,
        List.reverse_nil]
      rw [hnone _ (by decide), hnone _ (by decide), hnone _ (by decide)]
      rfl
    rw [resolveUserQualifiedName, huser, hsearch]
  refine ⟨by decide, by decide, by decide, sampleModule_valid plainName_filter plainName_foo,
    plainName_filter, plainName_foo, hbare, _, rfl, rfl, rfl, hresolve, ?_⟩
  rintro ⟨results, hok, -⟩
  cases hresolve.symm.trans hok

end Project

end Pysa.QualifiedNames
