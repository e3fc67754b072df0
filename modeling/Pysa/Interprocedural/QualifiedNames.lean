/-
  Subject: NAMING THE CLASSES AND FUNCTIONS OF A PROJECT (`pyreflyApi.ml`,
    `FullyQualifiedName` and `DefinitionCollector`).

  * `qualifyChildren`, `checkChildren` -- names that differ from those of the siblings, and the mark
    of a definition that has the name of a module;
  * `Good`, `qualifiedText_injective` -- what a name says of its module and of the path inside it;
  * `distinct_qualifyChildren`, `nodup_paths` -- the paths inside a module are different;
  * `qualifiedNames_unique` -- **no two definitions of a project have the same name**.
-/
import Pysa.Interprocedural.ModuleQualifiers

namespace Pysa

open Pysa.Text

namespace QualifiedNames

open Pysa.ModuleQualifiers (Reference showReference showReference_create)

/-! ## 1. Names -/

namespace FullyQualifiedName

def escapeSpecialCharacters (s : String) : String :=
  substrReplaceAll "#" "\\x23" (substrReplaceAll ":" "\\x3a" s)

/-- `Reference.combine`. -/
def combine (pre suffix : Reference) : Reference := if pre = [""] then suffix else pre ++ suffix

def create (moduleQualifier : Reference) (localName : List String) (addModuleSeparator : Bool) :
    Reference :=
  let localName :=
    if localName.any fun s => s.toList.contains '#' || s.toList.contains ':' then
      localName.map escapeSpecialCharacters
    else localName
  if !addModuleSeparator then combine moduleQualifier localName
  else
    ModuleQualifiers.Reference.create
      (showReference moduleQualifier ++ "#" ++ showReference localName)

def createModuleToplevel (moduleQualifier : Reference) : Reference :=
  create moduleQualifier ["$toplevel"] false

def createClassToplevel (name : Reference) : Reference := combine name ["$class_toplevel"]

end FullyQualifiedName

/-! ## 2. Definitions -/

inductive Definition where
  | function (name : String) (isPropertySetter : Bool)
  | classDefinition (name : String) (isSynthesized : Bool)
deriving DecidableEq

namespace Definition

def name : Definition → String
  | .function name _ => name
  | .classDefinition name _ => name

def isClass : Definition → Bool
  | .function _ _ => false
  | .classDefinition _ _ => true

/-- A class that is not synthesized has a toplevel define. -/
def hasToplevel : Definition → Bool
  | .function _ _ => false
  | .classDefinition _ isSynthesized => !isSynthesized

/-- The name before it is made unique: a property setter is not its getter. -/
def baseName : Definition → String
  | .function name true => name ++ "@setter"
  | .function name false => name
  | .classDefinition name _ => name

end Definition

/-- The nodes under a definition, in the order of their scopes: a node has a value, its own
    children, and those that come after it. -/
inductive Children (V : Type) where
  | nil
  | cons (value : V) (children : Children V) (rest : Children V)

structure QualifiedNode where
  definition : Definition
  uniqueName : String
  nameOverlapsModule : Bool

structure QualifiedDefinition where
  qualifiedName : Reference
  localName : Reference
  definition : Definition

def uniqueName (name : String) (index : ℤ) : String :=
  if index = 0 then name else name ++ "$" ++ toString (index + 1)

/-- `create_qualified_names`; `nameIndices` has the last index of each name. -/
def qualifyChildren : (nameIndices : String → Option ℤ) → Children Definition →
    Children QualifiedNode
  | _, .nil => .nil
  | nameIndices, .cons definition children rest =>
    let name := definition.baseName
    let index := (nameIndices name).elim 0 (· + 1)
    .cons ⟨definition, uniqueName name index, false⟩ (qualifyChildren (fun _ => none) children)
      (qualifyChildren (Function.update nameIndices name (some index)) rest)

def createQualifiedNames (children : Children Definition) : Children QualifiedNode :=
  qualifyChildren (fun _ => none) children

def setOverlapFlag : Children QualifiedNode → Children QualifiedNode
  | .nil => .nil
  | .cons value children rest =>
    .cons { value with nameOverlapsModule := true } (setOverlapFlag children) (setOverlapFlag rest)

section Module

variable (moduleQualifier : Reference) (moduleExists : Reference → Bool)

/-- `check_module_overlaps`, below a parent whose path is reversed. -/
def checkChildren : (parent : List String) → Children QualifiedNode → Children QualifiedNode
  | _, .nil => .nil
  | parent, .cons value children rest =>
    if moduleExists (FullyQualifiedName.create moduleQualifier (value.uniqueName :: parent).reverse
        false) then
      .cons { value with nameOverlapsModule := true } (setOverlapFlag children)
        (checkChildren parent rest)
    else
      .cons value (checkChildren (value.uniqueName :: parent) children) (checkChildren parent rest)

def checkModuleOverlaps (children : Children QualifiedNode) : Children QualifiedNode :=
  checkChildren moduleQualifier moduleExists [] children

/-- `collect_definitions`: each definition before its children. -/
def addDefinitions : (parentQualifiedName parentLocalName : List String) →
    Children QualifiedNode → List QualifiedDefinition
  | _, _, .nil => []
  | parentQualifiedName, parentLocalName, .cons value children rest =>
    let symbolName := value.definition.name
    ⟨FullyQualifiedName.create moduleQualifier (value.uniqueName :: parentQualifiedName).reverse
        value.nameOverlapsModule,
      (symbolName :: parentLocalName).reverse, value.definition⟩ ::
    (addDefinitions (value.uniqueName :: parentQualifiedName) (symbolName :: parentLocalName)
        children ++
      addDefinitions parentQualifiedName parentLocalName rest)

def collectDefinitions (children : Children QualifiedNode) : List QualifiedDefinition :=
  addDefinitions moduleQualifier [] [] children

def addToplevel (definition : QualifiedDefinition) : List QualifiedDefinition :=
  if definition.definition.hasToplevel then
    [definition,
      ⟨FullyQualifiedName.createClassToplevel definition.qualifiedName,
        FullyQualifiedName.combine definition.localName ["$class_toplevel"],
        .function "$class_toplevel" false⟩]
  else [definition]

def addToplevelDefines (definitions : List QualifiedDefinition) : List QualifiedDefinition :=
  ⟨FullyQualifiedName.createModuleToplevel moduleQualifier, ["$toplevel"],
      .function "$toplevel" false⟩ ::
    definitions.flatMap addToplevel

/-- The definitions of a module, with their names. -/
def moduleDefinitions (children : Children Definition) : List QualifiedDefinition :=
  addToplevelDefines moduleQualifier
    (collectDefinitions moduleQualifier
      (checkModuleOverlaps moduleQualifier moduleExists (createQualifiedNames children)))

end Module

/-- The definitions of all modules; a module exists if it has a qualifier. -/
def projectDefinitions (qualifiers : List Reference)
    (modules : List (Reference × Children Definition)) : List QualifiedDefinition :=
  modules.flatMap fun entry => moduleDefinitions entry.1 (qualifiers.contains ·) entry.2

/-! ## 3. What a name says -/

/-- A part of a local path: it has none of the characters that separate. -/
def CleanPart (part : String) : Prop :=
  '.' ∉ part.toList ∧ '#' ∉ part.toList ∧ ':' ∉ part.toList

/-- A qualifier: the `#` in it belong to the path before a `:`. -/
structure ValidQualifier (qualifier : Reference) : Prop where
  noDot : ∀ part ∈ qualifier, '.' ∉ part.toList
  ne : qualifier ≠ [""]
  hash : ∀ before after, (showReference qualifier).toList = before ++ '#' :: after → ':' ∈ after

/-- The text of the name of a definition. -/
def qualifiedText (qualifier : Reference) (path : List String) (separator : Bool) : String :=
  if separator then showReference qualifier ++ "#" ++ showReference path
  else showReference (qualifier ++ path)

theorem showReference_append {left right : Reference} (hleft : left ≠ []) (hright : right ≠ []) :
    (showReference (left ++ right)).toList =
      (showReference left).toList ++ '.' :: (showReference right).toList := by
  obtain ⟨next, rest, rfl⟩ := List.exists_cons_of_ne_nil hright
  induction left with
  | nil => exact absurd rfl hleft
  | cons part left ih =>
    cases left with
    | nil =>
      simp only [showReference, List.singleton_append, String.intercalate_cons_cons,
        String.intercalate_singleton, String.toList_append]
      simp
    | cons second left =>
      have hrest := ih (List.cons_ne_nil _ _)
      simp only [showReference, List.cons_append, String.intercalate_cons_cons,
        String.toList_append] at hrest ⊢
      rw [hrest]
      simp

theorem showReference_injective {left right : Reference} (hleft : left ≠ []) (hright : right ≠ [])
    (hleftDot : ∀ part ∈ left, '.' ∉ part.toList) (hrightDot : ∀ part ∈ right, '.' ∉ part.toList)
    (h : showReference left = showReference right) : left = right := by
  have hsplit := congrArg (split '.') h
  have hl : split '.' (showReference left) = left := split_intercalate hleft hleftDot
  have hr : split '.' (showReference right) = right := split_intercalate hright hrightDot
  rwa [hl, hr] at hsplit

/-- The text of a qualifier gives it back. -/
theorem ValidQualifier.show_injective {left right : Reference} (hleft : ValidQualifier left)
    (hright : ValidQualifier right) (h : showReference left = showReference right) :
    left = right := by
  have hempty : ∀ {reference : Reference}, ValidQualifier reference →
      showReference reference = "" → reference = [] := by
    intro reference hvalid hshow
    by_contra hne
    have hsplit : split '.' (showReference reference) = reference :=
      split_intercalate hne hvalid.noDot
    rw [hshow] at hsplit
    exact hvalid.ne (hsplit.symm.trans (split_of_not_mem (by simp)))
  by_cases hl : left = []
  · rw [hl] at h ⊢
    exact (hempty hright h.symm).symm
  · by_cases hr : right = []
    · rw [hr] at h
      exact absurd (hempty hleft h) hl
    · exact showReference_injective hl hr hleft.noDot hright.noDot h

theorem notMem_showReference {path : List String} {c : Char} (hc : c ≠ '.')
    (h : ∀ part ∈ path, c ∉ part.toList) : c ∉ (showReference path).toList := by
  intro hmem
  rcases mem_intercalate hmem with hdot | ⟨part, hpart, hmem⟩
  · simp at hdot
    exact hc hdot
  · exact h part hpart hmem

/-- A path inside a module, and whether its name has the separator: if it has not, no definition
    around it has the name of a module. -/
structure Good (moduleExists : Reference → Bool) (qualifier : Reference) (path : List String)
    (separator : Bool) : Prop where
  nonempty : path ≠ []
  clean : ∀ part ∈ path, CleanPart part
  overlap : separator = false → ∀ k, 0 < k → k < path.length →
    moduleExists (qualifier ++ path.take k) = false

theorem hash_notMem_path {path : List String} (h : ∀ part ∈ path, CleanPart part) :
    '#' ∉ (showReference path).toList :=
  notMem_showReference (by decide) fun part hpart => (h part hpart).2.1

theorem colon_notMem_path {path : List String} (h : ∀ part ∈ path, CleanPart part) :
    ':' ∉ (showReference path).toList :=
  notMem_showReference (by decide) fun part hpart => (h part hpart).2.2

/-- A separator cannot be taken for a character of a name without one. -/
theorem separated_ne {left right : Reference} {path path' : List String}
    (hright : ValidQualifier right)
    (hclean : ∀ part ∈ path, CleanPart part) (hpath' : path' ≠ [])
    (hclean' : ∀ part ∈ path', CleanPart part) :
    qualifiedText left path true ≠ qualifiedText right path' false := by
  intro h
  have htext := congrArg String.toList h
  simp only [qualifiedText, if_true, Bool.false_eq_true, if_false, String.toList_append,
    List.append_assoc] at htext
  change (showReference left).toList ++ '#' :: (showReference path).toList = _ at htext
  by_cases hne : right = []
  · rw [hne, List.nil_append] at htext
    exact hash_notMem_path hclean' (htext ▸ by simp)
  · rw [showReference_append hne hpath', List.append_eq_append_iff] at htext
    rcases htext with ⟨a, hshow, hrest⟩ | ⟨a, hshow, hrest⟩
    · cases a with
      | nil => cases hrest
      | cons c a =>
        obtain ⟨rfl, htail⟩ := List.cons.inj hrest
        have hcolon := hright.hash _ _ hshow
        refine colon_notMem_path hclean ?_
        rw [htail]
        exact List.mem_append_left _ hcolon
    · have hmem : '#' ∈ '.' :: (showReference path').toList := hrest ▸ by simp
      rcases List.mem_cons.mp hmem with hdot | hmem
      · exact absurd hdot (by decide)
      · exact hash_notMem_path hclean' hmem

/-- **A name says which module it is from and where it is inside the module.** -/
theorem qualifiedText_injective {qualifiers : List Reference}
    (hvalid : ∀ q ∈ qualifiers, ValidQualifier q) {left right : Reference}
    {path path' : List String} {separator separator' : Bool} (hleft : left ∈ qualifiers)
    (hright : right ∈ qualifiers)
    (hgood : Good (qualifiers.contains ·) left path separator)
    (hgood' : Good (qualifiers.contains ·) right path' separator')
    (h : qualifiedText left path separator = qualifiedText right path' separator') :
    left = right ∧ path = path' := by
  have hdot : ∀ {qualifier : Reference} {path : List String}, ValidQualifier qualifier →
      (∀ part ∈ path, CleanPart part) → ∀ part ∈ qualifier ++ path, '.' ∉ part.toList := by
    intro qualifier path hvalid hclean part hpart
    rcases List.mem_append.mp hpart with hpart | hpart
    · exact hvalid.noDot part hpart
    · exact (hclean part hpart).1
  -- Without separators, a longer qualifier would be a module with the name of a parent.
  have hshorter : ∀ {left right : Reference} {path path' : List String}, right ∈ qualifiers →
      Good (qualifiers.contains ·) left path false → path' ≠ [] →
      left ++ path = right ++ path' → ¬ left.length < right.length := by
    intro left right path path' hright hgood hpath' happend hlt
    have hlength := congrArg List.length happend
    have hpos := List.length_pos_iff.mpr hpath'
    rw [List.length_append, List.length_append] at hlength
    have htake : right = left ++ path.take (right.length - left.length) := by
      have := congrArg (List.take right.length) happend
      rw [List.take_left, List.take_append, List.take_of_length_le hlt.le] at this
      exact this.symm
    have hexists := hgood.overlap rfl (right.length - left.length) (by omega) (by omega)
    rw [← htake, List.contains_eq_mem, decide_eq_false_iff_not] at hexists
    exact hexists hright
  cases separator <;> cases separator'
  · simp only [qualifiedText, Bool.false_eq_true, if_false] at h
    have happend := showReference_injective (by simp [hgood.nonempty]) (by simp [hgood'.nonempty])
      (hdot (hvalid left hleft) hgood.clean) (hdot (hvalid right hright) hgood'.clean) h
    have hle := hshorter hright hgood hgood'.nonempty happend
    have hge := hshorter hleft hgood' hgood.nonempty happend.symm
    exact List.append_inj happend (by omega)
  · exact absurd h.symm
      (separated_ne (hvalid left hleft) hgood'.clean hgood.nonempty hgood.clean)
  · exact absurd h
      (separated_ne (hvalid right hright) hgood.clean hgood'.nonempty hgood'.clean)
  · simp only [qualifiedText, if_true] at h
    have hafter := congrArg (afterLast '#') h
    have hl : afterLast '#' (showReference left ++ "#" ++ showReference path) =
        showReference path := afterLast_append (hash_notMem_path hgood.clean)
    have hr : afterLast '#' (showReference right ++ "#" ++ showReference path') =
        showReference path' := afterLast_append (hash_notMem_path hgood'.clean)
    rw [hl, hr] at hafter
    have hpath := showReference_injective hgood.nonempty hgood'.nonempty
      (fun part hpart => (hgood.clean part hpart).1) (fun part hpart => (hgood'.clean part hpart).1)
      hafter
    refine ⟨(hvalid left hleft).show_injective (hvalid right hright) ?_, hpath⟩
    rw [hafter] at h
    have htext := congrArg String.toList h
    simp only [String.toList_append, List.append_assoc] at htext
    exact String.toList_inj.mp (List.append_cancel_right htext)

/-! ## 4. Names among siblings -/

/-- The name of a node: it is none of a toplevel define. -/
structure ProperName (part : String) : Prop where
  clean : CleanPart part
  nonempty : part ≠ ""
  toplevel : part ≠ "$toplevel"
  classToplevel : part ≠ "$class_toplevel"

structure IsIdentifier (name : String) : Prop where
  nonempty : name ≠ ""
  characters : ∀ c ∈ ['.', '#', ':', '$'], c ∉ name.toList

theorem isIdentifier_of_notMem {name : String} (hne : name ≠ "") (hdot : '.' ∉ name.toList)
    (hhash : '#' ∉ name.toList) (hcolon : ':' ∉ name.toList) (hdollar : '$' ∉ name.toList) :
    IsIdentifier name := by
  refine ⟨hne, ?_⟩
  simp only [List.forall_mem_cons]
  exact ⟨hdot, hhash, hcolon, hdollar, fun _ hc => absurd hc List.not_mem_nil⟩

theorem toList_uniqueName {name : String} {index : ℤ} (h : index ≠ 0) :
    (uniqueName name index).toList = name.toList ++ '$' :: (toString (index + 1)).toList := by
  rw [uniqueName, if_neg h, String.toList_append, String.toList_append, List.append_assoc]
  rfl

/-- The name and the index can be told from a unique name. -/
theorem uniqueName_injective {name name' : String} {index index' : ℤ} (hname : '$' ∉ name.toList)
    (hname' : '$' ∉ name'.toList) (h : uniqueName name index = uniqueName name' index') :
    name = name' ∧ index = index' := by
  have hmark : ∀ {name : String} {index : ℤ}, index ≠ 0 → '$' ∈ (uniqueName name index).toList := by
    intro name index hindex
    rw [toList_uniqueName hindex]
    simp
  have hplain : ∀ name : String, uniqueName name 0 = name := fun name => if_pos rfl
  by_cases hi : index = 0 <;> by_cases hi' : index' = 0
  · rw [hi, hi', hplain, hplain] at h
    exact ⟨h, hi.trans hi'.symm⟩
  · rw [hi, hplain] at h
    exact absurd (h ▸ hmark hi') hname
  · rw [hi', hplain] at h
    exact absurd (h.symm ▸ hmark hi) hname'
  · have htext := congrArg String.toList h
    rw [toList_uniqueName hi, toList_uniqueName hi'] at htext
    obtain ⟨hnames, hrest⟩ := append_cons_inj hname hname' htext
    have hnil : ∀ c ∈ ([] : List Char).head?, c.isDigit = false := fun _ hc => by cases hc
    have hnumber : (toString (index + 1)).toList ++ [] = (toString (index' + 1)).toList ++ [] := by
      rw [hrest]
    obtain ⟨hindex, -⟩ := toString_append_inj hnil hnil hnumber
    exact ⟨String.toList_inj.mp hnames, by omega⟩

/-- What follows the `$` of a unique name is a number. -/
theorem uniqueName_ne {name : String} {index : ℤ} (word : String) {c : Char} (hname : '$' ∉ name.toList)
    (hc : c ∈ word.toList) (hdigit : c.isDigit = false) (hdash : c ≠ '-') :
    uniqueName name index ≠ "$" ++ word := by
  intro h
  by_cases hi : index = 0
  · rw [hi, uniqueName, if_pos rfl] at h
    exact hname (h ▸ by simp)
  · have htext := congrArg String.toList h
    rw [toList_uniqueName hi, String.toList_append] at htext
    have hempty : '$' ∉ "".toList := by simp
    obtain ⟨-, hrest⟩ := append_cons_inj hname hempty htext
    have hmem : c ∈ (toString (index + 1)).toList := by
      rw [hrest]
      exact hc
    rcases mem_toString hmem with hd | ⟨hd, -⟩
    · rw [hdigit] at hd
      cases hd
    · exact hdash hd

theorem baseName_spec {definition : Definition} (h : IsIdentifier definition.name) :
    definition.baseName ≠ "" ∧
      ∀ c ∈ ['.', '#', ':', '$'], c ∉ definition.baseName.toList := by
  have hsetter : ∀ c ∈ ['.', '#', ':', '$'], c ∉ "@setter".toList := by
    simp only [List.forall_mem_cons]
    exact ⟨by decide, by decide, by decide, by decide, fun _ hc => absurd hc List.not_mem_nil⟩
  cases definition with
  | function name isPropertySetter =>
    cases isPropertySetter with
    | false => exact ⟨h.nonempty, h.characters⟩
    | true =>
      refine ⟨fun hempty => ?_, fun c hc hmem => ?_⟩
      · have htext := congrArg String.toList hempty
        simp [Definition.baseName] at htext
      · rw [Definition.baseName, String.toList_append, List.mem_append] at hmem
        rcases hmem with hmem | hmem
        · exact h.characters c hc hmem
        · exact hsetter c hc hmem
  | classDefinition name isSynthesized => exact ⟨h.nonempty, h.characters⟩

theorem dollar_notMem_baseName {definition : Definition} (h : IsIdentifier definition.name) :
    '$' ∉ definition.baseName.toList := (baseName_spec h).2 '$' (by decide)

theorem properName_uniqueName {definition : Definition} (h : IsIdentifier definition.name)
    (index : ℤ) : ProperName (uniqueName definition.baseName index) := by
  have hdollar := dollar_notMem_baseName h
  have hbase := baseName_spec h
  have hclean : ∀ c ∈ ['.', '#', ':'], c ∉ (uniqueName definition.baseName index).toList := by
    intro c hc hmem
    by_cases hi : index = 0
    · rw [hi, uniqueName, if_pos rfl] at hmem
      exact hbase.2 c (List.mem_append_left ['$'] hc) hmem
    · rw [toList_uniqueName hi, List.mem_append, List.mem_cons] at hmem
      rcases hmem with hmem | rfl | hmem
      · exact hbase.2 c (List.mem_append_left ['$'] hc) hmem
      · exact absurd hc (by decide)
      · simp only [List.mem_cons, List.not_mem_nil, or_false] at hc
        rcases mem_toString hmem with hdigit | ⟨hsign, -⟩
        · rcases hc with rfl | rfl | rfl <;> exact absurd hdigit (by decide)
        · rcases hc with rfl | rfl | rfl <;> exact absurd hsign (by decide)
  refine ⟨⟨hclean '.' (by decide), hclean '#' (by decide), hclean ':' (by decide)⟩, ?_, ?_, ?_⟩
  · intro hempty
    by_cases hi : index = 0
    · rw [hi, uniqueName, if_pos rfl] at hempty
      exact hbase.1 hempty
    · have htext := congrArg String.toList hempty
      rw [toList_uniqueName hi] at htext
      simp at htext
  · exact uniqueName_ne "toplevel" (c := 't') hdollar (by decide) (by decide) (by decide)
  · exact uniqueName_ne "class_toplevel" (c := 't') hdollar (by decide) (by decide) (by decide)

namespace Children

/-- All definitions have identifiers as names. -/
def Identifiers : Children Definition → Prop
  | .nil => True
  | .cons definition children rest =>
    IsIdentifier definition.name ∧ children.Identifiers ∧ rest.Identifiers

def names : Children QualifiedNode → List String
  | .nil => []
  | .cons value _ rest => value.uniqueName :: rest.names

/-- Siblings have different names, everywhere. -/
def Distinct : Children QualifiedNode → Prop
  | .nil => True
  | .cons value children rest =>
    (value.uniqueName ∉ rest.names ∧ ProperName value.uniqueName) ∧
      children.Distinct ∧ rest.Distinct

end Children

/-- The names that are given later have later indices. -/
theorem mem_names_qualifyChildren {nameIndices : String → Option ℤ} {children : Children Definition}
    (h : children.Identifiers) {name : String}
    (hname : name ∈ (qualifyChildren nameIndices children).names) :
    ∃ base index, name = uniqueName base index ∧ '$' ∉ base.toList ∧
      (nameIndices base).elim 0 (· + 1) ≤ index := by
  induction children generalizing nameIndices with
  | nil => cases hname
  | cons definition children rest _ ih =>
    rcases List.mem_cons.mp hname with rfl | hname
    · exact ⟨definition.baseName, _, rfl, dollar_notMem_baseName h.1, le_rfl⟩
    · obtain ⟨base, index, heq, hdollar, hle⟩ := ih h.2.2 hname
      refine ⟨base, index, heq, hdollar, ?_⟩
      by_cases hbase : base = definition.baseName
      · rw [hbase, Function.update_self] at hle
        rw [hbase]
        simp only [Option.elim_some] at hle
        omega
      · rwa [Function.update_of_ne hbase] at hle

theorem distinct_qualifyChildren {nameIndices : String → Option ℤ}
    {children : Children Definition} (h : children.Identifiers) :
    (qualifyChildren nameIndices children).Distinct := by
  induction children generalizing nameIndices with
  | nil => trivial
  | cons definition children rest ihChildren ihRest =>
    refine ⟨⟨?_, properName_uniqueName h.1 _⟩, ihChildren h.2.1, ihRest h.2.2⟩
    intro hname
    obtain ⟨base, index, heq, hdollar, hle⟩ := mem_names_qualifyChildren h.2.2 hname
    obtain ⟨hbase, hindex⟩ :=
      uniqueName_injective (dollar_notMem_baseName h.1) hdollar heq
    rw [← hbase, Function.update_self, Option.elim_some] at hle
    omega

/-! ## 5. Paths inside a module -/

/-- A definition, its path, and whether its name has the separator. -/
structure Entry where
  path : List String
  separator : Bool
  definition : Definition

/-- What `addDefinitions` names. -/
def entries : (parent : List String) → Children QualifiedNode → List Entry
  | _, .nil => []
  | parent, .cons value children rest =>
    ⟨(value.uniqueName :: parent).reverse, value.nameOverlapsModule, value.definition⟩ ::
      (entries (value.uniqueName :: parent) children ++ entries parent rest)

theorem addDefinitions_map (moduleQualifier : Reference) (parent parentLocalName : List String)
    (children : Children QualifiedNode) :
    (addDefinitions moduleQualifier parent parentLocalName children).map
      (fun d => (d.qualifiedName, d.definition)) =
    (entries parent children).map fun e =>
      (FullyQualifiedName.create moduleQualifier e.path e.separator, e.definition) := by
  induction children generalizing parent parentLocalName with
  | nil => rfl
  | cons value children rest ihChildren ihRest =>
    rw [addDefinitions, entries, List.map_cons, List.map_cons, List.map_append, List.map_append,
      ihChildren, ihRest]

theorem path_of_mem_entries {parent : List String} {children : Children QualifiedNode}
    {entry : Entry} (h : entry ∈ entries parent children) :
    ∃ name ∈ children.names, ∃ rest, entry.path = parent.reverse ++ name :: rest := by
  induction children generalizing parent with
  | nil => cases h
  | cons value children siblings ihChildren ihRest =>
    rcases List.mem_cons.mp h with rfl | h
    · exact ⟨value.uniqueName, List.mem_cons_self, [], List.reverse_cons⟩
    · rcases List.mem_append.mp h with h | h
      · obtain ⟨name, -, rest, hpath⟩ := ihChildren h
        refine ⟨value.uniqueName, List.mem_cons_self, name :: rest, ?_⟩
        rw [hpath, List.reverse_cons, List.append_assoc, List.singleton_append]
      · obtain ⟨name, hname, rest, hpath⟩ := ihRest h
        exact ⟨name, List.mem_cons_of_mem _ hname, rest, hpath⟩

/-- **Where siblings have different names, definitions have different paths.** -/
theorem nodup_paths {parent : List String} {children : Children QualifiedNode}
    (h : children.Distinct) : ((entries parent children).map Entry.path).Nodup := by
  induction children generalizing parent with
  | nil => exact List.nodup_nil
  | cons value children siblings ihChildren ihRest =>
    have hchild : ∀ entry ∈ entries (value.uniqueName :: parent) children,
        ∃ name rest, entry.path = parent.reverse ++ value.uniqueName :: name :: rest := by
      intro entry hentry
      obtain ⟨name, -, rest, hpath⟩ := path_of_mem_entries hentry
      exact ⟨name, rest, by rw [hpath, List.reverse_cons, List.append_assoc, List.singleton_append]⟩
    have hsibling : ∀ entry ∈ entries parent siblings, ∃ name rest, name ≠ value.uniqueName ∧
        entry.path = parent.reverse ++ name :: rest := by
      intro entry hentry
      obtain ⟨name, hname, rest, hpath⟩ := path_of_mem_entries hentry
      exact ⟨name, rest, fun heq => h.1.1 (heq ▸ hname), hpath⟩
    rw [entries, List.map_cons, List.map_append, List.nodup_cons, List.reverse_cons]
    refine ⟨?_, List.Nodup.append (ihChildren h.2.1) (ihRest h.2.2) ?_⟩
    · intro hmem
      rcases List.mem_append.mp hmem with hmem | hmem
      · obtain ⟨entry, hentry, heq⟩ := List.mem_map.mp hmem
        obtain ⟨name, rest, hpath⟩ := hchild entry hentry
        have happend := List.append_cancel_left (hpath.symm.trans heq)
        cases happend
      · obtain ⟨entry, hentry, heq⟩ := List.mem_map.mp hmem
        obtain ⟨name, rest, hne, hpath⟩ := hsibling entry hentry
        have happend := List.append_cancel_left (hpath.symm.trans heq)
        exact hne (List.cons.inj happend).1
    · intro path hpath hpath'
      obtain ⟨entry, hentry, rfl⟩ := List.mem_map.mp hpath
      obtain ⟨entry', hentry', heq⟩ := List.mem_map.mp hpath'
      obtain ⟨name, rest, hchildPath⟩ := hchild entry hentry
      obtain ⟨name', rest', hne, hsiblingPath⟩ := hsibling entry' hentry'
      rw [hchildPath, hsiblingPath] at heq
      exact hne (List.cons.inj (List.append_cancel_left heq)).1

theorem properName_of_mem_entries {parent : List String} {children : Children QualifiedNode}
    (h : children.Distinct) (hparent : ∀ part ∈ parent, ProperName part) {entry : Entry}
    (hentry : entry ∈ entries parent children) : ∀ part ∈ entry.path, ProperName part := by
  induction children generalizing parent with
  | nil => cases hentry
  | cons value children siblings ihChildren ihRest =>
    have hself := List.forall_mem_cons.mpr ⟨h.1.2, hparent⟩
    rcases List.mem_cons.mp hentry with rfl | hentry
    · intro part hpart
      exact hself part (List.mem_reverse.mp hpart)
    · rcases List.mem_append.mp hentry with hentry | hentry
      · exact ihChildren h.2.1 hself hentry
      · exact ihRest h.2.2 hparent hentry

/-! ### Overlaps -/

theorem names_setOverlapFlag (children : Children QualifiedNode) :
    (setOverlapFlag children).names = children.names := by
  induction children with
  | nil => rfl
  | cons value children rest _ ih => rw [setOverlapFlag, Children.names, Children.names, ih]

theorem distinct_setOverlapFlag {children : Children QualifiedNode} (h : children.Distinct) :
    (setOverlapFlag children).Distinct := by
  induction children with
  | nil => trivial
  | cons value children rest ihChildren ihRest =>
    rw [setOverlapFlag]
    refine ⟨⟨?_, h.1.2⟩, ihChildren h.2.1, ihRest h.2.2⟩
    rw [names_setOverlapFlag]
    exact h.1.1

theorem separator_of_mem_setOverlapFlag {parent : List String} {children : Children QualifiedNode}
    {entry : Entry} (h : entry ∈ entries parent (setOverlapFlag children)) :
    entry.separator = true := by
  induction children generalizing parent with
  | nil => cases h
  | cons value children rest ihChildren ihRest =>
    rw [setOverlapFlag] at h
    rcases List.mem_cons.mp h with rfl | h
    · rfl
    · rcases List.mem_append.mp h with h | h
      · exact ihChildren h
      · exact ihRest h

section Overlaps

variable {moduleQualifier : Reference} {moduleExists : Reference → Bool}

theorem names_checkChildren (parent : List String) (children : Children QualifiedNode) :
    (checkChildren moduleQualifier moduleExists parent children).names = children.names := by
  induction children generalizing parent with
  | nil => rfl
  | cons value children rest _ ih =>
    rw [checkChildren]
    split_ifs <;> rw [Children.names, Children.names, ih]

theorem distinct_checkChildren {parent : List String} {children : Children QualifiedNode}
    (h : children.Distinct) :
    (checkChildren moduleQualifier moduleExists parent children).Distinct := by
  induction children generalizing parent with
  | nil => trivial
  | cons value children rest ihChildren ihRest =>
    have hname : value.uniqueName ∉
        (checkChildren moduleQualifier moduleExists parent rest).names := by
      rw [names_checkChildren]
      exact h.1.1
    rw [checkChildren]
    split_ifs
    · exact ⟨⟨hname, h.1.2⟩, distinct_setOverlapFlag h.2.1, ihRest h.2.2⟩
    · exact ⟨⟨hname, h.1.2⟩, ihChildren h.2.1, ihRest h.2.2⟩

theorem create_of_clean {path : List String} (hclean : ∀ part ∈ path, CleanPart part)
    (hqualifier : moduleQualifier ≠ [""]) :
    FullyQualifiedName.create moduleQualifier path false = moduleQualifier ++ path ∧
      FullyQualifiedName.create moduleQualifier path true =
        ModuleQualifiers.Reference.create
          (showReference moduleQualifier ++ "#" ++ showReference path) := by
  have hany : (path.any fun s => s.toList.contains '#' || s.toList.contains ':') = false := by
    rw [List.any_eq_false]
    intro part hpart
    simpa using (hclean part hpart).2
  constructor
  · rw [FullyQualifiedName.create, hany, if_neg Bool.false_ne_true, Bool.not_false, if_pos rfl,
      FullyQualifiedName.combine, if_neg hqualifier]
  · rw [FullyQualifiedName.create, hany, if_neg Bool.false_ne_true, Bool.not_true,
      if_neg Bool.false_ne_true]

/-- Without a separator, neither the definition nor one around it has the name of a module. -/
theorem overlap_of_mem_entries (hqualifier : moduleQualifier ≠ [""]) {parent : List String}
    {children : Children QualifiedNode} (h : children.Distinct)
    (hparent : ∀ part ∈ parent, ProperName part)
    (hexists : ∀ k, 0 < k → k ≤ parent.length →
      moduleExists (moduleQualifier ++ parent.reverse.take k) = false) {entry : Entry}
    (hentry : entry ∈ entries parent (checkChildren moduleQualifier moduleExists parent children))
    (hseparator : entry.separator = false) :
    ∀ k, 0 < k → k ≤ entry.path.length →
      moduleExists (moduleQualifier ++ entry.path.take k) = false := by
  induction children generalizing parent with
  | nil => cases hentry
  | cons value children siblings ihChildren ihRest =>
    have hself := List.forall_mem_cons.mpr ⟨h.1.2, hparent⟩
    have hclean : ∀ part ∈ (value.uniqueName :: parent).reverse, CleanPart part :=
      fun part hpart => (hself part (List.mem_reverse.mp hpart)).clean
    have hname := (create_of_clean hclean hqualifier).1
    rw [checkChildren, hname] at hentry
    split_ifs at hentry with hoverlap
    · rcases List.mem_cons.mp hentry with rfl | hentry
      · cases hseparator
      · rcases List.mem_append.mp hentry with hentry | hentry
        · rw [separator_of_mem_setOverlapFlag hentry] at hseparator
          cases hseparator
        · exact ihRest h.2.2 hparent hexists hentry
    · have hexists' : ∀ k, 0 < k → k ≤ (value.uniqueName :: parent).length →
          moduleExists (moduleQualifier ++ (value.uniqueName :: parent).reverse.take k) =
            false := by
        intro k hpos hle
        rcases Nat.lt_or_ge parent.length k with hlt | hge
        · rw [List.take_of_length_le (by rw [List.length_reverse, List.length_cons]; omega)]
          exact Bool.eq_false_iff.mpr hoverlap
        · rw [List.reverse_cons, List.take_append_of_le_length (by simpa using hge)]
          exact hexists k hpos hge
      rcases List.mem_cons.mp hentry with rfl | hentry
      · intro k hpos hle
        exact hexists' k hpos (by simpa using hle)
      · rcases List.mem_append.mp hentry with hentry | hentry
        · exact ihChildren h.2.1 hself hexists' hentry
        · exact ihRest h.2.2 hparent hexists hentry

end Overlaps

/-! ## 6. All names of a project -/

/-- The paths of the definitions that come from one entry: its own, and its toplevel define. -/
def toplevelPaths (entry : Entry) : List (List String × Bool) :=
  if entry.definition.hasToplevel then
    [(entry.path, entry.separator), (entry.path ++ ["$class_toplevel"], entry.separator)]
  else [(entry.path, entry.separator)]

/-- The paths of all definitions of a module. -/
def modulePaths (all : List Entry) : List (List String × Bool) :=
  (["$toplevel"], false) :: all.flatMap toplevelPaths

theorem mem_toplevelPaths {entry : Entry} {path : List String × Bool}
    (h : path ∈ toplevelPaths entry) :
    path = (entry.path, entry.separator) ∨
      path = (entry.path ++ ["$class_toplevel"], entry.separator) := by
  rw [toplevelPaths] at h
  split_ifs at h
  · simpa using h
  · exact Or.inl (List.mem_singleton.mp h)

/-- What is known of the entries of a module. -/
structure GoodEntries (moduleQualifier : Reference) (moduleExists : Reference → Bool)
    (all : List Entry) : Prop where
  nodup : (all.map Entry.path).Nodup
  nonempty : ∀ entry ∈ all, entry.path ≠ []
  proper : ∀ entry ∈ all, ∀ part ∈ entry.path, ProperName part
  overlap : ∀ entry ∈ all, entry.separator = false → ∀ k, 0 < k → k ≤ entry.path.length →
    moduleExists (moduleQualifier ++ entry.path.take k) = false

theorem goodEntries {moduleQualifier : Reference} {moduleExists : Reference → Bool}
    (hqualifier : moduleQualifier ≠ [""]) {children : Children Definition}
    (h : children.Identifiers) :
    GoodEntries moduleQualifier moduleExists (entries []
      (checkModuleOverlaps moduleQualifier moduleExists (createQualifiedNames children))) := by
  have hdistinct : (createQualifiedNames children).Distinct := distinct_qualifyChildren h
  have hchecked : (checkModuleOverlaps moduleQualifier moduleExists
      (createQualifiedNames children)).Distinct := distinct_checkChildren hdistinct
  have hnone : ∀ part ∈ ([] : List String), ProperName part := fun _ hpart => by cases hpart
  refine ⟨nodup_paths hchecked, fun entry hentry => ?_, fun entry hentry =>
    properName_of_mem_entries hchecked hnone hentry, fun entry hentry =>
    overlap_of_mem_entries hqualifier hdistinct hnone (fun k hpos hle => ?_) hentry⟩
  · obtain ⟨name, -, rest, hpath⟩ := path_of_mem_entries hentry
    rw [hpath]
    simp
  · exact absurd hle (by rw [List.length_nil]; omega)

namespace GoodEntries

variable {moduleQualifier : Reference} {moduleExists : Reference → Bool} {all : List Entry}

theorem good (h : GoodEntries moduleQualifier moduleExists all) {path : List String × Bool}
    (hpath : path ∈ modulePaths all) : Good moduleExists moduleQualifier path.1 path.2 := by
  have htoplevel : CleanPart "$toplevel" ∧ CleanPart "$class_toplevel" := by
    unfold CleanPart
    decide
  rcases List.mem_cons.mp hpath with rfl | hpath
  · refine ⟨List.cons_ne_nil _ _, fun part hpart => ?_, fun _ k hpos hlt => ?_⟩
    · rw [List.mem_singleton.mp hpart]
      exact htoplevel.1
    · exact absurd hlt (by rw [List.length_singleton]; omega)
  · obtain ⟨entry, hentry, hpath⟩ := List.mem_flatMap.mp hpath
    have hclean : ∀ part ∈ entry.path, CleanPart part :=
      fun part hpart => (h.proper entry hentry part hpart).clean
    rcases mem_toplevelPaths hpath with rfl | rfl
    · exact ⟨h.nonempty entry hentry, hclean,
        fun hseparator k hpos hlt => h.overlap entry hentry hseparator k hpos hlt.le⟩
    · refine ⟨by simp, fun part hpart => ?_, fun hseparator k hpos hlt => ?_⟩
      · rcases List.mem_append.mp hpart with hpart | hpart
        · exact hclean part hpart
        · rw [List.mem_singleton.mp hpart]
          exact htoplevel.2
      · have hle : k ≤ entry.path.length := by
          simp only [List.length_append, List.length_singleton] at hlt
          omega
        rw [List.take_append_of_le_length hle]
        exact h.overlap entry hentry hseparator k hpos hle

theorem nodup_modulePaths (h : GoodEntries moduleQualifier moduleExists all) :
    ((modulePaths all).map Prod.fst).Nodup := by
  have hlast : ∀ entry ∈ all, ∀ path : List String, entry.path ≠ path ++ ["$class_toplevel"] := by
    intro entry hentry path heq
    exact (h.proper entry hentry "$class_toplevel" (heq ▸ by simp)).classToplevel rfl
  rw [modulePaths, List.map_cons, List.nodup_cons, List.map_flatMap, List.nodup_flatMap]
  refine ⟨fun hmem => ?_, fun entry hentry => ?_, ?_⟩
  · obtain ⟨entry, hentry, hmem⟩ := List.mem_flatMap.mp hmem
    obtain ⟨path, hpath, heq⟩ := List.mem_map.mp hmem
    rcases mem_toplevelPaths hpath with rfl | rfl
    · have hself : entry.path = ["$toplevel"] := heq
      have hmem : "$toplevel" ∈ entry.path := by
        rw [hself]
        exact List.mem_singleton_self _
      exact (h.proper entry hentry _ hmem).toplevel rfl
    · have hlength := congrArg List.length (heq : entry.path ++ ["$class_toplevel"] = ["$toplevel"])
      exact h.nonempty entry hentry (List.length_eq_zero_iff.mp (by simpa using hlength))
  · rw [toplevelPaths]
    split_ifs
    · simp
    · exact List.nodup_singleton _
  · refine (List.pairwise_map.mp h.nodup).imp_of_mem ?_
    intro entry entry' hentry hentry' hne path hpath hpath'
    obtain ⟨p, hp, rfl⟩ := List.mem_map.mp hpath
    obtain ⟨p', hp', heq⟩ := List.mem_map.mp hpath'
    rcases mem_toplevelPaths hp with rfl | rfl <;> rcases mem_toplevelPaths hp' with rfl | rfl
    · exact hne (heq : entry'.path = entry.path).symm
    · exact hlast entry hentry _ (heq : entry'.path ++ _ = entry.path).symm
    · exact hlast entry' hentry' _ (heq : entry'.path = entry.path ++ _)
    · exact hne (List.append_cancel_right (heq : entry'.path ++ _ = entry.path ++ _)).symm

end GoodEntries

theorem showReference_create_path {moduleQualifier : Reference} {path : List String}
    (hclean : ∀ part ∈ path, CleanPart part) (hqualifier : moduleQualifier ≠ [""])
    (separator : Bool) :
    showReference (FullyQualifiedName.create moduleQualifier path separator) =
      qualifiedText moduleQualifier path separator := by
  obtain ⟨hplain, hseparated⟩ := create_of_clean hclean hqualifier
  cases separator with
  | false =>
    rw [hplain]
    rfl
  | true =>
    rw [hseparated]
    exact showReference_create (c := '#') (by simp) (by decide)

theorem showReference_createClassToplevel {moduleQualifier : Reference} {path : List String}
    (hproper : ∀ part ∈ path, ProperName part) (hpath : path ≠ [])
    (hqualifier : moduleQualifier ≠ [""]) (separator : Bool) :
    showReference (FullyQualifiedName.createClassToplevel
        (FullyQualifiedName.create moduleQualifier path separator)) =
      qualifiedText moduleQualifier (path ++ ["$class_toplevel"]) separator := by
  have hclean : ∀ part ∈ path, CleanPart part := fun part hpart => (hproper part hpart).clean
  cases separator with
  | false =>
    have hne : moduleQualifier ++ path ≠ [""] := by
      intro heq
      rcases List.append_eq_singleton_iff.mp heq with ⟨-, rfl⟩ | ⟨-, rfl⟩
      · exact (hproper "" (List.mem_singleton_self _)).nonempty rfl
      · exact hpath rfl
    rw [(create_of_clean hclean hqualifier).1, FullyQualifiedName.createClassToplevel,
      FullyQualifiedName.combine, if_neg hne, qualifiedText, if_neg Bool.false_ne_true,
      List.append_assoc]
  | true =>
    have hshow := showReference_create_path hclean hqualifier true
    generalize FullyQualifiedName.create moduleQualifier path true = name at hshow ⊢
    have hne : ∀ reference : Reference, showReference reference = "" → name ≠ reference := by
      rintro reference hempty rfl
      have hhash : '#' ∈ (showReference name).toList := by
        rw [hshow]
        simp [qualifiedText]
      rw [hempty] at hhash
      simp at hhash
    rw [FullyQualifiedName.createClassToplevel, FullyQualifiedName.combine, if_neg (hne [""] rfl),
      String.ext_iff, showReference_append (hne [] rfl) (List.cons_ne_nil _ _), hshow, qualifiedText,
      qualifiedText, if_pos rfl, if_pos rfl]
    simp only [String.toList_append, showReference_append hpath (List.cons_ne_nil _ _),
      List.append_assoc]

/-- The texts of the names that come from one definition. -/
def toplevelTexts (named : Reference × Definition) : List String :=
  if named.2.hasToplevel then
    [showReference named.1, showReference (FullyQualifiedName.createClassToplevel named.1)]
  else [showReference named.1]

/-- The names of a module are those of its paths. -/
theorem map_moduleDefinitions {moduleQualifier : Reference} {moduleExists : Reference → Bool}
    (hqualifier : moduleQualifier ≠ [""]) {children : Children Definition}
    (h : children.Identifiers) :
    (moduleDefinitions moduleQualifier moduleExists children).map
        (fun d => showReference d.qualifiedName) =
      (modulePaths (entries [] (checkModuleOverlaps moduleQualifier moduleExists
        (createQualifiedNames children)))).map
          fun path => qualifiedText moduleQualifier path.1 path.2 := by
  have hgood : GoodEntries moduleQualifier moduleExists _ := goodEntries hqualifier h
  have htoplevel : ∀ part ∈ ["$toplevel"], CleanPart part := by
    unfold CleanPart
    decide
  have hdefinition : ∀ d : QualifiedDefinition,
      (addToplevel d).map (fun d => showReference d.qualifiedName) =
        toplevelTexts (d.qualifiedName, d.definition) := by
    intro d
    rw [addToplevel, toplevelTexts]
    split_ifs <;> rfl
  rw [moduleDefinitions, addToplevelDefines, modulePaths, List.map_cons, List.map_cons,
    List.map_flatMap, List.map_flatMap]
  refine congrArg₂ List.cons (showReference_create_path htoplevel hqualifier false) ?_
  calc (collectDefinitions moduleQualifier _).flatMap
        (fun d => (addToplevel d).map fun d => showReference d.qualifiedName)
      = ((collectDefinitions moduleQualifier (checkModuleOverlaps moduleQualifier moduleExists
          (createQualifiedNames children))).map
            fun d => (d.qualifiedName, d.definition)).flatMap toplevelTexts := by
        rw [List.flatMap_map]
        exact List.flatMap_congr fun d _ => hdefinition d
    _ = _ := by
        rw [collectDefinitions, addDefinitions_map, List.flatMap_map]
        refine List.flatMap_congr fun entry hentry => ?_
        have hproper := hgood.proper entry hentry
        have hshow := showReference_create_path
          (fun part hpart => (hproper part hpart).clean) hqualifier entry.separator
        have hshow' := showReference_createClassToplevel hproper (hgood.nonempty entry hentry)
          hqualifier entry.separator
        rw [toplevelTexts, toplevelPaths]
        split_ifs
        · rw [hshow, hshow']
          rfl
        · rw [hshow]
          rfl

/-- The parts of a text do not have the separator. -/
theorem notMem_split {separator : Char} {text part : String} (h : part ∈ split separator text) :
    separator ∉ part.toList := by
  have hparts : ∀ {xs l : List Char}, l ∈ xs.splitOnP (· == separator) → separator ∉ l := by
    intro xs
    induction xs with
    | nil =>
      intro l hl
      rw [List.mem_singleton.mp hl]
      exact List.not_mem_nil
    | cons x xs ih =>
      intro l hl
      rw [List.splitOnP_cons_eq_if_modifyHead] at hl
      split_ifs at hl with hx
      · rcases List.mem_cons.mp hl with rfl | hl
        · exact List.not_mem_nil
        · exact ih hl
      · cases hsplit : xs.splitOnP (· == separator) with
        | nil =>
          rw [hsplit] at hl
          cases hl
        | cons first rest =>
          rw [hsplit, List.modifyHead_cons] at hl
          rcases List.mem_cons.mp hl with rfl | hl
          · have hfirst := ih (hsplit ▸ List.mem_cons_self : first ∈ _)
            rw [List.mem_cons, not_or]
            exact ⟨fun heq => hx (beq_iff_eq.mpr heq.symm), hfirst⟩
          · exact ih (hsplit ▸ List.mem_cons_of_mem _ hl)
  obtain ⟨l, hl, rfl⟩ := List.mem_map.mp h
  rw [String.toList_ofList]
  exact hparts hl

/-- The name of a module: parts without dots, that is not the empty text. -/
structure ModuleName (name : Reference) : Prop where
  noDot : ∀ part ∈ name, '.' ∉ part.toList
  ne : name ≠ [""]

/-- The qualifiers of modules are as the names of definitions need them. -/
theorem validQualifier_create {name : Reference} (hname : ModuleName name)
    (path : Option String) : ValidQualifier (ModuleQualifiers.create path name) := by
  have hhash : '#' ∉
      (showReference (name.map ModuleQualifiers.escapeSpecialCharacters)).toList := by
    refine notMem_showReference (by decide) fun part hpart hmem => ?_
    obtain ⟨s, -, rfl⟩ := List.mem_map.mp hpart
    exact absurd (ModuleQualifiers.mem_escape hmem).1 (by decide)
  cases path with
  | none =>
    rw [ModuleQualifiers.create_none]
    refine ⟨fun part hpart hmem => ?_, fun heq => hname.ne ?_, fun before after hshow => ?_⟩
    · obtain ⟨s, hs, rfl⟩ := List.mem_map.mp hpart
      rcases (ModuleQualifiers.mem_escape hmem).2 with hmem | hmem
      · exact hname.noDot s hs hmem
      · exact absurd hmem (by decide)
    · obtain ⟨s, rfl, hs⟩ := List.map_eq_singleton_iff.mp heq
      have htext := congrArg String.toList hs
      rw [ModuleQualifiers.toList_escape] at htext
      cases hchars : s.toList with
      | nil => rw [String.toList_inj.mp (hchars.trans (by simp) : s.toList = "".toList)]
      | cons c rest =>
        rw [hchars, List.flatMap_cons, ModuleQualifiers.escapeOf] at htext
        unfold ModuleQualifiers.code at htext
        split_ifs at htext <;> simp at htext
    · exact absurd (hshow ▸ by simp) hhash
  | some path =>
    have hshow := ModuleQualifiers.showReference_create_some path name
    have hcolon : ':' ∈ (path ++ ":" ++
        showReference (name.map ModuleQualifiers.escapeSpecialCharacters)).toList := by
      simp
    refine ⟨fun part hpart => ?_, fun heq => ?_, fun before after htext => ?_⟩
    · have hempty : path ++ ":" ++
          showReference (name.map ModuleQualifiers.escapeSpecialCharacters) ≠ "" := by
        intro h
        rw [h] at hcolon
        simp at hcolon
      have hdots : path ++ ":" ++
          showReference (name.map ModuleQualifiers.escapeSpecialCharacters) ≠ "..." := by
        intro h
        rw [h] at hcolon
        simp at hcolon
      rw [ModuleQualifiers.create_some, ModuleQualifiers.Reference.create, if_neg hempty,
        if_neg hdots] at hpart
      exact notMem_split hpart
    · rw [heq] at hshow
      rw [← hshow] at hcolon
      simp [showReference] at hcolon
    · rw [hshow, String.toList_append, String.toList_append, List.append_assoc] at htext
      change path.toList ++ ':' :: _ = _ at htext
      rw [List.append_eq_append_iff] at htext
      rcases htext with ⟨a, -, hrest⟩ | ⟨a, -, hrest⟩
      · have hmem : '#' ∈ ':' :: (showReference
            (name.map ModuleQualifiers.escapeSpecialCharacters)).toList := hrest ▸ by simp
        rcases List.mem_cons.mp hmem with hc | hmem
        · exact absurd hc (by decide)
        · exact absurd hmem hhash
      · cases a with
        | nil => cases hrest
        | cons c a =>
          obtain ⟨-, htail⟩ := List.cons.inj hrest
          rw [htail]
          simp

/-- **No two definitions of a project have the same name**: classes, functions, and the toplevel
    defines of modules and classes. -/
theorem qualifiedNames_unique {qualifiers : List Reference}
    {modules : List (Reference × Children Definition)}
    (hcreate : ∀ q ∈ qualifiers, ∃ path name,
      ModuleName name ∧ q = ModuleQualifiers.create path name)
    (hnodup : (modules.map Prod.fst).Nodup)
    (hmodules : ∀ entry ∈ modules, entry.1 ∈ qualifiers ∧ entry.2.Identifiers) :
    ((projectDefinitions qualifiers modules).map QualifiedDefinition.qualifiedName).Nodup := by
  have hvalid : ∀ q ∈ qualifiers, ValidQualifier q := by
    intro q hq
    obtain ⟨path, name, hname, rfl⟩ := hcreate q hq
    exact validQualifier_create hname path
  have hpaths : ∀ entry ∈ modules, GoodEntries entry.1 (qualifiers.contains ·) (entries []
      (checkModuleOverlaps entry.1 (qualifiers.contains ·) (createQualifiedNames entry.2))) :=
    fun entry hentry =>
      goodEntries (hvalid _ (hmodules entry hentry).1).ne (hmodules entry hentry).2
  have htexts : ∀ entry ∈ modules, (moduleDefinitions entry.1 (qualifiers.contains ·) entry.2).map
      (fun d => showReference d.qualifiedName) = _ := fun entry hentry =>
    map_moduleDefinitions (hvalid _ (hmodules entry hentry).1).ne (hmodules entry hentry).2
  refine List.Nodup.of_map showReference ?_
  rw [projectDefinitions, List.map_map, List.map_flatMap, List.nodup_flatMap]
  constructor
  · intro entry hentry
    have hgood := hpaths entry hentry
    change ((moduleDefinitions entry.1 _ entry.2).map
      fun d => showReference d.qualifiedName).Nodup
    rw [htexts entry hentry]
    refine (List.Nodup.of_map _ hgood.nodup_modulePaths).map_on fun path hpath path' hpath' heq => ?_
    have hq := (hmodules entry hentry).1
    exact List.inj_on_of_nodup_map hgood.nodup_modulePaths hpath hpath'
      (qualifiedText_injective hvalid hq hq (hgood.good hpath) (hgood.good hpath') heq).2
  · refine (List.pairwise_map.mp hnodup).imp_of_mem ?_
    intro entry entry' hentry hentry' hne text htext htext'
    change text ∈ (moduleDefinitions entry.1 _ entry.2).map
      fun d => showReference d.qualifiedName at htext
    change text ∈ (moduleDefinitions entry'.1 _ entry'.2).map
      fun d => showReference d.qualifiedName at htext'
    rw [htexts entry hentry] at htext
    rw [htexts entry' hentry'] at htext'
    obtain ⟨path, hpath, rfl⟩ := List.mem_map.mp htext
    obtain ⟨path', hpath', heq⟩ := List.mem_map.mp htext'
    exact hne (qualifiedText_injective hvalid (hmodules entry hentry).1 (hmodules entry' hentry').1
      ((hpaths entry hentry).good hpath) ((hpaths entry' hentry').good hpath') heq.symm).1

/-- A class of one module has the name of another module, and a function of each is called `c`. -/
theorem qualifiedNames_unique_overlap :
    let nested : Children Definition :=
      .cons (.classDefinition "b" false) (.cons (.function "c" false) .nil .nil) .nil
    let plain : Children Definition := .cons (.function "c" false) .nil .nil
    ((projectDefinitions [["a"], ["a", "b"]] [(["a"], nested), (["a", "b"], plain)]).map
      QualifiedDefinition.qualifiedName).Nodup := by
  intro nested plain
  have hb : IsIdentifier "b" :=
    isIdentifier_of_notMem (by decide) (by decide) (by decide) (by decide) (by decide)
  have hc : IsIdentifier "c" :=
    isIdentifier_of_notMem (by decide) (by decide) (by decide) (by decide) (by decide)
  refine qualifiedNames_unique (fun q hq => ⟨none, q, ?_⟩) (by decide) fun entry hentry => ?_
  · rcases List.mem_pair.mp hq with rfl | rfl <;>
      exact ⟨⟨by decide, by decide⟩, by decide +kernel⟩
  · rcases List.mem_pair.mp hentry with rfl | rfl
    · exact ⟨by decide, hb, ⟨hc, trivial, trivial⟩, trivial⟩
    · exact ⟨by decide, hc, trivial, trivial⟩

end QualifiedNames

end Pysa
