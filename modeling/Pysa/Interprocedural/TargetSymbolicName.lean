/-
  Subject: THE NAME OF A DEFINITION, AS A USER WRITES IT (`pyreflyApi.ml`, `target_symbolic_name`).

  * `targetSymbolicName` -- the qualified name without the path of the module, the separator of a
    definition that has the name of a module, and the suffixes of setters and of repeated names;
  * `targetSymbolicName_of_text` -- it starts with the bare name of the module;
  * `symbolName_uniqueName` -- a part is read back;
  * `targetSymbolicName_definition` -- **the symbolic name of a definition is the name of its module
    and its local name**.
-/
import Pysa.Interprocedural.QualifiedNames

namespace Pysa

open Pysa.Text

namespace QualifiedNames

open Pysa.ModuleQualifiers (Reference showReference showReference_create bareModuleName
  bareModuleName_eq unescapeSpecialCharacters noDot_escape)

/-! ## 1. Symbolic names -/

def stripPathPrefix (name : String) : String :=
  if name.toList.contains ':' then afterLast ':' name else name

/-- A `$` at the start is kept. -/
def stripSuffix (name : String) : String :=
  let name :=
    if ((name.toList.idxOf? '$').map Int.ofNat).getD (-1) ≥ 1 then beforeLast '$' name else name
  if name.toList.contains '@' then beforeLast '@' name else name

def replaceHash (name : String) : String := substrReplaceAll "#" "." name

def targetSymbolicName (reference : Reference) : Reference :=
  let reference :=
    if reference.any fun s => s.toList.contains ':' then
      split '.' (stripPathPrefix (showReference reference))
    else reference
  let reference :=
    if reference.any fun s => s.toList.contains '#' then
      split '.' (replaceHash (showReference reference))
    else reference
  (reference.map stripSuffix).map unescapeSpecialCharacters

/-- What becomes of one part. -/
def symbolName (part : String) : String := unescapeSpecialCharacters (stripSuffix part)

theorem stripPathPrefix_of_notMem {name : String} (h : ':' ∉ name.toList) :
    stripPathPrefix name = name := by
  rw [stripPathPrefix, if_neg]
  simpa using h

theorem toList_replaceHash (name : String) :
    (replaceHash name).toList = name.toList.flatMap fun c => if c = '#' then ['.'] else [c] := by
  rw [replaceHash, substrReplaceAll, String.toList_ofList]
  exact replaceFrom_singleton '#' ['.'] name.toList

theorem flatMap_hash {text : List Char} (h : '#' ∉ text) :
    (text.flatMap fun c => if c = '#' then ['.'] else [c]) = text := by
  have hsingle : (text.flatMap fun c => if c = '#' then ['.'] else [c]) =
      text.flatMap fun c => [c] :=
    List.flatMap_congr fun c hc => if_neg fun (heq : c = '#') => h (heq ▸ hc)
  rw [hsingle, List.flatMap_singleton']

theorem replaceHash_of_notMem {name : String} (h : '#' ∉ name.toList) : replaceHash name = name := by
  rw [String.ext_iff, toList_replaceHash, flatMap_hash h]

theorem mem_showReference {reference : Reference} {part : String} {c : Char}
    (hpart : part ∈ reference) (hc : c ∈ part.toList) : c ∈ (showReference reference).toList := by
  induction reference with
  | nil => cases hpart
  | cons first rest ih =>
    cases rest with
    | nil =>
      rw [List.mem_singleton.mp hpart] at hc
      rw [showReference, String.intercalate_singleton]
      exact hc
    | cons second rest =>
      rw [showReference, String.intercalate_cons_cons, String.toList_append, String.toList_append]
      rcases List.mem_cons.mp hpart with rfl | hpart
      · exact List.mem_append_left _ (List.mem_append_left _ hc)
      · exact List.mem_append_right _ (ih hpart)

/-- A character but the dot is in the text of a reference if it is in a part. -/
theorem any_contains_iff {reference : Reference} {c : Char} (hc : c ≠ '.') :
    (reference.any fun s => s.toList.contains c) = true ↔ c ∈ (showReference reference).toList := by
  constructor
  · intro h
    obtain ⟨part, hpart, hmem⟩ := List.any_eq_true.mp h
    exact mem_showReference hpart (by simpa using hmem)
  · intro h
    rcases mem_intercalate h with hdot | ⟨part, hpart, hmem⟩
    · simp at hdot
      exact absurd hdot hc
    · exact List.any_eq_true.mpr ⟨part, hpart, by simpa using hmem⟩

/-- Of a reference without dots in its parts, only the text counts. -/
theorem targetSymbolicName_of_noDot {reference : Reference} (hne : reference ≠ [])
    (hdot : ∀ part ∈ reference, '.' ∉ part.toList) :
    targetSymbolicName reference =
      (split '.' (replaceHash (stripPathPrefix (showReference reference)))).map symbolName := by
  have hfirst : (if reference.any fun s => s.toList.contains ':' then
        split '.' (stripPathPrefix (showReference reference)) else reference) =
      split '.' (stripPathPrefix (showReference reference)) := by
    split_ifs with hcolon
    · rfl
    · rw [any_contains_iff (by decide)] at hcolon
      rw [stripPathPrefix_of_notMem hcolon]
      exact (split_intercalate hne hdot).symm
  have hshow : ∀ text : String, showReference (split '.' text) = text := intercalate_split '.'
  rw [targetSymbolicName, hfirst, hshow, List.map_map]
  split_ifs with hhash
  · rfl
  · rw [any_contains_iff (by decide), hshow] at hhash
    rw [replaceHash_of_notMem hhash]
    rfl

/-! ## 2. The text of a name -/

/-- What separates a module from the path inside it. -/
def separatorText (separator : Bool) : String := if separator then "#" else "."

theorem qualifiedText_eq {qualifier : Reference} {path : List String} (hqualifier : qualifier ≠ [])
    (hpath : path ≠ []) (separator : Bool) :
    qualifiedText qualifier path separator =
      showReference qualifier ++ separatorText separator ++ showReference path := by
  cases separator with
  | true => rfl
  | false =>
    rw [qualifiedText, if_neg Bool.false_ne_true, String.ext_iff,
      showReference_append hqualifier hpath, String.toList_append, String.toList_append,
      List.append_assoc]
    rfl

theorem create_ne_nil {name : Reference} (hname : name ≠ []) (path : Option String) :
    ModuleQualifiers.create path name ≠ [] := by
  cases path with
  | none =>
    rw [ModuleQualifiers.create_none]
    simpa using hname
  | some path =>
    intro heq
    have hshow := ModuleQualifiers.showReference_create_some path name
    rw [heq] at hshow
    have hcolon : ':' ∈ (showReference []).toList := by
      rw [hshow]
      simp
    simp [showReference] at hcolon

/-- Without the path, and with a dot for the separator. -/
theorem normalText {name : Reference} {path : List String} (hname : name ≠ []) (hpath : path ≠ [])
    (hclean : ∀ part ∈ path, CleanPart part) (pathPrefix : Option String) (separator : Bool) :
    replaceHash (stripPathPrefix
        (qualifiedText (ModuleQualifiers.create pathPrefix name) path separator)) =
      showReference (name.map ModuleQualifiers.escapeSpecialCharacters ++ path) := by
  have hspecial : ∀ c, ModuleQualifiers.isSpecial c = true → c ≠ '.' →
      c ∉ (showReference (name.map ModuleQualifiers.escapeSpecialCharacters)).toList := by
    intro c hc hdot
    refine notMem_showReference hdot fun part hpart hmem => ?_
    obtain ⟨s, -, rfl⟩ := List.mem_map.mp hpart
    rw [(ModuleQualifiers.mem_escape hmem).1] at hc
    cases hc
  have hescaped : name.map ModuleQualifiers.escapeSpecialCharacters ≠ [] := by simpa using hname
  rw [qualifiedText_eq (create_ne_nil hname pathPrefix) hpath]
  generalize hname' : name.map ModuleQualifiers.escapeSpecialCharacters = escaped at hspecial hescaped
  have hbody : ':' ∉ (showReference escaped ++ separatorText separator ++
      showReference path).toList := by
    rw [String.toList_append, String.toList_append, List.mem_append, List.mem_append]
    rintro ((hmem | hmem) | hmem)
    · exact hspecial ':' rfl (by decide) hmem
    · cases separator <;> exact absurd hmem (by decide)
    · exact colon_notMem_path hclean hmem
  have hstrip : stripPathPrefix (showReference (ModuleQualifiers.create pathPrefix name) ++
        separatorText separator ++ showReference path) =
      showReference escaped ++ separatorText separator ++ showReference path := by
    cases pathPrefix with
    | none =>
      rw [ModuleQualifiers.create_none, hname']
      exact stripPathPrefix_of_notMem hbody
    | some pathPrefix =>
      have hassoc : pathPrefix ++ ":" ++ showReference escaped ++ separatorText separator ++
            showReference path =
          pathPrefix ++ String.singleton ':' ++
            (showReference escaped ++ separatorText separator ++ showReference path) := by
        rw [String.ext_iff]
        simp only [String.toList_append, List.append_assoc]
        rfl
      rw [ModuleQualifiers.showReference_create_some, hname', hassoc, stripPathPrefix, if_pos,
        afterLast_append hbody]
      simp
  rw [hstrip, String.ext_iff, toList_replaceHash, showReference_append hescaped hpath,
    String.toList_append, String.toList_append, List.flatMap_append, List.flatMap_append,
    flatMap_hash (hspecial '#' rfl (by decide)), flatMap_hash (hash_notMem_path hclean),
    List.append_assoc]
  cases separator <;> rfl

/-- Escapes have none of the characters that start a suffix. -/
theorem stripSuffix_of_notMem {name : String} (hdollar : '$' ∉ name.toList)
    (hat : '@' ∉ name.toList) : stripSuffix name = name := by
  have hindex : name.toList.idxOf? '$' = none := List.idxOf?_eq_none_iff.mpr hdollar
  rw [stripSuffix, hindex]
  simp [hat]

theorem symbolName_escape (s : String) :
    symbolName (ModuleQualifiers.escapeSpecialCharacters s) =
      unescapeSpecialCharacters (ModuleQualifiers.escapeSpecialCharacters s) := by
  have hnot : ∀ c, ModuleQualifiers.isSpecial c = true →
      c ∉ (ModuleQualifiers.escapeSpecialCharacters s).toList := by
    intro c hc hmem
    rw [(ModuleQualifiers.mem_escape hmem).1] at hc
    cases hc
  rw [symbolName, stripSuffix_of_notMem (hnot '$' rfl) (hnot '@' rfl)]

/-- **A symbolic name starts with the bare name of the module**, and goes on with what becomes of
    the path. -/
theorem targetSymbolicName_of_text {name : Reference} {path : List String} (hname : name ≠ [])
    (hnoDot : ∀ part ∈ name, '.' ∉ part.toList) (hpath : path ≠ [])
    (hclean : ∀ part ∈ path, CleanPart part) {pathPrefix : Option String} {separator : Bool}
    {reference : Reference} (hdot : ∀ part ∈ reference, '.' ∉ part.toList)
    (htext : showReference reference =
      qualifiedText (ModuleQualifiers.create pathPrefix name) path separator) :
    targetSymbolicName reference =
      bareModuleName (ModuleQualifiers.create pathPrefix name) ++ path.map symbolName := by
  have hne : reference ≠ [] := by
    rintro rfl
    have hempty := congrArg String.toList htext
    rw [qualifiedText_eq (create_ne_nil hname pathPrefix) hpath, String.toList_append,
      String.toList_append] at hempty
    cases separator <;> simp [showReference, separatorText] at hempty
  have hparts : ∀ part ∈ name.map ModuleQualifiers.escapeSpecialCharacters ++ path,
      '.' ∉ part.toList := by
    intro part hpart
    rcases List.mem_append.mp hpart with hpart | hpart
    · exact noDot_escape hnoDot part hpart
    · exact (hclean part hpart).1
  have hsplit : split '.' (showReference
      (name.map ModuleQualifiers.escapeSpecialCharacters ++ path)) =
      name.map ModuleQualifiers.escapeSpecialCharacters ++ path :=
    split_intercalate (by simp [hpath]) hparts
  have hname' : ∀ part ∈ name.map ModuleQualifiers.escapeSpecialCharacters,
      symbolName part = unescapeSpecialCharacters part := by
    intro part hpart
    obtain ⟨s, -, rfl⟩ := List.mem_map.mp hpart
    exact symbolName_escape s
  rw [targetSymbolicName_of_noDot hne hdot, htext, normalText hname hpath hclean, hsplit,
    List.map_append, List.map_congr_left hname', bareModuleName_eq hname hnoDot]

/-! ## 3. The parts of a path -/

/-- A Python identifier, as far as names tell. -/
structure PlainName (name : String) : Prop where
  identifier : IsIdentifier name
  noAt : '@' ∉ name.toList
  noBackslash : '\\' ∉ name.toList

theorem PlainName.notMem {name : String} (h : PlainName name) {c : Char}
    (hc : c ∈ ['.', '#', ':', '$', '@', '\\']) : c ∉ name.toList := by
  simp only [List.mem_cons, List.not_mem_nil, or_false] at hc
  rcases hc with rfl | rfl | rfl | rfl | rfl | rfl
  · exact h.identifier.characters '.' (by decide)
  · exact h.identifier.characters '#' (by decide)
  · exact h.identifier.characters ':' (by decide)
  · exact h.identifier.characters '$' (by decide)
  · exact h.noAt
  · exact h.noBackslash

theorem PlainName.escape {name : String} (h : PlainName name) :
    ModuleQualifiers.escapeSpecialCharacters name = name := by
  refine ModuleQualifiers.escape_of_not_special (List.any_eq_false.mpr fun c hc hspecial => ?_)
  simp only [ModuleQualifiers.isSpecial, Bool.or_eq_true, beq_iff_eq] at hspecial
  rcases hspecial with ((rfl | rfl) | rfl) | rfl <;> exact h.notMem (by decide) hc

theorem PlainName.unescape {name : String} (h : PlainName name) :
    unescapeSpecialCharacters name = name := by
  have hunescape := ModuleQualifiers.unescape_escape h.noBackslash
  rwa [h.escape] at hunescape

theorem idxOf?_append {c : Char} {left right : List Char} (h : c ∉ left) :
    (left ++ c :: right).idxOf? c = some left.length := by
  induction left with
  | nil => rw [List.nil_append, List.idxOf?_cons, if_pos (beq_self_eq_true c)]; rfl
  | cons d left ih =>
    rw [List.mem_cons, not_or] at h
    rw [List.cons_append, List.idxOf?_cons, if_neg (by simpa using Ne.symm h.1), ih h.2]
    rfl

/-- A repeated name loses its number. -/
theorem dollar_uniqueName {base : String} (hne : base ≠ "") (hdollar : '$' ∉ base.toList)
    (index : ℤ) :
    (if (((uniqueName base index).toList.idxOf? '$').map Int.ofNat).getD (-1) ≥ 1 then
      beforeLast '$' (uniqueName base index) else uniqueName base index) = base := by
  by_cases hi : index = 0
  · have hindex : base.toList.idxOf? '$' = none := List.idxOf?_eq_none_iff.mpr hdollar
    rw [hi, uniqueName, if_pos rfl, hindex, if_neg (by decide)]
  · have hnumber : '$' ∉ (toString (index + 1)).toList := by
      intro hmem
      rcases mem_toString hmem with hdigit | ⟨hsign, -⟩
      · exact absurd hdigit (by decide)
      · exact absurd hsign (by decide)
    have hlength : 0 < base.toList.length := by
      rw [List.length_pos_iff]
      exact fun hnil => hne (String.toList_inj.mp (hnil.trans (by simp)))
    rw [toList_uniqueName hi, idxOf?_append hdollar, Option.map_some, Option.getD_some, if_pos]
    · rw [uniqueName, if_neg hi]
      exact beforeLast_append hnumber
    · exact Int.ofNat_le.mpr hlength

/-- **A part is read back**: neither the suffix of a setter nor a number is left. -/
theorem symbolName_uniqueName {definition : Definition} (h : PlainName definition.name)
    (index : ℤ) : symbolName (uniqueName definition.baseName index) = definition.name := by
  have hbase := baseName_spec h.identifier
  have hat : (if definition.baseName.toList.contains '@' then
      beforeLast '@' definition.baseName else definition.baseName) = definition.name := by
    cases definition with
    | function name isPropertySetter =>
      cases isPropertySetter with
      | false =>
        have hno : '@' ∉ name.toList := h.noAt
        exact if_neg (by simpa [Definition.baseName] using hno)
      | true =>
        have hsetter : '@' ∉ "setter".toList := by decide
        have hname : name ++ "@setter" = name ++ String.singleton '@' ++ "setter" := by
          rw [String.ext_iff]
          simp only [String.toList_append, List.append_assoc]
          rfl
        rw [Definition.baseName, hname, beforeLast_append hsetter, if_pos]
        · rfl
        · simp
    | classDefinition name isSynthesized =>
      have hno : '@' ∉ name.toList := h.noAt
      exact if_neg (by simpa [Definition.baseName] using hno)
  rw [symbolName, stripSuffix, dollar_uniqueName hbase.1 (dollar_notMem_baseName h.identifier), hat,
    h.unescape]

/-! ## 4. Definitions -/

/-- A part of a path and the name of the definition that it stands for. -/
def PartOf (part name : String) : Prop :=
  ∃ (definition : Definition) (index : ℤ), part = uniqueName definition.baseName index ∧
    definition.name = name ∧ IsIdentifier name

theorem PartOf.proper {part name : String} (h : PartOf part name) : ProperName part := by
  obtain ⟨definition, index, rfl, rfl, hname⟩ := h
  exact properName_uniqueName hname index

theorem proper_of_forall₂ {path localName : List String} (h : List.Forall₂ PartOf path localName) :
    ∀ part ∈ path, ProperName part := by
  induction h with
  | nil => exact fun _ hpart => absurd hpart List.not_mem_nil
  | cons hfirst _ ih => exact List.forall_mem_cons.mpr ⟨hfirst.proper, ih⟩

theorem symbolName_of_forall₂ {path localName : List String}
    (h : List.Forall₂ PartOf path localName) (hplain : ∀ part ∈ localName, PlainName part) :
    path.map symbolName = localName := by
  induction h with
  | nil => rfl
  | cons hfirst _ ih =>
    obtain ⟨definition, index, rfl, rfl, -⟩ := hfirst
    rw [List.map_cons, symbolName_uniqueName (hplain _ List.mem_cons_self),
      ih fun part hpart => hplain part (List.mem_cons_of_mem _ hpart)]

namespace Children

/-- The nodes have the unique names of their definitions. -/
def Qualified : Children QualifiedNode → Prop
  | .nil => True
  | .cons value children rest =>
    PartOf value.uniqueName value.definition.name ∧ children.Qualified ∧ rest.Qualified

end Children

theorem qualified_qualifyChildren {nameIndices : String → Option ℤ} {children : Children Definition}
    (h : children.Identifiers) : (qualifyChildren nameIndices children).Qualified := by
  induction children generalizing nameIndices with
  | nil => trivial
  | cons definition children rest ihChildren ihRest =>
    exact ⟨⟨definition, _, rfl, rfl, h.1⟩, ihChildren h.2.1, ihRest h.2.2⟩

theorem qualified_setOverlapFlag {children : Children QualifiedNode} (h : children.Qualified) :
    (setOverlapFlag children).Qualified := by
  induction children with
  | nil => trivial
  | cons value children rest ihChildren ihRest => exact ⟨h.1, ihChildren h.2.1, ihRest h.2.2⟩

theorem qualified_checkChildren {moduleQualifier : Reference} {moduleExists : Reference → Bool}
    {parent : List String} {children : Children QualifiedNode} (h : children.Qualified) :
    (checkChildren moduleQualifier moduleExists parent children).Qualified := by
  induction children generalizing parent with
  | nil => trivial
  | cons value children rest ihChildren ihRest =>
    rw [checkChildren]
    split_ifs
    · exact ⟨h.1, qualified_setOverlapFlag h.2.1, ihRest h.2.2⟩
    · exact ⟨h.1, ihChildren h.2.1, ihRest h.2.2⟩

/-- Each definition is named by a path of parts of its local name. -/
theorem path_of_mem_addDefinitions {moduleQualifier : Reference} {parent parentLocalName : List String}
    {children : Children QualifiedNode} (h : children.Qualified)
    (hparent : List.Forall₂ PartOf parent parentLocalName) {d : QualifiedDefinition}
    (hd : d ∈ addDefinitions moduleQualifier parent parentLocalName children) :
    ∃ path separator, d.qualifiedName = FullyQualifiedName.create moduleQualifier path separator ∧
      path ≠ [] ∧ List.Forall₂ PartOf path d.localName := by
  induction children generalizing parent parentLocalName with
  | nil => cases hd
  | cons value children rest ihChildren ihRest =>
    have hself : List.Forall₂ PartOf (value.uniqueName :: parent)
        (value.definition.name :: parentLocalName) := .cons h.1 hparent
    rcases List.mem_cons.mp hd with rfl | hd
    · exact ⟨_, _, rfl, by simp, List.forall₂_reverse_iff.mpr hself⟩
    · rcases List.mem_append.mp hd with hd | hd
      · exact ihChildren h.2.1 hself hd
      · exact ihRest h.2.2 hparent hd

theorem dotFree_create {moduleQualifier : Reference} {path : List String}
    (hqualifier : ValidQualifier moduleQualifier) (hclean : ∀ part ∈ path, CleanPart part)
    (separator : Bool) :
    ∀ part ∈ FullyQualifiedName.create moduleQualifier path separator, '.' ∉ part.toList := by
  obtain ⟨hplain, hseparated⟩ := create_of_clean hclean hqualifier.ne
  cases separator with
  | false =>
    rw [hplain]
    intro part hpart
    rcases List.mem_append.mp hpart with hpart | hpart
    · exact hqualifier.noDot part hpart
    · exact (hclean part hpart).1
  | true =>
    have hhash : '#' ∈ (showReference moduleQualifier ++ "#" ++ showReference path).toList := by simp
    rw [hseparated, ModuleQualifiers.Reference.create, if_neg, if_neg]
    · exact fun part hpart => notMem_split hpart
    · intro heq
      rw [heq] at hhash
      exact absurd hhash (by decide)
    · intro heq
      rw [heq] at hhash
      exact absurd hhash (by decide)

theorem not_plainName_of_dollar {name : String} (h : '$' ∈ name.toList) : ¬ PlainName name :=
  fun hplain => hplain.notMem (by decide) h

/-- **The symbolic name of a definition** is the bare name of its module, and its local name, if
    that consists of identifiers. -/
theorem targetSymbolicName_definition {name : Reference} (hname : ModuleName name) (hne : name ≠ [])
    {pathPrefix : Option String} {moduleExists : Reference → Bool} {children : Children Definition}
    (h : children.Identifiers) {d : QualifiedDefinition}
    (hd : d ∈ moduleDefinitions (ModuleQualifiers.create pathPrefix name) moduleExists children) :
    ∃ localPart, localPart ≠ [] ∧
      targetSymbolicName d.qualifiedName =
        bareModuleName (ModuleQualifiers.create pathPrefix name) ++ localPart ∧
      ((∀ part ∈ d.localName, PlainName part) → localPart = d.localName) := by
  have hqualifier := validQualifier_create hname pathPrefix
  have htoplevelName : ∀ part ∈ ["$toplevel"], CleanPart part := by
    unfold CleanPart
    decide
  rw [moduleDefinitions, addToplevelDefines, List.mem_cons, List.mem_flatMap] at hd
  rcases hd with rfl | ⟨collected, hcollected, hd⟩
  · refine ⟨["$toplevel"].map symbolName, by simp, ?_, fun hplain => ?_⟩
    · exact targetSymbolicName_of_text hne hname.noDot (by simp) htoplevelName
        (dotFree_create hqualifier htoplevelName false)
        (showReference_create_path htoplevelName hqualifier.ne false)
    · exact absurd (hplain "$toplevel" List.mem_cons_self) (not_plainName_of_dollar (by decide))
  · obtain ⟨path, separator, hname', hpath, hparts⟩ := path_of_mem_addDefinitions
      (qualified_checkChildren (qualified_qualifyChildren h)) .nil hcollected
    have hproper := proper_of_forall₂ hparts
    have hclean : ∀ part ∈ path, CleanPart part := fun part hpart => (hproper part hpart).clean
    have hself : ∃ localPart, localPart ≠ [] ∧
        targetSymbolicName collected.qualifiedName =
          bareModuleName (ModuleQualifiers.create pathPrefix name) ++ localPart ∧
        ((∀ part ∈ collected.localName, PlainName part) → localPart = collected.localName) := by
      refine ⟨path.map symbolName, by simpa using hpath, ?_, symbolName_of_forall₂ hparts⟩
      rw [hname']
      exact targetSymbolicName_of_text hne hname.noDot hpath hclean
        (dotFree_create hqualifier hclean separator)
        (showReference_create_path hclean hqualifier.ne separator)
    rw [addToplevel] at hd
    split_ifs at hd
    · rcases List.mem_pair.mp hd with rfl | rfl
      · exact hself
      · have hclass : ∀ part ∈ path ++ ["$class_toplevel"], CleanPart part := by
          intro part hpart
          rcases List.mem_append.mp hpart with hpart | hpart
          · exact hclean part hpart
          · rw [List.mem_singleton.mp hpart]
            unfold CleanPart
            decide
        refine ⟨(path ++ ["$class_toplevel"]).map symbolName, by simp, ?_, fun hplain => ?_⟩
        · dsimp only
          rw [hname']
          refine targetSymbolicName_of_text hne hname.noDot (by simp) hclass (fun part hpart => ?_)
            (showReference_createClassToplevel hproper hpath hqualifier.ne separator)
          rw [FullyQualifiedName.createClassToplevel, FullyQualifiedName.combine] at hpart
          split_ifs at hpart
          · rw [List.mem_singleton.mp hpart]
            decide
          · rcases List.mem_append.mp hpart with hpart | hpart
            · exact dotFree_create hqualifier hclean separator part hpart
            · rw [List.mem_singleton.mp hpart]
              decide
        · refine absurd (hplain "$class_toplevel" ?_) (not_plainName_of_dollar (by decide))
          dsimp only
          rw [FullyQualifiedName.combine]
          split_ifs
          · exact List.mem_cons_self
          · exact List.mem_append_right _ List.mem_cons_self
    · rw [List.mem_singleton.mp hd]
      exact hself

end QualifiedNames

end Pysa
