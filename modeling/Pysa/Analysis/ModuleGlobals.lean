/-
  Subject: THE GLOBALS AND EXPORTS OF A MODULE (`module.ml`).

  * `rawAlistOfSource` -- the globals; it enters if, try and with statements only, and takes apart
    only tuples of names;
  * `wildcardExportsOfRawSource`, `Metadata.create` -- what is exported of them;
  * `WrittenList` -- names as a program writes them, and no star import;
  * `mem_rawAlistOfSource` -- **what is recorded are the plain names**;
  * `rawAlistOfSource_agrees_iff` -- **they are the names of the module's scope and those that
    Python binds if and only if every other name is also plain**;
  * `Sample.not_agrees` -- the target of a for statement is not recorded.
-/
import Pysa.Analysis.Binding
import Pysa.Analysis.ResolveExports
import Pysa.Ast.Identifier
import Pysa.Interprocedural.ResolveUserQualifiedName

namespace Pysa.Ast

namespace ModuleGlobals

open ModuleQualifiers (Reference showReference)
open QualifiedNames.Reference (last)
open ResolveExports (Export ExportMap ExportName Metadata)

variable {L O F : Type}

/-! ## 1. Globals -/

/-- `Location.WithModule.t`. -/
structure LocationWithModule (L : Type) where
  moduleReference : Reference
  location : L

structure DefineSignature (L O F : Type) where
  signature : Signature L O F
  location : LocationWithModule L

/-- `UnannotatedGlobal.import`. -/
inductive GlobalImport where
  | importModule (target : ImportName) (implicitAlias : Bool)
  | importFrom (source : Reference) (target : String) (implicitAlias : Bool)

inductive UnannotatedGlobal (L O F : Type) where
  | simpleAssign (explicitAnnotationExpression value : Option (ExpressionNode L O F))
      (targetLocation : LocationWithModule L)
  | typeStatement (typeParams : List (Node L (TypeParam L O F))) (value : ExpressionNode L O F)
      (targetLocation : LocationWithModule L)
  | tupleAssign (value : Option (ExpressionNode L O F)) (targetLocation : LocationWithModule L)
      (index totalLength : ℕ)
  | imported (item : GlobalImport)
  | define (defines : List (DefineSignature L O F))
  | classGlobal

/-- A name with what it is. -/
abbrev Global (L O F : Type) := String × UnannotatedGlobal L O F

/-- `is_simple_name`. -/
def isSimpleName (qualifier : Reference) (value : Option (ExpressionNode L O F)) (totalLength : ℕ)
    (index : ℕ) : ExpressionNode L O F → Option (Global L O F)
  | .node location (.name (.identifier identifier)) =>
    some (Identifier.sanitized identifier,
      .tupleAssign value ⟨qualifier, location⟩ index totalLength)
  | _ => none

/-- All elements of a tuple, or none. -/
def tupleGlobals (qualifier : Reference) (value : Option (ExpressionNode L O F))
    (elements : List (ExpressionNode L O F)) : List (Global L O F) :=
  ((elements.mapIdx (isSimpleName qualifier value elements.length)).mapM id).getD []

def collectModuleImport (sofar : List (Global L O F)) (item : Node L ImportItem) :
    List (Global L O F) :=
  match item.value.alias_ with
  | none =>
    -- `import a.b` binds the name `a` in the current module
    (item.value.name.head, .imported (.importModule item.value.name true)) :: sofar
  | some alias_ => (alias_, .imported (.importModule item.value.name false)) :: sofar

def collectNameImport (source : Reference) (sofar : List (Global L O F))
    (item : Node L ImportItem) : List (Global L O F) :=
  let target := showReference item.value.name.reference
  if target = "*" then sofar
  else
    let source := if source = ["future", "builtins"] ∨ source = ["builtins"] then [] else source
    match item.value.alias_ with
    | none => (target, .imported (.importFrom source target true)) :: sofar
    | some alias_ => (alias_, .imported (.importFrom source target false)) :: sofar

mutual

def visitStatement (qualifier : Reference) (globals : List (Global L O F)) :
    StatementNode L O F → List (Global L O F)
  | .node location statement => visitStatementValue qualifier globals location statement

def visitStatementValue (qualifier : Reference) (globals : List (Global L O F)) (location : L) :
    Statement L O F → List (Global L O F)
  | .assign (.node location (.name (.identifier identifier))) annotation value =>
    (Identifier.sanitized identifier, .simpleAssign annotation value ⟨qualifier, location⟩) ::
      globals
  | .assign (.node _ (.tuple elements)) _ value =>
    (tupleGlobals qualifier value elements).reverse ++ globals
  | .importNames none imports => imports.foldl collectModuleImport globals
  | .importNames (some source) imports => imports.foldl (collectNameImport source.value) globals
  | .classDefinition name _ _ _ => (last name, .classGlobal) :: globals
  | .define signature _ =>
    (last signature.name, .define [⟨signature, ⟨qualifier, location⟩⟩]) :: globals
  | .ifThen _ body orelse =>
    visitStatements qualifier (visitStatements qualifier globals body) orelse
  | .tryBlock body handlers orelse finally_ =>
    visitStatements qualifier (visitStatements qualifier (visitHandlers qualifier
      (visitStatements qualifier globals body) handlers) orelse) finally_
  | .withBlock _ body => visitStatements qualifier globals body
  | .typeAlias (.node location (.name (.identifier identifier))) typeParams value =>
    (Identifier.sanitized identifier, .typeStatement typeParams value ⟨qualifier, location⟩) ::
      globals
  | _ => globals

def visitStatements (qualifier : Reference) (globals : List (Global L O F)) :
    List (StatementNode L O F) → List (Global L O F)
  | [] => globals
  | head :: tail => visitStatements qualifier (visitStatement qualifier globals head) tail

/-- The bodies of the handlers. -/
def visitHandlers (qualifier : Reference) (globals : List (Global L O F)) :
    List (TryHandler L O F) → List (Global L O F)
  | [] => globals
  | .handler _ _ body :: tail =>
    visitHandlers qualifier (visitStatements qualifier globals body) tail

end

def rawAlistOfSource (source : Source L O F) : List (Global L O F) :=
  (visitStatements source.qualifier [] source.statements).reverse

/-! ## 2. Exports -/

def toIdentifier : ExpressionNode L O F → Option String
  | .node _ (.constant (.string value _ _)) => some value
  | _ => none

/-- `extract_dunder_all`. -/
def extractDunderAll : Global L O F → Option (List String)
  | ("__all__", .simpleAssign _ (some (.node _ (.list names))) _) =>
    some (names.filterMap toIdentifier)
  | ("__all__", .simpleAssign _ (some (.node _ (.tuple names))) _) =>
    some (names.filterMap toIdentifier)
  | _ => none

def filterUnaliasedImport : Global L O F → Bool
  | (_, .imported (.importModule _ implicitAlias)) => !implicitAlias
  | (_, .imported (.importFrom _ _ implicitAlias)) => !implicitAlias
  | _ => true

/-- `List.dedup_and_sort`. -/
def dedupAndSort (names : List String) : List String :=
  names.dedup.mergeSort fun a b => (compare a b).isLE

def wildcardExportsOfRawSource (source : Source L O F) : List String :=
  match (rawAlistOfSource source).findSome? extractDunderAll with
  | some names => dedupAndSort names
  | none =>
    let unannotatedGlobals :=
      if source.isStub then (rawAlistOfSource source).filter filterUnaliasedImport
      else rawAlistOfSource source
    dedupAndSort ((unannotatedGlobals.map Prod.fst).filter fun name =>
      !Identifier.hasPrefix "_" name)

def isStrOrUnannotated : Option (ExpressionNode L O F) → Bool
  | none => true
  | some (.node _ (.name (.identifier "str"))) => true
  | _ => false

def isAny : Option (ExpressionNode L O F) → Bool
  | some (.node _ (.name (.identifier "Any"))) => true
  | some (.node _ (.name (.attribute (.node _ (.name (.identifier "typing"))) "Any" _))) => true
  | _ => false

def isGetattrAny (define : DefineSignature L O F) : Bool :=
  match last define.signature.name, define.signature.parameters with
  | "__getattr__", [.parameter _ _ _ parameterAnnotation] =>
    isStrOrUnannotated parameterAnnotation && isAny define.signature.returns
  | _, _ => false

/-- Stub files do not re-export unaliased imports, unless they appear in `__all__`. -/
def isHidden (isStub : Bool) (explicitDunderAllNames : Option (List String)) (name : String)
    (item : GlobalImport) : Bool :=
  let implicitAlias :=
    match item with
    | .importModule _ implicitAlias => implicitAlias
    | .importFrom _ _ implicitAlias => implicitAlias
  implicitAlias && isStub && !explicitDunderAllNames.elim false fun names => name ∈ names

def importedExport : GlobalImport → Export
  | .importModule target implicitAlias =>
    .module (if implicitAlias then [target.head] else target.reference)
  | .importFrom source target _ => .nameAlias source target

def collectExport (isStub : Bool) (explicitDunderAllNames : Option (List String))
    (sofar : ExportMap) : Global L O F → ExportMap
  | (name, .imported item) =>
    if isHidden isStub explicitDunderAllNames name item then sofar
    else sofar.insert name (importedExport item)
  | (name, .define defines) => sofar.insert name (.name (.define (defines.any isGetattrAny)))
  | (name, .classGlobal) => sofar.insert name (.name .classExport)
  | (name, _) => sofar.insert name (.name .globalVariable)

/-- The names of the classes of `missingFromStubs.ml`. -/
structure MissingFromStubs where
  missingBuiltinClasses : List String
  missingTypingClasses : List String
  missingTypingExtensionsClasses : List String

def exportsFromMissingClasses (missingClasses : List String) : ExportMap :=
  missingClasses.foldl (fun sofar name => sofar.insert name (.name .classExport)) ∅

def initialExports (missing : MissingFromStubs) (qualifier : Reference) : ExportMap :=
  match qualifier with
  | [] => exportsFromMissingClasses missing.missingBuiltinClasses
  | ["typing"] => exportsFromMissingClasses missing.missingTypingClasses
  | ["typing_extensions"] => exportsFromMissingClasses missing.missingTypingExtensionsClasses
  | _ => ∅

/-- `Metadata.create`. -/
def createMetadata (missing : MissingFromStubs) (source : Source L O F) : Metadata :=
  let unannotatedGlobals := rawAlistOfSource source
  let explicitDunderAllNames :=
    if source.isStub then unannotatedGlobals.findSome? extractDunderAll else none
  .explicit (unannotatedGlobals.foldl (collectExport source.isStub explicitDunderAllNames)
    (initialExports missing source.qualifier))

/-! ## 3. What is recorded -/

mutual

/-- The names that the statement binds are as a program writes them, and it is no star import. -/
def Written : StatementNode L O F → Prop
  | .node _ statement => WrittenStatement statement

def WrittenStatement : Statement L O F → Prop
  | .assign target _ _ => ∀ name ∈ (plainTarget target).getD [], Identifier.sanitized name = name
  | .classDefinition name _ _ _ => name.length = 1
  | .define signature _ => signature.name.length = 1
  | .forLoop _ _ body orelse => WrittenList body ∧ WrittenList orelse
  | .ifThen _ body orelse => WrittenList body ∧ WrittenList orelse
  | .importNames source imports =>
    source.isSome → ∀ item ∈ imports, showReference item.value.name.reference ≠ "*"
  | .matchCases _ cases => WrittenCases cases
  | .tryBlock body handlers orelse finally_ =>
    WrittenList body ∧ WrittenHandlers handlers ∧ WrittenList orelse ∧ WrittenList finally_
  | .typeAlias name _ _ =>
    ∀ identifier ∈ plainElement name, Identifier.sanitized identifier = identifier
  | .withBlock _ body => WrittenList body
  | .whileLoop _ body orelse => WrittenList body ∧ WrittenList orelse
  | _ => True

def WrittenList : List (StatementNode L O F) → Prop
  | [] => True
  | head :: tail => Written head ∧ WrittenList tail

def WrittenCases : List (Case L O F) → Prop
  | [] => True
  | .case _ _ body :: tail => WrittenList body ∧ WrittenCases tail

def WrittenHandlers : List (TryHandler L O F) → Prop
  | [] => True
  | .handler _ _ body :: tail => WrittenList body ∧ WrittenHandlers tail

end

theorem showReference_of_length {name : Reference} (h : name.length = 1) :
    showReference name = last name := by
  obtain ⟨identifier, hname⟩ := List.length_eq_one_iff.mp h
  rw [hname]
  rfl

theorem names_mapIdx {f : ℕ → ExpressionNode L O F → Option (Global L O F)}
    (hf : ∀ index element, (f index element).map Prod.fst =
      (plainElement element).map Identifier.sanitized) (elements : List (ExpressionNode L O F)) :
    ((elements.mapIdx f).mapM id).map (List.map Prod.fst) =
      (elements.mapM plainElement).map (List.map Identifier.sanitized) := by
  induction elements generalizing f with
  | nil => rfl
  | cons head tail ih =>
    have hhead := hf 0 head
    have htail := ih fun index element => hf (index + 1) element
    rw [List.mapIdx_cons, List.mapM_cons, List.mapM_cons, id]
    cases hf0 : f 0 head with
    | none =>
      rw [hf0] at hhead
      rw [Option.map_eq_none_iff.mp hhead.symm]
      rfl
    | some global =>
      rw [hf0] at hhead
      obtain ⟨identifier, hidentifier, hname⟩ := Option.map_eq_some_iff.mp hhead.symm
      rw [hidentifier]
      cases hrest : (tail.mapIdx fun index => f (index + 1)).mapM id with
      | none =>
        rw [hrest] at htail
        rw [Option.map_eq_none_iff.mp htail.symm]
        rfl
      | some rest =>
        rw [hrest] at htail
        obtain ⟨names, hnames, hrestNames⟩ := Option.map_eq_some_iff.mp htail.symm
        rw [hnames]
        exact congrArg some (congrArg₂ List.cons hname.symm hrestNames.symm)

theorem names_isSimpleName (qualifier : Reference) (value : Option (ExpressionNode L O F))
    (totalLength index : ℕ) (element : ExpressionNode L O F) :
    (isSimpleName qualifier value totalLength index element).map Prod.fst =
      (plainElement element).map Identifier.sanitized := by
  cases element with
  | node location element =>
    cases element with
    | name name => cases name <;> rfl
    | _ => rfl

/-- The names of a tuple are recorded if all its elements are names. -/
theorem names_tupleGlobals (qualifier : Reference) (value : Option (ExpressionNode L O F))
    (elements : List (ExpressionNode L O F)) :
    (tupleGlobals qualifier value elements).map Prod.fst =
      ((elements.mapM plainElement).getD []).map Identifier.sanitized := by
  have h := names_mapIdx (names_isSimpleName qualifier value elements.length) elements
  rw [tupleGlobals]
  cases hglobals : (elements.mapIdx (isSimpleName qualifier value elements.length)).mapM id with
  | none =>
    rw [hglobals] at h
    rw [Option.map_eq_none_iff.mp h.symm]
    rfl
  | some globals =>
    rw [hglobals] at h
    obtain ⟨names, hnames, hglobalNames⟩ := Option.map_eq_some_iff.mp h.symm
    rw [hnames]
    exact hglobalNames.symm

theorem names_collectModuleImports (imports : List (Node L ImportItem))
    (globals : List (Global L O F)) :
    (imports.foldl collectModuleImport globals).map Prod.fst =
      (imports.map fun item => importedName (L := L) none item.value).reverse ++
        globals.map Prod.fst := by
  induction imports generalizing globals with
  | nil => rfl
  | cons head tail ih =>
    have hhead : (collectModuleImport globals head).map Prod.fst =
        importedName (L := L) none head.value :: globals.map Prod.fst := by
      cases h : head.value.alias_ <;> simp [collectModuleImport, importedName, h]
    rw [List.foldl_cons, ih, hhead, List.map_cons, List.reverse_cons, List.append_assoc]
    rfl

theorem names_collectNameImports (source : Node L Reference) {imports : List (Node L ImportItem)}
    (himports : ∀ item ∈ imports, showReference item.value.name.reference ≠ "*")
    (globals : List (Global L O F)) :
    (imports.foldl (collectNameImport source.value) globals).map Prod.fst =
      (imports.map fun item => importedName (some source) item.value).reverse ++
        globals.map Prod.fst := by
  induction imports generalizing globals with
  | nil => rfl
  | cons head tail ih =>
    have hstar := himports head List.mem_cons_self
    have hhead : (collectNameImport source.value globals head).map Prod.fst =
        importedName (some source) head.value :: globals.map Prod.fst := by
      cases h : head.value.alias_ <;> simp [collectNameImport, importedName, h, hstar]
    rw [List.foldl_cons, ih fun item hitem => himports item (List.mem_cons_of_mem _ hitem), hhead,
      List.map_cons, List.reverse_cons, List.append_assoc]
    rfl

theorem map_sanitized {names : List String} (h : ∀ name ∈ names, Identifier.sanitized name = name) :
    names.map Identifier.sanitized = names :=
  (List.map_congr_left h).trans (List.map_id names)

/-- An assignment records the plain names of its target. -/
theorem names_visitAssign {qualifier : Reference} {globals : List (Global L O F)} {location : L}
    {target : ExpressionNode L O F} (annotationExpression value : Option (ExpressionNode L O F))
    (h : WrittenStatement (.assign target annotationExpression value)) :
    (visitStatementValue qualifier globals location (.assign target annotationExpression value)).map
        Prod.fst = ((plainTarget target).getD []).reverse ++ globals.map Prod.fst := by
  cases target with
  | node targetLocation target =>
    cases target with
    | name target =>
      cases target with
      | «attribute» base attributeName origin => rfl
      | identifier identifier =>
        have hname : Identifier.sanitized identifier = identifier :=
          h identifier List.mem_cons_self
        rw [visitStatementValue, List.map_cons, hname]
        rfl
    | tuple elements =>
      have hnames : ((elements.mapM plainElement).getD []).map Identifier.sanitized =
          (elements.mapM plainElement).getD [] := map_sanitized h
      rw [visitStatementValue, List.map_append, List.map_reverse, names_tupleGlobals, hnames]
      rfl
    | _ => rfl

theorem names_visitTypeAlias {qualifier : Reference} {globals : List (Global L O F)} {location : L}
    {name value : ExpressionNode L O F} {typeParams : List (Node L (TypeParam L O F))}
    (h : WrittenStatement (.typeAlias name typeParams value)) :
    (visitStatementValue qualifier globals location (.typeAlias name typeParams value)).map
        Prod.fst = (plainElement name).toList ++ globals.map Prod.fst := by
  cases name with
  | node nameLocation name =>
    cases name with
    | name name =>
      cases name with
      | «attribute» base attributeName origin => rfl
      | identifier identifier =>
        have hname : Identifier.sanitized identifier = identifier := h identifier rfl
        rw [visitStatementValue, List.map_cons, hname]
        rfl
    | _ => rfl

mutual

theorem mem_visitStatement {qualifier : Reference} {globals : List (Global L O F)} {x : String}
    (statement : StatementNode L O F) (h : Written statement) :
    x ∈ (visitStatement qualifier globals statement).map Prod.fst ↔
      x ∈ plainNames statement ∨ x ∈ globals.map Prod.fst := by
  cases statement with
  | node location value => exact mem_visitStatementValue location value h

theorem mem_visitStatementValue {qualifier : Reference} {globals : List (Global L O F)}
    {x : String} (location : L) (statement : Statement L O F) (h : WrittenStatement statement) :
    x ∈ (visitStatementValue qualifier globals location statement).map Prod.fst ↔
      x ∈ plainStatementNames statement ∨ x ∈ globals.map Prod.fst := by
  cases statement with
  | assign target annotation value =>
    rw [names_visitAssign annotation value h, List.mem_append, List.mem_reverse,
      plainStatementNames]
  | classDefinition name baseArguments decorators body =>
    rw [visitStatementValue, plainStatementNames, List.map_cons, showReference_of_length h,
      List.mem_cons, List.mem_singleton]
  | define signature body =>
    rw [visitStatementValue, plainStatementNames, List.map_cons, showReference_of_length h,
      List.mem_cons, List.mem_singleton]
  | ifThen test body orelse =>
    rw [visitStatementValue, plainStatementNames, mem_visitStatements orelse h.2,
      mem_visitStatements body h.1, List.mem_append]
    tauto
  | importNames source imports =>
    cases source with
    | none =>
      rw [visitStatementValue, plainStatementNames, names_collectModuleImports,
        List.mem_append, List.mem_reverse]
    | some source =>
      rw [visitStatementValue, plainStatementNames, names_collectNameImports source (h rfl),
        List.mem_append, List.mem_reverse]
  | tryBlock body handlers orelse finally_ =>
    rw [visitStatementValue, plainStatementNames, mem_visitStatements finally_ h.2.2.2,
      mem_visitStatements orelse h.2.2.1, mem_visitHandlers handlers h.2.1,
      mem_visitStatements body h.1, List.mem_append, List.mem_append, List.mem_append]
    tauto
  | typeAlias name typeParams value =>
    rw [names_visitTypeAlias h, List.mem_append, plainStatementNames]
  | withBlock items body =>
    rw [visitStatementValue, plainStatementNames, mem_visitStatements body h]
  | _ => exact (or_iff_right List.not_mem_nil).symm

theorem mem_visitStatements {qualifier : Reference} {globals : List (Global L O F)} {x : String}
    (statements : List (StatementNode L O F)) (h : WrittenList statements) :
    x ∈ (visitStatements qualifier globals statements).map Prod.fst ↔
      x ∈ plainNamesList statements ∨ x ∈ globals.map Prod.fst := by
  cases statements with
  | nil => exact (or_iff_right List.not_mem_nil).symm
  | cons head tail =>
    rw [visitStatements, plainNamesList, mem_visitStatements tail h.2,
      mem_visitStatement head h.1, List.mem_append]
    tauto

theorem mem_visitHandlers {qualifier : Reference} {globals : List (Global L O F)} {x : String}
    (handlers : List (TryHandler L O F)) (h : WrittenHandlers handlers) :
    x ∈ (visitHandlers qualifier globals handlers).map Prod.fst ↔
      x ∈ plainHandlerNames handlers ∨ x ∈ globals.map Prod.fst := by
  cases handlers with
  | nil => exact (or_iff_right List.not_mem_nil).symm
  | cons head tail =>
    cases head with
    | handler kind name body =>
      rw [visitHandlers, plainHandlerNames, mem_visitHandlers tail h.2,
        mem_visitStatements body h.1, List.mem_append]
      tauto

end

/-- **What is recorded are the plain names.** -/
theorem mem_rawAlistOfSource {source : Source L O F} (h : WrittenList source.statements)
    {x : String} :
    x ∈ (rawAlistOfSource source).map Prod.fst ↔ x ∈ plainNamesList source.statements := by
  rw [rawAlistOfSource, List.map_reverse, List.mem_reverse,
    mem_visitStatements source.statements h]
  exact or_iff_left List.not_mem_nil

/-! ## 4. What is exported -/

theorem mem_dedupAndSort {names : List String} {x : String} :
    x ∈ dedupAndSort names ↔ x ∈ names := by
  rw [dedupAndSort, List.mem_mergeSort, List.mem_dedup]

theorem extractDunderAll_eq_none {global : Global L O F} (h : global.1 ≠ "__all__") :
    extractDunderAll global = none := by
  obtain ⟨name, unannotatedGlobal⟩ := global
  unfold extractDunderAll
  split
  · rename_i heq
    exact absurd (congrArg Prod.fst heq) h
  · rename_i heq
    exact absurd (congrArg Prod.fst heq) h
  · rfl

/-- Without `__all__`, every public name is exported to star imports. -/
theorem mem_wildcardExports {source : Source L O F} (hstub : source.isStub = false)
    (hall : "__all__" ∉ (rawAlistOfSource source).map Prod.fst) {x : String} :
    x ∈ wildcardExportsOfRawSource source ↔
      x ∈ (rawAlistOfSource source).map Prod.fst ∧ Identifier.hasPrefix "_" x = false := by
  have hnone : (rawAlistOfSource source).findSome? extractDunderAll = none := by
    rw [List.findSome?_eq_none_iff]
    intro global hglobal
    refine extractDunderAll_eq_none fun hname => hall ?_
    rw [← hname]
    exact List.mem_map_of_mem hglobal
  rw [wildcardExportsOfRawSource, hnone]
  dsimp only
  rw [hstub, if_neg Bool.false_ne_true, mem_dedupAndSort, List.mem_filter, Bool.not_eq_true']

theorem mem_collectExport {explicitDunderAllNames : Option (List String)} {sofar : ExportMap}
    {global : Global L O F} {x : String} :
    x ∈ collectExport false explicitDunderAllNames sofar global ↔ x = global.1 ∨ x ∈ sofar := by
  obtain ⟨name, unannotatedGlobal⟩ := global
  cases unannotatedGlobal with
  | imported item =>
    have hshown : isHidden false explicitDunderAllNames name item = false := by
      cases item <;> simp [isHidden]
    rw [collectExport, hshown, if_neg Bool.false_ne_true, AList.mem_insert]
  | _ => exact AList.mem_insert _

/-- Every global of a file that is not a stub has an export. -/
theorem mem_exports {missing : MissingFromStubs} {source : Source L O F}
    (hstub : source.isStub = false) {x : String}
    (h : x ∈ (rawAlistOfSource source).map Prod.fst) :
    x ∈ (createMetadata missing source).exports := by
  have hfold : ∀ (globals : List (Global L O F)) (sofar : ExportMap),
      x ∈ globals.foldl (collectExport false none) sofar ↔
        x ∈ globals.map Prod.fst ∨ x ∈ sofar := by
    intro globals
    induction globals with
    | nil => exact fun sofar => (or_iff_right List.not_mem_nil).symm
    | cons head tail ih =>
      intro sofar
      rw [List.foldl_cons, ih, mem_collectExport, List.map_cons, List.mem_cons]
      tauto
  rw [createMetadata, hstub]
  exact (hfold _ _).mpr (Or.inl h)

/-! ## 5. The two collectors -/

/-- **The globals of a module are the names of its scope and the names that Python binds at its top
    level, and then every public one is exported, if and only if every name that is bound in some
    other way is also bound plainly.** -/
theorem rawAlistOfSource_agrees_iff (missing : MissingFromStubs) (source : Source L O F)
    (hstub : source.isStub = false) (hwritten : WrittenList source.statements)
    (hall : "__all__" ∉ boundNamesList .all source.statements) :
    ((∀ x, x ∈ (rawAlistOfSource source).map Prod.fst ↔ x ∈ (Scope.ofSource source).bindings) ∧
        (∀ x, x ∈ (Scope.ofSource source).bindings ↔ x ∈ boundNamesList .all source.statements) ∧
        ∀ x ∈ (Scope.ofSource source).bindings, Identifier.hasPrefix "_" x = false →
          x ∈ wildcardExportsOfRawSource source ∧ x ∈ (createMetadata missing source).exports) ↔
      ∀ x ∈ otherNamesList .all source.statements, x ∈ plainNamesList source.statements := by
  constructor
  · intro h x hother
    obtain ⟨hrecorded, hscope, -⟩ := h
    have hbound := (mem_boundNamesList_iff source.statements).mpr (Or.inr hother)
    exact (mem_rawAlistOfSource hwritten).mp ((hrecorded x).mpr ((hscope x).mpr hbound))
  · intro h
    have hplain : ∀ x ∈ boundNamesList .all source.statements,
        x ∈ plainNamesList source.statements :=
      fun x hx => ((mem_boundNamesList_iff source.statements).mp hx).elim id (h x)
    have hscope : ∀ x, x ∈ (Scope.ofSource source).bindings ↔
        x ∈ boundNamesList .all source.statements := by
      intro x
      rw [Scope.mem_ofSource_iff]
      exact ⟨fun hx => boundNamesList_subset source.statements hx, fun hx =>
        (mem_boundNamesList_iff source.statements).mpr (Or.inl (hplain x hx))⟩
    have hrecorded : ∀ x, x ∈ (rawAlistOfSource source).map Prod.fst ↔
        x ∈ (Scope.ofSource source).bindings := by
      intro x
      rw [mem_rawAlistOfSource hwritten, hscope]
      exact ⟨fun hx => (mem_boundNamesList_iff source.statements).mpr (Or.inl hx), hplain x⟩
    have hnotRecorded : "__all__" ∉ (rawAlistOfSource source).map Prod.fst :=
      fun hx => hall ((hscope _).mp ((hrecorded _).mp hx))
    refine ⟨hrecorded, hscope, fun x hx hpublic => ?_⟩
    have hx := (hrecorded x).mpr hx
    exact ⟨(mem_wildcardExports hstub hnotRecorded).mpr ⟨hx, hpublic⟩, mem_exports hstub hx⟩

namespace Sample

def name (identifier : String) : ExpressionNode Unit Unit Unit :=
  .node () (.name (.identifier identifier))

def loop (target : String) : StatementNode Unit Unit Unit :=
  .node () (.forLoop (name target) (.node () (.list [])) [.node () .pass] [])

/-- `for i in []: pass`. -/
def loopSource : Source Unit Unit Unit := ⟨["example"], false, [loop "i"]⟩

/-- The target of a for statement is a name of the scope and is not recorded. -/
theorem not_agrees :
    (loopSource.isStub = false ∧ WrittenList loopSource.statements ∧
        "__all__" ∉ boundNamesList .all loopSource.statements) ∧
      ¬ ∀ x, x ∈ (rawAlistOfSource loopSource).map Prod.fst ↔
          x ∈ (Scope.ofSource loopSource).bindings := by
  refine ⟨⟨rfl, ⟨⟨⟨trivial, trivial⟩, trivial⟩, trivial⟩, by decide⟩, fun h => ?_⟩
  have hscope : "i" ∈ (Scope.ofSource loopSource).bindings :=
    Scope.mem_ofSource.mpr List.mem_cons_self
  exact absurd ((h "i").mpr hscope) List.not_mem_nil

/-- `a, i = b`, and the same loop. -/
def tupleSource : Source Unit Unit Unit :=
  ⟨["example"], false,
    [.node () (.assign (.node () (.tuple [name "a", name "i"])) none (some (name "b"))),
      loop "i"]⟩

/-- The target of the loop is exported, because the assignment binds it too. -/
theorem agrees_tupleSource :
    "i" ∈ wildcardExportsOfRawSource tupleSource ∧
      "i" ∈ (createMetadata ⟨[], [], []⟩ tupleSource).exports := by
  have hnames : ∀ name ∈ ["a", "i"], Identifier.sanitized name = name :=
    List.forall_mem_cons.mpr ⟨by decide, List.forall_mem_singleton.mpr (by decide)⟩
  have hwritten : WrittenList tupleSource.statements :=
    ⟨hnames, ⟨⟨trivial, trivial⟩, trivial⟩, trivial⟩
  have hother : ∀ x ∈ otherNamesList .all tupleSource.statements,
      x ∈ plainNamesList tupleSource.statements := by
    intro x hx
    have hx : x = "i" := List.mem_singleton.mp hx
    rw [hx]
    exact List.mem_cons_of_mem _ List.mem_cons_self
  obtain ⟨-, hscope, hexports⟩ :=
    (rawAlistOfSource_agrees_iff ⟨[], [], []⟩ tupleSource rfl hwritten (by decide)).mpr hother
  exact hexports "i" ((hscope "i").mpr (by decide)) (by decide)

end Sample

end ModuleGlobals

end Pysa.Ast
