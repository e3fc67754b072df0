/-
  Subject: LOOKING A NAME UP IN NESTED SCOPES (`scope.ml`, `Scope` and `ScopeStack`).

  * `lookup_eq_resolve` -- **the look-up resolves names like Python, in blocks with the collected
    names**;
  * `lookup_python_iff` -- **it finds a name in the scope to which Python resolves it if and only if
    that scope also binds it in a place that the collectors look at**, and it is no target of the
    comprehension where it is used;
  * `Sample.lookup_not_python` -- a name that is bound in the type of a handler is not found.
-/
import Pysa.Analysis.Binding
import Pysa.Ast.Blocks
import Pysa.Interprocedural.ResolveUserQualifiedName

namespace Pysa.Ast

open LexicalScope (AccessKind Frame Locality Narrower Place)

variable {L O F : Type}

/-! ## 1. Scopes -/

namespace Binding

/-- `of_parameter`, over the parameters. -/
def ofParameters (sofar : List (Binding L O F)) (index : ℕ) :
    List (Parameter L O F) → List (Binding L O F)
  | [] => sofar
  | .parameter location name _ annotation :: tail =>
    let star :=
      match (Identifier.splitStar name).1 with
      | "**" => some BindingStar.twice
      | "*" => some BindingStar.once
      | _ => none
    ofParameters (⟨.parameterName index annotation star, (Identifier.splitStar name).2,
      location⟩ :: sofar) (index + 1) tail

def ofGenerators (sofar : List (Binding L O F)) : List (Generator L O F) → List (Binding L O F)
  | [] => sofar
  | .generator target _ _ _ :: tail =>
    ofGenerators (ofUnannotatedTarget .comprehensionTarget sofar target) tail

end Binding

mutual

/-- `globals_of_statement` and `nonlocals_of_statement`: they differ in what they read off the
    statements that are not compound. -/
def declarationsOfStatement (declared : Statement L O F → List String) (sofar : List String) :
    StatementNode L O F → List String
  | .node _ statement => declarationsOfStatementValue declared sofar statement

def declarationsOfStatementValue (declared : Statement L O F → List String)
    (sofar : List String) : Statement L O F → List String
  | .forLoop _ _ body orelse =>
    declarationsOfStatements declared (declarationsOfStatements declared sofar body) orelse
  | .ifThen _ body orelse =>
    declarationsOfStatements declared (declarationsOfStatements declared sofar body) orelse
  | .whileLoop _ body orelse =>
    declarationsOfStatements declared (declarationsOfStatements declared sofar body) orelse
  | .matchCases _ cases => declarationsOfCases declared sofar cases
  | .tryBlock body handlers orelse finally_ =>
    declarationsOfStatements declared (declarationsOfStatements declared
      (declarationsOfHandlers declared (declarationsOfStatements declared sofar body) handlers)
        orelse) finally_
  | .withBlock _ body => declarationsOfStatements declared sofar body
  | .classDefinition _ _ _ _ => sofar
  | .define _ _ => sofar
  | statement => (declared statement).reverse ++ sofar

def declarationsOfStatements (declared : Statement L O F → List String) (sofar : List String) :
    List (StatementNode L O F) → List String
  | [] => sofar
  | head :: tail =>
    declarationsOfStatements declared (declarationsOfStatement declared sofar head) tail

def declarationsOfCases (declared : Statement L O F → List String) (sofar : List String) :
    List (Case L O F) → List String
  | [] => sofar
  | .case _ _ body :: tail =>
    declarationsOfCases declared (declarationsOfStatements declared sofar body) tail

def declarationsOfHandlers (declared : Statement L O F → List String) (sofar : List String) :
    List (TryHandler L O F) → List String
  | [] => sofar
  | .handler _ _ body :: tail =>
    declarationsOfHandlers declared (declarationsOfStatements declared sofar body) tail

end

def globalsOfStatements (sofar : List String) (statements : List (StatementNode L O F)) :
    List String :=
  declarationsOfStatements globalNames sofar statements

def nonlocalsOfStatements (sofar : List String) (statements : List (StatementNode L O F)) :
    List String :=
  declarationsOfStatements nonlocalNames sofar statements

namespace Scope

def isToplevel (signature : Signature L O F) : Bool :=
  QualifiedNames.Reference.last signature.name = "$toplevel"

def ofDefine (signature : Signature L O F) (body : List (StatementNode L O F)) :
    Option (Scope L O F) :=
  if isToplevel signature then none
  else
    let globals := (globalsOfStatements [] body).toFinset
    let nonlocals := (nonlocalsOfStatements [] body).toFinset
    let parameterBindings := Binding.ofParameters [] 0 signature.parameters
    some
      { kind := .define signature
        globals := globals
        nonlocals := nonlocals
        bindings := createMap globals nonlocals (Binding.ofStatements parameterBindings body) }

def ofComprehension (generators : List (Generator L O F)) : Scope L O F where
  kind := .comprehension
  globals := ∅
  nonlocals := ∅
  bindings :=
    createMap ∅ ∅ ((Binding.ofGenerators [] generators).filter Binding.isNotWalrusBinding)

def ofExpression : ExpressionNode L O F → Option (Scope L O F)
  | .node _ (.lambda parameters body) =>
    some
      { kind := .lambda
        globals := ∅
        nonlocals := ∅
        bindings := createMap ∅ ∅
          (Binding.ofExpression (Binding.ofParameters [] 0 parameters) body) }
  | .node _ (.dictionaryComprehension _ generators) => some (ofComprehension generators)
  | .node _ (.generator _ generators) => some (ofComprehension generators)
  | .node _ (.listComprehension _ generators) => some (ofComprehension generators)
  | .node _ (.setComprehension _ generators) => some (ofComprehension generators)
  | _ => none

def lookupBindings (scope : Scope L O F) (name : String) : Option (Binding L O F) :=
  scope.bindings.lookup name

/-- `Scope.Lookup.t`. -/
inductive Lookup (L O F : Type) where
  | binding (binding : Binding L O F)
  | global
  | nonlocal

def lookup (scope : Scope L O F) (name : String) : Option (Lookup L O F) :=
  if name ∈ scope.globals then some .global
  else if name ∈ scope.nonlocals then some .nonlocal
  else (scope.lookupBindings name).map .binding

end Scope

/-! ## 2. Stacks -/

structure Access (L O F : Type) where
  kind : AccessKind
  binding : Binding L O F
  scope : Scope L O F

/-- The kind of an access and its scope. -/
def Access.found (access : Access L O F) : AccessKind × Scope L O F := (access.kind, access.scope)

/-- The local scopes are listed from the inside. -/
structure ScopeStack (L O F : Type) where
  globalScope : Scope L O F
  locals : List (Scope L O F)

namespace ScopeStack

def create (source : Source L O F) : ScopeStack L O F := ⟨Scope.ofSource source, []⟩

def extend (stack : ScopeStack L O F) (scope : Scope L O F) : ScopeStack L O F :=
  { stack with locals := scope :: stack.locals }

/-- `lookup_outer_scopes` when no scope is left. -/
def lookupGlobalScope (globalScope : Scope L O F) (excludeGlobal : Bool) (name : String) :
    Option (Scope L O F × Binding L O F) :=
  if excludeGlobal then none
  else (globalScope.lookupBindings name).map fun binding => (globalScope, binding)

def lookupOuterScopes (globalScope : Scope L O F) (excludeGlobal : Bool) (name : String) :
    List (Scope L O F) → Option (Scope L O F × Binding L O F)
  | [] => lookupGlobalScope globalScope excludeGlobal name
  | scope :: rest =>
    match scope.lookup name with
    | some (.binding binding) => some (scope, binding)
    | some .global => lookupGlobalScope globalScope excludeGlobal name
    | some .nonlocal => lookupOuterScopes globalScope excludeGlobal name rest
    | none => lookupOuterScopes globalScope excludeGlobal name rest

def lookup (stack : ScopeStack L O F) (name : String) : Option (Access L O F) :=
  match stack.locals with
  | [] =>
    (stack.globalScope.lookupBindings name).map fun binding =>
      ⟨.currentScope, binding, stack.globalScope⟩
  | currentScope :: rest =>
    match currentScope.lookup name with
    | some (.binding binding) => some ⟨.currentScope, binding, currentScope⟩
    | some .global =>
      (stack.globalScope.lookupBindings name).map fun binding =>
        ⟨.outerScope .global, binding, stack.globalScope⟩
    | some .nonlocal =>
      (lookupOuterScopes stack.globalScope true name rest).map fun found =>
        ⟨.outerScope .nonlocal, found.2, found.1⟩
    | none =>
      (lookupOuterScopes stack.globalScope false name rest).map fun found =>
        ⟨.outerScope .undeclared, found.2, found.1⟩

end ScopeStack

/-- The scope of a block: `of_define` and `of_expression`. -/
def Block.scope : Block L O F → Option (Scope L O F)
  | .define signature body => Scope.ofDefine signature body
  | .expression value => Scope.ofExpression value

/-- The stack inside nested blocks, which are listed from the inside: that of the module, extended
    by the scope of one block after the other. -/
def ScopeStack.ofBlocks (source : Source L O F) :
    List (Block L O F) → Option (ScopeStack L O F)
  | [] => some (create source)
  | block :: rest => (ofBlocks source rest).bind fun stack => block.scope.map stack.extend

/-! ## 3. The names of a scope -/

mutual

theorem mem_declarationsOfStatement {declared : Statement L O F → List String}
    {sofar : List String} {x : String} (statement : StatementNode L O F) :
    x ∈ declarationsOfStatement declared sofar statement ↔
      x ∈ declaredNames false declared statement ∨ x ∈ sofar := by
  cases statement with
  | node location value => exact mem_declarationsOfStatementValue value

theorem mem_declarationsOfStatementValue {declared : Statement L O F → List String}
    {sofar : List String} {x : String} (statement : Statement L O F) :
    x ∈ declarationsOfStatementValue declared sofar statement ↔
      x ∈ declaredStatementNames false declared statement ∨ x ∈ sofar := by
  cases statement with
  | forLoop target iterator body orelse =>
    rw [declarationsOfStatementValue, mem_declarationsOfStatements orelse,
      mem_declarationsOfStatements body, declaredStatementNames, List.mem_append]
    tauto
  | ifThen test body orelse =>
    rw [declarationsOfStatementValue, mem_declarationsOfStatements orelse,
      mem_declarationsOfStatements body, declaredStatementNames, List.mem_append]
    tauto
  | whileLoop test body orelse =>
    rw [declarationsOfStatementValue, mem_declarationsOfStatements orelse,
      mem_declarationsOfStatements body, declaredStatementNames, List.mem_append]
    tauto
  | matchCases subject cases => exact mem_declarationsOfCases cases
  | tryBlock body handlers orelse finally_ =>
    rw [declarationsOfStatementValue, mem_declarationsOfStatements finally_,
      mem_declarationsOfStatements orelse, mem_declarationsOfHandlers handlers,
      mem_declarationsOfStatements body, declaredStatementNames, List.mem_append,
      List.mem_append, List.mem_append]
    tauto
  | withBlock items body => exact mem_declarationsOfStatements body
  | classDefinition name baseArguments decorators body => exact (or_iff_right List.not_mem_nil).symm
  | define signature body => exact (or_iff_right List.not_mem_nil).symm
  | _ => simp only [declarationsOfStatementValue, declaredStatementNames, List.mem_append,
      List.mem_reverse]

theorem mem_declarationsOfStatements {declared : Statement L O F → List String}
    {sofar : List String} {x : String} (statements : List (StatementNode L O F)) :
    x ∈ declarationsOfStatements declared sofar statements ↔
      x ∈ declaredNamesList false declared statements ∨ x ∈ sofar := by
  cases statements with
  | nil => exact (or_iff_right List.not_mem_nil).symm
  | cons head tail =>
    rw [declarationsOfStatements, mem_declarationsOfStatements tail,
      mem_declarationsOfStatement head, declaredNamesList, List.mem_append]
    tauto

theorem mem_declarationsOfCases {declared : Statement L O F → List String}
    {sofar : List String} {x : String} (cases_ : List (Case L O F)) :
    x ∈ declarationsOfCases declared sofar cases_ ↔
      x ∈ declaredCaseNames false declared cases_ ∨ x ∈ sofar := by
  cases cases_ with
  | nil => exact (or_iff_right List.not_mem_nil).symm
  | cons head tail =>
    cases head with
    | case pattern guard body =>
      rw [declarationsOfCases, mem_declarationsOfCases tail,
        mem_declarationsOfStatements body, declaredCaseNames, List.mem_append]
      tauto

theorem mem_declarationsOfHandlers {declared : Statement L O F → List String}
    {sofar : List String} {x : String} (handlers : List (TryHandler L O F)) :
    x ∈ declarationsOfHandlers declared sofar handlers ↔
      x ∈ declaredHandlerNames false declared handlers ∨ x ∈ sofar := by
  cases handlers with
  | nil => exact (or_iff_right List.not_mem_nil).symm
  | cons head tail =>
    cases head with
    | handler kind name body =>
      rw [declarationsOfHandlers, mem_declarationsOfHandlers tail,
        mem_declarationsOfStatements body, declaredHandlerNames, List.mem_append]
      tauto

end

namespace Binding

theorem mem_ofParameters {sofar : List (Binding L O F)} {index : ℕ} {x : String}
    (parameters : List (Parameter L O F)) :
    x ∈ (ofParameters sofar index parameters).map name ↔
      x ∈ parameterIdentifiers parameters ∨ x ∈ sofar.map name := by
  induction parameters generalizing sofar index with
  | nil => exact (or_iff_right List.not_mem_nil).symm
  | cons head tail ih =>
    cases head with
    | parameter location identifier value annotation =>
      rw [ofParameters, ih, parameterIdentifiers, List.map_cons, List.mem_cons, List.mem_cons]
      tauto

theorem mem_ofGenerators {sofar : List (Binding L O F)} {x : String}
    (generators : List (Generator L O F)) :
    x ∈ ((ofGenerators sofar generators).filter isNotWalrusBinding).map name ↔
      x ∈ generatorTargets generators ∨ x ∈ (sofar.filter isNotWalrusBinding).map name := by
  induction generators generalizing sofar with
  | nil => exact (or_iff_right List.not_mem_nil).symm
  | cons head tail ih =>
    cases head with
    | generator target iterator conditions async =>
      have htarget : x ∈ ((ofUnannotatedTarget .comprehensionTarget sofar target).filter
          isNotWalrusBinding).map name ↔
            x ∈ bareNames target ∨ x ∈ (sofar.filter isNotWalrusBinding).map name :=
        (adds_ofUnannotatedTarget .comprehensionTarget target).mem_filter_iff
      rw [ofGenerators, ih, htarget, generatorTargets, List.mem_append]
      tauto

end Binding

/-- The scope has the declarations and the bindings of the frame. -/
structure Scope.Reads (scope : Scope L O F) (frame : Frame String) : Prop where
  globals : scope.globals = frame.globals
  nonlocals : scope.nonlocals = frame.nonlocals
  bindings : ∀ x, x ∈ scope.bindings ↔
    x ∈ frame.locals ∧ x ∉ frame.globals ∧ x ∉ frame.nonlocals

theorem Scope.reads_ofDefine {signature : Signature L O F} {body : List (StatementNode L O F)}
    {scope : Scope L O F} (h : ofDefine signature body = some scope) :
    scope.Reads ((Block.define signature body).frame .seen) := by
  have hdeclared : ∀ declared : Statement L O F → List String,
      (declarationsOfStatements declared [] body).toFinset =
        (declaredNamesList false declared body).toFinset := by
    intro declared
    ext x
    rw [List.mem_toFinset, List.mem_toFinset, mem_declarationsOfStatements]
    exact or_iff_left List.not_mem_nil
  rw [ofDefine] at h
  split at h
  · cases h
  · rw [← Option.some.inj h]
    refine ⟨hdeclared globalNames, hdeclared nonlocalNames, fun x => ?_⟩
    have hlocals : x ∈ ((Block.define signature body).frame .seen).locals ↔
        x ∈ (Binding.ofStatements (Binding.ofParameters [] 0 signature.parameters) body).map
          Binding.name := by
      rw [(Binding.collects_ofStatements body).mem_iff, Binding.mem_ofParameters, Block.frame,
        List.mem_toFinset, Block.locals, List.mem_append, List.mem_append]
      simp [skipped, or_comm]
    rw [hlocals]
    dsimp only
    rw [mem_createMap, globalsOfStatements, nonlocalsOfStatements, hdeclared, hdeclared]
    rfl

theorem Scope.reads_ofComprehension {generators : List (Generator L O F)} {frame : Frame String}
    (hframe : frame = ⟨∅, ∅, (generatorTargets generators).toFinset⟩) :
    (ofComprehension generators).Reads frame := by
  rw [hframe]
  refine ⟨rfl, rfl, fun x => ?_⟩
  rw [ofComprehension, mem_createMap, Binding.mem_ofGenerators, List.mem_toFinset]
  simp

theorem Scope.reads_ofExpression {value : ExpressionNode L O F} {scope : Scope L O F}
    (h : ofExpression value = some scope) :
    scope.Reads ((Block.expression value).frame .seen) := by
  cases value with
  | node location value =>
    cases value with
    | lambda parameters body =>
      rw [← Option.some.inj h]
      refine ⟨rfl, rfl, fun x => ?_⟩
      rw [mem_createMap, (Binding.collects_ofExpression body).mem_iff,
        Binding.mem_ofParameters, Block.frame, List.mem_toFinset, Block.locals,
        Block.expressionLocals, List.mem_append]
      simp [Block.globals, Block.nonlocals, or_comm]
    | dictionaryComprehension element generators =>
      rw [← Option.some.inj h]
      exact reads_ofComprehension rfl
    | generator element generators =>
      rw [← Option.some.inj h]
      exact reads_ofComprehension rfl
    | listComprehension element generators =>
      rw [← Option.some.inj h]
      exact reads_ofComprehension rfl
    | setComprehension element generators =>
      rw [← Option.some.inj h]
      exact reads_ofComprehension rfl
    | _ => cases h

/-- The scope of a block has what the collectors find in it. -/
theorem Scope.reads_of_block {block : Block L O F} {scope : Scope L O F}
    (h : block.scope = some scope) : scope.Reads (block.frame .seen) := by
  cases block with
  | define signature body => exact reads_ofDefine h
  | expression value => exact reads_ofExpression h

/-! ## 4. The look-up -/

namespace Scope

variable {scope : Scope L O F} {frame : Frame String} {x : String}

theorem lookupBindings_eq_none (h : x ∉ scope.bindings) : scope.lookupBindings x = none :=
  AList.lookup_eq_none.mpr h

theorem exists_lookupBindings (h : x ∈ scope.bindings) :
    ∃ binding, scope.lookupBindings x = some binding :=
  Option.isSome_iff_exists.mp (AList.lookup_isSome.mpr h)

theorem mem_of_lookupBindings {binding : Binding L O F}
    (h : scope.lookupBindings x = some binding) : x ∈ scope.bindings :=
  AList.lookup_isSome.mp (Option.isSome_iff_exists.mpr ⟨binding, h⟩)

theorem mem_of_lookup {binding : Binding L O F} (h : scope.lookup x = some (.binding binding)) :
    x ∈ scope.bindings := by
  rw [lookup] at h
  split at h
  · cases h
  · split at h
    · cases h
    · obtain ⟨found, hfound, -⟩ := Option.map_eq_some_iff.mp h
      exact mem_of_lookupBindings hfound

theorem Reads.lookup_global (h : scope.Reads frame) (hglobal : x ∈ frame.globals) :
    scope.lookup x = some .global := by
  rw [lookup, h.globals, if_pos hglobal]

theorem Reads.lookup_of_nonlocal (h : scope.Reads frame) (hglobal : x ∉ frame.globals)
    (hnonlocal : x ∈ frame.nonlocals) : scope.lookup x = some .nonlocal := by
  rw [lookup, h.globals, if_neg hglobal, h.nonlocals, if_pos hnonlocal]

theorem Reads.lookup_local (h : scope.Reads frame) (hglobal : x ∉ frame.globals)
    (hnonlocal : x ∉ frame.nonlocals) (hlocal : x ∈ frame.locals) :
    ∃ binding, scope.lookup x = some (.binding binding) := by
  obtain ⟨binding, hbinding⟩ :=
    exists_lookupBindings ((h.bindings x).mpr ⟨hlocal, hglobal, hnonlocal⟩)
  refine ⟨binding, ?_⟩
  rw [lookup, h.globals, if_neg hglobal, h.nonlocals, if_neg hnonlocal, hbinding]
  rfl

theorem Reads.lookup_none (h : scope.Reads frame) (hglobal : x ∉ frame.globals)
    (hnonlocal : x ∉ frame.nonlocals) (hlocal : x ∉ frame.locals) : scope.lookup x = none := by
  have hbinding := lookupBindings_eq_none fun hx => hlocal ((h.bindings x).mp hx).1
  rw [lookup, h.globals, if_neg hglobal, h.nonlocals, if_neg hnonlocal, hbinding]
  rfl

end Scope

namespace ScopeStack

variable {globalScope : Scope L O F} {module : Finset String} {scopes : List (Scope L O F)}
  {frames : List (Frame String)} {x : String}

theorem lookupGlobalScope_eq (hmodule : ∀ x, x ∈ globalScope.bindings ↔ x ∈ module)
    (excludeGlobal : Bool) (scopes : List (Scope L O F)) :
    (lookupGlobalScope globalScope excludeGlobal x).map Prod.fst =
      (LexicalScope.inModule module x excludeGlobal).bind fun place =>
        place.at_ globalScope scopes := by
  rw [lookupGlobalScope, LexicalScope.inModule]
  cases excludeGlobal with
  | true => rfl
  | false =>
    by_cases hx : x ∈ module
    · obtain ⟨binding, hbinding⟩ := Scope.exists_lookupBindings ((hmodule x).mpr hx)
      have hfound : false = false ∧ x ∈ module := And.intro rfl hx
      rw [hbinding, if_pos hfound]
      rfl
    · have hnone := Scope.lookupBindings_eq_none fun h => hx ((hmodule x).mp h)
      have hmissing : ¬ (false = false ∧ x ∈ module) := fun h => hx (And.right h)
      rw [hnone, if_neg hmissing]
      rfl

theorem bind_outward (place : Option Place) (scope : Scope L O F) (rest : List (Scope L O F)) :
    (place.map Place.outward).bind (fun place => place.at_ globalScope (scope :: rest)) =
      place.bind fun place => place.at_ globalScope rest := by
  cases place with
  | none => rfl
  | some place => exact Place.at_outward globalScope scope rest place

theorem lookupOuterScopes_eq (hmodule : ∀ x, x ∈ globalScope.bindings ↔ x ∈ module)
    (excludeGlobal : Bool) (hreads : List.Forall₂ Scope.Reads scopes frames) :
    (lookupOuterScopes globalScope excludeGlobal x scopes).map Prod.fst =
      (LexicalScope.enclosing module x excludeGlobal frames).bind fun place =>
        place.at_ globalScope scopes := by
  induction hreads with
  | nil => exact lookupGlobalScope_eq hmodule excludeGlobal []
  | @cons scope frame rest rest' hscope hrest ih =>
    rw [lookupOuterScopes, LexicalScope.enclosing]
    by_cases hglobal : x ∈ frame.globals
    · rw [hscope.lookup_global hglobal, if_pos hglobal]
      exact lookupGlobalScope_eq hmodule excludeGlobal (scope :: rest)
    · rw [if_neg hglobal]
      by_cases hnonlocal : x ∈ frame.nonlocals
      · rw [hscope.lookup_of_nonlocal hglobal hnonlocal, if_pos hnonlocal, bind_outward]
        exact ih
      · rw [if_neg hnonlocal]
        by_cases hlocal : x ∈ frame.locals
        · obtain ⟨binding, hbinding⟩ := hscope.lookup_local hglobal hnonlocal hlocal
          rw [hbinding, if_pos hlocal]
          rfl
        · rw [hscope.lookup_none hglobal hnonlocal hlocal, if_neg hlocal, bind_outward]
          exact ih

/-- The scope at a place of the stack. -/
def scopeAt (stack : ScopeStack L O F) (found : AccessKind × Place) :
    Option (AccessKind × Scope L O F) :=
  (found.2.at_ stack.globalScope stack.locals).map fun scope => (found.1, scope)

/-- What is found in the enclosing scopes, with the kind of the access. -/
theorem map_enclosing {stack : ScopeStack L O F} (kind : AccessKind) (scope : Scope L O F)
    (rest : List (Scope L O F)) (hlocals : stack.locals = scope :: rest)
    {found : Option (Scope L O F × Binding L O F)} {place : Option Place}
    (h : found.map Prod.fst = place.bind fun place => place.at_ stack.globalScope rest) :
    (found.map fun found => (⟨kind, found.2, found.1⟩ : Access L O F)).map Access.found =
      (place.map fun place => (kind, place.outward)).bind stack.scopeAt := by
  have hleft : (found.map fun found => (⟨kind, found.2, found.1⟩ : Access L O F)).map
      Access.found = (found.map Prod.fst).map fun scope => (kind, scope) := by
    cases found <;> rfl
  rw [hleft, h]
  cases place with
  | none => rfl
  | some place =>
    show (place.at_ stack.globalScope rest).map (fun scope => (kind, scope)) =
      stack.scopeAt (kind, place.outward)
    rw [scopeAt, hlocals, Place.at_outward]

theorem map_module {stack : ScopeStack L O F}
    (hmodule : ∀ x, x ∈ stack.globalScope.bindings ↔ x ∈ module) (kind : AccessKind) :
    ((stack.globalScope.lookupBindings x).map fun binding =>
        (⟨kind, binding, stack.globalScope⟩ : Access L O F)).map Access.found =
      ((LexicalScope.inModule module x false).map fun place => (kind, place)).bind
        stack.scopeAt := by
  have h := lookupGlobalScope_eq (x := x) hmodule false stack.locals
  rw [lookupGlobalScope, if_neg Bool.false_ne_true] at h
  have hleft : ((stack.globalScope.lookupBindings x).map fun binding =>
      (⟨kind, binding, stack.globalScope⟩ : Access L O F)).map Access.found =
        (((stack.globalScope.lookupBindings x).map fun binding =>
          (stack.globalScope, binding)).map Prod.fst).map fun scope => (kind, scope) := by
    cases stack.globalScope.lookupBindings x <;> rfl
  rw [hleft, h]
  cases LexicalScope.inModule module x false <;> rfl

/-- **The look-up resolves names like Python, in blocks with the collected names.** -/
theorem lookup_eq_resolve {stack : ScopeStack L O F}
    (hmodule : ∀ x, x ∈ stack.globalScope.bindings ↔ x ∈ module)
    (hreads : List.Forall₂ Scope.Reads stack.locals frames) :
    (stack.lookup x).map Access.found =
      (LexicalScope.resolve module x frames).bind stack.scopeAt := by
  cases hlocals : stack.locals with
  | nil =>
    rw [hlocals] at hreads
    cases hreads
    rw [lookup, hlocals]
    exact map_module hmodule .currentScope
  | cons scope rest =>
    rw [hlocals] at hreads
    cases hreads with
    | @cons _ frame _ frames hscope hrest =>
      rw [lookup, hlocals, LexicalScope.resolve]
      dsimp only
      by_cases hglobal : x ∈ frame.globals
      · rw [hscope.lookup_global hglobal, if_pos hglobal]
        exact map_module hmodule (.outerScope .global)
      · rw [if_neg hglobal]
        by_cases hnonlocal : x ∈ frame.nonlocals
        · rw [hscope.lookup_of_nonlocal hglobal hnonlocal, if_pos hnonlocal]
          exact map_enclosing _ scope rest hlocals (lookupOuterScopes_eq hmodule true hrest)
        · rw [if_neg hnonlocal]
          by_cases hlocal : x ∈ frame.locals
          · obtain ⟨binding, hbinding⟩ := hscope.lookup_local hglobal hnonlocal hlocal
            rw [hbinding, if_pos hlocal]
            show some (AccessKind.currentScope, scope) =
              stack.scopeAt (.currentScope, .block 0)
            rw [scopeAt, hlocals]
            rfl
          · rw [hscope.lookup_none hglobal hnonlocal hlocal, if_neg hlocal]
            exact map_enclosing _ scope rest hlocals
              (lookupOuterScopes_eq hmodule false hrest)

theorem mem_of_lookupOuterScopes {excludeGlobal : Bool} {found : Scope L O F × Binding L O F}
    (h : lookupOuterScopes globalScope excludeGlobal x scopes = some found) :
    x ∈ found.1.bindings := by
  have hglobalScope : lookupGlobalScope globalScope excludeGlobal x = some found →
      x ∈ found.1.bindings := by
    intro h
    rw [lookupGlobalScope] at h
    split at h
    · cases h
    · obtain ⟨binding, hbinding, hfound⟩ := Option.map_eq_some_iff.mp h
      rw [← hfound]
      exact Scope.mem_of_lookupBindings hbinding
  induction scopes with
  | nil => exact hglobalScope h
  | cons scope rest ih =>
    rw [lookupOuterScopes] at h
    split at h
    · rename_i binding hbinding
      rw [← Option.some.inj h]
      exact Scope.mem_of_lookup hbinding
    · exact hglobalScope h
    · exact ih h
    · exact ih h

/-- The scope of an access has a binding of the name. -/
theorem mem_of_lookup {stack : ScopeStack L O F} {access : Access L O F}
    (h : stack.lookup x = some access) : x ∈ access.scope.bindings := by
  have hglobalScope : ∀ kind : AccessKind,
      (stack.globalScope.lookupBindings x).map (fun binding =>
        (⟨kind, binding, stack.globalScope⟩ : Access L O F)) = some access →
          x ∈ access.scope.bindings := by
    intro kind h
    obtain ⟨binding, hbinding, haccess⟩ := Option.map_eq_some_iff.mp h
    rw [← haccess]
    exact Scope.mem_of_lookupBindings hbinding
  have houter : ∀ (kind : AccessKind) (excludeGlobal : Bool) (rest : List (Scope L O F)),
      (lookupOuterScopes stack.globalScope excludeGlobal x rest).map (fun found =>
        (⟨kind, found.2, found.1⟩ : Access L O F)) = some access → x ∈ access.scope.bindings := by
    intro kind excludeGlobal rest h
    obtain ⟨found, hfound, haccess⟩ := Option.map_eq_some_iff.mp h
    rw [← haccess]
    exact mem_of_lookupOuterScopes hfound
  rw [lookup] at h
  split at h
  · exact hglobalScope _ h
  · split at h
    · rename_i binding hbinding
      rw [← Option.some.inj h]
      exact Scope.mem_of_lookup hbinding
    · exact hglobalScope _ h
    · exact houter _ _ _ h
    · exact houter _ _ _ h

/-- A name of the scope at a place is bound at that place. -/
theorem has_of_mem {place : Place} {scope : Scope L O F}
    (hmodule : ∀ x, x ∈ globalScope.bindings ↔ x ∈ module)
    (hreads : List.Forall₂ Scope.Reads scopes frames)
    (hscope : place.at_ globalScope scopes = some scope) (hx : x ∈ scope.bindings) :
    LexicalScope.Has module frames x place := by
  induction hreads generalizing place with
  | nil =>
    cases place with
    | module =>
      rw [← Option.some.inj hscope] at hx
      exact LexicalScope.has_module.mpr ((hmodule x).mp hx)
    | block depth => cases hscope
  | @cons head frame rest rest' hhead hrest ih =>
    cases place with
    | module =>
      rw [← Option.some.inj hscope] at hx
      exact LexicalScope.has_module.mpr ((hmodule x).mp hx)
    | block depth =>
      cases depth with
      | zero =>
        rw [← Option.some.inj hscope] at hx
        exact LexicalScope.has_here.mpr ((hhead.bindings x).mp hx).1
      | succ depth =>
        show LexicalScope.Has module (frame :: rest') x (Place.outward (.block depth))
        exact LexicalScope.has_outward.mpr (ih hscope)

/-- The stack inside blocks reads them, without the places that the collectors skip. -/
theorem reads_ofBlocks {source : Source L O F} {blocks : List (Block L O F)}
    {stack : ScopeStack L O F} (h : ofBlocks source blocks = some stack) :
    stack.globalScope = Scope.ofSource source ∧
      List.Forall₂ Scope.Reads stack.locals (blocks.map (Block.frame .seen)) := by
  induction blocks generalizing stack with
  | nil =>
    rw [← Option.some.inj h]
    exact ⟨rfl, .nil⟩
  | cons block rest ih =>
    obtain ⟨outer, houter, h⟩ := Option.bind_eq_some_iff.mp h
    obtain ⟨scope, hscope, hstack⟩ := Option.map_eq_some_iff.mp h
    obtain ⟨hglobalScope, hreads⟩ := ih houter
    rw [← hstack]
    exact ⟨hglobalScope, .cons (Scope.reads_of_block hscope) hreads⟩

/-- What is bound at a place, in terms of the names that the collectors find. -/
theorem has_collected_iff {source : Source L O F} {blocks : List (Block L O F)} {place : Place} :
    LexicalScope.Has (moduleNames .seen source).toFinset (blocks.map (Block.frame .seen)) x place ↔
      ∃ names, place.at_ (moduleNames .seen source) (blocks.map (Block.locals .seen)) = some names ∧
        x ∈ names := by
  have hlocals : (blocks.map (Block.frame .seen)).map Frame.locals =
      (blocks.map (Block.locals .seen)).map List.toFinset := by
    rw [List.map_map, List.map_map]
    rfl
  rw [LexicalScope.Has, hlocals, Place.at_map]
  constructor
  · intro h
    obtain ⟨names, hnames, hx⟩ := h
    obtain ⟨found, hfound, heq⟩ := Option.map_eq_some_iff.mp hnames
    rw [← heq, List.mem_toFinset] at hx
    exact ⟨found, hfound, hx⟩
  · intro h
    obtain ⟨names, hnames, hx⟩ := h
    rw [hnames]
    exact ⟨names.toFinset, rfl, List.mem_toFinset.mpr hx⟩

theorem scopeAt_isSome {source : Source L O F} {blocks : List (Block L O F)}
    {stack : ScopeStack L O F} (h : ofBlocks source blocks = some stack) {kind : AccessKind}
    {place : Place} (hplace : LexicalScope.resolve (moduleNames .all source).toFinset x
      (blocks.map (Block.frame .all)) = some (kind, place)) (kind' : AccessKind) :
    ∃ scope, stack.scopeAt (kind', place) = some (kind', scope) := by
  obtain ⟨-, hreads⟩ := reads_ofBlocks h
  obtain ⟨names, hnames, -⟩ := LexicalScope.resolve_has hplace
  have hlength : stack.locals.length =
      ((blocks.map (Block.frame .all)).map Frame.locals).length := by
    rw [hreads.length_eq, List.length_map, List.length_map, List.length_map]
  have hsome : (place.at_ stack.globalScope stack.locals).isSome := by
    rw [Place.isSome_at stack.globalScope (moduleNames .all source).toFinset hlength place,
      hnames]
    rfl
  obtain ⟨scope, hscope⟩ := Option.isSome_iff_exists.mp hsome
  refine ⟨scope, ?_⟩
  rw [scopeAt, hscope]
  rfl

theorem mem_globalScope {source : Source L O F} {blocks : List (Block L O F)}
    {stack : ScopeStack L O F} (h : ofBlocks source blocks = some stack) (x : String) :
    x ∈ stack.globalScope.bindings ↔ x ∈ (moduleNames .seen source).toFinset := by
  rw [(reads_ofBlocks h).1, Scope.mem_ofSource_iff, List.mem_toFinset, moduleNames, List.mem_append]
  exact (or_iff_left List.not_mem_nil).symm

/-- The look-up finds what undeclared targets would be resolved to, if the collectors see it. -/
theorem lookup_resolve_iff {source : Source L O F} {blocks : List (Block L O F)}
    {stack : ScopeStack L O F} (h : ofBlocks source blocks = some stack)
    {resolved : Option (AccessKind × Place)}
    (hresolve : LexicalScope.resolve (moduleNames .all source).toFinset x
      (blocks.map (Block.frame .all)) = resolved) :
    (stack.lookup x).map Access.found = resolved.bind stack.scopeAt ↔
      ∀ kind place, resolved = some (kind, place) →
        ∃ names, place.at_ (moduleNames .seen source) (blocks.map (Block.locals .seen)) =
          some names ∧ x ∈ names := by
  obtain ⟨-, hreads⟩ := reads_ofBlocks h
  have hmodule := mem_globalScope h
  have hnarrow := LexicalScope.resolve_eq_iff (x := x)
    (toFinset_subset (moduleNames_subset source)) (frames_narrower blocks)
  constructor
  · intro hfound kind place hplace
    rw [← has_collected_iff]
    obtain ⟨scope, hscope⟩ := scopeAt_isSome h (hresolve.trans hplace) kind
    have haccess : (stack.lookup x).map Access.found = some (kind, scope) := by
      rw [hfound, hplace]
      exact hscope
    obtain ⟨access, hlookup, heq⟩ := Option.map_eq_some_iff.mp haccess
    have hx := mem_of_lookup hlookup
    rw [show access.scope = scope from congrArg Prod.snd heq] at hx
    refine has_of_mem hmodule hreads ?_ hx
    obtain ⟨found, hat, hpair⟩ := Option.map_eq_some_iff.mp hscope
    rw [hat, (Prod.mk.inj hpair).2]
  · intro hplaces
    rw [lookup_eq_resolve hmodule hreads, ← hresolve, hnarrow.mpr]
    intro kind place hplace
    exact has_collected_iff.mpr (hplaces kind place (hresolve.symm.trans hplace))

/-- A comprehension declares nothing: the look-up does not find a target as Python does. -/
theorem lookup_target {source : Source L O F} {blocks : List (Block L O F)}
    {stack : ScopeStack L O F} (h : ofBlocks source blocks = some stack)
    (htarget : IsTarget x blocks) (scope : Scope L O F) :
    (stack.lookup x).map Access.found ≠ some (.outerScope (targetLocality x blocks), scope) := by
  intro hfound
  rw [lookup_eq_resolve (mem_globalScope h) (reads_ofBlocks h).2] at hfound
  obtain ⟨⟨kind, place⟩, hresolve, hscope⟩ := Option.bind_eq_some_iff.mp hfound
  obtain ⟨found, -, hpair⟩ := Option.map_eq_some_iff.mp hscope
  have hkind : kind = .outerScope (targetLocality x blocks) := (Prod.mk.inj hpair).1
  cases blocks with
  | nil => exact htarget
  | cons block rest =>
    cases block with
    | define signature body => exact absurd htarget List.not_mem_nil
    | expression value =>
      rcases LexicalScope.resolve_undeclared (Finset.notMem_empty x) (Finset.notMem_empty x)
        hresolve with hcurrent | hundeclared
      · cases hkind.symm.trans hcurrent
      · exact targetLocality_ne x _ (AccessKind.outerScope.inj (hkind.symm.trans hundeclared))

/-- **Inside nested blocks, a name is looked up in the scope to which Python resolves it, and in the
    same way, if and only if it is no target of the comprehension where it is used, and that scope,
    where there is one, also binds it in a place that the collectors look at.** -/
theorem lookup_python_iff {source : Source L O F} {blocks : List (Block L O F)}
    {stack : ScopeStack L O F} (h : ofBlocks source blocks = some stack) (x : String) :
    (stack.lookup x).map Access.found = (resolvePython source blocks x).bind stack.scopeAt ↔
      ∀ kind place, resolvePython source blocks x = some (kind, place) → ¬ IsTarget x blocks ∧
        ∃ names, place.at_ (moduleNames .seen source) (blocks.map (Block.locals .seen)) =
          some names ∧ x ∈ names := by
  by_cases htarget : IsTarget x blocks
  · cases hresolve : LexicalScope.resolve (moduleNames .all source).toFinset x
      (blocks.map (Block.frame .all)) with
    | none =>
      have hnone : resolvePython source blocks x = none := by
        rw [resolvePython, hresolve]
        rfl
      rw [hnone]
      have hlookup := (lookup_resolve_iff h hresolve).mpr fun _ _ hplace => by cases hplace
      exact iff_of_true hlookup fun _ _ hplace => by cases hplace
    | some found =>
      have hsome : resolvePython source blocks x =
          some (.outerScope (targetLocality x blocks), found.2) := by
        rw [resolvePython, hresolve, Option.map_some, if_pos htarget]
      obtain ⟨scope, hscope⟩ := scopeAt_isSome h hresolve (.outerScope (targetLocality x blocks))
      rw [hsome]
      refine iff_of_false (fun hfound => ?_) fun hplaces => (hplaces _ _ rfl).1 htarget
      exact lookup_target h htarget scope (hfound.trans hscope)
  · have hsame : LexicalScope.resolve (moduleNames .all source).toFinset x
        (blocks.map (Block.frame .all)) = resolvePython source blocks x := by
      rw [resolvePython]
      simp only [if_neg htarget, Option.map_id']
    rw [lookup_resolve_iff h hsame]
    exact forall_congr' fun kind => forall_congr' fun place => forall_congr' fun _ =>
      (and_iff_right htarget).symm

namespace Sample

def name (identifier : String) : ExpressionNode Unit Unit Unit :=
  .node () (.name (.identifier identifier))

def signature (identifier : String) : Signature Unit Unit Unit := ⟨[identifier], [], [], none⟩

def emptySource : Source Unit Unit Unit := ⟨["example"], false, []⟩

/-- A try statement; the type of its handler assigns `Failure` to `error`. -/
def handling : Block Unit Unit Unit :=
  .define (signature "handling")
    [.node () (.tryBlock [.node () .pass]
      [.handler (some (.node () (.walrusOperator (name "error") (name "Failure") none))) none
        [.node () .pass]] [] [])]

/-- `[y for x in xs if (y := x)]`. -/
def filtered : ExpressionNode Unit Unit Unit :=
  .node () (.listComprehension (name "y") [.generator (name "x") (name "xs")
    [.node () (.walrusOperator (name "y") (name "x") none)] false])

def filtering : Block Unit Unit Unit :=
  .define (signature "filtering") [.node () (.returnValue (some filtered))]

/-- The symbol table declares the target nonlocal in the comprehension, which declares nothing. -/
example :
    ∃ stack access, ofBlocks emptySource [.expression filtered, filtering] = some stack ∧
      stack.lookup "y" = some access ∧ access.kind = .outerScope .undeclared ∧
      resolvePython emptySource [.expression filtered, filtering] "y" =
        some (.outerScope .nonlocal, .block 1) :=
  ⟨_, _, rfl, rfl, rfl, rfl⟩

/-- The name is local to the function, and is not found. -/
theorem lookup_not_python :
    ∃ stack, ofBlocks emptySource [handling] = some stack ∧ stack.lookup "error" = none ∧
      resolvePython emptySource [handling] "error" = some (.currentScope, .block 0) ∧
      (stack.lookup "error").map Access.found ≠
        (resolvePython emptySource [handling] "error").bind stack.scopeAt := by
  refine ⟨_, rfl, rfl, rfl, ?_⟩
  intro h
  cases h

/-- `x = 1` in a function, and `nonlocal x` in a function inside it. -/
def outer : Block Unit Unit Unit :=
  .define (signature "outer")
    [.node () (.assign (name "x") none (some (.node () (.constant (.integer 1)))))]

def inner : Block Unit Unit Unit := .define (signature "inner") [.node () (.nonlocal ["x"])]

theorem lookup_nonlocal :
    ∃ stack, ofBlocks emptySource [inner, outer] = some stack ∧
      (stack.lookup "x").map Access.found =
        (resolvePython emptySource [inner, outer] "x").bind stack.scopeAt := by
  refine ⟨_, rfl, (lookup_python_iff rfl "x").mpr fun kind place h => ?_⟩
  have hresolve : resolvePython emptySource [inner, outer] "x" =
      some (.outerScope .nonlocal, .block 1) := rfl
  rw [hresolve] at h
  rw [← (Prod.mk.inj (Option.some.inj h)).2]
  exact ⟨by decide, ["x"], rfl, List.mem_singleton_self "x"⟩

end Sample

end ScopeStack

end Pysa.Ast
