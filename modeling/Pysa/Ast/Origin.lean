/-
  Subject: ORIGINS OF ARTIFICIAL EXPRESSIONS (`Origin` in `expression.ml`). A kind is printed by
    one table and read by another.

  * `ppKindJson`, `kindFromJson` -- the two tables. The names in front of a colon and the names
    without one differ, and only a nested kind has `>` in its text, the last one before its head;
  * `Kind.Chain` -- the kinds that `create` nests, without separators in their identifiers;
  * `kindFromJson_ppKindJson` -- **what is read is what was printed, with the lists of
    `FunctionalEnumImplicitAuto` reversed**: the other lists are reversed before they are printed.
-/
import Pysa.Ast.Identifier
import Pysa.Ast.Location

namespace Pysa

open Text

/-! ## 1. Kinds -/

inductive Origin.Kind where
  | comparisonOperator
  | binaryOperator
  | unaryOperator
  | augmentedAssignDunderCall
  | augmentedAssignLHS
  | augmentedAssignRHS
  | augmentedAssignStatement
  | chainedAssign (index : BitVec 63)
  | qualification (identifiers : List Identifier)
  | subscriptSetItem
  | subscriptGetItem
  | forIter
  | forNext
  | forAwait
  | forAssign
  | generatorIter
  | generatorNext
  | generatorAwait
  | generatorAssign
  | withEnter
  | withAssign
  | inContains
  | inIter
  | inGetItem
  | inGetItemEq
  | slice
  | topLevelTupleAssign
  | missingStubCallable
  | typedDictImplicitClass
  | namedTupleImplicitFields
  | pyTorchRegisterBuffer
  | unionShorthand
  | negate
  | negateIs
  | negateIsNot
  | normalize
  | normalizeNotComparison
  | normalizeNotBoolOperator
  | tryHandlerIsInstance
  | tryHandlerAssign
  | namedTupleConstructorAssignment (name : Identifier)
  | dataclassImplicitField
  | dataclassImplicitDefault
  | matchTypingSequence
  | matchTypingMapping
  | matchAsComparisonEquals
  | matchAsWithCondition
  | matchClassArgs (index : BitVec 63)
  | matchClassGetAttr (index : BitVec 63)
  | matchClassArgsSubscript (index : BitVec 63)
  | matchClassKeywordAttribute (name : Identifier)
  | matchClassIsInstance
  | matchClassJoinConditions
  | matchMappingKeySubscript
  | matchMappingRestDict (name : Identifier)
  | matchMappingRestComparisonEquals (name : Identifier)
  | matchMappingIsInstance
  | matchMappingJoinConditions
  | matchOrJoinConditions
  | matchSingletonComparisonIs
  | matchSequenceRestList (name : Identifier)
  | matchSequenceRestSubscript (name : Identifier)
  | matchSequenceRestSlice (name : Identifier)
  | matchSequenceRestComparisonEquals (name : Identifier)
  | matchSequencePrefix (index : BitVec 63)
  | matchSequenceSuffix (index : BitVec 63)
  | matchSequenceIsInstance
  | matchSequenceJoinConditions
  | matchValueComparisonEquals
  | matchConditionWithGuard
  | resolveStrCall
  | strCallToDunderMethod
  | reprCall
  | absCall
  | iterCall
  | nextCall
  | implicitInitCall
  | selfImplicitTypeVar (name : Identifier)
  | selfImplicitTypeVarAssign
  | selfImplicitTypeVarQualification (name : Identifier) (attributes : List Identifier)
  | functionalEnumImplicitAuto (attributes : List Identifier)
  | functionalEnumImplicitAutoAssign
  | decoratorInlining
  | forDecoratedTarget
  | forDecoratedTargetCallee (identifiers : List Identifier)
  | formatStringImplicitStr
  | formatStringImplicitRepr
  | getAttrConstantLiteral
  | setAttrConstantLiteral
  | pysaCallRedirect (name : Identifier)
  | pysaHigherOrderParameter (index : BitVec 63)
  | forTestPurpose
  | forTypeChecking
  | nested (head tail : Kind)
  | pysaReturnShim

structure Origin where
  kind : Origin.Kind
  location : Location

namespace Origin

def create (base : Option Origin) (location : Location) (kind : Kind) : Origin :=
  match base with
  | some ⟨tail, location⟩ => ⟨.nested kind tail, location⟩
  | none => ⟨kind, location⟩

/-! ## 2. Printing -/

def ppKindJson : Kind → String
  | .comparisonOperator => "comparison"
  | .binaryOperator => "binary"
  | .unaryOperator => "unary"
  | .augmentedAssignDunderCall => "augmented-assign-dunder-call"
  | .augmentedAssignLHS => "augmented-assign-lhs"
  | .augmentedAssignRHS => "augmented-assign-rhs"
  | .augmentedAssignStatement => "augmented-assign-statement"
  | .chainedAssign index => "chained-assign:" ++ showInt index
  | .qualification identifiers => "qualification:" ++ ".".intercalate identifiers.reverse
  | .subscriptSetItem => "subscript-set-item"
  | .subscriptGetItem => "subscript-get-item"
  | .forIter => "for-iter"
  | .forNext => "for-next"
  | .forAwait => "for-await"
  | .forAssign => "for-assign"
  | .generatorIter => "generator-iter"
  | .generatorNext => "generator-next"
  | .generatorAwait => "generator-await"
  | .generatorAssign => "generator-assign"
  | .withEnter => "with-enter"
  | .withAssign => "with-assign"
  | .inContains => "in-contains"
  | .inIter => "in-iter"
  | .inGetItem => "in-get-item"
  | .inGetItemEq => "in-get-item-eq"
  | .slice => "slice"
  | .topLevelTupleAssign => "top-level-tuple-assign"
  | .missingStubCallable => "missing-stub-callable"
  | .typedDictImplicitClass => "typed-dict-implicit-class"
  | .namedTupleImplicitFields => "named-tuple-implicit-fields"
  | .pyTorchRegisterBuffer => "pytorch-register-buffer"
  | .unionShorthand => "union-shorthand"
  | .negate => "negate"
  | .negateIs => "negate-is"
  | .negateIsNot => "negate-is-not"
  | .normalize => "normalize"
  | .normalizeNotComparison => "normalize-not-comparison"
  | .normalizeNotBoolOperator => "normalize-not-bool-operator"
  | .tryHandlerIsInstance => "try-handler-isinstance"
  | .tryHandlerAssign => "try-handler-assign"
  | .namedTupleConstructorAssignment name => "named-tuple-constructor-assignment:" ++ name
  | .dataclassImplicitField => "dataclass-implicit-field"
  | .dataclassImplicitDefault => "dataclass-implicit-default"
  | .matchTypingSequence => "match-typing-sequence"
  | .matchTypingMapping => "match-typing-mapping"
  | .matchAsComparisonEquals => "match-as-comparison-equals"
  | .matchAsWithCondition => "match-as-with-condition"
  | .matchClassArgs index => "match-class-args:" ++ showInt index
  | .matchClassGetAttr index => "match-class-get-attr:" ++ showInt index
  | .matchClassArgsSubscript index => "match-class-args-subscript:" ++ showInt index
  | .matchClassKeywordAttribute name => "match-class-keyword-attribute:" ++ name
  | .matchClassIsInstance => "match-class-isinstance"
  | .matchClassJoinConditions => "match-class-join-conditions"
  | .matchMappingKeySubscript => "match-mapping-key-subscript"
  | .matchMappingRestDict name => "match-mapping-rest-dict:" ++ name
  | .matchMappingRestComparisonEquals name => "match-mapping-rest-comparison-equals:" ++ name
  | .matchMappingIsInstance => "match-mapping-isinstance"
  | .matchMappingJoinConditions => "match-mapping-join-conditions"
  | .matchOrJoinConditions => "match-or-join-conditions"
  | .matchSingletonComparisonIs => "match-singleton-comparison-is"
  | .matchSequenceRestList name => "match-sequence-rest-list:" ++ name
  | .matchSequenceRestSubscript name => "match-sequence-rest-subscript:" ++ name
  | .matchSequenceRestSlice name => "match-sequence-rest-slice:" ++ name
  | .matchSequenceRestComparisonEquals name => "match-sequence-rest-comparison-equals:" ++ name
  | .matchSequencePrefix index => "match-sequence-prefix:" ++ showInt index
  | .matchSequenceSuffix index => "match-sequence-suffix:" ++ showInt index
  | .matchSequenceIsInstance => "match-sequence-isinstance"
  | .matchSequenceJoinConditions => "match-sequence-join-conditions"
  | .matchValueComparisonEquals => "match-value-comparison-equals"
  | .matchConditionWithGuard => "match-condition-with-guard"
  | .resolveStrCall => "resolve-str-call"
  | .strCallToDunderMethod => "str-call-to-dunder-method"
  | .reprCall => "repr-call"
  | .absCall => "abs-call"
  | .iterCall => "iter-call"
  | .nextCall => "next-call"
  | .implicitInitCall => "implicit-init-call"
  | .selfImplicitTypeVar name => "self-implicit-typevar:" ++ name
  | .selfImplicitTypeVarQualification name attributes =>
    "self-implicit-typevar-qualification:" ++ (name ++ ":" ++ ".".intercalate attributes.reverse)
  | .selfImplicitTypeVarAssign => "self-implicit-typevar-assign"
  | .functionalEnumImplicitAuto attributes =>
    "functional-enum-implicit-auto:" ++ ".".intercalate attributes
  | .functionalEnumImplicitAutoAssign => "functional-enum-implicit-auto-assign"
  | .decoratorInlining => "decorator-inlining"
  | .forDecoratedTarget => "for-decorated-target"
  | .forDecoratedTargetCallee identifiers =>
    "for-decorated-target-callee:" ++ ".".intercalate identifiers.reverse
  | .formatStringImplicitStr => "format-string-implicit-str"
  | .formatStringImplicitRepr => "format-string-implicit-repr"
  | .getAttrConstantLiteral => "get-attr-constant-literal"
  | .setAttrConstantLiteral => "set-attr-constant-literal"
  | .pysaCallRedirect name => "pysa-call-redirect:" ++ name
  | .pysaHigherOrderParameter index => "pysa-higher-order-parameter:" ++ showInt index
  | .forTestPurpose => "for-test-purpose"
  | .forTypeChecking => "for-type-checking"
  | .nested head tail => ppKindJson tail ++ ">" ++ ppKindJson head
  | .pysaReturnShim => "return-statement"

/-! ## 3. Reading -/

def parseInt (str : String) : Except String (BitVec 63) :=
  match intOfString 63 str with
  | some value => .ok value
  | none => .error ("Expected integer, got '" ++ str ++ "'")

def parseIdentifierList (str : String) : List Identifier := (split '.' str).reverse

/-- The kinds without data. -/
def simpleKinds : List (String × Kind) :=
  [("comparison", .comparisonOperator),
   ("binary", .binaryOperator),
   ("unary", .unaryOperator),
   ("augmented-assign-dunder-call", .augmentedAssignDunderCall),
   ("augmented-assign-lhs", .augmentedAssignLHS),
   ("augmented-assign-rhs", .augmentedAssignRHS),
   ("augmented-assign-statement", .augmentedAssignStatement),
   ("subscript-set-item", .subscriptSetItem),
   ("subscript-get-item", .subscriptGetItem),
   ("for-iter", .forIter),
   ("for-next", .forNext),
   ("for-await", .forAwait),
   ("for-assign", .forAssign),
   ("generator-iter", .generatorIter),
   ("generator-next", .generatorNext),
   ("generator-await", .generatorAwait),
   ("generator-assign", .generatorAssign),
   ("with-enter", .withEnter),
   ("with-assign", .withAssign),
   ("in-contains", .inContains),
   ("in-iter", .inIter),
   ("in-get-item", .inGetItem),
   ("in-get-item-eq", .inGetItemEq),
   ("slice", .slice),
   ("top-level-tuple-assign", .topLevelTupleAssign),
   ("missing-stub-callable", .missingStubCallable),
   ("typed-dict-implicit-class", .typedDictImplicitClass),
   ("named-tuple-implicit-fields", .namedTupleImplicitFields),
   ("pytorch-register-buffer", .pyTorchRegisterBuffer),
   ("union-shorthand", .unionShorthand),
   ("negate", .negate),
   ("negate-is", .negateIs),
   ("negate-is-not", .negateIsNot),
   ("normalize", .normalize),
   ("normalize-not-comparison", .normalizeNotComparison),
   ("normalize-not-bool-operator", .normalizeNotBoolOperator),
   ("try-handler-isinstance", .tryHandlerIsInstance),
   ("try-handler-assign", .tryHandlerAssign),
   ("dataclass-implicit-field", .dataclassImplicitField),
   ("dataclass-implicit-default", .dataclassImplicitDefault),
   ("match-typing-sequence", .matchTypingSequence),
   ("match-typing-mapping", .matchTypingMapping),
   ("match-as-comparison-equals", .matchAsComparisonEquals),
   ("match-as-with-condition", .matchAsWithCondition),
   ("match-class-isinstance", .matchClassIsInstance),
   ("match-class-join-conditions", .matchClassJoinConditions),
   ("match-mapping-key-subscript", .matchMappingKeySubscript),
   ("match-mapping-isinstance", .matchMappingIsInstance),
   ("match-mapping-join-conditions", .matchMappingJoinConditions),
   ("match-or-join-conditions", .matchOrJoinConditions),
   ("match-singleton-comparison-is", .matchSingletonComparisonIs),
   ("match-sequence-isinstance", .matchSequenceIsInstance),
   ("match-sequence-join-conditions", .matchSequenceJoinConditions),
   ("match-value-comparison-equals", .matchValueComparisonEquals),
   ("match-condition-with-guard", .matchConditionWithGuard),
   ("resolve-str-call", .resolveStrCall),
   ("str-call-to-dunder-method", .strCallToDunderMethod),
   ("repr-call", .reprCall),
   ("abs-call", .absCall),
   ("iter-call", .iterCall),
   ("next-call", .nextCall),
   ("implicit-init-call", .implicitInitCall),
   ("self-implicit-typevar-assign", .selfImplicitTypeVarAssign),
   ("functional-enum-implicit-auto-assign", .functionalEnumImplicitAutoAssign),
   ("decorator-inlining", .decoratorInlining),
   ("for-decorated-target", .forDecoratedTarget),
   ("format-string-implicit-str", .formatStringImplicitStr),
   ("format-string-implicit-repr", .formatStringImplicitRepr),
   ("get-attr-constant-literal", .getAttrConstantLiteral),
   ("set-attr-constant-literal", .setAttrConstantLiteral),
   ("for-test-purpose", .forTestPurpose),
   ("for-type-checking", .forTypeChecking),
   ("return-statement", .pysaReturnShim)]

/-- The kinds with data, by the text in front of it. -/
def prefixedKinds : List (String × (String → Except String Kind)) :=
  [("chained-assign:", fun str => (parseInt str).map .chainedAssign),
   ("qualification:", fun str => .ok (.qualification (parseIdentifierList str))),
   ("named-tuple-constructor-assignment:", fun str => .ok (.namedTupleConstructorAssignment str)),
   ("match-class-args:", fun str => (parseInt str).map .matchClassArgs),
   ("match-class-get-attr:", fun str => (parseInt str).map .matchClassGetAttr),
   ("match-class-args-subscript:", fun str => (parseInt str).map .matchClassArgsSubscript),
   ("match-class-keyword-attribute:", fun str => .ok (.matchClassKeywordAttribute str)),
   ("match-mapping-rest-dict:", fun str => .ok (.matchMappingRestDict str)),
   ("match-mapping-rest-comparison-equals:",
      fun str => .ok (.matchMappingRestComparisonEquals str)),
   ("match-sequence-rest-list:", fun str => .ok (.matchSequenceRestList str)),
   ("match-sequence-rest-subscript:", fun str => .ok (.matchSequenceRestSubscript str)),
   ("match-sequence-rest-slice:", fun str => .ok (.matchSequenceRestSlice str)),
   ("match-sequence-rest-comparison-equals:",
      fun str => .ok (.matchSequenceRestComparisonEquals str)),
   ("match-sequence-prefix:", fun str => (parseInt str).map .matchSequencePrefix),
   ("match-sequence-suffix:", fun str => (parseInt str).map .matchSequenceSuffix),
   ("self-implicit-typevar:", fun str => .ok (.selfImplicitTypeVar str)),
   ("self-implicit-typevar-qualification:", fun str =>
      match split ':' str with
      | name :: rest =>
        .ok (.selfImplicitTypeVarQualification name (parseIdentifierList (":".intercalate rest)))
      | [] => .error "Invalid self-implicit-typevar-qualification format"),
   ("functional-enum-implicit-auto:",
      fun str => .ok (.functionalEnumImplicitAuto (parseIdentifierList str))),
   ("for-decorated-target-callee:",
      fun str => .ok (.forDecoratedTargetCallee (parseIdentifierList str))),
   ("pysa-call-redirect:", fun str => .ok (.pysaCallRedirect str)),
   ("pysa-higher-order-parameter:", fun str => (parseInt str).map .pysaHigherOrderParameter)]

def prefixedKind (str : String) : Except String Kind :=
  match prefixedKinds.find? fun entry => Identifier.hasPrefix entry.1 str with
  | some (start, parse) => parse (Identifier.dropPrefix str start.toList.length)
  | none => .error ("Unknown origin kind: `" ++ str ++ "`")

theorem rindex_lt {str : String} {c : Char} {index : ℕ}
    (h : Identifier.rindex str c = some index) : index < str.toList.length := by
  obtain ⟨position, hposition, rfl⟩ := Option.map_eq_some_iff.mp h
  obtain ⟨hlt, -⟩ := List.findIdx?_eq_some_iff_getElem.mp hposition
  rw [List.length_reverse] at hlt
  omega

def kindFromJson (str : String) : Except String Kind :=
  match simpleKinds.lookup str with
  | some kind => .ok kind
  | none =>
    match h : Identifier.rindex str '>' with
    | some index => do
      let tail ← kindFromJson (String.ofList (str.toList.take index))
      let head ← kindFromJson (Identifier.dropPrefix str (index + 1))
      return .nested head tail
    | none => prefixedKind str
termination_by str.toList.length
decreasing_by
  all_goals have hindex := rindex_lt h
  · rw [String.toList_ofList, List.length_take]
    omega
  · rw [Identifier.dropPrefix, String.toList_ofList, List.length_drop]
    omega

/-! ## 4. Kinds without separators -/

/-- None of the separators of a key stands in the identifier. -/
def Unseparated (identifier : Identifier) : Prop :=
  ∀ c ∈ ['|', '>', ':', '.'], c ∉ identifier.toList

namespace Kind

/-- A kind that is not nested; its identifiers have no separators and its lists are not empty. -/
def Plain : Kind → Prop
  | .namedTupleConstructorAssignment identifier
  | .matchClassKeywordAttribute identifier
  | .matchMappingRestDict identifier
  | .matchMappingRestComparisonEquals identifier
  | .matchSequenceRestList identifier
  | .matchSequenceRestSubscript identifier
  | .matchSequenceRestSlice identifier
  | .matchSequenceRestComparisonEquals identifier
  | .selfImplicitTypeVar identifier
  | .pysaCallRedirect identifier => Unseparated identifier
  | .qualification identifiers
  | .functionalEnumImplicitAuto identifiers
  | .forDecoratedTargetCallee identifiers =>
    identifiers ≠ [] ∧ ∀ identifier ∈ identifiers, Unseparated identifier
  | .selfImplicitTypeVarQualification name attributes =>
    Unseparated name ∧ attributes ≠ [] ∧ ∀ identifier ∈ attributes, Unseparated identifier
  | .nested _ _ => False
  | _ => True

/-- What `create` builds from plain kinds. -/
inductive Chain : Kind → Prop
  | plain {kind : Kind} : kind.Plain → Chain kind
  | nested {head tail : Kind} : head.Plain → Chain tail → Chain (.nested head tail)

/-- The lists that are printed as they are stored, reversed. -/
def mirrored : Kind → Kind
  | .functionalEnumImplicitAuto attributes => .functionalEnumImplicitAuto attributes.reverse
  | .nested head tail => .nested head.mirrored tail.mirrored
  | kind => kind

/-- Those lists read the same in both directions. -/
def Palindromic : Kind → Prop
  | .functionalEnumImplicitAuto attributes => attributes.reverse = attributes
  | .nested head tail => head.Palindromic ∧ tail.Palindromic
  | _ => True

end Kind

theorem chain_create {base : Option Origin} {location : Location} {kind : Kind}
    (hkind : kind.Plain) (hbase : ∀ origin ∈ base, origin.kind.Chain) :
    (create base location kind).kind.Chain := by
  cases base with
  | none => exact .plain hkind
  | some origin => exact .nested hkind (hbase origin rfl)

/-! ## 5. Characters of a printed kind -/

theorem intercalate_free {identifiers : List Identifier} {c : Char}
    (hc : c = '|' ∨ c = '>' ∨ c = ':') (h : ∀ identifier ∈ identifiers, Unseparated identifier) :
    c ∉ (".".intercalate identifiers).toList := by
  intro hmem
  rcases mem_intercalate hmem with hdot | ⟨identifier, hidentifier, hmem⟩
  · obtain rfl := List.mem_singleton.mp hdot
    rcases hc with hc | hc | hc <;> cases hc
  · refine h identifier hidentifier c ?_ hmem
    rcases hc with rfl | rfl | rfl <;> decide

theorem intercalate_reverse_free {identifiers : List Identifier} {c : Char}
    (hc : c = '|' ∨ c = '>' ∨ c = ':') (h : ∀ identifier ∈ identifiers, Unseparated identifier) :
    c ∉ (".".intercalate identifiers.reverse).toList :=
  intercalate_free hc fun identifier hmem => h identifier (List.mem_reverse.mp hmem)

theorem Unseparated.free {identifier : Identifier} {c : Char} (h : Unseparated identifier)
    (hc : c = '|' ∨ c = '>' ∨ c = ':') : c ∉ identifier.toList := by
  refine h c ?_
  rcases hc with rfl | rfl | rfl <;> decide

theorem showInt_free {x : BitVec 63} {c : Char} (hc : c = '|' ∨ c = '>') :
    c ∉ (showInt x).toList := by
  intro hmem
  rcases mem_showInt hmem with hdigit | ⟨hminus, -⟩
  · rcases hc with rfl | rfl <;> exact absurd hdigit (by decide)
  · rcases hc with rfl | rfl <;> cases hminus

theorem append_free {start payload : String} {c : Char} (hstart : c ∉ start.toList)
    (hpayload : c ∉ payload.toList) : c ∉ (start ++ payload).toList := by
  rw [String.toList_append, List.mem_append]
  exact not_or.mpr ⟨hstart, hpayload⟩

/-! ## 6. The two tables agree, but for the mirror -/

/-- The characters of the names in both tables. -/
def isNameChar (c : Char) : Bool := c.isAlpha || c == '-'

/-- The text is a name with a colon behind it. -/
def ColonEnded (start : String) : Prop :=
  start.toList.takeWhile isNameChar ++ [':'] = start.toList

theorem prefixedKinds_spec : ∀ entry ∈ prefixedKinds, ColonEnded entry.1 := by
  unfold ColonEnded
  decide +kernel

theorem simpleKinds_spec : (simpleKinds.all fun entry => entry.1.toList.all isNameChar) = true := by
  decide +kernel

theorem simpleKinds_free {entry : String × Kind} (hentry : entry ∈ simpleKinds) {c : Char}
    (hc : isNameChar c = false) : c ∉ entry.1.toList := by
  intro hmem
  have hname := List.all_eq_true.mp (List.all_eq_true.mp simpleKinds_spec entry hentry) c hmem
  rw [hc] at hname
  cases hname

theorem ColonEnded.free {start : String} (h : ColonEnded start) {c : Char}
    (hc : isNameChar c = false) (hcolon : c ≠ ':') : c ∉ start.toList := by
  intro hmem
  rw [← h, List.mem_append] at hmem
  rcases hmem with hmem | hmem
  · have hname : isNameChar c = true := List.all_eq_true.mp List.all_takeWhile c hmem
    rw [hc] at hname
    cases hname
  · exact hcolon (List.mem_singleton.mp hmem)

/-- What stands in front of the colon. -/
theorem takeWhile_colonEnded {start : String} (h : ColonEnded start) (rest : List Char) :
    (start.toList ++ rest).takeWhile isNameChar = start.toList.takeWhile isNameChar := by
  conv_lhs => rw [← h, List.append_assoc]
  rw [List.takeWhile_append_of_pos (List.all_eq_true.mp List.all_takeWhile),
    List.singleton_append, List.takeWhile_cons_of_neg (by decide), List.append_nil]

/-- Of two such texts, the one in front is the one that a text starts with. -/
theorem hasPrefix_append_of_colonEnded {start start' payload : String} (h : ColonEnded start)
    (h' : ColonEnded start') :
    Identifier.hasPrefix start' (start ++ payload) = (start' == start) := by
  by_cases heq : start' = start
  · rw [heq, Identifier.hasPrefix_append, beq_self_eq_true]
  · rw [beq_eq_false_iff_ne.mpr heq, Bool.eq_false_iff]
    intro hprefix
    obtain ⟨rest, hrest⟩ := List.isPrefixOf_iff_prefix.mp hprefix
    rw [String.toList_append] at hrest
    have hbefore := congrArg (List.takeWhile isNameChar) hrest
    rw [takeWhile_colonEnded h, takeWhile_colonEnded h'] at hbefore
    have hlists : start'.toList = start.toList := by rw [← h, ← h', hbefore]
    exact heq (String.toList_inj.mp hlists)

theorem rindex_eq_none {text : String} {c : Char} (h : c ∉ text.toList) :
    Identifier.rindex text c = none := by
  unfold Identifier.rindex
  rw [Option.map_eq_none_iff, List.idxOf?_eq_none_iff, List.mem_reverse]
  exact h

theorem lookup_simpleKinds_eq_none {text : String} {c : Char} (hc : isNameChar c = false)
    (h : c ∈ text.toList) : simpleKinds.lookup text = none := by
  rw [List.lookup_eq_none_iff]
  rintro entry hentry
  rw [bne_iff_ne]
  rintro rfl
  exact simpleKinds_free hentry hc h

theorem kindFromJson_simple {text : String} {kind : Kind}
    (h : simpleKinds.lookup text = some kind) : kindFromJson text = .ok kind := by
  rw [kindFromJson, h]

theorem kindFromJson_flat {text : String} (h : simpleKinds.lookup text = none)
    (hgt : '>' ∉ text.toList) : kindFromJson text = prefixedKind text := by
  rw [kindFromJson, h]
  dsimp only
  split
  case h_1 hindex => rw [rindex_eq_none hgt] at hindex; cases hindex
  case h_2 => rfl

/-- The reading of a kind with data, by its entry in the table. -/
theorem kindFromJson_prefixed {start payload : String} {parse : String → Except String Kind}
    {kind : Kind} (hpayload : '>' ∉ payload.toList)
    (hfind : (prefixedKinds.find? fun entry => entry.1 == start) = some (start, parse))
    (hparse : parse payload = .ok kind) : kindFromJson (start ++ payload) = .ok kind := by
  have hstart : ColonEnded start := prefixedKinds_spec _ (List.mem_of_find?_eq_some hfind)
  have hcolon : ':' ∈ (start ++ payload).toList := by
    rw [String.toList_append, ← hstart]
    simp
  have hentry : (prefixedKinds.find? fun entry => Identifier.hasPrefix entry.1
      (start ++ payload)) = some (start, parse) := by
    rw [← hfind, ← List.head?_filter, ← List.head?_filter]
    exact congrArg List.head? (List.filter_congr fun entry hentry =>
      hasPrefix_append_of_colonEnded hstart (prefixedKinds_spec entry hentry))
  rw [kindFromJson_flat (lookup_simpleKinds_eq_none (by decide) hcolon)
    (append_free (hstart.free (by decide) (by decide)) hpayload), prefixedKind, hentry]
  dsimp only
  rw [Identifier.dropPrefix_append, hparse]

theorem kindFromJson_nested {tail head : String} (hhead : '>' ∉ head.toList) :
    kindFromJson (tail ++ ">" ++ head) = do
      let tail ← kindFromJson tail
      let head ← kindFromJson head
      return .nested head tail := by
  have hgt : '>' ∈ (tail ++ ">" ++ head).toList := by simp
  have hindex : Identifier.rindex (tail ++ ">" ++ head) '>' = some tail.toList.length := by
    rw [Identifier.rindex_append (tail ++ ">") head '>' (by simp) hhead]
    simp
  have htail : String.ofList ((tail ++ ">" ++ head).toList.take tail.toList.length) = tail := by
    rw [String.toList_append, String.toList_append, List.append_assoc, List.take_left,
      String.ofList_toList]
  have hhead : Identifier.dropPrefix (tail ++ ">" ++ head) (tail.toList.length + 1) = head := by
    have hlength : (tail ++ ">").toList.length = tail.toList.length + 1 := by simp
    rw [← hlength, Identifier.dropPrefix_append]
  rw [kindFromJson, lookup_simpleKinds_eq_none (by decide) hgt]
  dsimp only
  split
  case h_1 index hfound =>
      obtain rfl := Option.some.inj (hindex.symm.trans hfound)
      rw [htail, hhead]
  case h_2 hfound => rw [hindex] at hfound; cases hfound

theorem parseInt_showInt (x : BitVec 63) : parseInt (showInt x) = .ok x := by
  rw [parseInt, intOfString_showInt]

theorem parseIdentifierList_intercalate {identifiers : List Identifier}
    (hne : identifiers ≠ []) (h : ∀ identifier ∈ identifiers, Unseparated identifier) :
    parseIdentifierList (".".intercalate identifiers) = identifiers.reverse :=
  congrArg List.reverse (split_intercalate hne fun identifier hmem =>
    h identifier hmem '.' (by decide))

theorem parseIdentifierList_reverse {identifiers : List Identifier}
    (hne : identifiers ≠ []) (h : ∀ identifier ∈ identifiers, Unseparated identifier) :
    parseIdentifierList (".".intercalate identifiers.reverse) = identifiers := by
  rw [parseIdentifierList_intercalate (mt List.reverse_eq_nil_iff.mp hne)
    fun identifier hmem => h identifier (List.mem_reverse.mp hmem), List.reverse_reverse]

/-- **The texts of a plain kind**: one of the names, or the text in front of a colon and the data,
    from which the entry of the table reads the kind. -/
theorem ppKindJson_cases {kind : Kind} (h : kind.Plain) :
    simpleKinds.lookup (ppKindJson kind) = some kind ∧ kind.mirrored = kind ∨
      ∃ start payload parse, ppKindJson kind = start ++ payload ∧
        (prefixedKinds.find? fun entry => entry.1 == start) = some (start, parse) ∧
        parse payload = .ok kind.mirrored ∧ ∀ c, c = '|' ∨ c = '>' → c ∉ payload.toList := by
  have hweaken {c : Char} (hc : c = '|' ∨ c = '>') : c = '|' ∨ c = '>' ∨ c = ':' :=
    hc.imp_right Or.inl
  cases kind with
  | nested head tail => exact h.elim
  | chainedAssign index
  | matchClassArgs index
  | matchClassGetAttr index
  | matchClassArgsSubscript index
  | matchSequencePrefix index
  | matchSequenceSuffix index
  | pysaHigherOrderParameter index =>
    refine Or.inr ⟨_, _, _, rfl, rfl, ?_, fun c hc => showInt_free hc⟩
    rw [parseInt_showInt]
    rfl
  | namedTupleConstructorAssignment name
  | matchClassKeywordAttribute name
  | matchMappingRestDict name
  | matchMappingRestComparisonEquals name
  | matchSequenceRestList name
  | matchSequenceRestSubscript name
  | matchSequenceRestSlice name
  | matchSequenceRestComparisonEquals name
  | selfImplicitTypeVar name
  | pysaCallRedirect name =>
    exact Or.inr ⟨_, _, _, rfl, rfl, rfl, fun c hc => Unseparated.free h (hweaken hc)⟩
  | qualification identifiers | forDecoratedTargetCallee identifiers =>
    refine Or.inr ⟨_, _, _, rfl, rfl, ?_, fun c hc =>
      intercalate_reverse_free (hweaken hc) h.2⟩
    rw [parseIdentifierList_reverse h.1 h.2]
    rfl
  | functionalEnumImplicitAuto attributes =>
    refine Or.inr ⟨_, _, _, rfl, rfl, ?_, fun c hc => intercalate_free (hweaken hc) h.2⟩
    rw [parseIdentifierList_intercalate h.1 h.2]
    rfl
  | selfImplicitTypeVarQualification name attributes =>
    obtain ⟨hname, hne, hattributes⟩ := h
    have hcolon : ':' = '|' ∨ ':' = '>' ∨ ':' = ':' := Or.inr (Or.inr rfl)
    have hsplit : split ':' (name ++ ":" ++ ".".intercalate attributes.reverse) =
        [name, ".".intercalate attributes.reverse] :=
      split_append (hname.free hcolon) (intercalate_reverse_free hcolon hattributes)
    refine Or.inr ⟨_, _, _, rfl, rfl, ?_, fun c hc => append_free
      (append_free (hname.free (hweaken hc)) (by rcases hc with rfl | rfl <;> decide))
      (intercalate_reverse_free (hweaken hc) hattributes)⟩
    rw [hsplit]
    dsimp only
    rw [String.intercalate_singleton, parseIdentifierList_reverse hne hattributes]
    rfl
  | _ => exact Or.inl ⟨rfl, rfl⟩

/-- A plain kind has neither of the outer separators in its text. -/
theorem ppKindJson_free {kind : Kind} (h : kind.Plain) {c : Char} (hc : c = '|' ∨ c = '>') :
    c ∉ (ppKindJson kind).toList := by
  have hname : isNameChar c = false ∧ c ≠ ':' := by rcases hc with rfl | rfl <;> decide
  rcases ppKindJson_cases h with ⟨hlookup, -⟩ | ⟨start, payload, parse, htext, hfind, -, hfree⟩
  · have hentry : ∃ entry ∈ simpleKinds, entry.1 = ppKindJson kind := by
      by_contra hnone
      push Not at hnone
      rw [List.lookup_eq_none_iff.mpr fun entry hentry =>
        bne_iff_ne.mpr (hnone entry hentry).symm] at hlookup
      cases hlookup
    obtain ⟨entry, hentry, htext⟩ := hentry
    rw [← htext]
    exact simpleKinds_free hentry hname.1
  · rw [htext]
    have hstart : ColonEnded start := prefixedKinds_spec _ (List.mem_of_find?_eq_some hfind)
    exact append_free (hstart.free hname.1 hname.2) (hfree c hc)

/-- The outer separator of a key stands in no kind. -/
theorem bar_not_mem_ppKindJson {kind : Kind} (h : kind.Chain) :
    '|' ∉ (ppKindJson kind).toList := by
  induction h with
  | plain hkind => exact ppKindJson_free hkind (Or.inl rfl)
  | nested hhead _ ih =>
    exact append_free (append_free ih (by decide)) (ppKindJson_free hhead (Or.inl rfl))

/-- What is read of a plain kind. -/
theorem kindFromJson_plain {kind : Kind} (h : kind.Plain) :
    kindFromJson (ppKindJson kind) = .ok kind.mirrored := by
  rcases ppKindJson_cases h with ⟨hlookup, hmirrored⟩ |
    ⟨start, payload, parse, htext, hfind, hparse, hfree⟩
  · rw [hmirrored]
    exact kindFromJson_simple hlookup
  · rw [htext]
    exact kindFromJson_prefixed (hfree '>' (Or.inr rfl)) hfind hparse

/-- **What is read is what was printed, with some lists reversed.** -/
theorem kindFromJson_ppKindJson {kind : Kind} (h : kind.Chain) :
    kindFromJson (ppKindJson kind) = .ok kind.mirrored := by
  induction h with
  | plain hkind => exact kindFromJson_plain hkind
  | @nested head tail hhead _ ih =>
    have hgt : '>' ∉ (ppKindJson head).toList := ppKindJson_free hhead (Or.inr rfl)
    show kindFromJson (ppKindJson tail ++ ">" ++ ppKindJson head) = _
    rw [kindFromJson_nested hgt, ih, kindFromJson_plain hhead]
    rfl

/-! ## 7. The mirror -/

namespace Kind

theorem mirrored_mirrored (kind : Kind) : kind.mirrored.mirrored = kind := by
  induction kind with
  | functionalEnumImplicitAuto attributes =>
    exact congrArg functionalEnumImplicitAuto (List.reverse_reverse attributes)
  | nested head tail ihHead ihTail => exact congrArg₂ nested ihHead ihTail
  | _ => rfl

theorem mirrored_eq_self_iff (kind : Kind) : kind.mirrored = kind ↔ kind.Palindromic := by
  induction kind with
  | functionalEnumImplicitAuto attributes =>
    exact ⟨functionalEnumImplicitAuto.inj, congrArg functionalEnumImplicitAuto⟩
  | nested head tail ihHead ihTail =>
    refine Iff.trans ?_ (and_congr ihHead ihTail)
    exact ⟨nested.inj, fun ⟨hhead, htail⟩ => congrArg₂ nested hhead htail⟩
  | _ => exact iff_of_true rfl trivial

end Kind

def mirrored (origin : Origin) : Origin := { origin with kind := origin.kind.mirrored }

end Origin

end Pysa
