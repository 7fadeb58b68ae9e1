import ThreeAddress.Assembly.Data
import ThreeAddress.Proofs.Typing.Places
import ThreeAddress.Proofs.Control.Segments

/-!
# Lowering preserves types

A well-typed program is lowered, and to well-typed code: one list of types, which grows while
numbers are taken, gives types to all places. The list also tells what a number was taken for. The
string constants are registered under the numbers of type string, and a temporary of any other
number is written by the code that took it.
-/

namespace ThreeAddress

open LowerM

/-- A list has one type for each number that was taken, and type string for the numbers of string
constants alone. -/
structure Supply.Records (supply : Supply) (types : List ValueType) : Prop where
  length_eq : types.length = supply.temporaries
  strings : ∀ id, (supply.strings.find? id).isSome ↔
    ∃ number, types[number]? = some .string ∧ id = .numbered number

namespace Supply.Records

variable {supply : Supply} {types : List ValueType}

/-- Nothing has been taken from a full supply. -/
theorem full : Supply.full.Records [] where
  length_eq := rfl
  strings _ := by simp [Supply.full, StringPool.find?, StringPool.empty]

/-- Taking a label gives no number a type. -/
theorem afterLabel (h : supply.Records types) : supply.afterLabel.Records types :=
  ⟨h.length_eq, h.strings⟩

/-- A temporary can have any type but string. -/
theorem afterTemporary (h : supply.Records types) {type : ValueType} (htype : type ≠ .string) :
    supply.afterTemporary.Records (types ++ [type]) where
  length_eq := by
    rw [List.length_append, h.length_eq]
    rfl
  strings id := by
    refine (h.strings id).trans (exists_congr fun number => and_congr_left fun _ => ?_)
    constructor
    · exact getElem?_of_grows (List.prefix_append _ _)
    · intro hnumber
      rcases Nat.lt_or_ge number types.length with hlt | hge
      · rwa [List.getElem?_append_left hlt] at hnumber
      · rw [List.getElem?_append_right hge] at hnumber
        obtain rfl := List.mem_singleton.mp (List.mem_of_getElem? hnumber)
        contradiction

/-- A string constant has type string. -/
theorem afterString (h : supply.Records types) (text : String) :
    (supply.afterString text).Records (types ++ [.string]) where
  length_eq := by
    rw [List.length_append, h.length_eq]
    rfl
  strings id := by
    have hlast : (types ++ [ValueType.string])[supply.temporaries]? = some .string := by
      rw [← h.length_eq, List.getElem?_concat_length]
    by_cases hid : id = .numbered supply.temporaries
    · subst hid
      rw [Supply.afterString, StringPool.find?_insert_self]
      exact iff_of_true rfl ⟨_, hlast, rfl⟩
    · rw [Supply.afterString, StringPool.find?_insert_of_ne _ _ hid, h.strings]
      constructor
      · rintro ⟨number, hnumber, rfl⟩
        exact ⟨number, getElem?_of_grows (List.prefix_append _ _) hnumber, rfl⟩
      · rintro ⟨number, hnumber, rfl⟩
        have hne : number ≠ supply.temporaries := fun heq => hid (heq ▸ rfl)
        have hlt := (List.getElem?_eq_some_iff.mp hnumber).1
        rw [List.length_append, List.length_singleton, h.length_eq] at hlt
        rw [List.getElem?_append_left (by have := h.length_eq; omega)] at hnumber
        exact ⟨number, hnumber, rfl⟩

end Supply.Records

section Code

/-- A sequence writes what its parts write. -/
@[simp] theorem writtenTemporaries_append (first second : Code) :
    writtenTemporaries (first ++ second) = writtenTemporaries first ++ writtenTemporaries second :=
  List.filterMap_append

/-- Labelling writes nothing. -/
@[simp] theorem writtenTemporaries_marked (label : Label) (code : Code) :
    writtenTemporaries (code.marked label) = writtenTemporaries code := by
  match code with
  | [] => rfl
  | ⟨none, _⟩ :: _ => rfl
  | ⟨some _, _⟩ :: _ => rfl

/-- Some code is what numbers were taken for: those of a type other than string it writes. -/
structure Code.Fills (code : Code) (types types' : List ValueType) : Prop where
  grows : types <+: types'
  written : ∀ number type, types.length ≤ number → types'[number]? = some type → type ≠ .string →
    .numbered number ∈ writtenTemporaries code

/-- No code, if no number was taken. -/
theorem Code.Fills.nil (types : List ValueType) : Code.Fills [] types types where
  grows := List.prefix_rfl
  written number type hle hnumber _ := by
    have hlt := (List.getElem?_eq_some_iff.mp hnumber).1
    omega

/-- Parts for which numbers were taken one after the other. -/
theorem Code.Fills.append {types types' types'' : List ValueType} {first second : Code}
    (h : first.Fills types types') (h' : second.Fills types' types'') :
    (first ++ second : Code).Fills types types'' where
  grows := h.grows.trans h'.grows
  written number type hle hnumber hstring := by
    rw [writtenTemporaries_append]
    rcases Nat.lt_or_ge number types'.length with hlt | hge
    · have hsame := getElem?_of_grows h'.grows (List.getElem?_eq_getElem hlt)
      obtain rfl := Option.some.inj (hnumber.symm.trans hsame)
      exact List.mem_append_left _
        (h.written number _ hle (List.getElem?_eq_getElem hlt) hstring)
    · exact List.mem_append_right _ (h'.written number type hge hnumber hstring)

/-- Well-typed code for which numbers were taken. -/
structure TypedCode (scope : Scope) (result : ScalarType) (types : List ValueType) (code : Code)
    (types' : List ValueType) : Prop extends code.Fills types types' where
  typed : ∀ instruction ∈ code, instruction.operation.WellTyped scope types' result

namespace TypedCode

variable {scope : Scope} {result : ScalarType} {types types' types'' : List ValueType}
  {code first second : Code} {operation : Operation}

/-- An operation alone, if no number is taken for it. -/
theorem ofOperation (h : operation.WellTyped scope types result) :
    TypedCode scope result types (Code.ofOperation operation) types where
  grows := List.prefix_rfl
  typed _ hmem := List.mem_singleton.mp hmem ▸ h
  written number type hle hnumber _ := by
    have hlt := (List.getElem?_eq_some_iff.mp hnumber).1
    omega

/-- No code, if no number is taken. -/
theorem nil (types : List ValueType) : TypedCode scope result types [] types where
  toFills := .nil types
  typed _ hmem := absurd hmem List.not_mem_nil

/-- No code, if a number is taken for a string constant. -/
theorem string (types : List ValueType) : TypedCode scope result types [] (types ++ [.string]) where
  grows := List.prefix_append _ _
  typed _ hmem := absurd hmem List.not_mem_nil
  written number type hle hnumber hstring := by
    rw [List.getElem?_append_right hle] at hnumber
    exact absurd (List.mem_singleton.mp (List.mem_of_getElem? hnumber)) hstring

/-- An operation alone, if a number is taken for its destination. -/
theorem ofFresh {type : ValueType} (h : operation.WellTyped scope (types ++ [type]) result)
    (hdestination : operation.destination? = some (.temporary (.numbered types.length))) :
    TypedCode scope result types (Code.ofOperation operation) (types ++ [type]) where
  grows := List.prefix_append _ _
  typed _ hmem := List.mem_singleton.mp hmem ▸ h
  written number type hle hnumber _ := by
    have hlt := (List.getElem?_eq_some_iff.mp hnumber).1
    rw [List.length_append, List.length_singleton] at hlt
    obtain rfl : number = types.length := by omega
    simp [writtenTemporaries, Code.ofOperation, Operation.unlabelled, hdestination]

/-- One part after the other. -/
theorem append (h : TypedCode scope result types first types')
    (h' : TypedCode scope result types' second types'') :
    TypedCode scope result types (first ++ second) types'' where
  toFills := h.toFills.append h'.toFills
  typed instruction hmem := (List.mem_append.mp hmem).elim
    (fun hmem => (h.typed instruction hmem).mono h'.grows) (h'.typed instruction)

/-- An operation more for which no number is taken. -/
theorem push (h : TypedCode scope result types code types')
    (hoperation : operation.WellTyped scope types' result) :
    TypedCode scope result types (code.push operation) types' :=
  h.append (.ofOperation hoperation)

/-- An operation more that writes the next temporary. -/
theorem pushFresh (h : TypedCode scope result types code types') {supply : Supply}
    (hrecords : supply.Records types') {type : ValueType}
    (hoperation : operation.WellTyped scope (types' ++ [type]) result)
    (hdestination : operation.destination? = some (.temporary (.numbered supply.temporaries))) :
    TypedCode scope result types (code.push operation) (types' ++ [type]) :=
  h.append (.ofFresh hoperation (hrecords.length_eq ▸ hdestination))

/-- A label more. -/
theorem marked (h : TypedCode scope result types code types') (label : Label) :
    TypedCode scope result types (code.marked label) types' where
  grows := h.grows
  typed := by
    match code, h with
    | [], _ => simpa [Code.marked] using .nop
    | ⟨none, _⟩ :: _, h => simpa [Code.marked] using h.typed
    | ⟨some _, _⟩ :: _, h => exact List.forall_mem_cons.mpr ⟨.nop, h.typed⟩
  written number type hle hnumber hstring := by
    rw [writtenTemporaries_marked]
    exact h.written number type hle hnumber hstring

/-- The place behind a construct more. -/
theorem land (h : TypedCode scope result types code types') (label : Label) :
    TypedCode scope result types (code ++ Code.landing label) types' :=
  h.append ((nil types').marked label)

end TypedCode

end Code

/-- The temporary that was taken last has the type that was given last. -/
theorem Supply.Records.hasType_fresh {supply : Supply} {types : List ValueType} {type : ValueType}
    (h : supply.Records types) (htype : type ≠ .string) (scope : Scope) :
    (Storage.temporary (.numbered supply.temporaries)).HasType scope (types ++ [type]) type := by
  refine .temporary ?_ htype
  rw [← h.length_eq, List.getElem?_concat_length]

section Environments

variable {scope : Scope} {function : String} {result : ScalarType} {params : List Param}

/-- The environment inside a function that is declared. -/
theorem inside_eq_of_means (hfunction : scope.Means function (.function result function params)) :
    Environment.inside scope function = ⟨scope, some ⟨function, params.map Param.name⟩⟩ := by
  rw [Environment.inside, Scope.function?, Scope.find?_eq_some_iff.mpr hfunction]
  rfl

/-- The place of a variable or a parameter has the declared type. -/
theorem hasType_placeOf (hfunction : scope.Means function (.function result function params))
    {name : String} {type : ScalarType} {initial : Literal}
    (hmeans : (scope.withParams params).Means name (.scalar type name initial))
    (types : List ValueType) :
    ((Environment.inside scope function).placeOf name).HasType scope types type.value := by
  have hplace : (Environment.inside scope function).placeOf name =
      if name ∈ params.map Param.name then .parameter function name else .variable name := by
    rw [inside_eq_of_means hfunction]
    rfl
  rw [hplace]
  rcases Scope.means_withParams_cases hmeans with ⟨param, hmem, rfl, hparam⟩ | ⟨hnot, houtside⟩
  · obtain rfl := (Decl.scalar.inj hparam).1
    rw [if_pos (List.mem_map_of_mem hmem)]
    exact .parameter hfunction hmem
  · rw [if_neg hnot]
    exact .variable houtside

/-- An array is not bound as a parameter. -/
theorem means_array {array name : String} {type : ScalarType} {size : Nat} {initials : List Literal}
    (hmeans : (scope.withParams params).Means array (.array type name size initials)) :
    scope.Means array (.array type name size initials) := by
  rcases Scope.means_withParams_cases hmeans with ⟨param, -, -, hparam⟩ | ⟨-, houtside⟩
  · contradiction
  · exact houtside

/-- A function that is called inside another can be called there. -/
theorem callee_eq_ok (hfunction : scope.Means function (.function result function params))
    {callee : String} {type : ScalarType} {calleeParams : List Param}
    (hmeans : (scope.withParams params).Means callee (.function type callee calleeParams)) :
    scope.Means callee (.function type callee calleeParams) ∧
      (Environment.inside scope function).callee callee = .ok calleeParams := by
  rcases Scope.means_withParams_cases hmeans with ⟨param, -, -, hparam⟩ | ⟨hnot, houtside⟩
  · contradiction
  · refine ⟨houtside, ?_⟩
    rw [inside_eq_of_means hfunction]
    simp [Environment.callee, Environment.hides, Scope.function?,
      Scope.find?_eq_some_iff.mpr houtside, Decl.signature?, hnot]

end Environments

section Bodies

variable {scope : Scope} {function : String} {result : ScalarType} {params : List Param}

/-- Lowering an expression inside a function succeeds, to well-typed code and a place of a type. -/
def Expr.LowersAs (scope : Scope) (function : String) (result : ScalarType) (expr : Expr)
    (type : ValueType) : Prop :=
  ∀ before types, before.Records types → ∃ code place after types',
    (lowerExpr (.inside scope function) expr).Yields before (code, place) after ∧
    after.Records types' ∧ TypedCode scope result types code types' ∧
    place.HasType scope types' type

/-- Matching arguments are lowered to well-typed code if they are on their own. -/
theorem exists_typedCode_of_argsMatch {inner : Scope} {callee : String} {type : ScalarType}
    {all : List Param} (hcallee : scope.Means callee (.function type callee all)) {args : List Expr}
    (hargs : ∀ arg ∈ args, ∀ type, inner.HasType arg type → arg.LowersAs scope function result type)
    {rest : List Param} (hsub : rest ⊆ all) (hmatch : inner.ArgsMatch args rest) {before : Supply}
    {types : List ValueType} (hrecords : before.Records types) :
    ∃ code after types', (lowerArgs (.inside scope function) callee args rest).Yields before code
      after ∧ after.Records types' ∧ TypedCode scope result types code types' := by
  induction args generalizing rest before types with
  | nil =>
    exact ⟨[], before, types, (yields_args_nil_iff (.inl rfl)).mpr ⟨rfl, rfl⟩, hrecords, .nil _⟩
  | cons arg args ih =>
    cases hmatch with
    | cons htype htakes hmatch =>
      obtain ⟨hparam, hsub⟩ := List.cons_subset.mp hsub
      obtain ⟨argCode, source, middle, types₁, harg, hrecords₁, htyped₁, hsource⟩ :=
        hargs arg List.mem_cons_self _ htype before types hrecords
      obtain ⟨restCode, after, types₂, hrest, hrecords₂, htyped₂⟩ :=
        ih (fun other hother => hargs other (List.mem_cons_of_mem arg hother)) hsub hmatch hrecords₁
      exact ⟨_, after, types₂,
        yields_args_cons_iff.mpr ⟨argCode, source, middle, restCode, harg, hrest, rfl⟩, hrecords₂,
        (htyped₁.push (.copy (.parameter hcallee hparam) hsource htakes)).append htyped₂⟩

/-- An expression that has a type is lowered to well-typed code and a place of its type. -/
theorem lowersAs_of_hasType (hfunction : scope.Means function (.function result function params))
    {expr : Expr} {type : ValueType} (h : (scope.withParams params).HasType expr type) :
    expr.LowersAs scope function result type := by
  induction expr generalizing type with
  | literal value =>
    cases h
    intro before types hrecords
    have hconstant : ∀ value : Immediate, ∃ code place after types',
        (lowerExpr (.inside scope function) (.literal value.literal)).Yields before (code, place)
          after ∧ after.Records types' ∧ TypedCode scope result types code types' ∧
          place.HasType scope types' value.literal.type := fun value =>
      ⟨[], _, before, types, (yields_constant_iff value).mpr ⟨rfl, rfl, rfl⟩, hrecords, .nil _,
        .constant value⟩
    cases value with
    | int value => exact hconstant (.int value)
    | float value => exact hconstant (.float value)
    | char value => exact hconstant (.char value)
    | string text =>
      have hfresh : (types ++ [ValueType.string])[before.temporaries]? = some .string := by
        rw [← hrecords.length_eq, List.getElem?_concat_length]
      exact ⟨[], _, _, _, yields_string_iff.mpr ⟨rfl, rfl, rfl⟩, hrecords.afterString text,
        .string types, .string hfresh⟩
  | scalar name =>
    cases h with
    | scalar hmeans =>
      intro before types hrecords
      exact ⟨[], _, before, types, yields_scalar_iff.mpr ⟨rfl, rfl, rfl⟩, hrecords, .nil _,
        hasType_placeOf hfunction hmeans types⟩
  | element array index ih =>
    cases h with
    | @element _ type _ _ _ _ hmeans hindex htakes =>
      intro before types hrecords
      obtain ⟨code, place, middle, types', hyields, hrecords', htyped, hplace⟩ :=
        ih hindex before types hrecords
      have hstring := type.value_ne_string
      have hfresh := hrecords'.hasType_fresh hstring scope
      exact ⟨_, _, _, _, yields_element_iff.mpr ⟨code, place, middle, hyields, rfl, rfl, rfl⟩,
        hrecords'.afterTemporary hstring, htyped.pushFresh hrecords' (.copyFromArray
          (means_array hmeans) (hplace.mono (List.prefix_append _ _)) htakes hfresh) rfl, hfresh⟩
  | call callee args ih =>
    cases h with
    | @call _ type calleeParams _ hmeans hmatch =>
      intro before types hrecords
      obtain ⟨houtside, hcallee⟩ := callee_eq_ok hfunction hmeans
      obtain ⟨code, middle, types', hyields, hrecords', htyped⟩ :=
        exists_typedCode_of_argsMatch houtside (fun arg hmem _ => ih arg hmem)
          (List.Subset.refl _) hmatch hrecords
      have hstring := type.value_ne_string
      have hfresh := hrecords'.hasType_fresh hstring scope
      exact ⟨_, _, _, _,
        yields_call_iff.mpr ⟨calleeParams, code, middle, hcallee, hyields, rfl, rfl, rfl⟩,
        hrecords'.afterTemporary hstring, htyped.pushFresh hrecords' (.call houtside hfresh) rfl,
        hfresh⟩
  | input type =>
    cases h
    intro before types hrecords
    have hstring := type.value_ne_string
    have hfresh := hrecords.hasType_fresh hstring scope
    exact ⟨_, _, _, _, yields_input_iff.mpr ⟨rfl, rfl, rfl⟩, hrecords.afterTemporary hstring,
      (TypedCode.nil types).pushFresh hrecords (.input hfresh) rfl, hfresh⟩
  | binary op lhs rhs ihl ihr =>
    cases h with
    | binary hleft hright hresult =>
      intro before types hrecords
      obtain ⟨leftCode, left, middle, types₁, hyields₁, hrecords₁, htyped₁, hplace₁⟩ :=
        ihl hleft before types hrecords
      obtain ⟨rightCode, right, last, types₂, hyields₂, hrecords₂, htyped₂, hplace₂⟩ :=
        ihr hright middle types₁ hrecords₁
      have hstring := BinaryOp.resultType?_ne_string hresult
      have hfresh := hrecords₂.hasType_fresh hstring scope
      have hgrows := List.prefix_append types₂ [type]
      exact ⟨_, _, _, _, yields_binary_iff.mpr ⟨leftCode, left, middle, rightCode, right, last,
        hyields₁, hyields₂, rfl, rfl, rfl⟩, hrecords₂.afterTemporary hstring,
        (htyped₁.append htyped₂).pushFresh hrecords₂ (.binary
          (hplace₁.mono (htyped₂.grows.trans hgrows)) (hplace₂.mono hgrows) hresult hfresh) rfl,
        hfresh⟩

/-- A well-typed statement is lowered to well-typed code. -/
theorem exists_typedCode_of_wellTyped
    (hfunction : scope.Means function (.function result function params)) {stmt : Stmt}
    (h : (scope.withParams params).WellTyped result stmt) {before : Supply} {types : List ValueType}
    (hrecords : before.Records types) :
    ∃ code after types', (lowerStmt (.inside scope function) stmt).Yields before code after ∧
      after.Records types' ∧ TypedCode scope result types code types' := by
  induction stmt generalizing before types with
  | assign target value =>
    cases h with
    | assign hmeans hvalue htakes =>
      obtain ⟨code, source, after, types', hyields, hrecords', htyped, hsource⟩ :=
        lowersAs_of_hasType hfunction hvalue before types hrecords
      exact ⟨_, after, types', yields_assign_iff.mpr ⟨code, source, hyields, rfl⟩, hrecords',
        htyped.push (.copy (hasType_placeOf hfunction hmeans types') hsource htakes)⟩
  | assignElement array index value =>
    cases h with
    | assignElement hmeans hindex hint hvalue htakes =>
      obtain ⟨valueCode, source, middle, types₁, hyields₁, hrecords₁, htyped₁, hsource⟩ :=
        lowersAs_of_hasType hfunction hvalue before types hrecords
      obtain ⟨indexCode, place, after, types₂, hyields₂, hrecords₂, htyped₂, hplace⟩ :=
        lowersAs_of_hasType hfunction hindex middle types₁ hrecords₁
      exact ⟨_, after, types₂, yields_assignElement_iff.mpr
        ⟨valueCode, source, middle, indexCode, place, hyields₁, hyields₂, rfl⟩, hrecords₂,
        (htyped₁.append htyped₂).push (.copyIntoArray (means_array hmeans) hplace hint
          (hsource.mono htyped₂.grows) htakes)⟩
  | print value =>
    cases h with
    | print hvalue =>
      obtain ⟨code, source, after, types', hyields, hrecords', htyped, hsource⟩ :=
        lowersAs_of_hasType hfunction hvalue before types hrecords
      exact ⟨_, after, types', yields_print_iff.mpr ⟨code, source, hyields, rfl⟩, hrecords',
        htyped.push (.print hsource)⟩
  | ret value =>
    cases h with
    | ret hvalue htakes =>
      obtain ⟨code, source, after, types', hyields, hrecords', htyped, hsource⟩ :=
        lowersAs_of_hasType hfunction hvalue before types hrecords
      exact ⟨_, after, types', yields_ret_iff.mpr ⟨code, source, hyields, rfl⟩, hrecords',
        htyped.push (.ret hsource htakes)⟩
  | ifThen condition positive ih =>
    cases h with
    | ifThen hcondition hpositive =>
      obtain ⟨test, place, middle, types₁, hyields₁, hrecords₁, htyped₁, hplace⟩ :=
        lowersAs_of_hasType hfunction hcondition before types hrecords
      obtain ⟨branch, after, types₂, hyields₂, hrecords₂, htyped₂⟩ :=
        ih hpositive hrecords₁.afterLabel
      exact ⟨_, after, types₂,
        yields_ifThen_iff.mpr ⟨test, place, middle, branch, hyields₁, hyields₂, rfl⟩, hrecords₂,
        ((htyped₁.push (.jumpIfFalse _ hplace)).append htyped₂).land _⟩
  | ifElse condition positive negative ihp ihn =>
    cases h with
    | ifElse hcondition hpositive hnegative =>
      obtain ⟨test, place, middle, types₁, hyields₁, hrecords₁, htyped₁, hplace⟩ :=
        lowersAs_of_hasType hfunction hcondition before types hrecords
      obtain ⟨branch, last, types₂, hyields₂, hrecords₂, htyped₂⟩ :=
        ihp hpositive hrecords₁.afterLabel.afterLabel
      obtain ⟨alternative, after, types₃, hyields₃, hrecords₃, htyped₃⟩ := ihn hnegative hrecords₂
      exact ⟨_, after, types₃, yields_ifElse_iff.mpr
        ⟨test, place, middle, branch, last, alternative, hyields₁, hyields₂, hyields₃, rfl⟩,
        hrecords₃, (((htyped₁.push (.jumpIfFalse _ hplace)).append (htyped₂.push (.jump _))).append
          (htyped₃.marked _)).land _⟩
  | loop condition body ih =>
    cases h with
    | loop hcondition hbody =>
      obtain ⟨test, place, middle, types₁, hyields₁, hrecords₁, htyped₁, hplace⟩ :=
        lowersAs_of_hasType hfunction hcondition _ types hrecords.afterLabel.afterLabel
      obtain ⟨round, after, types₂, hyields₂, hrecords₂, htyped₂⟩ := ih hbody hrecords₁
      exact ⟨_, after, types₂,
        yields_loop_iff.mpr ⟨test, place, middle, round, hyields₁, hyields₂, rfl⟩, hrecords₂,
        (((htyped₁.marked _).push (.jumpIfFalse _ hplace)).append (htyped₂.push (.jump _))).land _⟩
  | block body ih =>
    cases h with
    | block hbody =>
      simp only [yields_block_iff]
      induction body generalizing before types with
      | nil =>
        exact ⟨[], before, types, yields_stmts_nil_iff.mpr ⟨rfl, rfl⟩, hrecords, .nil types⟩
      | cons stmt rest ihrest =>
        obtain ⟨hstmt, hrest⟩ := List.forall_mem_cons.mp hbody
        obtain ⟨first, middle, types₁, hyields₁, hrecords₁, htyped₁⟩ :=
          ih stmt List.mem_cons_self hstmt hrecords
        obtain ⟨others, after, types₂, hyields₂, hrecords₂, htyped₂⟩ :=
          ihrest (fun other hother => ih other (List.mem_cons_of_mem stmt hother)) hrecords₁ hrest
        exact ⟨_, after, types₂,
          yields_stmts_cons_iff.mpr ⟨first, middle, others, hyields₁, hyields₂, rfl⟩, hrecords₂,
          htyped₁.append htyped₂⟩
  | empty => exact ⟨[], before, types, yields_empty_iff.mpr ⟨rfl, rfl⟩, hrecords, .nil types⟩

end Bodies

section Programs

variable {scope : Scope} {types types' : List ValueType}

/-- The code of a declared function is well typed where its results have the declared type. -/
def Code.TypedBody (segment : Code) (scope : Scope) (types : List ValueType)
    (implementation : Implementation) : Prop :=
  ∃ result params, scope.Means implementation.name (.function result implementation.name params) ∧
    ∀ instruction ∈ segment, instruction.operation.WellTyped scope types result

/-- The code of a declared function stays well typed when more numbers are given types. -/
theorem Code.TypedBody.mono (hgrows : types <+: types') {segment : Code}
    {implementation : Implementation} (h : segment.TypedBody scope types implementation) :
    segment.TypedBody scope types' implementation := by
  obtain ⟨result, params, hmeans, htyped⟩ := h
  exact ⟨result, params, hmeans, fun instruction hmem => (htyped instruction hmem).mono hgrows⟩

/-- Well-typed bodies are lowered to well-typed segments. -/
theorem exists_typedBodies {implementations : List Implementation}
    (h : ∀ implementation ∈ implementations, ∃ result params,
      scope.Means implementation.name (.function result implementation.name params) ∧
      (scope.withParams params).WellTyped result implementation.body)
    {before : Supply} (hrecords : before.Records types) :
    ∃ code after types', (lowerImplementations scope implementations).Yields before code after ∧
      after.Records types' ∧ code.Fills types types' ∧
      List.Forall₂
        (fun implementation segment => Code.TypedBody segment scope types' implementation)
        implementations code.segments := by
  induction implementations generalizing before types with
  | nil =>
    exact ⟨[], before, types, yields_implementations_nil_iff.mpr ⟨rfl, rfl⟩, hrecords, .nil types,
      .nil⟩
  | cons implementation rest ih =>
    obtain ⟨⟨result, params, hmeans, hbody⟩, hrest⟩ := List.forall_mem_cons.mp h
    obtain ⟨inner, middle, types₁, hinner, hrecords₁, htyped⟩ :=
      exists_typedCode_of_wellTyped hmeans hbody hrecords
    obtain ⟨others, after, types₂, hothers, hrecords₂, hfills, hsegments⟩ := ih hrest hrecords₁
    have hframed : TypedCode scope result types (Code.framed implementation.name inner) types₁ :=
      ((TypedCode.ofOperation (.enter implementation.name)).append htyped).push .leave
    have hlowered : (Code.framed implementation.name inner).IsLoweredFrom scope implementation :=
      ⟨before, inner, middle, hinner, rfl⟩
    refine ⟨Code.framed implementation.name inner ++ others, after, types₂,
      yields_implementations_cons_iff.mpr ⟨_, middle, others,
        yields_implementation_iff.mpr ⟨inner, hinner, rfl⟩, hothers, rfl⟩,
      hrecords₂, hframed.toFills.append hfills, ?_⟩
    rw [hlowered.segments_append]
    exact .cons (Code.TypedBody.mono hfills.grows ⟨result, params, hmeans, hframed.typed⟩) hsegments

end Programs

/-- A body of a well-formed program is well typed where its name is declared. -/
theorem Program.WellFormed.exists_wellTyped {program : Program} (h : program.WellFormed)
    (implementation : Implementation) (hmem : implementation ∈ program.implementations) :
    ∃ result params,
      program.scope.Means implementation.name (.function result implementation.name params) ∧
        (program.scope.withParams params).WellTyped result implementation.body := by
  obtain ⟨result, params, hdecl⟩ := h.declared implementation hmem
  exact ⟨result, params, (Program.means_iff_mem h.decls_distinct).mpr hdecl,
    h.typed implementation hmem result params hdecl⟩

/-- An accepted program is lowered, and to well-typed code. -/
theorem Program.exists_typing_of_check {program : Program} (hcheck : program.check = []) :
    ∃ unit types, program.lower = .ok unit ∧ unit.decls = program.decls ∧
      unit.strings = program.supply.strings ∧ program.supply.Records types ∧
      unit.code.Fills [] types ∧
      List.Forall₂
        (fun implementation segment => Code.TypedBody segment program.scope types implementation)
        program.implementations unit.code.segments := by
  have hformed := Program.WellFormed.of_check hcheck
  obtain ⟨code, after, types, hyields, hrecords, hfills, hsegments⟩ :=
    exists_typedBodies hformed.exists_wellTyped Supply.Records.full
  have hsupply := Program.supply_eq hyields
  exact ⟨⟨program.decls, after.strings, code⟩, types,
    Program.lower_eq_ok_iff.mpr ⟨code, after, hyields, rfl⟩, rfl, by rw [hsupply],
    hsupply ▸ hrecords, hfills, hsegments⟩

/-- An accepted program whose functions have parameters of different names is lowered, and one list
of types, a type for each number that was taken, makes the code of every function well typed. As
long as the numbers do not run out, every place has one type only. -/
theorem lower_preserves_types {program : Program} (hcheck : program.check = [])
    (hparams : ∀ type name params, .function type name params ∈ program.decls →
      (params.map Param.name).Nodup) :
    ∃ unit types, program.lower = .ok unit ∧ types.length = program.supply.temporaries ∧
      (types.length ≤ 2 ^ 32 → ∀ place type type',
        Storage.HasType program.scope types place type →
        Storage.HasType program.scope types place type' → type = type') ∧
      List.Forall₂
        (fun implementation segment => Code.TypedBody segment program.scope types implementation)
        program.implementations unit.code.segments := by
  obtain ⟨unit, types, hlower, -, -, hrecords, -, hsegments⟩ :=
    Program.exists_typing_of_check hcheck
  refine ⟨unit, types, hlower, hrecords.length_eq, fun hfit place type type' h h' => ?_, hsegments⟩
  refine h.unique hfit (fun function result params hmeans => ?_) h'
  have hdistinct := (Program.WellFormed.of_check hcheck).decls_distinct
  exact hparams result function params ((Program.means_iff_mem hdistinct).mp hmeans)

/-- A program with an array, a string and a call that converts its argument. -/
def measuring : Program where
  decls := [.scalar .int "n" (.int 0), .array .float "xs" 2 [],
    .function .float "f" [⟨.int, "a"⟩], .function .int "main" []]
  implementations :=
    [⟨"f", .block [.assignElement "xs" (.scalar "a") (.input .float),
      .ret (.element "xs" (.scalar "a"))]⟩,
     ⟨"main", .block [.print (.literal (.string "go")),
      .ifThen (.binary .lt (.call "f" [.literal (.char '\x01')]) (.input .float))
        (.assign "n" (.literal (.char '\x02'))),
      .ret (.scalar "n")]⟩]

/-- All parameters of the measuring program have different names. -/
theorem measuring_params {type : ScalarType} {name : String} {params : List Param}
    (h : .function type name params ∈ measuring.decls) : (params.map Param.name).Nodup := by
  simp only [measuring, List.mem_cons, List.not_mem_nil, or_false, reduceCtorEq, false_or,
    Decl.function.injEq] at h
  rcases h with ⟨-, -, rfl⟩ | ⟨-, -, rfl⟩ <;> decide

/-- The measuring program is lowered to well-typed code, and its places have one type each. -/
theorem measuring_typed :
    ∃ unit types, measuring.lower = .ok unit ∧ types.length = 6 ∧
      (∀ place type type', Storage.HasType measuring.scope types place type →
        Storage.HasType measuring.scope types place type' → type = type') ∧
      List.Forall₂
        (fun implementation segment => Code.TypedBody segment measuring.scope types implementation)
        measuring.implementations unit.code.segments := by
  obtain ⟨unit, types, hlower, hlength, hunique, htyped⟩ :=
    lower_preserves_types (rfl : measuring.check = []) (fun _ _ _ => measuring_params)
  have hsix : types.length = 6 := hlength.trans rfl
  exact ⟨unit, types, hlower, hsix, hunique (by rw [hsix]; decide), htyped⟩

end ThreeAddress
