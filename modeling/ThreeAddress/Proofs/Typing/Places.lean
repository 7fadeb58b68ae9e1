import ThreeAddress.Proofs.Lowering.Supply
import ThreeAddress.Proofs.Typing.Exactness
import Mathlib.Data.List.Nodup

/-!
# Types of places

Three-address code has no types of its own. Here its places are given some: variables and parameters
have their declared types, constants those of their literals. Temporaries and string constants are
numbered from one supply, so a list with one type for each number types both: a number of type
string belongs to a string constant, every other one to a temporary. Instructions are well typed if
their places fit each other, whatever values are in them.
-/

namespace ThreeAddress

/-- A place has a type, where numbers have the types in a list. -/
inductive Storage.HasType (scope : Scope) (types : List ValueType) : Storage → ValueType → Prop
  | variable {name : String} {type : ScalarType} {initial : Literal} :
      scope.Means name (.scalar type name initial) → HasType scope types (.variable name) type.value
  | parameter {function : String} {result : ScalarType} {params : List Param} {param : Param} :
      scope.Means function (.function result function params) → param ∈ params →
      HasType scope types (.parameter function param.name) param.type.value
  | temporary {number : Nat} {type : ValueType} : types[number]? = some type → type ≠ .string →
      HasType scope types (.temporary (.numbered number)) type
  | constant (value : Immediate) : HasType scope types (.constant value) value.literal.type
  | string {number : Nat} : types[number]? = some .string →
      HasType scope types (.string (.numbered number)) .string

/-- An operation is well typed in a function with a given type of results. -/
inductive Operation.WellTyped (scope : Scope) (types : List ValueType) (result : ScalarType) :
    Operation → Prop
  | nop : WellTyped scope types result .nop
  | enter (function : String) : WellTyped scope types result (.enter function)
  | leave : WellTyped scope types result .leave
  | jump (target : Label) : WellTyped scope types result (.jump target)
  | jumpIfFalse {condition : Storage} (target : Label) : condition.HasType scope types .bool →
      WellTyped scope types result (.jumpIfFalse condition target)
  | copy {destination source : Storage} {target value : ValueType} :
      destination.HasType scope types target → source.HasType scope types value →
      target.Takes value → WellTyped scope types result (.copy destination source)
  | copyIntoArray {array : String} {index source : Storage} {type : ScalarType} {size : Nat}
      {initials : List Literal} {position value : ValueType} :
      scope.Means array (.array type array size initials) → index.HasType scope types position →
      ValueType.Takes .int position → source.HasType scope types value → type.value.Takes value →
      WellTyped scope types result (.copyIntoArray array index source)
  | copyFromArray {destination index : Storage} {array : String} {type : ScalarType} {size : Nat}
      {initials : List Literal} {position : ValueType} :
      scope.Means array (.array type array size initials) → index.HasType scope types position →
      ValueType.Takes .int position → destination.HasType scope types type.value →
      WellTyped scope types result (.copyFromArray destination array index)
  | call {function : String} {destination : Storage} {type : ScalarType} {params : List Param} :
      scope.Means function (.function type function params) →
      destination.HasType scope types type.value →
      WellTyped scope types result (.call function destination)
  | input {type : ScalarType} {destination : Storage} :
      destination.HasType scope types type.value →
      WellTyped scope types result (.input type destination)
  | print {source : Storage} {type : ValueType} : source.HasType scope types type →
      WellTyped scope types result (.print source)
  | ret {source : Storage} {type : ValueType} : source.HasType scope types type →
      result.value.Takes type → WellTyped scope types result (.ret source)
  | binary {op : BinaryOp} {destination lhs rhs : Storage} {left right type : ValueType} :
      lhs.HasType scope types left → rhs.HasType scope types right →
      op.resultType? left right = some type → destination.HasType scope types type →
      WellTyped scope types result (.binary op destination lhs rhs)

/-- No declared type is the type of strings. -/
theorem ScalarType.value_ne_string (type : ScalarType) : type.value ≠ .string := by
  cases type <;> simp [ScalarType.value]

/-- No operator yields a string. -/
theorem BinaryOp.resultType?_ne_string {op : BinaryOp} {left right type : ValueType}
    (h : op.resultType? left right = some type) : type ≠ .string := by
  rintro rfl
  unfold BinaryOp.resultType? at h
  split at h
  · split at h <;> contradiction
  · split at h <;> contradiction
  · split at h <;> contradiction

section Mono

variable {scope : Scope} {types types' : List ValueType} {result : ScalarType}

/-- A number keeps its type when more are given types. -/
theorem getElem?_of_grows (hgrows : types <+: types') {number : Nat} {type : ValueType}
    (h : types[number]? = some type) : types'[number]? = some type := by
  obtain ⟨rest, rfl⟩ := hgrows
  rw [List.getElem?_append_left (List.getElem?_eq_some_iff.mp h).1, h]

/-- A place keeps its type when more numbers are given types. -/
theorem Storage.HasType.mono (hgrows : types <+: types') {place : Storage} {type : ValueType}
    (h : place.HasType scope types type) : place.HasType scope types' type := by
  cases h with
  | «variable» hmeans => exact .variable hmeans
  | parameter hmeans hmem => exact .parameter hmeans hmem
  | temporary hnumber hstring => exact .temporary (getElem?_of_grows hgrows hnumber) hstring
  | constant value => exact .constant value
  | string hnumber => exact .string (getElem?_of_grows hgrows hnumber)

/-- An operation stays well typed when more numbers are given types. -/
theorem Operation.WellTyped.mono (hgrows : types <+: types') {operation : Operation}
    (h : operation.WellTyped scope types result) : operation.WellTyped scope types' result := by
  cases h with
  | nop => exact .nop
  | enter function => exact .enter function
  | leave => exact .leave
  | jump target => exact .jump target
  | jumpIfFalse target hcondition => exact .jumpIfFalse target (hcondition.mono hgrows)
  | copy hdestination hsource htakes =>
    exact .copy (hdestination.mono hgrows) (hsource.mono hgrows) htakes
  | copyIntoArray hmeans hindex hint hsource htakes =>
    exact .copyIntoArray hmeans (hindex.mono hgrows) hint (hsource.mono hgrows) htakes
  | copyFromArray hmeans hindex hint hdestination =>
    exact .copyFromArray hmeans (hindex.mono hgrows) hint (hdestination.mono hgrows)
  | call hmeans hdestination => exact .call hmeans (hdestination.mono hgrows)
  | input hdestination => exact .input (hdestination.mono hgrows)
  | print hsource => exact .print (hsource.mono hgrows)
  | ret hsource htakes => exact .ret (hsource.mono hgrows) htakes
  | binary hleft hright hresult hdestination =>
    exact .binary (hleft.mono hgrows) (hright.mono hgrows) hresult (hdestination.mono hgrows)

end Mono

/-- A place has one type only, as long as the numbers do not run out and the parameters of a
function have different names. -/
theorem Storage.HasType.unique {scope : Scope} {types : List ValueType} {place : Storage}
    {type type' : ValueType} (hfit : types.length ≤ 2 ^ 32)
    (hparams : ∀ function result params, scope.Means function (.function result function params) →
      (params.map Param.name).Nodup)
    (h : place.HasType scope types type) (h' : place.HasType scope types type') : type = type' := by
  cases h with
  | «variable» hmeans =>
    cases h' with
    | «variable» hmeans' => rw [(Decl.scalar.inj (hmeans.unique hmeans')).1]
  | @parameter _ _ params param hmeans hmem =>
    generalize hplace : Storage.parameter _ param.name = place at h'
    cases h' with
    | @parameter _ _ params' param' hmeans' hmem' =>
      obtain ⟨rfl, hname⟩ := Storage.parameter.inj hplace
      obtain rfl := (Decl.function.inj (hmeans.unique hmeans')).2.2
      rw [List.inj_on_of_nodup_map (hparams _ _ _ hmeans) hmem hmem' hname]
    | _ => contradiction
  | @temporary number _ hnumber _ =>
    generalize hplace : Storage.temporary (.numbered number) = place at h'
    cases h' with
    | @temporary number' _ hnumber' _ =>
      have hlt := (List.getElem?_eq_some_iff.mp hnumber).1
      have hlt' := (List.getElem?_eq_some_iff.mp hnumber').1
      obtain rfl := Temporary.numbered_inj (by omega) (by omega) (Storage.temporary.inj hplace)
      exact Option.some.inj (hnumber.symm.trans hnumber')
    | _ => contradiction
  | constant value =>
    cases h'
    rfl
  | string _ =>
    generalize hplace : Storage.string _ = place at h'
    cases h' with
    | string _ => rfl
    | _ => contradiction

end ThreeAddress
