import ThreeAddress.Code.Strings
import ThreeAddress.Scope

/-!
# What lowering knows and takes

Lowering reads an environment: the global declarations and, inside the body of a declared
function, that function's name and parameters. It draws temporaries and labels from a supply,
where string constants are registered too. What has been drawn stays drawn when lowering fails.

The supply counts in natural numbers; an identifier has thirty-two bits, so all identifiers
differ as long as fewer than `2 ^ 32` of a kind are taken.
-/

namespace ThreeAddress

/-- Why lowering fails. -/
inductive LoweringError where
  /-- A call of a name without a declaration. -/
  | undeclaredFunction (name : String)
  /-- A call of a name that means something else than a function. -/
  | notAFunction (name : String)
  deriving DecidableEq

/-- The sentence of an error. -/
def LoweringError.message : LoweringError → String
  | .undeclaredFunction name => "call to undeclared function \"" ++ name ++ "\""
  | .notAFunction name => "\"" ++ name ++ "\" is called but is not a function"

/-- The function whose body is being lowered. -/
structure EnclosingFunction where
  /-- The name of the function. -/
  name : String
  /-- The names of its parameters. -/
  params : List String

/-- What names mean during lowering. -/
structure Environment where
  /-- The global declarations. -/
  scope : Scope
  /-- The declared function around, if there is one. -/
  enclosing? : Option EnclosingFunction

namespace Environment

/-- The environment outside all functions. -/
def outside (scope : Scope) : Environment := ⟨scope, none⟩

/-- The environment inside the body of a name; a name that is not a declared function has no
parameters to offer. -/
def inside (scope : Scope) (name : String) : Environment :=
  ⟨scope, (scope.function? name).map fun signature =>
    ⟨name, signature.params.map Param.name⟩⟩

/-- Whether a parameter of the function around hides what a name means outside. -/
def hides (env : Environment) (name : String) : Bool :=
  match env.enclosing? with
  | some function => decide (name ∈ function.params)
  | none => false

/-- The place a name refers to; parameters hide globals. -/
def placeOf (env : Environment) (name : String) : Storage :=
  match env.enclosing? with
  | some function =>
    if name ∈ function.params then .parameter function.name name else .variable name
  | none => .variable name

/-- The parameters of a called function. A name that a parameter hides can not be called. -/
def callee (env : Environment) (name : String) : Except LoweringError (List Param) :=
  match env.scope.function? name with
  | some signature =>
    if env.hides name then .error (.notAFunction name) else .ok signature.params
  | none =>
    if (env.scope.find? name).isSome then .error (.notAFunction name)
    else .error (.undeclaredFunction name)

end Environment

/-- Where identifiers and string constants come from. -/
structure Supply where
  /-- How many temporaries have been taken. -/
  temporaries : Nat
  /-- How many labels have been taken. -/
  labels : Nat
  /-- The string constants registered so far. -/
  strings : StringPool

/-- Nothing taken and nothing registered. -/
def Supply.full : Supply := ⟨0, 0, .empty⟩

/-- A step of lowering: it may fail, and what it took is taken either way. -/
abbrev LowerM := ExceptT LoweringError (StateM Supply)

/-- Runs a step on a supply. -/
def LowerM.runOn (step : LowerM α) (supply : Supply) : Except LoweringError α × Supply :=
  step.run supply

/-- Takes a temporary. -/
def takeTemporary : LowerM Temporary :=
  modifyGet fun supply =>
    (⟨UInt32.ofNat supply.temporaries⟩,
      { supply with temporaries := supply.temporaries + 1 })

/-- Takes a label. -/
def takeLabel : LowerM Label :=
  modifyGet fun supply =>
    (⟨UInt32.ofNat supply.labels⟩, { supply with labels := supply.labels + 1 })

/-- Registers the text of a string constant under its number. -/
def registerString (id : Temporary) (text : String) : LowerM Unit :=
  modify fun supply => { supply with strings := supply.strings.insert id text }

namespace LowerM

/-- A step that only yields a value takes nothing. -/
@[simp] theorem runOn_pure (value : α) (supply : Supply) :
    (pure value : LowerM α).runOn supply = (.ok value, supply) := rfl

/-- A sequence of two steps ends with the first one's error, and with what it took, or goes on
with what is left. -/
theorem runOn_bind (first : LowerM α) (second : α → LowerM β) (supply : Supply) :
    (first >>= second).runOn supply =
      match first.runOn supply with
      | (.ok value, rest) => (second value).runOn rest
      | (.error error, rest) => (.error error, rest) := by
  simp only [runOn, bind, ExceptT.bind, ExceptT.mk, ExceptT.run, StateT.bind]
  cases first supply with
  | mk result rest => cases result <;> rfl

/-- The next temporary has the number of those taken before. -/
@[simp] theorem runOn_takeTemporary (supply : Supply) :
    takeTemporary.runOn supply = (.ok ⟨UInt32.ofNat supply.temporaries⟩,
      { supply with temporaries := supply.temporaries + 1 }) := rfl

/-- The next label has the number of those taken before. -/
@[simp] theorem runOn_takeLabel (supply : Supply) :
    takeLabel.runOn supply = (.ok ⟨UInt32.ofNat supply.labels⟩,
      { supply with labels := supply.labels + 1 }) := rfl

end LowerM

/-- A parameter of the function around is that function's own place. -/
theorem Environment.placeOf_of_hides {env : Environment} {name : String}
    (h : env.hides name = true) :
    ∃ function, env.enclosing? = some function ∧
      env.placeOf name = .parameter function.name name := by
  unfold hides at h
  split at h
  · rename_i function henclosing
    exact ⟨function, henclosing, by simp [placeOf, henclosing, of_decide_eq_true h]⟩
  · contradiction

/-- Every other name is a global variable. -/
theorem Environment.placeOf_of_not_hides {env : Environment} {name : String}
    (h : env.hides name = false) : env.placeOf name = .variable name := by
  unfold hides at h
  unfold placeOf
  split at h
  · exact if_neg (of_decide_eq_false h)
  · rfl

end ThreeAddress
