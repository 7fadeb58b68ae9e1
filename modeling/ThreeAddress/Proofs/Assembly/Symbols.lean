import ThreeAddress.Assembly.Data
import Mathlib.Data.List.Basic

/-!
# What symbols stand for

Every symbol of assembly text is written for something: a name of the program, a number that
lowering took, a format, the entry of a function or a label. Which of these it is can be read off
the beginning of a symbol, and a point tells parameters from variables. So two things that are named
by identifiers never share a symbol.
-/

namespace ThreeAddress

/-- A name of the source language: letters, digits and underscores, and at least one of them. -/
def IsIdentifier (name : String) : Prop :=
  name ≠ "" ∧ ∀ char ∈ name.toList, char.isAlphanum = true ∨ char = '_'

instance : DecidablePred IsIdentifier := fun name =>
  -- the characters of the name are gone through, and not all characters there are
  have : Decidable (∀ char ∈ name.toList, char.isAlphanum = true ∨ char = '_') :=
    List.decidableBAll _ name.toList
  inferInstanceAs (Decidable (name ≠ "" ∧ _))

/-- The sorts of things that symbols stand for. -/
inductive SymbolSort where
  | variable
  | parameter
  | number
  | format
  | entry
  | mark
  deriving DecidableEq

/-- What a symbol can stand for. -/
inductive Referent where
  /-- A variable or an array. -/
  | variable (name : String)
  | parameter (function name : String)
  /-- A temporary or a string constant. -/
  | number (id : Temporary)
  /-- The format that reads a type. -/
  | format (type : ScalarType)
  /-- The format that prints a string. -/
  | printFormat
  /-- The entry of a function. -/
  | entry (function : String)
  /-- The place that a label marks. -/
  | mark (target : Label)
  deriving DecidableEq

namespace Referent

/-- The symbol that stands for something. -/
def symbol : Referent → String
  | .variable name => Symbol.ofVariable name
  | .parameter function name => Symbol.ofParameter function name
  | .number id => id.symbol
  | .format type => Symbol.ofFormat type
  | .printFormat => Symbol.printFormat
  | .entry function => Symbol.ofFunction function
  | .mark target => target.symbol

/-- The sort of something. -/
def sort : Referent → SymbolSort
  | .variable _ => .variable
  | .parameter .. => .parameter
  | .number _ => .number
  | .format _ | .printFormat => .format
  | .entry _ => .entry
  | .mark _ => .mark

/-- The names of the program that something is named by. -/
def names : Referent → List String
  | .variable name | .entry name => [name]
  | .parameter function name => [function, name]
  | .number _ | .format _ | .printFormat | .mark _ => []

/-- The names of variables and parameters contain no point. -/
def IsPlain : Referent → Prop
  | .variable name => '.' ∉ name.toList
  | .parameter function name => '.' ∉ function.toList ∧ '.' ∉ name.toList
  | _ => True

end Referent

namespace Symbol

/-- The sort of what a symbol stands for, as it is read off the text. -/
def sort (symbol : String) : SymbolSort :=
  match symbol.toList with
  | '_' :: rest => if '.' ∈ rest then .parameter else .variable
  | 's' :: _ => .number
  | 'f' :: 'o' :: _ => .format
  | 'l' :: _ => .mark
  | _ => .entry

/-- The text of a symbol tells what sort of thing it stands for. -/
theorem sort_symbol {referent : Referent} (h : referent.IsPlain) :
    sort referent.symbol = referent.sort := by
  cases referent with
  | «variable» name =>
    have hlist : (ofVariable name).toList = '_' :: name.toList := by simp [ofVariable]
    rw [Referent.symbol, sort, hlist]
    exact if_neg h
  | parameter function name =>
    have hlist : (ofParameter function name).toList =
        '_' :: (function.toList ++ '.' :: name.toList) := by simp [ofParameter]
    rw [Referent.symbol, sort, hlist]
    exact if_pos (by simp)
  | number id => simp [Referent.symbol, Temporary.symbol, sort, Referent.sort]
  | format type => cases type <;> rfl
  | printFormat => rfl
  | entry function =>
    rw [Referent.symbol, ofFunction]
    split
    · next heq =>
      rw [heq]
      rfl
    · simp [sort, Referent.sort]
  | mark target => simp [Referent.symbol, Label.symbol, sort, Referent.sort]

end Symbol

/-- Different numbers are written differently. -/
theorem eq_of_toString_eq {first second : Nat} (h : toString first = toString second) :
    first = second := by
  have hdigits : Nat.toDigits 10 first = Nat.toDigits 10 second := by
    rw [← String.ofList_inj, ← Nat.repr_eq_ofList_toDigits, ← Nat.repr_eq_ofList_toDigits]
    exact h
  rw [← Nat.ofDigitChars_ten_toDigits (n := first), hdigits, Nat.ofDigitChars_ten_toDigits]

/-- Different numbers have different symbols. -/
theorem Temporary.symbol_inj {first second : Temporary} (h : first.symbol = second.symbol) :
    first = second :=
  Temporary.ext (UInt32.toNat_inj.mp (eq_of_toString_eq ((String.append_right_inj _).mp h)))

/-- Different labels have different symbols. -/
theorem Label.symbol_inj {first second : Label} (h : first.symbol = second.symbol) :
    first = second :=
  Label.ext (UInt32.toNat_inj.mp (eq_of_toString_eq ((String.append_right_inj _).mp h)))

namespace Symbol

/-- Different parameters have different symbols, if their names contain no point. -/
theorem ofParameter_inj {function function' name name' : String} (hfunction : '.' ∉ function.toList)
    (hname : '.' ∉ name.toList) (h : ofParameter function name = ofParameter function' name') :
    function = function' ∧ name = name' := by
  have hlist : function.toList ++ '.' :: name.toList = function'.toList ++ '.' :: name'.toList := by
    simpa [ofParameter] using congrArg String.toList h
  obtain ⟨hfunction, -, hname⟩ := (List.append_cons_inj_of_notMem hfunction hname).mp hlist
  exact ⟨String.toList_inj.mp hfunction, String.toList_inj.mp hname⟩

/-- Different formats have different symbols. -/
theorem ofFormat_inj {first second : ScalarType} (h : ofFormat first = ofFormat second) :
    first = second := by
  cases first <;> cases second <;> first | rfl | exact absurd h (by decide)

/-- Different functions have different symbols, and none that of the entry point. -/
theorem ofFunction_inj {first second : String} (h : ofFunction first = ofFunction second) :
    first = second := by
  have hmain : ∀ name : String, "main" ≠ "fn." ++ name := fun name heq => by
    simpa using congrArg String.toList heq
  unfold ofFunction at h
  split at h
  · next hfirst =>
    split at h
    · next hsecond => rw [hfirst, hsecond]
    · exact absurd (hfirst.symm.trans h) (hmain second)
  · split at h
    · next hsecond => exact absurd (hsecond.symm.trans h.symm) (hmain first)
    · exact (String.append_right_inj _).mp h

end Symbol

/-- Different things have different symbols. -/
theorem Referent.symbol_inj {first second : Referent} (hfirst : first.IsPlain)
    (hsecond : second.IsPlain) (h : first.symbol = second.symbol) : first = second := by
  have hsort : first.sort = second.sort := by
    rw [← Symbol.sort_symbol hfirst, ← Symbol.sort_symbol hsecond, h]
  -- things of different sorts are told apart by that, and within a sort by what follows
  cases first with
  | «variable» name =>
    cases second with
    | «variable» name' => rw [(String.append_right_inj _).mp h]
    | _ => contradiction
  | parameter function name =>
    cases second with
    | parameter function' name' =>
      obtain ⟨rfl, rfl⟩ := Symbol.ofParameter_inj hfirst.1 hfirst.2 h
      rfl
    | _ => contradiction
  | number id =>
    cases second with
    | number id' => rw [Temporary.symbol_inj h]
    | _ => contradiction
  | format type =>
    cases second with
    | format type' => rw [Symbol.ofFormat_inj h]
    | printFormat => cases type <;> exact absurd h (by decide)
    | _ => contradiction
  | printFormat =>
    cases second with
    | format type' => cases type' <;> exact absurd h (by decide)
    | printFormat => rfl
    | _ => contradiction
  | entry function =>
    cases second with
    | entry function' => rw [Symbol.ofFunction_inj h]
    | _ => contradiction
  | mark target =>
    cases second with
    | mark target' => rw [Label.symbol_inj h]
    | _ => contradiction

end ThreeAddress
