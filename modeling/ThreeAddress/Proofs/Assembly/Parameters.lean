import ThreeAddress.Proofs.Assembly.Closed
import ThreeAddress.Proofs.Assembly.Storage
import ThreeAddress.Proofs.Calls.Passing
import Mathlib.Data.List.Dedup

/-!
# A word for every parameter

The storage of a parameter is found by the names of the function and of the parameter, in the data
section and in the code alike, and no check compares the names of a function's parameters with each
other. So the data section has as many words for a function as there are different names, and a call
copies its arguments into as many places: each parameter has a word of its own exactly if no two of
them share a name.
-/

namespace ThreeAddress

/-- Whether a symbol is that of some parameter of a function: it begins with the function's name and
a point. -/
def Symbol.IsOfParameter (function symbol : String) : Prop :=
  (ofParameter function "").toList <+: symbol.toList

instance (function : String) : DecidablePred (Symbol.IsOfParameter function) := fun _ =>
  inferInstanceAs (Decidable (_ <+: _))

/-- The words that the data section has for the parameters of a function. -/
def CodeUnit.parameterWords (unit : CodeUnit) (function : String) : List Datum :=
  unit.data.filter fun datum => Symbol.IsOfParameter function datum.symbol

/-- Only parameters of a function have the symbols of such. -/
theorem Referent.isOfParameter_symbol_iff {referent : Referent} (hplain : referent.IsPlain)
    {function : String} (hfunction : '.' ∉ function.toList) :
    Symbol.IsOfParameter function referent.symbol ↔
      ∃ name, referent = .parameter function name := by
  constructor
  · rintro ⟨rest, hrest⟩
    have hsymbol : referent.symbol = Symbol.ofParameter function (String.ofList rest) := by
      rw [← String.toList_inj, ← hrest]
      simp [Symbol.ofParameter]
    have hsort : referent.sort = .parameter := by
      rw [← Symbol.sort_symbol hplain, hsymbol]
      simp [Symbol.sort, Symbol.ofParameter]
    cases referent with
    | parameter owner name =>
      obtain ⟨rfl, -⟩ := Symbol.ofParameter_inj hplain.1 hplain.2 hsymbol
      exact ⟨name, rfl⟩
    | «variable» | number | format | printFormat | entry | mark => contradiction
  · rintro ⟨name, rfl⟩
    exact ⟨name.toList, by simp [Referent.symbol, Symbol.ofParameter]⟩

/-- Whether something is a parameter of a function. -/
def Referent.isParameterOf (function : String) : Referent → Bool
  | .parameter owner _ => owner = function
  | _ => false

/-- Parameters of a function are told by their symbols. -/
theorem Referent.decide_isOfParameter {referent : Referent} (hplain : referent.IsPlain)
    {function : String} (hfunction : '.' ∉ function.toList) :
    decide (Symbol.IsOfParameter function referent.symbol) = referent.isParameterOf function := by
  rw [Bool.eq_iff_iff, decide_eq_true_iff, isOfParameter_symbol_iff hplain hfunction]
  constructor
  · rintro ⟨name, rfl⟩
    exact decide_eq_true rfl
  · intro howned
    cases referent with
    | parameter owner name => exact ⟨name, by rw [of_decide_eq_true howned]⟩
    | «variable» | number | format | printFormat | entry | mark => contradiction

namespace CodeUnit

variable {unit : CodeUnit} {result : ScalarType} {function : String} {params : List Param}

/-- The names of the parameters that are laid out, each with that of its function. -/
def parameterKeys (unit : CodeUnit) : List (String × String) :=
  (firstsBy (fun entry => (entry.1, entry.2.name)) (allParams unit.decls)).map
    fun entry => (entry.1, entry.2.name)

/-- The parameters of a function are laid out once for each of their names. -/
theorem perm_parameterKeys (hdistinct : (unit.decls.map Decl.name).Nodup)
    (hdecl : .function result function params ∈ unit.decls) :
    (unit.parameterKeys.filter fun entry => entry.1 = function).Perm
      ((params.map Param.name).dedup.map fun name => (function, name)) := by
  have hinj : Function.Injective fun name : String => (function, name) :=
    fun _ _ heq => (Prod.mk.inj heq).2
  have hkeys : unit.parameterKeys.Nodup := nodup_map_firstsBy _ _
  refine (List.perm_ext_iff_of_nodup (hkeys.filter _)
    ((List.nodup_dedup _).map hinj)).mpr fun ⟨owner, name⟩ => ?_
  simp only [List.mem_filter, decide_eq_true_eq, List.mem_map, List.mem_dedup, Prod.mk.injEq]
  constructor
  · rintro ⟨hlaid, rfl⟩
    obtain ⟨⟨owner, param⟩, hfirst, heq⟩ := List.mem_map.mp hlaid
    obtain ⟨rfl, rfl⟩ := Prod.mk.inj heq
    obtain ⟨type, others, hother, hparam⟩ := mem_allParams_iff.mp (mem_of_mem_firstsBy hfirst)
    -- the function is declared only once
    have hsame := List.inj_on_of_nodup_map hdistinct hother hdecl rfl
    rw [Decl.function.injEq] at hsame
    obtain ⟨-, -, rfl⟩ := hsame
    exact ⟨param.name, ⟨param, hparam, rfl⟩, rfl, rfl⟩
  · rintro ⟨_, ⟨param, hparam, rfl⟩, rfl, rfl⟩
    refine ⟨?_, rfl⟩
    have hall : (function, param) ∈ allParams unit.decls :=
      mem_allParams_iff.mpr ⟨result, params, hdecl, hparam⟩
    obtain ⟨first, hfirst, hkey⟩ :
        ∃ first ∈ firstsBy (fun entry => (entry.1, entry.2.name)) (allParams unit.decls),
          (first.1, first.2.name) = (function, param.name) := exists_mem_firstsBy hall
    exact List.mem_map.mpr ⟨first, hfirst, hkey⟩

/-- There are as many words for a function's parameters as they have different names. -/
theorem length_parameterWords
    (hnames : ∀ decl ∈ unit.decls, ∀ name ∈ decl.names, '.' ∉ name.toList)
    (hdistinct : (unit.decls.map Decl.name).Nodup)
    (hdecl : .function result function params ∈ unit.decls) :
    (unit.parameterWords function).length = (params.map Param.name).dedup.length := by
  have hfunction : '.' ∉ function.toList := hnames _ hdecl function List.mem_cons_self
  have hreserved : (unit.parameterWords function).map Datum.symbol =
      (unit.reserved.filter (Referent.isParameterOf function)).map Referent.symbol := by
    calc (unit.parameterWords function).map Datum.symbol
        = (unit.data.map Datum.symbol).filter (Symbol.IsOfParameter function) := by
          rw [List.filter_map]
          rfl
      _ = (unit.reserved.filter fun referent =>
            Symbol.IsOfParameter function referent.symbol).map Referent.symbol := by
          rw [symbols_data, List.filter_map]
          rfl
      _ = (unit.reserved.filter (Referent.isParameterOf function)).map Referent.symbol := by
          refine congrArg _ (List.filter_congr fun referent hmem => ?_)
          exact Referent.decide_isOfParameter (isPlain_of_mem_reserved hnames hmem) hfunction
  have hkeys : (unit.reserved.filter (Referent.isParameterOf function)).length =
      (unit.parameterKeys.filter fun entry => entry.1 = function).length := by
    simp [reserved, parameterKeys, List.filter_map, Function.comp_def, Referent.isParameterOf]
  have hwords := congrArg List.length hreserved
  rw [List.length_map, List.length_map] at hwords
  rw [hwords, hkeys, (perm_parameterKeys hdistinct hdecl).length_eq, List.length_map]

end CodeUnit

/-- Each parameter of a function of an accepted program has a word of its own, and each call of the
function copies its arguments into different places, exactly if the names of the parameters
differ. Every call in a body is made by an instruction that the copies stand in front of, and no
other instruction calls the function. -/
theorem parameters_apart_iff {program : Program} (hcheck : program.check = [])
    (hnames : ∀ decl ∈ program.decls, ∀ name ∈ decl.names, '.' ∉ name.toList)
    {result : ScalarType} {function : String} {params : List Param}
    (hdecl : .function result function params ∈ program.decls) :
    ∃ unit, program.lower = .ok unit ∧
      ((unit.parameterWords function).length = params.length ↔ (params.map Param.name).Nodup) ∧
      ((Param.places function params).Nodup ↔ (params.map Param.name).Nodup) ∧
      (∀ implementation ∈ program.implementations, ∀ args,
        (function, args) ∈ implementation.body.calls → args.length = params.length ∧
          ∃ index, CallPasses (.inside program.scope implementation.name) unit.code index function
            args (Param.places function params)) ∧
      ∀ index whole destination, unit.code[index]? = some whole →
        whole.operation = .call function destination →
          ∃ implementation ∈ program.implementations, ∃ args,
            (function, args) ∈ implementation.body.calls ∧
              CallPasses (.inside program.scope implementation.name) unit.code index function args
                (Param.places function params) := by
  obtain ⟨unit, _, hlower, hdecls, -⟩ := Program.exists_typing_of_check hcheck
  have hformed := Program.WellFormed.of_check hcheck
  have hlaid := Program.laid_of_lower hlower hformed.implementations_distinct
  -- the function is declared only once, so a call of it means these parameters
  have hcallee : ∀ {implementation : Implementation} {others : List Param},
      (Environment.inside program.scope implementation.name).callee function = .ok others →
        others = params := by
    intro implementation others hothers
    obtain ⟨type, hother⟩ := mem_decls_of_callee hothers
    have hsame := List.inj_on_of_nodup_map hformed.decls_distinct hother hdecl rfl
    rw [Decl.function.injEq] at hsame
    exact hsame.2.2
  have hpasses : ∀ {implementation args others index},
      implementation ∈ program.implementations → (function, args) ∈ implementation.body.calls →
        CallSite (.inside program.scope implementation.name) unit.code index function args others →
          args.length = params.length ∧
            CallPasses (.inside program.scope implementation.name) unit.code index function args
              (Param.places function params) := by
    intro implementation args others index hmem hcalls hsite
    obtain ⟨_, _, _, _, _, hothers, -, -, -⟩ := id hsite
    obtain rfl := hcallee hothers
    have hlength := Program.saturated_of_check hcheck hmem function args others hcalls hothers
    exact ⟨hlength, hsite.passes hlength⟩
  refine ⟨unit, hlower, ?words, Param.nodup_places_iff, ?calls, ?instructions⟩
  case words =>
    rw [unit.length_parameterWords (hdecls ▸ hnames) (hdecls ▸ hformed.decls_distinct)
      (hdecls ▸ hdecl), ← List.dedup_eq_self]
    constructor
    · intro hlength
      refine (List.dedup_sublist _).eq_of_length ?_
      rw [hlength, List.length_map]
    · intro hsame
      rw [hsame, List.length_map]
  case calls =>
    intro implementation hmem args hcalls
    obtain ⟨entry, inner, hat⟩ := hlaid.bodies implementation hmem
    obtain ⟨before, after, hlowered⟩ := hat.lowered
    obtain ⟨index, others, hsite⟩ := exists_site_of_lowerStmt hlowered
      (Program.saturated_of_check hcheck hmem) hcalls
    obtain ⟨hlength, hcopies⟩ := hpasses hmem hcalls (hsite.located hat.located.left.right)
    exact ⟨hlength, _, hcopies⟩
  case instructions =>
    intro index whole destination hwhole hcall
    obtain ⟨implementation, hmem, entry, inner, hat, hle, hle'⟩ :=
      hlaid.covers index (List.getElem?_eq_some_iff.mp hwhole).1
    have hjoins := hat.joins_of_not_isBorder hle hle' hwhole (by rw [hcall]; rfl)
    rw [hcall] at hjoins
    obtain ⟨-, args, others, hcalls, hsite⟩ := hjoins.exists_site
    exact ⟨implementation, hmem, args, hcalls, (hpasses hmem hcalls hsite).2⟩

/-- A function of two parameters, the first of which is returned, and a call of it. -/
def passing (second : String) : Program where
  decls := [.function .int "f" [⟨.int, "a"⟩, ⟨.int, second⟩], .function .int "main" []]
  implementations :=
    [⟨"f", .ret (.scalar "a")⟩,
     ⟨"main", .ret (.call "f" [.literal (.int 1), .literal (.int 2)])⟩]

/-- Two parameters of different names have a word each, and a call fills them both. -/
theorem passing_apart :
    ∃ unit, (passing "b").lower = .ok unit ∧ (unit.parameterWords "f").length = 2 ∧
      ∃ index, CallPasses (.inside (passing "b").scope "main") unit.code index "f"
        [.literal (.int 1), .literal (.int 2)] [.parameter "f" "a", .parameter "f" "b"] := by
  obtain ⟨unit, hlower, hwords, -, hcalls, -⟩ := parameters_apart_iff
    (rfl : (passing "b").check = []) (by decide) (List.mem_cons_self : Decl.function .int "f" _ ∈ _)
  refine ⟨unit, hlower, hwords.mpr (by decide), ?_⟩
  exact (hcalls ⟨"main", _⟩ (List.mem_cons_of_mem _ List.mem_cons_self) _ List.mem_cons_self).2

/-- Two parameters of one name share a word, in an accepted program without points in its names:
the call copies its first argument there, and then its second argument. -/
theorem passing_shared :
    (passing "a").check = [] ∧
      (∀ decl ∈ (passing "a").decls, ∀ name ∈ decl.names, '.' ∉ name.toList) ∧
      ∃ unit, (passing "a").lower = .ok unit ∧ (unit.parameterWords "f").length = 1 ∧
        (unit.code.drop 4).take 3 =
          [⟨none, .copy (.parameter "f" "a") (.constant (.int 1))⟩,
           ⟨none, .copy (.parameter "f" "a") (.constant (.int 2))⟩,
           ⟨none, .call "f" (.temporary (.numbered 0))⟩] :=
  ⟨rfl, by decide, _, rfl, by decide, rfl⟩

end ThreeAddress
