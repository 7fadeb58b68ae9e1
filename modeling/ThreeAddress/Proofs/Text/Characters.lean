import ThreeAddress.Number.Notation
import ThreeAddress.Text.Asciz
import ThreeAddress.Text.Quoted
import ThreeAddress.Text.Styled
import Mathlib.Data.List.Basic
import Mathlib.Tactic.SplitIfs

/-!
# The characters of texts

Numbers, floats, quoted characters and the insides of string constants are written in characters
that show. Text in a terminal style has the escape character besides, and taking controls out of a
text adds no character.
-/

namespace ThreeAddress

/-- All characters of a text have a property. -/
def Text.All (P : Char → Prop) (text : String) : Prop := ∀ c ∈ text.toList, P c

instance [DecidablePred P] (text : String) : Decidable (Text.All P text) :=
  -- the characters of the text are gone through, and not all characters there are
  List.decidableBAll _ text.toList

/-- All characters of a text show. -/
abbrev Text.Shows (text : String) : Prop := Text.All (isGraphic · = true) text

namespace Text

section All

variable {P Q : Char → Prop} {first second : String} {texts : List String}

/-- A sequence has the characters of its parts. -/
@[simp] theorem all_append : All P (first ++ second) ↔ All P first ∧ All P second := by
  simp only [All, String.toList_append, List.forall_mem_append]

/-- A text has the characters that it is made of. -/
@[simp] theorem all_ofList {characters : List Char} :
    All P (String.ofList characters) ↔ ∀ c ∈ characters, P c := by
  simp only [All, String.toList_ofList]

/-- A weaker property holds as well. -/
theorem All.mono (h : All P first) (hsub : ∀ c, P c → Q c) : All Q first :=
  fun c hc => hsub c (h c hc)

/-- Texts one after the other have the characters of each. -/
theorem all_join (h : ∀ text ∈ texts, All P text) : All P (String.join texts) := by
  simp only [All, String.toList_join, List.mem_flatMap]
  rintro c ⟨text, htext, hc⟩
  exact h text htext c hc

/-- Texts with a separator between them have the characters of each and those of the separator. -/
theorem all_intercalate (hfirst : All P first) (h : ∀ text ∈ texts, All P text) :
    All P (first.intercalate texts) := by
  induction texts with
  | nil => simp [All]
  | cons text rest ih =>
    obtain ⟨htext, hrest⟩ := List.forall_mem_cons.mp h
    cases rest with
    | nil => simpa using htext
    | cons next rest =>
      rw [String.intercalate_cons_cons, all_append, all_append]
      exact ⟨⟨htext, hfirst⟩, ih hrest⟩

end All

section Shows

/-- Digits show. -/
theorem isGraphic_digitChar (digit : Nat) : isGraphic digit.digitChar = true := by
  have hdigits : ∀ digit < 16, isGraphic (Nat.digitChar digit) = true := by decide
  by_cases h : digit < 16
  · exact hdigits digit h
  · rw [Nat.digitChar_eq_star.mpr (Nat.not_lt.mp h)]
    decide

/-- The digits of a number show. -/
theorem isGraphic_of_mem_toDigits {base : Nat} (hbase : 1 < base) {number : Nat} {c : Char}
    (h : c ∈ Nat.toDigits base number) : isGraphic c = true := by
  induction number using Nat.strongRecOn with
  | ind number ih =>
    rw [Nat.toDigits_eq_if hbase] at h
    split at h
    · rw [List.mem_singleton.mp h]
      exact isGraphic_digitChar number
    · rcases List.mem_append.mp h with h | h
      · exact ih _ (Nat.div_lt_self (by omega) hbase) h
      · rw [List.mem_singleton.mp h]
        exact isGraphic_digitChar _

/-- A natural number shows. -/
theorem shows_nat (number : Nat) : Shows (toString number) := by
  rw [Nat.toString_eq_ofList_toDigits, Shows, all_ofList]
  exact fun c hc => isGraphic_of_mem_toDigits (by decide) hc

/-- An integer shows. -/
theorem shows_int (number : Int) : Shows (toString number) := by
  cases number with
  | ofNat number => exact shows_nat number
  | negSucc number =>
    change Shows ("-" ++ toString (number + 1))
    exact all_append.mpr ⟨by decide, shows_nat _⟩

/-- Digits with a point in front of some show. -/
theorem shows_pointed {digits : List Char} (h : ∀ c ∈ digits, isGraphic c = true) (places : Nat) :
    Shows (FloatNotation.pointed digits places) := by
  unfold FloatNotation.pointed
  split
  · simp only [Shows, all_append, all_ofList]
    exact ⟨⟨fun c hc => h c (List.mem_of_mem_take hc), by decide⟩,
      fun c hc => h c (List.mem_of_mem_drop hc)⟩
  · simp only [Shows, all_append, all_ofList, FloatNotation.zeros]
    exact ⟨⟨by decide, fun c hc => by rw [List.eq_of_mem_replicate hc]; decide⟩, h⟩

/-- Digits with a power of ten show. -/
theorem shows_scientific {digits : List Char} (h : ∀ c ∈ digits, isGraphic c = true)
    (leading : Int) : Shows (FloatNotation.scientific digits leading) := by
  unfold FloatNotation.scientific
  simp only [Shows, all_append, all_ofList]
  refine ⟨⟨⟨fun c hc => h c (List.mem_of_mem_take hc), ?_⟩, by decide⟩, shows_int leading⟩
  split
  · decide
  · exact all_append.mpr ⟨by decide, all_ofList.mpr fun c hc => h c (List.mem_of_mem_drop hc)⟩

/-- A decimal shows, if the mark of whole numbers does. -/
theorem shows_decimal {layout : FloatNotation} (hmark : Shows layout.wholeMark)
    (value : Decimal) : Shows (layout.decimal value) := by
  have hdigits := shows_nat value.coefficient
  unfold FloatNotation.decimal
  dsimp only
  split
  · split
    · simp only [Shows, all_append, all_ofList, FloatNotation.zeros]
      exact ⟨⟨hdigits, fun c hc => by rw [List.eq_of_mem_replicate hc]; decide⟩, hmark⟩
    · exact shows_pointed hdigits _
  · exact shows_scientific hdigits _

/-- A float shows, if the mark of whole numbers does. -/
theorem shows_float {layout : FloatNotation} (hmark : Shows layout.wholeMark) (value : Binary64) :
    Shows (layout.text value) := by
  have hsign : Shows (if value.isNegative then "-" else "") := by
    split <;> decide
  unfold FloatNotation.text
  dsimp only
  split
  · decide
  · split
    · exact all_append.mpr ⟨hsign, by decide⟩
    · split
      · exact all_append.mpr ⟨all_append.mpr ⟨hsign, by decide⟩, hmark⟩
      · exact all_append.mpr ⟨hsign, shows_decimal hmark _⟩

/-- A character between quotes that show shows. -/
theorem isGraphic_of_mem_quoted {quote c : Char} (hquote : isGraphic quote = true) :
    ∀ d ∈ Quoted.escape quote c, isGraphic d = true := by
  unfold Quoted.escape
  split_ifs with _ _ _ _ _ _ hgraphic
  iterate 5 exact List.all_eq_true.mp (by decide)
  · exact List.forall_mem_cons.mpr ⟨by decide, List.forall_mem_singleton.mpr hquote⟩
  · exact List.forall_mem_singleton.mpr hgraphic
  · simp only [Quoted.byNumber, List.forall_mem_append]
    exact ⟨⟨List.all_eq_true.mp (by decide), fun d hd =>
      isGraphic_of_mem_toDigits (by decide) hd⟩, List.forall_mem_singleton.mpr (by decide)⟩

/-- A quoted character shows. -/
theorem shows_quoted (c : Char) : Shows (Quoted.char c) := by
  refine all_ofList.mpr (List.forall_mem_cons.mpr ⟨by decide, ?_⟩)
  exact List.forall_mem_append.mpr
    ⟨isGraphic_of_mem_quoted (by decide), List.forall_mem_singleton.mpr (by decide)⟩

/-- A quoted text shows. -/
theorem shows_quotedString (text : String) : Shows (Quoted.string text) := by
  refine all_ofList.mpr (List.forall_mem_cons.mpr ⟨by decide, ?_⟩)
  refine List.forall_mem_append.mpr ⟨fun d hd => ?_, List.forall_mem_singleton.mpr (by decide)⟩
  obtain ⟨c, -, hmem⟩ := List.mem_flatMap.mp hd
  exact isGraphic_of_mem_quoted (by decide) d hmem

/-- A byte of a string constant shows. -/
theorem isGraphic_of_mem_escapeByte (byte : UInt8) :
    ∀ c ∈ Asciz.escapeByte byte, isGraphic c = true := by
  have hplain : ∀ code < 0x7f, 0x20 ≤ code → isGraphic (Char.ofNat code) = true := by decide
  unfold Asciz.escapeByte
  split_ifs with _ _ _ _ _ hrange
  iterate 5 exact List.all_eq_true.mp (by decide)
  · have hlow : 0x20 ≤ byte.toNat := UInt8.le_iff_toNat_le.mp hrange.1
    have hhigh : byte.toNat ≤ 0x7e := UInt8.le_iff_toNat_le.mp hrange.2
    exact List.forall_mem_singleton.mpr (hplain _ (Nat.lt_succ_of_le hhigh) hlow)
  · refine List.forall_mem_cons.mpr ⟨by decide, fun c hc => ?_⟩
    simp only [Asciz.octal, List.mem_cons, List.not_mem_nil, or_false] at hc
    rcases hc with rfl | rfl | rfl <;> exact isGraphic_digitChar _

/-- The inside of a string constant shows. -/
theorem shows_asciz (text : String) : Shows (Asciz.escape text) := by
  refine all_ofList.mpr fun c hc => ?_
  obtain ⟨byte, -, hmem⟩ := List.mem_flatMap.mp hc
  exact isGraphic_of_mem_escapeByte byte c hmem

end Shows

section Terminal

open Terminal

variable {P : Char → Prop}

/-- Behind resets stand the characters that are inserted there, and no others. -/
theorem forall_mem_afterResets {inserted characters : List Char} (hinserted : ∀ c ∈ inserted, P c)
    (h : ∀ c ∈ characters, P c) (pending : Nat) :
    ∀ c ∈ afterResets inserted pending characters, P c := by
  fun_induction afterResets inserted pending characters with
  | case1 => exact h
  | case2 c rest _ ih | case3 c rest _ ih | case5 _ c rest ih =>
    obtain ⟨hc, hrest⟩ := List.forall_mem_cons.mp h
    exact List.forall_mem_cons.mpr ⟨hc, ih hrest⟩
  | case4 c rest ih =>
    obtain ⟨hc, hrest⟩ := List.forall_mem_cons.mp h
    exact List.forall_mem_cons.mpr ⟨hc, List.forall_mem_append.mpr ⟨hinserted, ih hrest⟩⟩

/-- Taking controls out adds no character. -/
theorem mem_of_mem_dropControls {skipped : Nat} {characters : List Char} {c : Char}
    (h : c ∈ dropControls skipped characters) : c ∈ characters := by
  fun_induction dropControls skipped characters with
  | case1 => exact h
  | case2 skipped _ rest ih => exact List.mem_cons_of_mem _ (ih h)
  | case3 rest ih => exact List.mem_cons_of_mem _ (ih h)
  | case4 _ rest _ _ ih => exact List.mem_cons_of_mem _ (ih h)
  | case5 _ rest _ _ ih =>
    rcases List.mem_cons.mp h with rfl | h
    · exact List.mem_cons_self
    · exact List.mem_cons_of_mem _ (ih h)

/-- A text without controls has no other characters than before. -/
theorem all_withoutControls {text : String} (h : All P text) : All P (withoutControls text) :=
  all_ofList.mpr fun c hc => h c (mem_of_mem_dropControls hc)

/-- An escape sequence has the escape character and characters that show. -/
theorem forall_mem_sequence (hgraphic : ∀ c, isGraphic c = true → P c) (hescape : P escape)
    (style : TextStyle) : ∀ c ∈ sequence style.parameters, P c := by
  have hparameters : ∀ c ∈ '[' :: style.parameters ++ ['m'], isGraphic c = true :=
    List.all_eq_true.mp (by cases style <;> decide)
  exact List.forall_mem_cons.mpr ⟨hescape, fun c hc => hgraphic c (hparameters c hc)⟩

/-- A run of text has its own characters, and with colours those of escape sequences. -/
theorem all_render_span (hgraphic : ∀ c, isGraphic c = true → P c) (hescape : P escape)
    {span : Span} (h : All P span.text) (colour : Bool) : All P (span.render colour) := by
  unfold Span.render
  split
  · next style _ =>
    have hstart := forall_mem_sequence hgraphic hescape style
    refine all_ofList.mpr (List.forall_mem_append.mpr ⟨List.forall_mem_append.mpr
      ⟨hstart, forall_mem_afterResets hstart h 0⟩, ?_⟩)
    have hreset : ∀ c ∈ ['[', '0', 'm'], isGraphic c = true := List.all_eq_true.mp (by decide)
    exact List.forall_mem_cons.mpr ⟨hescape, fun c hc => hgraphic c (hreset c hc)⟩
  · exact h

/-- Styled text has the characters of its runs, and with colours those of escape sequences. -/
theorem all_render (hgraphic : ∀ c, isGraphic c = true → P c) (hescape : P escape)
    {spans : Styled} (h : ∀ span ∈ spans, All P span.text) (colour : Bool) :
    All P (spans.render colour) := by
  refine all_join fun text htext => ?_
  obtain ⟨span, hspan, rfl⟩ := List.mem_map.mp htext
  exact all_render_span hgraphic hescape (h span hspan) colour

end Terminal

end Text

end ThreeAddress
