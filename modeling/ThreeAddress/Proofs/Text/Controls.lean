import ThreeAddress.Proofs.Text.Characters

/-!
# Controls in styled text

Characters that show are no controls, and neither are line feeds. When controls are taken out of a
text, what has none is left as it is, and the escape sequences that start and end a style are gone.
So if no run of some styled text has controls of its own, what is left of the text with colours is
the text without them.
-/

namespace ThreeAddress

/-- A text without controls. It has no escape sequences, but it may have line feeds. -/
abbrev Text.IsClean (text : String) : Prop := Text.All (Terminal.isDroppedControl · = false) text

namespace Terminal

/-- What shows is no control. -/
theorem isDroppedControl_of_isGraphic {c : Char} (h : isGraphic c = true) :
    isDroppedControl c = false := by
  have hlow : ¬ c.toNat < 0x20 := by
    intro hlt
    rw [isGraphic_eq_false_of_lt hlt] at h
    contradiction
  have hhigh : ¬ (0x80 ≤ c.toNat ∧ c.toNat < 0xa0) := by
    rintro ⟨hle, hlt⟩
    have hblank : inRanges blankRanges c.toNat = true :=
      List.any_eq_true.mpr ⟨(0x7f, 0xa0), List.mem_cons_of_mem _ List.mem_cons_self,
        decide_eq_true ⟨Nat.le_of_succ_le hle, Nat.le_of_lt hlt⟩⟩
    rw [isGraphic, if_neg (by omega), hblank] at h
    contradiction
  simp [isDroppedControl, hlow, hhigh]

section Clean

variable {text : List Char}

/-- The escape character is a control. -/
theorem escape_not_mem (h : ∀ c ∈ text, isDroppedControl c = false) : escape ∉ text :=
  fun hmem => absurd (h escape hmem) (by decide)

/-- A text without controls is left alone, whatever follows it. -/
theorem dropControls_append (h : ∀ c ∈ text, isDroppedControl c = false) (rest : List Char) :
    dropControls 0 (text ++ rest) = text ++ dropControls 0 rest := by
  induction text with
  | nil => rfl
  | cons c text ih =>
    obtain ⟨hc, htext⟩ := List.forall_mem_cons.mp h
    have hescape : c ≠ escape := fun heq => escape_not_mem h (heq ▸ List.mem_cons_self)
    rw [List.cons_append, dropControls, if_neg hescape, hc, ih htext]
    rfl

/-- Without a reset in a text, nothing is inserted. -/
theorem afterResets_eq_self (h : escape ∉ text) (inserted : List Char) :
    afterResets inserted 0 text = text := by
  induction text with
  | nil => rfl
  | cons c rest ih =>
    obtain ⟨hc, hrest⟩ := List.ne_and_not_mem_of_not_mem_cons h
    have hreset : reset.isPrefixOf (c :: rest) = false := by
      simp [reset, sequence, List.isPrefixOf, hc]
    rw [afterResets, hreset, ih hrest]
    rfl

end Clean

section Sequences

variable {parameters : List Char}

/-- Characters that are skipped do not matter. -/
theorem dropControls_skipped (skipped : Nat) (text : List Char) :
    dropControls skipped text = dropControls 0 (text.drop skipped) := by
  induction skipped generalizing text with
  | zero => rfl
  | succ skipped ih =>
    cases text with
    | nil => rfl
    | cons c rest => exact ih rest

/-- An escape sequence is recognised by its parameters and what closes it. -/
theorem sequenceLength?_sequence (h : ∀ c ∈ parameters, isParameter c = true) (rest : List Char) :
    sequenceLength? ('[' :: (parameters ++ 'm' :: rest)) = some (parameters.length + 2) := by
  have hparameters : (parameters ++ 'm' :: rest).takeWhile isParameter = parameters := by
    rw [List.takeWhile_append_of_pos h, List.takeWhile_cons_of_neg (by decide), List.append_nil]
  simp [sequenceLength?, hparameters]

/-- An escape sequence is taken out as a whole. -/
theorem dropControls_sequence (h : ∀ c ∈ parameters, isParameter c = true) (rest : List Char) :
    dropControls 0 (sequence parameters ++ rest) = dropControls 0 rest := by
  have hsequence : sequence parameters ++ rest = escape :: '[' :: (parameters ++ 'm' :: rest) := by
    simp [sequence]
  rw [hsequence, dropControls, if_pos rfl, sequenceLength?_sequence h, dropControls_skipped]
  simp

/-- Of a text in a style only the text is left, if it has no controls of its own. -/
theorem dropControls_wrap (style : TextStyle) {text : List Char}
    (h : ∀ c ∈ text, isDroppedControl c = false) (rest : List Char) :
    dropControls 0 (wrap style text ++ rest) = text ++ dropControls 0 rest := by
  have hstart : ∀ c ∈ style.parameters, isParameter c = true :=
    List.all_eq_true.mp (by cases style <;> decide)
  have hreset : ∀ c ∈ ['0'], isParameter c = true := List.forall_mem_singleton.mpr rfl
  rw [wrap, afterResets_eq_self (escape_not_mem h), List.append_assoc, List.append_assoc,
    dropControls_sequence hstart, dropControls_append h, reset, dropControls_sequence hreset]

end Sequences

end Terminal

/-- A text that shows has no controls. -/
theorem Text.Shows.isClean {text : String} (h : Text.Shows text) : Text.IsClean text :=
  h.mono fun _ => Terminal.isDroppedControl_of_isGraphic

/-- Of a run of text without controls its own text is left, with colours and without. -/
theorem Span.dropControls_render {span : Span} (h : Text.IsClean span.text) (colour : Bool)
    (rest : List Char) :
    Terminal.dropControls 0 ((span.render colour).toList ++ rest) =
      span.text.toList ++ Terminal.dropControls 0 rest := by
  unfold render
  split
  · rw [String.toList_ofList, Terminal.dropControls_wrap _ h]
  · exact Terminal.dropControls_append h rest

/-- Colours can be taken out of styled text again, if none of its runs has controls of its own. What
is left is the text without colours. -/
theorem Styled.withoutControls_render {spans : Styled} (h : ∀ span ∈ spans, Text.IsClean span.text)
    (colour : Bool) : Terminal.withoutControls (spans.render colour) = spans.render false := by
  have hspans : Terminal.dropControls 0 (spans.render colour).toList =
      (spans.render false).toList := by
    induction spans with
    | nil => rfl
    | cons span rest ih =>
      obtain ⟨hspan, hrest⟩ := List.forall_mem_cons.mp h
      have hjoin : ∀ colour, (render colour (span :: rest)).toList =
          (span.render colour).toList ++ (render colour rest).toList := by
        simp [render]
      rw [hjoin, hjoin, Span.dropControls_render hspan, ih hrest, Span.render_false]
  rw [Terminal.withoutControls, hspans, String.ofList_toList]

end ThreeAddress
