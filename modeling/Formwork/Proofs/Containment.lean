import Formwork.Comparator
import Formwork.Proofs.CommonGrammar

/-! A document that starts or ends with what a text writes also contains it. The comparators put a sign before
or behind the text, and so they take some texts for patterns that write none by themselves. -/

namespace Formwork

namespace Grammar

variable [Dialect] (g : Grammar) {source text : String} {matcher : String → Bool} {b : Sense}

/-- What a text matches with conditions added to it, it matches without them, if it is a pattern without them. -/
theorem matches_of_spans (hmatcher : Dialect.matcher? source = some matcher)
    (h : ∀ a, g.sense? source = some a → ∀ k i j, b.Spans text k i j → a.Spans text k i j)
    (hb : ∃ k i j, b.Spans text k i j) : matcher text = true := by
  obtain ⟨a, ha, hiff⟩ := g.accepted hmatcher
  obtain ⟨k, i, j, hspans⟩ := hb
  exact (hiff text).mpr ⟨k, i, j, h a ha k i j hspans⟩

theorem matches_of_caret {signed : String → Bool} (hsigned : Dialect.matcher? ("^" ++ source) = some signed)
    (hmatch : signed text = true) : (Dialect.matcher? source).any (· text) = true ∨
      Dialect.matcher? source = none ∧
        (g.sense? source = none → ∃ c ∈ source.toList.head?, c ∈ repeaters) := by
  obtain ⟨b, hb, hiff⟩ := g.accepted hsigned
  cases hmatcher : Dialect.matcher? source with
  | some matcher =>
    refine .inl (g.matches_of_spans hmatcher (fun a ha k i j hspans => ?_) ((hiff text).mp hmatch))
    obtain ⟨b', hb', hcaret⟩ := g.caret ha
    cases hb.symm.trans hb'
    exact ((hcaret text k i j).mp hspans).1
  | none => exact .inr ⟨rfl, g.of_caret (Option.isSome_of_eq_some hb)⟩

theorem matches_of_dollar {signed : String → Bool} (hsigned : Dialect.matcher? (source ++ "$") = some signed)
    (hmatch : signed text = true) : (Dialect.matcher? source).any (· text) = true ∨
      Dialect.matcher? source = none ∧ (g.sense? source = none → source.toList.getLast? = some '\\') := by
  obtain ⟨b, hb, hiff⟩ := g.accepted hsigned
  cases hmatcher : Dialect.matcher? source with
  | some matcher =>
    refine .inl (g.matches_of_spans hmatcher (fun a ha k i j hspans => ?_) ((hiff text).mp hmatch))
    obtain ⟨b', hb', hdollar⟩ := g.dollar ha
    cases hb.symm.trans hb'
    exact ((hdollar text k i j).mp hspans).1
  | none => exact .inr ⟨rfl, g.of_dollar (Option.isSome_of_eq_some hb)⟩

end Grammar

namespace Comparator

/-- What a text that starts or ends a document writes is in it, unless the text is no pattern by itself, and then it
is in none. A text that the syntax does not allow either begins with a repetition, which the circumflex gives
something to repeat, or ends with a backslash, which takes the dollar sign for a character. -/
theorem contains_of_startsWith_or_endsWith [Dialect] (g : Grammar) (left right : Json) :
    (startsWith.holds left right = true → contains.holds left right = true ∨
      Dialect.matcher? right.looseText = none ∧
        (g.sense? right.looseText = none → ∃ c ∈ right.looseText.toList.head?, c ∈ repeaters)) ∧
    (endsWith.holds left right = true → contains.holds left right = true ∨
      Dialect.matcher? right.looseText = none ∧
        (g.sense? right.looseText = none → right.looseText.toList.getLast? = some '\\')) ∧
    (Dialect.matcher? right.looseText = none → contains.holds left right = false) := by
  refine ⟨fun hstarts => ?_, fun hends => ?_, fun hnone => ?_⟩
  · obtain ⟨signed, hsigned, hmatch⟩ := (Option.any_eq_true _ _).mp hstarts
    exact g.matches_of_caret hsigned hmatch
  · obtain ⟨signed, hsigned, hmatch⟩ := (Option.any_eq_true _ _).mp hends
    exact g.matches_of_dollar hsigned hmatch
  · show (Dialect.matcher? right.looseText).any (· left.looseText) = false
    rw [hnone]
    rfl

theorem contains_of_startsWith_digits :
    startsWith.holds (.string "42 is") (.string "[0-9]+") = true ∧
      contains.holds (.string "42 is") (.string "[0-9]+") = true := by
  have hstarts : startsWith.holds (.string "42 is") (.string "[0-9]+") = true := by decide +kernel
  have hread : (Dialect.matcher? (Json.string "[0-9]+").looseText).isSome = true := by decide +kernel
  refine ⟨hstarts, ((contains_of_startsWith_or_endsWith .common _ _).1 hstarts).resolve_right ?_⟩
  rintro ⟨hnone, -⟩
  rw [hnone] at hread
  cases hread

/-- A star repeats the circumflex before it and a backslash takes the dollar sign behind it, and neither is a
pattern by itself. -/
theorem startsWith_star_endsWith_backslash_not_contains :
    (startsWith.holds (.string "ba") (.string "*a") = true ∧
      contains.holds (.string "ba") (.string "*a") = false) ∧
    (endsWith.holds (.string "a$") (.string "\\") = true ∧
      contains.holds (.string "a$") (.string "\\") = false) := by
  decide +kernel

end Comparator

end Formwork
