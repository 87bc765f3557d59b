import Formwork.Proofs.CommonGrammar
import Formwork.Validation.Check

/-! The check of a pattern rule. The signs that the rule puts around a written pattern tie its first alternative
to the start of a value and its last one to the end; a pattern whose whole is tied is one of a single alternative
whose own signs, where it has them, are conditions on the ends. -/

namespace Formwork

def Pattern.grouped (source : String) : String := "^(?:" ++ source ++ ")$"

theorem Pattern.grouped_eq (source : String) :
    grouped source = "^" ++ (("(?:" ++ source ++ ")") ++ "$") := by
  apply String.toList_inj.mp
  simp [grouped]

namespace Sense

/-- What the signs put around a pattern ask of its alternatives: of the first one that it begin at the start of
the text, and of the last one that it end before a dollar sign. No sign is put where the pattern has one. -/
def Tied (r : Sense) (source text : String) (k i j : Nat) : Prop :=
  (k = 0 → source.toList.head? ≠ some '^' → i = 0) ∧
    (k + 1 = r.alternatives.length → source.toList.getLast? ≠ some '$' → r.closing text j)

/-- The pattern is of one alternative, its own signs at the ends are conditions on the start and the end of the
text, and so is the dollar sign that is put behind it. -/
structure Closed (r : Sense) (source : String) : Prop where
  single : r.alternatives.length = 1
  start : source.toList.head? = some '^' → ∀ text i j, r.Spans text 0 i j → i = 0
  stop : source.toList.getLast? = some '$' → ∀ text i j, r.Spans text 0 i j → j = text.length
  text : source.toList.getLast? ≠ some '$' → ∀ text j, r.closing text j → j = text.length

variable {r : Sense} {source text : String} {k i j : Nat}

theorem lt_length_of_spans (h : r.Spans text k i j) : k < r.alternatives.length := by
  obtain ⟨p, hp, -⟩ := h
  exact (List.getElem?_eq_some_iff.mp hp).1

theorem Closed.whole (h : r.Closed source) (hspans : r.Spans text k i j) (htied : r.Tied source text k i j) :
    r.Whole text := by
  have hk : k = 0 := by
    have hlt := lt_length_of_spans hspans
    rw [h.single] at hlt
    exact Nat.lt_one_iff.mp hlt
  subst hk
  have hi : i = 0 := by
    by_cases hcaret : source.toList.head? = some '^'
    · exact h.start hcaret text i j hspans
    · exact htied.1 rfl hcaret
  have hj : j = text.length := by
    by_cases hdollar : source.toList.getLast? = some '$'
    · exact h.stop hdollar text i j hspans
    · exact h.text hdollar text j (htied.2 h.single.symm hdollar)
  subst hi hj
  exact ⟨0, hspans⟩

end Sense

namespace Grammar

open Check (anchored)
open Pattern (grouped grouped_eq)

def behind (source : String) : String := source ++ if source.toList.getLast? = some '$' then "" else "$"

theorem anchored_eq (source : String) :
    anchored source = (if source.toList.head? = some '^' then "" else "^") ++ behind source := by
  rw [anchored, behind, String.append_assoc]

variable [Dialect] (g : Grammar) {source : String} {r : Sense}

theorem sense?_behind (h : g.sense? source = some r) : ∃ s, g.sense? (behind source) = some s ∧
    ∀ text k i j, s.Spans text k i j ↔ r.Spans text k i j ∧
      (k + 1 = r.alternatives.length → source.toList.getLast? ≠ some '$' → r.closing text j) := by
  rw [behind]
  split
  next hdollar => exact ⟨r, by rwa [String.append_empty], by simp [hdollar]⟩
  next hdollar =>
    obtain ⟨s, hs, hspans⟩ := g.dollar h
    exact ⟨s, hs, by simpa [hdollar] using hspans⟩

theorem sense?_anchored (h : g.sense? source = some r) : ∃ s, g.sense? (anchored source) = some s ∧
    ∀ text k i j, s.Spans text k i j ↔ r.Spans text k i j ∧ r.Tied source text k i j := by
  obtain ⟨s, hs, hspans⟩ := g.sense?_behind h
  rw [anchored_eq]
  split
  next hcaret =>
    rw [String.empty_append]
    refine ⟨s, hs, fun text k i j => ?_⟩
    rw [hspans, Sense.Tied]
    simp [hcaret]
  next hcaret =>
    obtain ⟨s', hs', hspans'⟩ := g.caret hs
    refine ⟨s', hs', fun text k i j => ?_⟩
    rw [hspans', hspans, Sense.Tied, and_assoc, and_comm (b := k = 0 → i = 0)]
    simp [hcaret]

/-- A text that the signs make a pattern is one by itself, unless it begins with a repetition, which repeats the
circumflex, or ends with a backslash, which takes the dollar sign for a character. -/
theorem exists_sense_of_anchored (h : (g.sense? (anchored source)).isSome = true)
    (hhead : ¬ ∃ c ∈ source.toList.head?, c ∈ repeaters) (hlast : source.toList.getLast? ≠ some '\\') :
    ∃ r, g.sense? source = some r := by
  have hplain : ¬ ∃ c ∈ (behind source).toList.head?, c ∈ repeaters := by
    rintro ⟨c, hc, hrep⟩
    rw [behind, String.toList_append] at hc
    cases hsource : source.toList with
    | nil =>
      rw [hsource] at hc
      obtain rfl : '$' = c := Option.some.inj hc
      exact absurd hrep (by decide)
    | cons d cs =>
      rw [hsource] at hc hhead
      exact hhead ⟨c, hc, hrep⟩
  have hbehind : g.sense? (behind source) ≠ none := by
    intro hnone
    rw [anchored_eq] at h
    split at h
    next =>
      rw [String.empty_append, hnone] at h
      cases h
    next => exact hplain (g.of_caret h hnone)
  rw [← Option.ne_none_iff_exists']
  intro hnone
  rw [behind] at hbehind
  split at hbehind
  next =>
    rw [String.append_empty] at hbehind
    exact hbehind hnone
  next => exact hlast (g.of_dollar (Option.isSome_iff_ne_none.mpr hbehind) hnone)

/-- Between the start and the end there is a group only if it is a pattern by itself. -/
theorem exists_sense_of_grouped (h : (g.sense? (grouped source)).isSome = true) :
    ∃ b, g.sense? ("(?:" ++ source ++ ")") = some b := by
  rw [grouped_eq] at h
  have hdollar : g.sense? (("(?:" ++ source ++ ")") ++ "$") ≠ none := by
    intro hnone
    obtain ⟨c, hc, hrep⟩ := g.of_caret h hnone
    have hopen : (("(?:" ++ source ++ ")") ++ "$").toList.head? = some '(' := by simp
    rw [hopen] at hc
    obtain rfl : '(' = c := Option.some.inj hc
    exact absurd hrep (by decide)
  refine Option.ne_none_iff_exists'.mp fun hnone => ?_
  have hlast := g.of_dollar (Option.isSome_iff_ne_none.mpr hdollar) hnone
  have hclose : ("(?:" ++ source ++ ")").toList.getLast? = some ')' := by
    rw [String.toList_append]
    exact List.getLast?_concat
  rw [hclose] at hlast
  cases hlast

/-- As a group between the start and the end, a pattern matches the texts that it matches from the first to the last
character. -/
theorem matches_grouped {q : String → Bool} {text : String} (h : g.sense? source = some r)
    (hq : Dialect.matcher? (grouped source) = some q) : q text = true ↔ r.Whole text := by
  obtain ⟨t, ht, hiff⟩ := g.accepted hq
  obtain ⟨b, hb⟩ := g.exists_sense_of_grouped (Option.isSome_of_eq_some ht)
  obtain ⟨hsingle, hspans, hclosing⟩ := g.group h hb
  obtain ⟨s, hs, hspans'⟩ := g.dollar hb
  obtain ⟨t', ht', hspans''⟩ := g.caret hs
  rw [grouped_eq] at ht
  obtain rfl := Option.some.inj (ht.symm.trans ht')
  rw [hiff]
  constructor
  · rintro ⟨k, i, j, hk⟩
    obtain ⟨hs, hstart⟩ := (hspans'' text k i j).mp hk
    obtain ⟨hb, hend⟩ := (hspans' text k i j).mp hs
    obtain rfl : k = 0 := Nat.lt_one_iff.mp (hsingle ▸ Sense.lt_length_of_spans hb)
    obtain rfl := hstart rfl
    obtain rfl := (hclosing text j).mp (hend hsingle.symm)
    exact (hspans text 0 text.length).mp hb
  · intro hwhole
    have hb := (hspans text 0 text.length).mpr hwhole
    have hs := (hspans' text 0 0 text.length).mpr ⟨hb, fun _ => (hclosing text _).mpr rfl⟩
    exact ⟨0, 0, text.length, (hspans'' text 0 0 text.length).mpr ⟨hs, fun _ => rfl⟩⟩

end Grammar

namespace Check

open Pattern (grouped)

theorem failure?_pattern_eq_none_iff {source : String} {matcher : String → Bool} {value : Json}
    (hvalue : isEmpty value = false) :
    (pattern source matcher).failure? value = none ↔ matcher value.looseText = true := by
  have heq : (pattern source matcher).failure? value = if isEmpty value = true then none else
      failIf (!matcher value.looseText) (.object [("requiredPattern", .string source), ("actualValue", value)]) :=
    rfl
  rw [heq, hvalue]
  cases matcher value.looseText <;> simp [failIf]

section

variable [Dialect] {rule : LocalRule} {check : Check} {source : String} {value : Json}

theorem pattern_of_ofRule (hkind : rule.kind = "pattern") (hsource : rule.value = some (.string source))
    (hbuilds : ofRule rule = .ok check) :
    ∃ m, Dialect.matcher? (anchored source) = some m ∧ check = pattern (anchored source) m := by
  have hof : ofRule rule = patternOf rule := by
    unfold ofRule
    rw [hkind]
    rfl
  have hstring : rule.value.bind Json.asString? = some source := by
    rw [hsource]
    rfl
  rw [hof, patternOf, hstring] at hbuilds
  dsimp only at hbuilds
  split at hbuilds
  next m hm =>
    cases hbuilds
    exact ⟨m, hm, rfl⟩
  next => cases hbuilds

theorem ofRule_pattern {m : String → Bool} (hm : Dialect.matcher? (anchored source) = some m) :
    ofRule ⟨"pattern", some (.string source), none, none⟩ = .ok (pattern (anchored source) m) := by
  have hof : ofRule ⟨"pattern", some (.string source), none, none⟩ =
      patternOf ⟨"pattern", some (.string source), none, none⟩ := rfl
  rw [hof, patternOf]
  dsimp only [Option.bind_some, Json.asString?]
  rw [hm]

theorem passes_iff_of_sense (g : Grammar) {r : Sense} (hkind : rule.kind = "pattern")
    (hsource : rule.value = some (.string source)) (hbuilds : ofRule rule = .ok check)
    (hr : g.sense? source = some r) (hvalue : isEmpty value = false) :
    (check.failure? value = none ↔
      ∃ k i j, r.Spans value.looseText k i j ∧ r.Tied source value.looseText k i j) ∧
    (r.Whole value.looseText → check.failure? value = none) ∧
    (r.Closed source → (check.failure? value = none ↔ r.Whole value.looseText)) ∧
    ∀ q, Dialect.matcher? (grouped source) = some q →
      (q value.looseText = true ↔ r.Whole value.looseText) := by
  obtain ⟨m, hm, rfl⟩ := pattern_of_ofRule hkind hsource hbuilds
  obtain ⟨s, hs, hiff⟩ := g.accepted hm
  obtain ⟨s', hs', hspans⟩ := g.sense?_anchored hr
  obtain rfl := Option.some.inj (hs.symm.trans hs')
  have hpasses : (pattern (anchored source) m).failure? value = none ↔
      ∃ k i j, r.Spans value.looseText k i j ∧ r.Tied source value.looseText k i j := by
    simp only [failure?_pattern_eq_none_iff hvalue, hiff, hspans]
  have hwhole (h : r.Whole value.looseText) : (pattern (anchored source) m).failure? value = none := by
    obtain ⟨k, hk⟩ := h
    exact hpasses.mpr ⟨k, 0, _, hk, fun _ _ => rfl, fun _ _ => g.closing_end hr _⟩
  refine ⟨hpasses, hwhole, fun hclosed => ⟨fun h => ?_, hwhole⟩, fun q hq => g.matches_grouped hr hq⟩
  obtain ⟨k, i, j, hk, htied⟩ := hpasses.mp h
  exact hclosed.whole hk htied

end

/-- A rule whose text writes a pattern passes a value if one of the alternatives matches a part of it that the
signs around the pattern allow. This is always so if the pattern matches the whole value, and not more often if
the pattern is closed. -/
theorem pattern_passes_iff [Dialect] (g : Grammar) {rule : LocalRule} {check : Check} {source : String}
    {value : Json} (hkind : rule.kind = "pattern") (hsource : rule.value = some (.string source))
    (hbuilds : ofRule rule = .ok check) (hvalue : isEmpty value = false) :
    (∃ r, g.sense? source = some r ∧
      (check.failure? value = none ↔
        ∃ k i j, r.Spans value.looseText k i j ∧ r.Tied source value.looseText k i j) ∧
      (r.Whole value.looseText → check.failure? value = none) ∧
      (r.Closed source → (check.failure? value = none ↔ r.Whole value.looseText)) ∧
      ∀ q, Dialect.matcher? (grouped source) = some q →
        (q value.looseText = true ↔ r.Whole value.looseText)) ∨
    Dialect.matcher? source = none ∧
      ((∃ c ∈ source.toList.head?, c ∈ repeaters) ∨ source.toList.getLast? = some '\\') := by
  by_cases hsense : ∃ r, g.sense? source = some r
  · obtain ⟨r, hr⟩ := hsense
    exact .inl ⟨r, hr, passes_iff_of_sense g hkind hsource hbuilds hr hvalue⟩
  · have hnone : g.sense? source = none := Option.eq_none_iff_forall_ne_some.mpr fun r hr => hsense ⟨r, hr⟩
    refine .inr ⟨g.matcher?_eq_none hnone, by_contra fun hno => hsense ?_⟩
    rw [not_or] at hno
    obtain ⟨m, hm, -⟩ := pattern_of_ofRule hkind hsource hbuilds
    obtain ⟨s, hs, -⟩ := g.accepted hm
    exact g.exists_sense_of_anchored (Option.isSome_of_eq_some hs) hno.1 hno.2

theorem closed_digits {r : Sense} (h : Grammar.common.sense? "[0-9]+" = some r) : r.Closed "[0-9]+" := by
  have hread : ∃ s, Pattern.Reads {} "[0-9]+".toList s ∧ s.alternatives.length = 1 ∧ s.flags = {} :=
    ⟨_, .item 5 rfl rfl (.item 5 rfl rfl (.done _)), rfl, rfl⟩
  obtain ⟨s, hs, hsingle, hflags⟩ := hread
  obtain rfl : s.sense = r := Option.some.inj (hs.sense?_eq.symm.trans h)
  refine ⟨s.length_sense.trans hsingle, nofun, nofun, fun _ text j hclosing => ?_⟩
  exact (Pattern.Reading.closing_sense_of_flags hflags).mp hclosing

theorem digits_passes_number : ∃ check,
    ofRule ⟨"pattern", some (.string "[0-9]+"), none, none⟩ = .ok check ∧ isEmpty (.int 42) = false ∧
      isEmpty (.string "12a") = false ∧ check.failure? (.int 42) = none ∧
      check.failure? (.string "12a") ≠ none := by
  have hread : (Dialect.matcher? "[0-9]+").isSome = true := by decide +kernel
  have hgrouped : (Dialect.matcher? (grouped "[0-9]+")).any (fun q =>
      q (Json.int 42).looseText && !q (Json.string "12a").looseText) = true := by
    decide +kernel
  obtain ⟨q, hq, hmatch⟩ := (Option.any_eq_true _ _).mp hgrouped
  obtain ⟨hnumber, htext⟩ := (Bool.and_eq_true _ _).mp hmatch
  have hanchored : (Dialect.matcher? (anchored "[0-9]+")).isSome = true := by decide +kernel
  obtain ⟨m, hm⟩ := Option.isSome_iff_exists.mp hanchored
  have hcheck := ofRule_pattern hm
  have hint : isEmpty (.int 42) = false := rfl
  have hstring : isEmpty (.string "12a") = false := rfl
  refine ⟨_, hcheck, hint, hstring, ?_, fun hpass => ?_⟩
  · rcases pattern_passes_iff .common rfl rfl hcheck hint with ⟨r, -, -, hwhole, -, hiff⟩ | ⟨hnone, -⟩
    · exact hwhole ((hiff q hq).mp hnumber)
    · rw [hnone] at hread
      cases hread
  · rcases pattern_passes_iff .common rfl rfl hcheck hstring with ⟨r, hr, -, -, hclosed, hiff⟩ | ⟨hnone, -⟩
    · rw [(hiff q hq).mpr ((hclosed (closed_digits hr)).mp hpass)] at htext
      cases htext
    · rw [hnone] at hread
      cases hread

theorem exists_passes_not_whole {source value : String} (hvalue : value ≠ "")
    (hpasses : (Dialect.matcher? (anchored source)).any (· value) = true)
    (hgrouped : (Dialect.matcher? (grouped source)).any (fun q => !q value) = true) :
    ∃ check q, ofRule ⟨"pattern", some (.string source), none, none⟩ = .ok check ∧
      check.failure? (.string value) = none ∧ Dialect.matcher? (grouped source) = some q ∧ q value = false := by
  obtain ⟨m, hm, hmatch⟩ := (Option.any_eq_true _ _).mp hpasses
  obtain ⟨q, hq, hno⟩ := (Option.any_eq_true _ _).mp hgrouped
  have hempty : isEmpty (.string value) = false := by simpa [isEmpty] using hvalue
  have hpass : (pattern (anchored source) m).failure? (.string value) = none :=
    (failure?_pattern_eq_none_iff hempty).mpr hmatch
  exact ⟨pattern (anchored source) m, q, ofRule_pattern hm, hpass, hq, by simpa using hno⟩

/-- A dollar sign after a backslash is no condition on the end, and a bar leaves the start to the first
alternative alone. -/
theorem escaped_dollar_and_bar_not_anchored :
    (∃ check q, ofRule ⟨"pattern", some (.string "[0-9]+\\$"), none, none⟩ = .ok check ∧
      check.failure? (.string "5$x") = none ∧ Dialect.matcher? (grouped "[0-9]+\\$") = some q ∧ q "5$x" = false) ∧
    ∃ check q, ofRule ⟨"pattern", some (.string "a|b"), none, none⟩ = .ok check ∧
      check.failure? (.string "ax") = none ∧ Dialect.matcher? (grouped "a|b") = some q ∧ q "ax" = false := by
  constructor
  · apply exists_passes_not_whole <;> decide +kernel
  · apply exists_passes_not_whole <;> decide +kernel

end Check

end Formwork
