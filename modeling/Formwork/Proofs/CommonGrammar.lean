import Formwork.Dialect.Common
import Formwork.Proofs.Alternatives
import Formwork.Proofs.Grammar

/-! The patterns of the common dialect keep the laws of a grammar. -/

namespace Formwork

open Pattern

namespace Pattern

variable {r s : Reading} {source : String} {text : List Char} {i j k : Nat}

theorem dollar_holds_end (flags : Flags) (text : List Char) :
    flags.dollar.holds (before? text text.length) text[text.length]? = true := by
  rw [List.getElem?_eq_none (Nat.le_refl _)]
  unfold Flags.dollar
  split <;> rfl

theorem Reads.group (h : Reads {} source.toList r) : Reads {} ("(?:" ++ source ++ ")").toList
    { Reading.add {} r.pattern with names := r.names } := by
  have htext : ("(?:" ++ source ++ ")").toList = '(' :: '?' :: ':' :: (source.toList ++ ')' :: []) := by
    simp
  have hbody := (h.readBranches?_of_close [] (Nat.le_refl _)).1
  have hgroup : readItem? (source.toList.length + 1) {} [] ('(' :: '?' :: ':' :: (source.toList ++ ')' :: [])) =
      some (.part r.pattern r.names, []) := Option.bind_eq_some_iff.mpr ⟨_, hbody, rfl⟩
  rw [htext]
  exact .item _ hgroup rfl (.done _)

namespace Reading

def sense (r : Reading) : Sense where
  alternatives := r.alternatives.map fun p text i j => i ≤ text.toList.length ∧ p.Spans text.toList i j
  closing text j := j ≤ text.toList.length ∧ r.flags.dollar.holds (before? text.toList j) text.toList[j]? = true

theorem spans_sense {text : String} :
    r.sense.Spans text k i j ↔ i ≤ text.toList.length ∧ r.Spans text.toList k i j := by
  simp only [Sense.Spans, sense, List.getElem?_map, Option.map_eq_some_iff, Spans]
  constructor
  · rintro ⟨_, ⟨p, hp, rfl⟩, hi, hspans⟩
    exact ⟨hi, p, hp, hspans⟩
  · rintro ⟨hi, p, hp, hspans⟩
    exact ⟨_, ⟨p, hp, rfl⟩, hi, hspans⟩

theorem length_sense (r : Reading) : r.sense.alternatives.length = r.alternatives.length := List.length_map _

theorem closing_sense_of_flags {text : String} {j : Nat} (h : r.flags = {}) :
    r.sense.closing text j ↔ j = text.length := by
  have hclosing : r.sense.closing text j ↔
      j ≤ text.toList.length ∧ r.flags.dollar.holds (before? text.toList j) text.toList[j]? = true := Iff.rfl
  have hdollar : r.flags.dollar = .textEnd := by rw [h]; rfl
  rw [hclosing, hdollar, Look.holds, Option.isNone_iff_eq_none, List.getElem?_eq_none_iff, String.length_toList]
  omega

theorem isMatch_pattern_iff {text : String} :
    r.pattern.isMatch text = true ↔ ∃ k i j, r.sense.Spans text k i j := by
  simp only [isMatch_iff, spans_pattern, spans_sense]
  constructor
  · rintro ⟨i, j, hi, k, hk⟩
    exact ⟨k, i, j, hi, hk⟩
  · rintro ⟨k, i, j, hi, hk⟩
    exact ⟨i, j, hi, k, hk⟩

end Reading

open Classical in
noncomputable def sense? (source : String) : Option Sense :=
  if h : ∃ r, Reads {} source.toList r then some h.choose.sense else none

theorem Reads.sense?_eq (h : Reads {} source.toList r) : sense? source = some r.sense := by
  have hreads : ∃ r, Reads {} source.toList r := ⟨r, h⟩
  rw [sense?, dif_pos hreads, hreads.choose_spec.unique h]

theorem exists_reads {a : Sense} (h : sense? source = some a) : ∃ r, Reads {} source.toList r ∧ r.sense = a := by
  rw [sense?] at h
  split at h
  next hreads => exact ⟨_, hreads.choose_spec, Option.some.inj h⟩
  next => cases h

theorem not_reads (h : sense? source = none) : ¬ Reads {} source.toList r := by
  intro hr
  rw [hr.sense?_eq] at h
  cases h

section Laws

variable {a b : Sense}

theorem sense?_caret (h : sense? source = some a) : ∃ b, sense? ("^" ++ source) = some b ∧
    ∀ text k i j, b.Spans text k i j ↔ a.Spans text k i j ∧ (k = 0 → i = 0) := by
  obtain ⟨r, hr, rfl⟩ := exists_reads h
  obtain ⟨s, hs, hgraft⟩ := hr.graft (.first (p := look .textStart) rfl)
  have hcaret : Reads {} ("^" ++ source).toList s := by
    rw [String.toList_append]
    exact reads_caret_iff.mpr hs
  refine ⟨s.sense, hcaret.sense?_eq, fun text k i j => ?_⟩
  rw [Reading.spans_sense, Reading.spans_sense, Reading.spans_caret hgraft, and_assoc]

theorem sense?_dollar (h : sense? source = some a) : ∃ b, sense? (source ++ "$") = some b ∧
    ∀ text k i j, b.Spans text k i j ↔
      a.Spans text k i j ∧ (k + 1 = a.alternatives.length → a.closing text j) := by
  obtain ⟨r, hr, rfl⟩ := exists_reads h
  have hdollar : Reads {} (source ++ "$").toList (r.add (look r.flags.dollar)) := by
    rw [String.toList_append]
    exact hr.dollar
  refine ⟨_, hdollar.sense?_eq, fun text k i j => ?_⟩
  rw [Reading.spans_sense, Reading.spans_sense, Reading.spans_add, Reading.length_sense, and_assoc]
  refine and_congr_right fun hi => ?_
  split
  next hk =>
    constructor
    · rintro ⟨m, hspans, rfl, hm, hholds⟩
      exact ⟨hspans, fun _ => ⟨hm, hholds⟩⟩
    · rintro ⟨hspans, hclosing⟩
      obtain ⟨hj, hholds⟩ := hclosing hk
      exact ⟨j, hspans, rfl, hj, hholds⟩
  next hk => simp [hk]

theorem head?_of_caret (h : (sense? ("^" ++ source)).isSome = true) (hnone : sense? source = none) :
    ∃ c ∈ source.toList.head?, c ∈ repeaters := by
  obtain ⟨a, ha⟩ := Option.isSome_iff_exists.mp h
  obtain ⟨s, hs, -⟩ := exists_reads ha
  rw [String.toList_append] at hs
  refine by_contra fun hno => ?_
  have hplain : ∀ c ∈ source.toList.head?, isRepetition c = false := fun c hc =>
    Bool.eq_false_iff.mpr fun hrep => hno ⟨c, hc, by simpa [isRepetition, repeaters, or_assoc] using hrep⟩
  obtain ⟨r, hr, -⟩ := (reads_caret_iff.mp hs).of_graft (.first rfl) fun _ => hplain
  exact not_reads hnone hr

theorem getLast?_of_dollar (h : (sense? (source ++ "$")).isSome = true) (hnone : sense? source = none) :
    source.toList.getLast? = some '\\' := by
  obtain ⟨a, ha⟩ := Option.isSome_iff_exists.mp h
  obtain ⟨s, hs, -⟩ := exists_reads ha
  rw [String.toList_append] at hs
  refine by_contra fun hlast => ?_
  obtain ⟨r, hr, -⟩ := hs.of_dollar hlast
  exact not_reads hnone hr

theorem sense?_group (h : sense? source = some a) (hb : sense? ("(?:" ++ source ++ ")") = some b) :
    b.alternatives.length = 1 ∧ (∀ text i j, b.Spans text 0 i j ↔ ∃ k, a.Spans text k i j) ∧
      ∀ text j, b.closing text j ↔ j = text.length := by
  obtain ⟨r, hr, rfl⟩ := exists_reads h
  rw [hr.group.sense?_eq] at hb
  obtain rfl := Option.some.inj hb
  refine ⟨rfl, fun text i j => ?_, fun text j => ?_⟩
  · have hgroup : (Reading.mk {} r.names [] [some r.pattern]).Spans text.toList 0 i j ↔
        r.pattern.Spans text.toList i j := by
      simp [Reading.Spans, Reading.alternatives, Reading.branch, concat, Pattern.Spans]
    simp only [Reading.spans_sense, exists_and_left]
    exact and_congr_right fun _ => hgroup.trans Reading.spans_pattern
  · exact Reading.closing_sense_of_flags rfl

end Laws

end Pattern

noncomputable def Grammar.common : Grammar where
  sense? := Pattern.sense?
  accepted h := by
    obtain ⟨p, hp, rfl⟩ := Option.map_eq_some_iff.mp h
    obtain ⟨r, hr, rfl, -⟩ := read?_eq_some_iff.mp hp
    exact ⟨r.sense, hr.sense?_eq, fun _ => Reading.isMatch_pattern_iff⟩
  caret := sense?_caret
  dollar := sense?_dollar
  closing_end h text := by
    obtain ⟨r, -, rfl⟩ := exists_reads h
    have hlength : text.length = text.toList.length := String.length_toList.symm
    exact ⟨Nat.le_of_eq hlength, hlength ▸ dollar_holds_end r.flags text.toList⟩
  of_caret := head?_of_caret
  of_dollar := getLast?_of_dollar
  group := sense?_group

end Formwork
