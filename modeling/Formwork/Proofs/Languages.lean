import Mathlib.Computability.Language
import Formwork.Proofs.Alternatives

/-! The language of a pattern that looks at nothing but the characters it takes. It spans a part of a text exactly
if the part is a word of its language, so between the ends of a text it matches the words themselves. -/

namespace Formwork.Pattern

def Lookless : Pattern → Prop
  | empty => True
  | one _ => True
  | look _ => False
  | seq a b => a.Lookless ∧ b.Lookless
  | alt a b => a.Lookless ∧ b.Lookless
  | repeated body _ _ => body.Lookless

def language : Pattern → Language Char
  | empty => 1
  | one set => {w | ∃ c, w = [c] ∧ set.contains c = true}
  | look _ => 0
  | seq a b => a.language * b.language
  | alt a b => a.language + b.language
  | repeated body least most =>
    {w | ∃ n, least ≤ n ∧ (∀ m, most = some m → n ≤ max least m) ∧ w ∈ body.language ^ n}

/-- From a position the relation leads behind the words of a language that stand there. -/
def Covers (text : List Char) (R : Nat → Nat → Prop) (L : Language Char) : Prop :=
  ∀ i j, R i j ↔ ∃ w ∈ L, w <+: text.drop i ∧ j = i + w.length

theorem append_prefix_iff {u v l : List Char} : u ++ v <+: l ↔ u <+: l ∧ v <+: l.drop u.length := by
  constructor
  · rintro ⟨rest, rfl⟩
    simp
  · rintro ⟨⟨rest, rfl⟩, h⟩
    simpa using h

namespace Covers

variable {text : List Char} {R S : Nat → Nat → Prop} {L M : Language Char}

theorem one (text : List Char) : Covers text (fun i j => i = j) 1 := by
  intro i j
  simp [Language.mem_one, eq_comm]

theorem mul (hR : Covers text R L) (hS : Covers text S M) :
    Covers text (fun i j => ∃ k, R i k ∧ S k j) (L * M) := by
  intro i j
  constructor
  · rintro ⟨k, hik, hkj⟩
    obtain ⟨u, hu, hahead, rfl⟩ := (hR i k).mp hik
    obtain ⟨v, hv, hbehind, rfl⟩ := (hS _ j).mp hkj
    rw [← List.drop_drop] at hbehind
    exact ⟨u ++ v, Language.append_mem_mul hu hv, append_prefix_iff.mpr ⟨hahead, hbehind⟩,
      by rw [List.length_append, Nat.add_assoc]⟩
  · rintro ⟨w, hw, hahead, rfl⟩
    obtain ⟨u, hu, v, hv, rfl⟩ := Language.mem_mul.mp hw
    obtain ⟨hfirst, hsecond⟩ := append_prefix_iff.mp hahead
    rw [List.drop_drop] at hsecond
    exact ⟨i + u.length, (hR _ _).mpr ⟨u, hu, hfirst, rfl⟩,
      (hS _ _).mpr ⟨v, hv, hsecond, by rw [List.length_append, Nat.add_assoc]⟩⟩

theorem add (hR : Covers text R L) (hS : Covers text S M) :
    Covers text (fun i j => R i j ∨ S i j) (L + M) := by
  intro i j
  simp only [hR i j, hS i j, Language.mem_add, or_and_right, exists_or]

theorem steps (hR : Covers text R L) (n : Nat) : Covers text (Steps R n) (L ^ n) := by
  induction n with
  | zero => exact pow_zero L ▸ Covers.one text
  | succ n ih => exact pow_succ' L n ▸ hR.mul ih

end Covers

theorem covers_one (text : List Char) (set : CharSet) :
    Covers text (Spans text (one set)) (one set).language := by
  intro i j
  constructor
  · rintro ⟨rfl, c, hc, hset⟩
    obtain ⟨hi, rfl⟩ := List.getElem?_eq_some_iff.mp hc
    rw [List.drop_eq_getElem_cons hi]
    exact ⟨[text[i]], ⟨_, rfl, hset⟩, ⟨_, rfl⟩, rfl⟩
  · rintro ⟨_, ⟨c, rfl, hset⟩, ⟨rest, hrest⟩, rfl⟩
    refine ⟨rfl, c, ?_, hset⟩
    rw [← Nat.add_zero i, ← List.getElem?_drop, ← hrest]
    rfl

theorem covers_spans {p : Pattern} (h : p.Lookless) (text : List Char) :
    Covers text (Spans text p) p.language := by
  induction p with
  | empty => exact .one text
  | one set => exact covers_one text set
  | look l => exact h.elim
  | seq a b iha ihb => exact (iha h.1).mul (ihb h.2)
  | alt a b iha ihb => exact (iha h.1).add (ihb h.2)
  | repeated body least most ih =>
    intro i j
    have hsteps (n : Nat) := (ih h).steps n i j
    constructor
    · rintro ⟨n, hleast, hmost, hn⟩
      obtain ⟨w, hw, hrest⟩ := (hsteps n).mp hn
      exact ⟨w, ⟨n, hleast, hmost, hw⟩, hrest⟩
    · rintro ⟨w, ⟨n, hleast, hmost, hw⟩, hrest⟩
      exact ⟨n, hleast, hmost, (hsteps n).mpr ⟨w, hw, hrest⟩⟩

theorem whole_iff_mem_language {p : Pattern} (h : p.Lookless) {text : String} :
    p.Whole text ↔ text.toList ∈ p.language := by
  rw [Whole, covers_spans h]
  constructor
  · rintro ⟨w, hw, hahead, hlength⟩
    rw [List.drop_zero] at hahead
    rwa [← hahead.eq_of_length (by omega)]
  · intro hmem
    exact ⟨_, hmem, List.prefix_rfl, (Nat.zero_add _).symm⟩

theorem isMatch_between_ends {ps : List Pattern} (h : (concat ps).Lookless) {text : String} :
    (concat (look .textStart :: (ps ++ [look .textEnd]))).isMatch text = true ↔
      text.toList ∈ (concat ps).language := by
  rw [isMatch_iff, ← whole_iff_mem_language h, Whole]
  constructor
  · rintro ⟨i, j, hi, k, hstart, hrest⟩
    obtain ⟨rfl, rfl⟩ := spans_textStart.mp hstart
    obtain ⟨m, hspans, hend⟩ := spans_concat_concat.mp hrest
    obtain ⟨rfl, rfl⟩ := (spans_textEnd (hspans.le_length hi)).mp hend
    exact hspans
  · intro hspans
    have hend := (spans_textEnd (Nat.le_refl text.toList.length)).mpr ⟨rfl, rfl⟩
    exact ⟨0, _, Nat.zero_le _, 0, spans_textStart.mpr ⟨rfl, rfl⟩, spans_concat_concat.mpr ⟨_, hspans, hend⟩⟩

open scoped Computability

section Words

variable {set : CharSet} {w : List Char}

theorem mem_language_one_pow {n : Nat} :
    w ∈ (one set).language ^ n ↔ w.length = n ∧ ∀ c ∈ w, set.contains c = true := by
  induction n generalizing w with
  | zero =>
    rw [pow_zero, Language.mem_one, List.length_eq_zero_iff]
    constructor
    · rintro rfl
      exact ⟨rfl, nofun⟩
    · exact And.left
  | succ n ih =>
    rw [pow_succ', Language.mem_mul]
    constructor
    · rintro ⟨_, ⟨c, rfl, hc⟩, v, hv, rfl⟩
      obtain ⟨hlength, hall⟩ := ih.mp hv
      exact ⟨by simp [hlength], by simpa using ⟨hc, hall⟩⟩
    · rintro ⟨hlength, hall⟩
      cases w with
      | nil => cases hlength
      | cons c v =>
        obtain ⟨hc, hv⟩ := List.forall_mem_cons.mp hall
        exact ⟨[c], ⟨c, rfl, hc⟩, v, ih.mpr ⟨Nat.succ.inj hlength, hv⟩, rfl⟩

theorem mem_language_repeated_one {least : Nat} {most : Option Nat} :
    w ∈ (repeated (one set) least most).language ↔
      (least ≤ w.length ∧ ∀ m, most = some m → w.length ≤ max least m) ∧ ∀ c ∈ w, set.contains c = true := by
  constructor
  · rintro ⟨n, hleast, hmost, hw⟩
    obtain ⟨rfl, hall⟩ := mem_language_one_pow.mp hw
    exact ⟨⟨hleast, hmost⟩, hall⟩
  · rintro ⟨⟨hleast, hmost⟩, hall⟩
    exact ⟨_, hleast, hmost, mem_language_one_pow.mpr ⟨rfl, hall⟩⟩

theorem language_repeated_any {p : Pattern} : (repeated p 0 none).language = p.language∗ := by
  rw [Language.kstar_eq_iSup_pow]
  ext v
  rw [Language.mem_iSup]
  constructor
  · intro ⟨n, _, _, hv⟩
    exact ⟨n, hv⟩
  · intro ⟨n, hv⟩
    exact ⟨n, Nat.zero_le n, nofun, hv⟩

theorem mem_language_optional {p : Pattern} :
    w ∈ (repeated p 0 (some 1)).language ↔ w = [] ∨ w ∈ p.language := by
  constructor
  · intro ⟨n, _, hmost, hw⟩
    have hn : n = 0 ∨ n = 1 := by
      have := hmost 1 rfl
      omega
    obtain rfl | rfl := hn
    · exact .inl (by simpa using hw)
    · exact .inr (by simpa using hw)
  · intro h
    obtain rfl | hw := h
    · exact ⟨0, Nat.le_refl 0, by simp, by simp⟩
    · exact ⟨1, Nat.zero_le 1, by simp, by simpa using hw⟩

end Words

end Formwork.Pattern
