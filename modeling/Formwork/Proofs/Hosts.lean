import Formwork.Proofs.Traversal
import Formwork.Url

/-! Hosts as they come out of an address: nothing in them can be taken for another part of it. -/

namespace Formwork

namespace Url

open Text

def marks : List Char := ['/', '?', '#', '\\', '@', '\t', '\n', '\r']

/-- A text that is a host to its end wherever an address has its host. -/
structure Unbroken (host : List Char) : Prop where
  visible : ∃ c ∈ host, isBlank c = false
  unmarked : ∀ c ∈ host, c ∉ marks
  noPort : splitPort false host = (host, [])

theorem Unbroken.ne_nil {host : List Char} (h : Unbroken host) : host ≠ [] := by
  obtain ⟨c, hc, -⟩ := h.visible
  exact List.ne_nil_of_mem hc

theorem splitPort_of_notMem {cs : List Char} (hcolon : ':' ∉ cs) (hopen : '[' ∉ cs) :
    splitPort false cs = (cs, []) := by
  induction cs with
  | nil => rfl
  | cons c cs ih =>
    simp only [List.mem_cons, not_or] at hcolon hopen
    have hrest := ih hcolon.2 hopen.2
    by_cases hclose : c = ']'
    · simp [splitPort, hclose, hrest]
    · simp [splitPort, Ne.symm hcolon.1, Ne.symm hopen.1, hclose, hrest]

theorem splitPort_brackets {inner : List Char} (hclose : ']' ∉ inner) :
    splitPort false ('[' :: inner ++ [']']) = ('[' :: inner ++ [']'], []) := by
  have hinner : splitPort true (inner ++ [']']) = (inner ++ [']'], []) := by
    induction inner with
    | nil => simp [splitPort]
    | cons c cs ih =>
      simp only [List.mem_cons, not_or] at hclose
      have hrest := ih hclose.2
      simp [splitPort, Ne.symm hclose.1, hrest]
  simp [splitPort, hinner]

theorem unbroken_of_plain {host : List Char} (hvisible : ∃ c ∈ host, isBlank c = false)
    (h : ∀ c ∈ host, Domain.isForbidden c = false) : Unbroken host := by
  have hnot (d : Char) (hd : Domain.isForbidden d = true) : d ∉ host := by
    intro hmem
    have hfree := h d hmem
    simp [hd] at hfree
  have hmarks : marks.all Domain.isForbidden = true := by decide
  rw [List.all_eq_true] at hmarks
  exact ⟨hvisible, fun c hc hmem => hnot c (hmarks c hmem) hc,
    splitPort_of_notMem (hnot ':' (by decide)) (hnot '[' (by decide))⟩

theorem unbroken_of_bracketed {inner : List Char}
    (h : ∀ c ∈ inner, c = ':' ∨ isHexDigit c = true) : Unbroken ('[' :: inner ++ [']']) := by
  have hnot (d : Char) (hcolon : d ≠ ':') (hhex : isHexDigit d = false) : d ∉ inner := by
    intro hmem
    obtain hd | hd := h d hmem
    · exact hcolon hd
    · simp [hhex] at hd
  have hmarks : ∀ d ∈ marks, d ≠ ':' ∧ isHexDigit d = false ∧ d ≠ '[' ∧ d ≠ ']' := by
    simp [marks]
    decide
  refine ⟨⟨'[', by simp, by decide⟩, fun c hc hmem => ?_, splitPort_brackets (hnot ']' (by decide) (by decide))⟩
  obtain ⟨hcolon, hhex, hopen, hclose⟩ := hmarks c hmem
  have hinner := hnot c hcolon hhex
  simp [hinner, hopen, hclose] at hc

namespace Ip

theorem eq_digitChar_of_mem_toDigits {b n : Nat} {c : Char} (hb : 1 < b)
    (h : c ∈ Nat.toDigits b n) : ∃ d < b, c = d.digitChar := by
  induction n using Nat.strongRecOn with
  | ind n ih =>
    by_cases hn : n < b
    · rw [Nat.toDigits_of_lt_base hn, List.mem_singleton] at h
      exact ⟨n, hn, h⟩
    · have hpos : 0 < n := by omega
      rw [Nat.toDigits_of_base_le hb (by omega), List.mem_append, List.mem_singleton] at h
      obtain h | h := h
      · exact ih (n / b) (Nat.div_lt_self hpos hb) h
      · exact ⟨n % b, Nat.mod_lt n (by omega), h⟩

theorem mem_piecesText {pieces : List Nat} {c : Char} (h : c ∈ piecesText pieces) :
    c = ':' ∨ isHexDigit c = true := by
  obtain h | ⟨p, hp, hc⟩ := mem_joined h
  · exact .inl h
  · obtain ⟨n, -, rfl⟩ := List.mem_map.mp hp
    obtain ⟨d, hd, rfl⟩ := eq_digitChar_of_mem_toDigits (by decide) hc
    have hhex : ∀ d < 16, isHexDigit d.digitChar = true := by decide
    exact .inr (hhex d hd)

theorem mem_eightText {pieces : List Nat} {c : Char} (h : c ∈ eightText pieces) :
    c = ':' ∨ isHexDigit c = true := by
  by_cases hgap : (longestGap pieces).2 < 2
  · exact mem_piecesText (by simpa [eightText, hgap] using h)
  · simp only [eightText, hgap, if_false, List.mem_append] at h
    obtain (h | h) | h := h
    · exact mem_piecesText h
    · exact .inl (by simpa using h)
    · exact mem_piecesText h

theorem isForbidden_of_mem_fourText {n : Nat} {c : Char} (h : c ∈ fourText n) :
    Domain.isForbidden c = false := by
  obtain rfl | ⟨p, hp, hc⟩ := mem_joined h
  · decide
  · obtain ⟨b, -, rfl⟩ := List.mem_map.mp hp
    obtain ⟨d, hd, rfl⟩ := eq_digitChar_of_mem_toDigits (by decide) hc
    have hfree : ∀ d < 10, Domain.isForbidden d.digitChar = false := by decide
    exact hfree d hd

theorem fourText_visible (n : Nat) : ∃ c ∈ fourText n, isBlank c = false :=
  ⟨'.', by simp [fourText, joined], by decide⟩

end Ip

namespace Domain

theorem isForbidden_of_mem_toAscii? [Dialect] {name ascii : List Char}
    (h : toAscii? name = some ascii) {c : Char} (hc : c ∈ ascii) :
    isForbidden c = false := by
  unfold toAscii? at h
  simp only [Option.bind_eq_bind, Option.bind_eq_some_iff] at h
  obtain ⟨mapped, -, labels, -, h⟩ := h
  split at h
  · cases h
  · next hfree =>
    cases h
    simpa using fun hf => hfree (List.any_eq_true.mpr ⟨c, hc, hf⟩)

theorem isBlank_of_isAscii {c : Char} (hascii : Punycode.isAscii c = true)
    (hfree : isForbidden c = false) : isBlank c = false := by
  have hranges : ∀ r ∈ blanks, r.2 ≤ 32 ∨ 128 ≤ r.1 := by decide
  simp [isForbidden] at hfree
  simp [Punycode.isAscii] at hascii
  by_cases hblank : isBlank c = true
  · obtain ⟨r, hr, hlow, hhigh⟩ := Ranges.contains_iff.mp hblank
    have hedge := hranges r hr
    omega
  · simpa using hblank

theorem labelToAscii?_eq_some [Dialect] {label ascii : List Char} (h : labelToAscii? label = some ascii) :
    (∀ c ∈ ascii, Punycode.isAscii c = true) ∨ 'x' ∈ ascii := by
  by_cases hall : label.all Punycode.isAscii = true
  · have hsame : ascii = label := by
      simp only [labelToAscii?, hall, if_true] at h
      grind
    rw [hsame]
    exact .inl (List.all_eq_true.mp hall)
  · right
    simp only [labelToAscii?, hall] at h
    rw [← Option.some.inj h]
    simp [encodedMark]

theorem toAscii?_visible [Dialect] {name ascii : List Char} (h : toAscii? name = some ascii)
    (hne : ascii ≠ []) : ∃ c ∈ ascii, isBlank c = false := by
  have hfree {c : Char} (hc : c ∈ ascii) := isForbidden_of_mem_toAscii? h hc
  unfold toAscii? at h
  simp only [Option.bind_eq_bind, Option.bind_eq_some_iff] at h
  obtain ⟨mapped, -, labels, hlabels, h⟩ := h
  have hjoined : ascii = joined '.' labels := by
    split at h
    · cases h
    · exact (Option.some.inj h).symm
  obtain ⟨c, hc⟩ := List.exists_mem_of_ne_nil ascii hne
  obtain rfl | ⟨label, hlabel, hmem⟩ := mem_joined (hjoined ▸ hc)
  · exact ⟨'.', hc, by decide⟩
  · obtain ⟨source, -, hsource⟩ := exists_of_mem_mapM hlabels hlabel
    obtain hascii | hx := labelToAscii?_eq_some hsource
    · exact ⟨c, hc, isBlank_of_isAscii (hascii c hmem) (hfree hc)⟩
    · have hin : 'x' ∈ ascii := hjoined ▸ mem_joined_of_mem hlabel hx
      exact ⟨'x', hin, by decide⟩

end Domain

namespace Host

theorem readBracketed?_eq_some {text host : List Char}
    (h : readBracketed? text = some (some host)) :
    ∃ pieces, host = '[' :: Ip.eightText pieces ++ [']'] := by
  unfold readBracketed? at h
  split at h
  · split at h
    · obtain ⟨pieces, -, hhost⟩ := Option.map_eq_some_iff.mp h
      exact ⟨pieces, (Option.some.inj hhost).symm⟩
    · cases h
  · cases h

theorem unbroken_of_read? [Dialect] {text host : List Char} (h : read? text = some host) :
    Unbroken host := by
  unfold read? at h
  cases hbracketed : readBracketed? text with
  | none => simp [hbracketed] at h
  | some bracketed =>
    cases bracketed with
    | some inner =>
      obtain ⟨pieces, rfl⟩ := readBracketed?_eq_some hbracketed
      rw [hbracketed] at h
      rw [← Option.some.inj h]
      exact unbroken_of_bracketed fun c hc => Ip.mem_eightText hc
    | none =>
      simp only [hbracketed, Option.bind_eq_bind, Option.bind_some, Option.bind_eq_some_iff] at h
      obtain ⟨decoded, -, name, hname, h⟩ := h
      split at h
      · cases h
      · next hne =>
        split at h
        · obtain ⟨n, -, rfl⟩ := Option.map_eq_some_iff.mp h
          exact unbroken_of_plain (Ip.fourText_visible n) fun c hc => Ip.isForbidden_of_mem_fourText hc
        · cases h
          exact unbroken_of_plain (Domain.toAscii?_visible hname (by simpa using hne)) fun c hc =>
            Domain.isForbidden_of_mem_toAscii? hname hc

end Host

end Url

end Formwork
