import Formwork.Pattern.Reader
import Formwork.Proofs.Languages
import Formwork.Proofs.Letters
import Formwork.Text.Pieces
import Formwork.Validation.Check

/-! Mail addresses as a grammar: a name of points and runs, an at sign, a host of points and labels. The check for
email, which searches a pattern and measures what stands before the first at sign, passes exactly these. -/

namespace Formwork.Email

open Text Pattern

def marks : String := "!#$%&'*+/=?^_`\x7b|\x7d~-"

def IsNameChar (c : Char) : Prop := c.isAlphanum = true ∨ c ∈ marks.toList

instance : DecidablePred IsNameChar := fun c => inferInstanceAs (Decidable (c.isAlphanum = true ∨ c ∈ marks.toList))

def IsName (name : List Char) : Prop := ∀ run ∈ pieces '.' name, run ≠ [] ∧ ∀ c ∈ run, IsNameChar c

structure IsLabel (w : List Char) : Prop where
  not_empty : 1 ≤ w.length
  length_le : w.length ≤ 63
  chars : ∀ c ∈ w, c.isAlphanum = true ∨ c = '-'
  front : w.head? ≠ some '-'
  back : w.getLast? ≠ some '-'

def IsHost (host : List Char) : Prop := ∀ w ∈ pieces '.' host, IsLabel w

/-- Lengths count the bytes of UTF-8. -/
def IsAddress (address : String) : Prop :=
  address.utf8ByteSize ≤ 254 ∧ address.toList.count '@' = 1 ∧
    ∃ name host : String, address = name ++ "@" ++ host ∧ name.utf8ByteSize ≤ 64 ∧ IsName name.toList ∧
      IsHost host.toList

section Characters

variable {c : Char}

theorem mem_marks_iff : c ∈ marks.toList ↔ c.toNat ∈ marks.toList.map Char.toNat := by
  rw [List.mem_map]
  constructor
  · intro h
    exact ⟨c, h, rfl⟩
  · intro ⟨d, hd, heq⟩
    rwa [← Char.toNat_inj.mp heq]

theorem contains_localChars : localChars.contains c = true ↔ IsNameChar c := by
  rw [IsNameChar, isAlphanum_iff_toNat, mem_marks_iff]
  simp [localChars, CharSet.contains, Ranges.contains, marks]
  omega

theorem contains_alphanumerics : alphanumerics.contains c = true ↔ c.isAlphanum = true := by
  rw [isAlphanum_iff_toNat]
  simp [alphanumerics, CharSet.contains, Ranges.contains]
  omega

theorem contains_labelChars : labelChars.contains c = true ↔ c.isAlphanum = true ∨ c = '-' := by
  have hhyphen : c = '-' ↔ c.toNat = 45 := Char.toNat_inj.symm
  rw [isAlphanum_iff_toNat, hhyphen]
  simp [labelChars, CharSet.contains, Ranges.contains]
  omega

end Characters

section Words

variable {p : Pattern} {w : List Char}

theorem mem_language_behind {sep : Char} :
    w ∈ (seq (one (.single sep)) p).language ↔ ∃ q ∈ p.language, w = sep :: q := by
  constructor
  · intro hw
    obtain ⟨_, ⟨c, rfl, hc⟩, q, hq, rfl⟩ := Language.mem_mul.mp hw
    have hsep := CharSet.contains_single.mp hc
    exact ⟨q, hq, by simp [hsep]⟩
  · intro ⟨q, hq, hw⟩
    exact Language.mem_mul.mpr ⟨[sep], ⟨sep, rfl, CharSet.contains_single.mpr rfl⟩, q, hq, hw.symm⟩

theorem mem_language_separated {sep : Char} :
    w ∈ (repeated (seq (one (.single sep)) p) 0 none).language ↔
      ∃ ps : List (List Char), (∀ q ∈ ps, q ∈ p.language) ∧ w = ps.flatMap (sep :: ·) := by
  rw [language_repeated_any, Language.mem_kstar]
  constructor
  · intro ⟨ws, hw, hall⟩
    have hrange : ws ∈ Set.range (List.map (sep :: ·)) := by
      rw [Set.range_list_map]
      intro v hv
      obtain ⟨q, _, hq⟩ := mem_language_behind.mp (hall v hv)
      exact ⟨q, hq.symm⟩
    obtain ⟨ps, rfl⟩ := hrange
    refine ⟨ps, ?_, hw⟩
    intro q hq
    obtain ⟨r, hr, heq⟩ := mem_language_behind.mp (hall _ (List.mem_map_of_mem hq))
    rwa [(List.cons.inj heq).2]
  · intro ⟨ps, hps, hw⟩
    refine ⟨ps.map (sep :: ·), hw, ?_⟩
    intro v hv
    obtain ⟨q, hq, rfl⟩ := List.mem_map.mp hv
    exact mem_language_behind.mpr ⟨q, hps q hq, rfl⟩

theorem mem_language_dotted (h : ∀ q ∈ p.language, '.' ∉ q) :
    w ∈ (dotted p).language ↔ ∀ q ∈ pieces '.' w, q ∈ p.language := by
  constructor
  · intro hw
    obtain ⟨q, hq, rest, hrest, rfl⟩ := Language.mem_mul.mp hw
    obtain ⟨ps, hps, rfl⟩ := mem_language_separated.mp hrest
    have hall : ∀ r ∈ q :: ps, r ∈ p.language := List.forall_mem_cons.mpr ⟨hq, hps⟩
    rw [← joined_cons, pieces_joined (List.cons_ne_nil q ps) fun r hr => h r (hall r hr)]
    exact hall
  · intro hall
    obtain ⟨q, ps, hpieces⟩ := List.exists_cons_of_ne_nil (pieces_ne_nil '.' w)
    rw [hpieces, List.forall_mem_cons] at hall
    rw [← joined_pieces '.' w, hpieces, joined_cons]
    exact Language.append_mem_mul hall.1 (mem_language_separated.mpr ⟨ps, hall.2, rfl⟩)

theorem mem_language_run :
    w ∈ (repeated (one localChars) 1 none).language ↔ w ≠ [] ∧ ∀ c ∈ w, IsNameChar c := by
  simp [mem_language_repeated_one, contains_localChars, Nat.one_le_iff_ne_zero]

theorem ne_hyphen_of_isAlphanum {c : Char} (h : c.isAlphanum = true) : c ≠ '-' := by
  have hhyphen : ¬ '-'.isAlphanum = true := by decide
  intro hc
  exact hhyphen (hc ▸ h)

theorem isLabel_of_mem_language (hw : w ∈ label.language) : IsLabel w := by
  obtain ⟨_, ⟨c, rfl, hc⟩, rest, hrest, rfl⟩ := Language.mem_mul.mp hw
  have hfront := contains_alphanumerics.mp hc
  obtain rfl | hrest := mem_language_optional.mp hrest
  · have hne := ne_hyphen_of_isAlphanum hfront
    exact ⟨by simp, by simp, by simp [hfront], by simp [hne], by simp [hne]⟩
  obtain ⟨mid, hmid, _, ⟨d, rfl, hd⟩, rfl⟩ := Language.mem_mul.mp hrest
  have hback := contains_alphanumerics.mp hd
  obtain ⟨⟨_, hlength⟩, hchars⟩ := mem_language_repeated_one.mp hmid
  have hmost : mid.length ≤ 61 := by simpa using hlength 61 rfl
  refine ⟨by simp, by simp; omega, ?_, by simp [ne_hyphen_of_isAlphanum hfront], ?_⟩
  · intro e he
    simp only [List.mem_append, List.mem_singleton] at he
    obtain rfl | he | rfl := he
    · exact .inl hfront
    · exact contains_labelChars.mp (hchars e he)
    · exact .inl hback
  · rw [← List.append_assoc, List.getLast?_concat]
    simp [ne_hyphen_of_isAlphanum hback]

theorem IsLabel.mem_language (hw : IsLabel w) : w ∈ label.language := by
  obtain ⟨c, rest, rfl⟩ := List.exists_cons_of_length_pos hw.not_empty
  have hfront : c.isAlphanum = true := by
    apply (hw.chars c (by simp)).resolve_right
    intro hc
    exact hw.front (by simp [hc])
  have hone : [c] ∈ (one alphanumerics).language := ⟨c, rfl, contains_alphanumerics.mpr hfront⟩
  apply Language.append_mem_mul hone
  apply mem_language_optional.mpr
  obtain hrest | ⟨mid, d, hrest⟩ := List.eq_nil_or_concat rest
  · exact .inl hrest
  rw [List.concat_eq_append] at hrest
  subst hrest
  have hback : d.isAlphanum = true := by
    apply (hw.chars d (by simp)).resolve_right
    intro hd
    exact hw.back (by simp [hd, List.getLast?_cons])
  have hmost : mid.length ≤ 61 := by
    have hlength := hw.length_le
    simp only [List.length_cons, List.length_append, List.length_nil] at hlength
    omega
  have hchars : ∀ e ∈ mid, labelChars.contains e = true := by
    intro e he
    exact contains_labelChars.mpr (hw.chars e (by simp [he]))
  have hmid : mid ∈ (repeated (one labelChars) 0 (some 61)).language :=
    mem_language_repeated_one.mpr ⟨⟨Nat.zero_le _, by simpa using hmost⟩, hchars⟩
  have hlast : [d] ∈ (one alphanumerics).language := ⟨d, rfl, contains_alphanumerics.mpr hback⟩
  exact .inr (Language.append_mem_mul hmid hlast)

theorem mem_language_label : w ∈ label.language ↔ IsLabel w :=
  ⟨isLabel_of_mem_language, IsLabel.mem_language⟩

end Words

section Shape

variable {name host : List Char} {c : Char}

theorem IsName.at_notMem (h : IsName name) : '@' ∉ name := by
  have hat : ¬ IsNameChar '@' := by decide
  apply notMem_of_forall_pieces (show '@' ≠ '.' by decide)
  intro run hrun hmem
  exact hat ((h run hrun).2 '@' hmem)

theorem IsHost.at_notMem (h : IsHost host) : '@' ∉ host := by
  have hat : ¬ ('@'.isAlphanum = true ∨ '@' = '-') := by decide
  apply notMem_of_forall_pieces (show '@' ≠ '.' by decide)
  intro w hw hmem
  exact hat ((h w hw).chars '@' hmem)

theorem mem_language_name : name ∈ (dotted (repeated (one localChars) 1 none)).language ↔ IsName name := by
  have hpoint : ¬ IsNameChar '.' := by decide
  rw [mem_language_dotted fun run hrun hmem => hpoint ((mem_language_run.mp hrun).2 '.' hmem)]
  simp only [mem_language_run, IsName]

theorem mem_language_host : host ∈ (dotted label).language ↔ IsHost host := by
  have hpoint : ¬ ('.'.isAlphanum = true ∨ '.' = '-') := by decide
  rw [mem_language_dotted fun w hw hmem => hpoint ((mem_language_label.mp hw).chars '.' hmem)]
  simp only [mem_language_label, IsHost]

theorem isMatch_pattern_iff {address : String} : pattern.isMatch address = true ↔
    ∃ name host, address.toList = name ++ '@' :: host ∧ IsName name ∧ IsHost host := by
  let ps := [dotted (repeated (one localChars) 1 none), one (.single '@'), dotted label]
  have hlookless : (concat ps).Lookless := by
    simp [ps, concat, dotted, label, Lookless]
  have hmatch : pattern.isMatch address = true ↔ address.toList ∈ (concat ps).language :=
    isMatch_between_ends hlookless
  have hbehind : (concat ps).language =
      (dotted (repeated (one localChars) 1 none)).language * (seq (one (.single '@')) (dotted label)).language := by
    simp [ps, concat, language]
  rw [hmatch, hbehind, Language.mem_mul]
  constructor
  · rintro ⟨name, hname, _, hrest, heq⟩
    obtain ⟨host, hhost, rfl⟩ := mem_language_behind.mp hrest
    exact ⟨name, host, heq.symm, mem_language_name.mp hname, mem_language_host.mp hhost⟩
  · rintro ⟨name, host, heq, hname, hhost⟩
    have hrest : '@' :: host ∈ (seq (one (.single '@')) (dotted label)).language :=
      mem_language_behind.mpr ⟨host, mem_language_host.mpr hhost, rfl⟩
    exact ⟨name, mem_language_name.mpr hname, '@' :: host, hrest, heq.symm⟩

theorem localPart?_append {address : String} (hat : '@' ∉ name) (h : address.toList = name ++ '@' :: host) :
    localPart? address = some (String.ofList name) := by
  have hname : ∀ c ∈ name, decide (c ≠ '@') = true := by
    intro c hc
    have : c ≠ '@' := fun heq => hat (heq ▸ hc)
    simpa using this
  have htake : address.toList.takeWhile (· ≠ '@') = name := by
    rw [h, List.takeWhile_append_of_pos hname, List.takeWhile_cons_of_neg (by simp), List.append_nil]
  rw [localPart?, htake, if_pos (by simp [h])]

theorem IsName.ne_nil (h : IsName name) : name ≠ [] := by
  rintro rfl
  exact (h [] (by simp [pieces])).1 rfl

theorem isEmail_eq_true_iff {address : String} : isEmail address = true ↔
    ∃ part, localPart? address = some part ∧ address ≠ "" ∧ address.utf8ByteSize ≤ 254 ∧ part ≠ "" ∧
      part.utf8ByteSize ≤ 64 ∧ pattern.isMatch address = true := by
  rw [isEmail]
  cases localPart? address with
  | none => simp
  | some part =>
    simp only [Bool.and_eq_true, decide_eq_true_eq, Option.some.injEq, and_assoc, exists_eq_left']
    rfl

theorem isEmail_iff {address : String} : isEmail address = true ↔ IsAddress address := by
  rw [isEmail_eq_true_iff]
  constructor
  · rintro ⟨part, hpart, -, hbytes, -, hlocal, hmatch⟩
    obtain ⟨name, host, heq, hname, hhost⟩ := isMatch_pattern_iff.mp hmatch
    have hname' := localPart?_append hname.at_notMem heq
    obtain rfl : part = String.ofList name := Option.some.inj (hpart.symm.trans hname')
    refine ⟨hbytes, ?_, String.ofList name, String.ofList host, ?_, hlocal, by simpa using hname, by simpa using hhost⟩
    · simp [heq, List.count_eq_zero_of_not_mem hname.at_notMem, List.count_eq_zero_of_not_mem hhost.at_notMem]
    · apply String.toList_inj.mp
      simp [heq]
  · intro ⟨hbytes, _, name, host, heq, hlocal, hname, hhost⟩
    have hchars : address.toList = name.toList ++ '@' :: host.toList := by
      simp [heq]
    have hpart : localPart? address = some name := by
      rw [localPart?_append hname.at_notMem hchars, String.ofList_toList]
    have hpresent : address ≠ "" := by
      rintro rfl
      simp at hchars
    have hmatch := isMatch_pattern_iff.mpr ⟨_, _, hchars, hname, hhost⟩
    exact ⟨name, hpart, hpresent, hbytes, by simpa using hname.ne_nil, hlocal, hmatch⟩

end Shape

section Written

variable {text : List Char}

theorem ends_one_congr {a b : CharSet} (h : ∀ c, a.contains c = b.contains c) :
    ends text (one a) = ends text (one b) := by
  funext marks
  simp [ends, h]

def classOf (rs : Ranges) : CharSet := rs.foldl (fun s r => .union s (.ranges [r])) .none

/-- The pattern without groups around its parts, over any three sets of characters. -/
def flat (run edge inner : CharSet) : Pattern :=
  let label := [one edge, repeated (concat [repeated (one inner) 0 (some 61), one edge]) 0 (some 1)]
  concat ([look .textStart, repeated (one run) 1 none,
      repeated (concat [one (.single '.'), repeated (one run) 1 none]) 0 none, one (.single '@')] ++ label ++
    [repeated (concat (one (.single '.') :: label)) 0 none, look .textEnd])

theorem ends_flat {run edge inner run' edge' inner' : CharSet} (hrun : ∀ c, run.contains c = run'.contains c)
    (hedge : ∀ c, edge.contains c = edge'.contains c) (hinner : ∀ c, inner.contains c = inner'.contains c) :
    ends text (flat run edge inner) = ends text (flat run' edge' inner') := by
  have hseq (a b : Pattern) : ends text (seq a b) = fun marks => ends text b (ends text a marks) := rfl
  have hany (p : Pattern) (n : Nat) : ends text (repeated p n none) = fun marks =>
    closure (ends text p) text.length (Nat.repeat (ends text p) n marks) := rfl
  have hmost (p : Pattern) (n m : Nat) : ends text (repeated p n (some m)) = fun marks =>
    withinSteps (ends text p) (m - n) (Nat.repeat (ends text p) n marks) := rfl
  simp only [flat, concat, List.cons_append, List.nil_append, List.foldr_cons, hseq, hany, hmost,
    ends_one_congr hrun, ends_one_congr hedge, ends_one_congr hinner]

/-- The tree of the pattern is what its text says, the classes being spelled with fewer ranges. -/
theorem read?_written : ∃ p, read? written = some p ∧ ∀ address, p.isMatch address = pattern.isMatch address := by
  let edges : Ranges := [(0x61, 0x7A), (0x41, 0x5A), (0x30, 0x39)]
  let points : Ranges := (marks.toList.dropLast.map fun c => (c.toNat, c.toNat)) ++ [(0x2D, 0x2D)]
  let hyphen : Ranges := [(0x2D, 0x2D)]
  refine ⟨flat (classOf (edges ++ points)) (classOf edges) (classOf (edges ++ hyphen)), by decide +kernel, ?_⟩
  have hrun (c : Char) : (classOf (edges ++ points)).contains c = localChars.contains c := by
    rw [Bool.eq_iff_iff]
    simp [classOf, edges, points, CharSet.none, CharSet.contains, Ranges.contains, marks, localChars]
    omega
  have hedge (c : Char) : (classOf edges).contains c = alphanumerics.contains c := by
    rw [Bool.eq_iff_iff]
    simp [classOf, edges, CharSet.none, CharSet.contains, Ranges.contains, alphanumerics]
    omega
  have hinner (c : Char) : (classOf (edges ++ hyphen)).contains c = labelChars.contains c := by
    rw [Bool.eq_iff_iff]
    simp [classOf, edges, hyphen, CharSet.none, CharSet.contains, Ranges.contains, labelChars]
    omega
  intro address
  have hflat : ends address.toList (flat localChars alphanumerics labelChars) = ends address.toList pattern := rfl
  rw [isMatch, isMatch, ends_flat hrun hedge hinner, hflat]

end Written

end Formwork.Email

namespace Formwork.Check

open Email

theorem failure?_email (value : Json) : email.failure? value =
    if isEmpty value = true then none else failIf (!isEmail value.looseText) (.bool true) := rfl

/-- A value that is not empty passes exactly if its text is an address. -/
theorem email_passes_iff (value : Json) :
    email.failure? value = none ↔ isEmpty value = true ∨ IsAddress value.looseText := by
  rw [failure?_email, failIf_unless_empty_eq_none_iff, isEmail_iff]

end Formwork.Check
