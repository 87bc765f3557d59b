import Mathlib.Algebra.Field.ZMod
import Mathlib.Tactic.LinearCombination
import Mathlib.Tactic.NormNum.Prime
import Formwork.Proofs.CheckDigits

/-! Slips of the hand in an account number. The remainder modulo the prime 97 is another one when a character is
taken for a different one of its class, and when two different neighbours of one class change places. -/

namespace Formwork.Iban

open Text

instance prime_97 : Fact (Nat.Prime 97) := ⟨by norm_num⟩

def Akin (c d : Char) : Prop :=
  (c.isAlpha = true ∧ d.isAlpha = true) ∨ (c.isDigit = true ∧ d.isDigit = true)

/-- One slip leads from the first text to the second. Letters are different if their capitals are. -/
inductive Slip : List Char → List Char → Prop
  | replaced (before after : List Char) {c d : Char} (hakin : Akin c d) (hne : c.toUpper ≠ d.toUpper) :
    Slip (before ++ c :: after) (before ++ d :: after)
  | exchanged (before after : List Char) {c d : Char} (hakin : Akin c d) (hne : c.toUpper ≠ d.toUpper) :
    Slip (before ++ c :: d :: after) (before ++ d :: c :: after)

section Places

def places (cs : List Char) : Nat := (cs.flatMap decimal).length

theorem number_append (xs ys : List Char) :
    number (xs ++ ys) = 10 ^ places ys * number xs + number ys := by
  rw [number, List.flatMap_append, Nat.ofDigitChars_append, Nat.ofDigitChars_eq_ofDigitChars_zero]
  rfl

theorem places_append (xs ys : List Char) : places (xs ++ ys) = places xs + places ys := by
  simp [places]

theorem number_cons (c : Char) (cs : List Char) :
    number (c :: cs) = 10 ^ places cs * number [c] + number cs := number_append [c] cs

theorem places_cons (c : Char) (cs : List Char) : places (c :: cs) = places [c] + places cs :=
  places_append [c] cs

theorem single_of_isDigit {c : Char} (h : c.isDigit = true) :
    places [c] = 1 ∧ number [c] = c.toNat - 48 := by
  have hform : decimal c = [c] := if_pos h
  simp [places, number, hform, Nat.ofDigitChars_cons]

theorem single_of_isUpper {c : Char} (h : c.isUpper = true) :
    places [c] = 2 ∧ number [c] = c.toNat - 55 := by
  obtain ⟨hform, hleast, hlt, -⟩ := decimal_of_isUpper h
  simp [places, number, hform, length_toDigits hleast hlt]

theorem single_bounds {c : Char} (h : isPlain c = true) :
    0 < places [c] ∧ places [c] ≤ 2 ∧ number [c] < 97 := by
  simp only [isPlain, Bool.or_eq_true] at h
  rcases h with h | h
  · have hrange := isUpper_iff.mp h
    have hsingle := single_of_isUpper h
    omega
  · have hrange := isDigit_iff.mp h
    have hsingle := single_of_isDigit h
    omega

theorem places_le {cs : List Char} (h : ∀ c ∈ cs, isPlain c = true) : places cs ≤ 2 * cs.length := by
  induction cs with
  | nil => simp [places]
  | cons c cs ih =>
    obtain ⟨hc, hcs⟩ := List.forall_mem_cons.mp h
    have hfirst := single_bounds hc
    have hrest := ih hcs
    rw [places_cons, List.length_cons]
    omega

theorem Akin.single {c d : Char} (h : Akin c d) (hc : isPlain c = true) (hd : isPlain d = true) :
    places [c] = places [d] ∧ (number [c] = number [d] → c = d) := by
  simp only [isPlain, Bool.or_eq_true] at hc hd
  simp only [Akin, isAlpha_iff, isUpper_iff, isLower_iff, isDigit_iff] at h
  rcases hc with hc | hc <;> rcases hd with hd | hd
  · have hsingle := single_of_isUpper hc
    have hsingle' := single_of_isUpper hd
    rw [isUpper_iff] at hc hd
    exact ⟨by omega, fun heq => Char.toNat_inj.mp (by omega)⟩
  · rw [isUpper_iff] at hc
    rw [isDigit_iff] at hd
    omega
  · rw [isUpper_iff] at hd
    rw [isDigit_iff] at hc
    omega
  · have hsingle := single_of_isDigit hc
    have hsingle' := single_of_isDigit hd
    rw [isDigit_iff] at hc hd
    exact ⟨by omega, fun heq => Char.toNat_inj.mp (by omega)⟩

end Places

section Residues

theorem eq_of_cast_eq {m n : Nat} (hm : m < 97) (hn : n < 97) (h : (m : ZMod 97) = n) : m = n := by
  rw [ZMod.natCast_eq_natCast_iff'] at h
  omega

theorem ten_pow_ne_zero (k : Nat) : (10 : ZMod 97) ^ k ≠ 0 := pow_ne_zero k (by decide)

/-- Ten is a primitive root: its powers begin again with the 96th. -/
theorem ten_pow_ne_one {k : Nat} (hpos : 0 < k) (hlt : k < 96) : (10 : ZMod 97) ^ k - 1 ≠ 0 := by
  have hpowers : ∀ k < 96, 0 < k → 10 ^ k % 97 ≠ 1 := by decide +kernel
  intro h
  have hone : ((10 ^ k : Nat) : ZMod 97) = (1 : Nat) := by
    push_cast
    exact sub_eq_zero.mp h
  rw [ZMod.natCast_eq_natCast_iff'] at hone
  exact hpowers k hlt hpos hone

theorem eq_of_mul_eq {m n : Nat} (hm : m < 97) (hn : n < 97) {u : ZMod 97} (hu : u ≠ 0)
    (h : ((m : ZMod 97) - n) * u = 0) : m = n := by
  rcases mul_eq_zero.mp h with hzero | hzero
  · exact eq_of_cast_eq hm hn (sub_eq_zero.mp hzero)
  · exact absurd hzero hu

variable {c d : Char} (hc : isPlain c = true) (hd : isPlain d = true) (hakin : Akin c d)

include hc hd hakin

theorem eq_of_replaced (front back : List Char)
    (h : (number (front ++ c :: back) : ZMod 97) = number (front ++ d :: back)) : c = d := by
  obtain ⟨hplaces, hsame⟩ := hakin.single hc hd
  obtain ⟨-, -, hlt⟩ := single_bounds hc
  obtain ⟨-, -, hlt'⟩ := single_bounds hd
  rw [number_append, number_append, number_cons c, number_cons d, places_cons c, places_cons d, hplaces] at h
  push_cast at h
  refine hsame (eq_of_mul_eq hlt hlt' (ten_pow_ne_zero (places back)) ?_)
  linear_combination h

theorem eq_of_exchanged (front back : List Char)
    (h : (number (front ++ c :: d :: back) : ZMod 97) = number (front ++ d :: c :: back)) : c = d := by
  obtain ⟨hplaces, hsame⟩ := hakin.single hc hd
  obtain ⟨-, -, hlt⟩ := single_bounds hc
  obtain ⟨hpos, hle, hlt'⟩ := single_bounds hd
  have hunit : (10 : ZMod 97) ^ places back * (10 ^ places [d] - 1) ≠ 0 :=
    mul_ne_zero (ten_pow_ne_zero _) (ten_pow_ne_one hpos (by omega))
  rw [number_append, number_append, number_cons c (d :: back), number_cons d back, number_cons d (c :: back),
    number_cons c back, places_cons c (d :: back), places_cons d (c :: back), places_cons d back,
    places_cons c back, hplaces] at h
  push_cast at h
  refine hsame (eq_of_mul_eq hlt hlt' hunit ?_)
  linear_combination h

/-- At the two ends of a number their weights differ too, as long as fewer than 96 places lie between them. -/
theorem eq_of_ends_exchanged (middle : List Char) (hmiddle : places middle < 94)
    (h : (number (c :: (middle ++ [d])) : ZMod 97) = number (d :: (middle ++ [c]))) : c = d := by
  obtain ⟨hplaces, hsame⟩ := hakin.single hc hd
  obtain ⟨-, -, hlt⟩ := single_bounds hc
  obtain ⟨hpos, hle, hlt'⟩ := single_bounds hd
  have hunit : (10 : ZMod 97) ^ (places middle + places [d]) - 1 ≠ 0 := ten_pow_ne_one (by omega) (by omega)
  rw [number_cons c (middle ++ [d]), number_cons d (middle ++ [c]), places_append, places_append,
    number_append, number_append, hplaces] at h
  push_cast at h
  refine hsame (eq_of_mul_eq hlt hlt' hunit ?_)
  linear_combination h

end Residues

section Rotation

theorem rotated_infix {n : Nat} (before after : List Char) (h : 4 ≤ before.length ∨ before.length + n ≤ 4) :
    ∃ front back, ∀ part : List Char, part.length = n →
      rotated (before ++ (part ++ after)) = front ++ (part ++ back) := by
  rcases h with h | h
  · refine ⟨before.drop 4, after ++ before.take 4, fun part _ => ?_⟩
    simp [rotated, List.drop_append_of_le_length h, List.take_append_of_le_length h]
  · refine ⟨after.drop (4 - before.length - n) ++ before, after.take (4 - before.length - n), fun part hpart => ?_⟩
    have hbefore : before.drop 4 = [] ∧ before.take 4 = before :=
      ⟨List.drop_eq_nil_of_le (by omega), List.take_of_length_le (by omega)⟩
    have hpart' : part.drop (4 - before.length) = [] ∧ part.take (4 - before.length) = part :=
      ⟨List.drop_eq_nil_of_le (by omega), List.take_of_length_le (by omega)⟩
    simp [rotated, List.drop_append, List.take_append, hpart, hbefore, hpart']

theorem rotated_seam {before after : List Char} (h : before.length = 3) (c d : Char) :
    rotated (before ++ c :: d :: after) = d :: (after ++ before ++ [c]) := by
  have hbefore : before.drop 4 = [] ∧ before.take 4 = before :=
    ⟨List.drop_eq_nil_of_le (by omega), List.take_of_length_le (by omega)⟩
  simp [rotated, List.drop_append, List.take_append, h, hbefore]

end Rotation

section Slips

variable {cs ds : List Char}

theorem isAlphanum_of_isPlain {c : Char} (h : isPlain c = true) : c.isAlphanum = true := by
  simp only [isPlain, Bool.or_eq_true] at h
  exact isAlphanum_iff.mpr (h.imp_left .inl)

theorem toUpper_of_isPlain {c : Char} (h : isPlain c = true) : c.toUpper = c := by
  simp only [isPlain, Bool.or_eq_true, isUpper_iff, isDigit_iff] at h
  exact toUpper_of_not_isLower (by rw [isLower_iff]; omega)

theorem map_toUpper_of_isPlain (h : ∀ c ∈ cs, isPlain c = true) : cs.map Char.toUpper = cs := by
  rw [List.map_congr_left fun c hc => toUpper_of_isPlain (h c hc), List.map_id']

theorem compact_ofList (h : ∀ c ∈ cs, c.isAlphanum = true) :
    compact (String.ofList cs) = cs.map Char.toUpper := by
  have hfilter : cs.filter (fun c => !isBlank c) = cs :=
    List.filter_eq_self.mpr fun c hc => by simp [isBlank_of_isAlphanum (h c hc)]
  rw [compact, String.toList_ofList, hfilter]

theorem Akin.isAlphanum {c d : Char} (h : Akin c d) : d.isAlphanum = true := by
  rw [isAlphanum_iff, ← isAlpha_iff]
  exact h.imp And.right And.right

theorem Akin.toUpper {c d : Char} (h : Akin c d) : Akin c d.toUpper := by
  have hletter : d.isAlpha = true → d.toUpper.isAlpha = true := fun hd =>
    isAlpha_iff.mpr (.inl (isUpper_toUpper_iff.mpr hd))
  have hdigit : d.isDigit = true → d.toUpper = d := fun hd => by
    rw [isDigit_iff] at hd
    exact toUpper_of_not_isLower (by rw [isLower_iff]; omega)
  rcases h with ⟨hc, hd⟩ | ⟨hc, hd⟩
  · exact .inl ⟨hc, hletter hd⟩
  · exact .inr ⟨hc, by rwa [hdigit hd]⟩

theorem Slip.isAlphanum (h : Slip cs ds) (hcs : ∀ c ∈ cs, isPlain c = true) :
    ∀ d ∈ ds, d.isAlphanum = true := by
  have hall : ∀ c ∈ cs, c.isAlphanum = true := fun c hc => isAlphanum_of_isPlain (hcs c hc)
  intro x hx
  cases h with
  | @replaced before after c d hakin hne =>
    rcases List.mem_append.mp hx with hx | hx
    · exact hall x (List.mem_append_left _ hx)
    · rcases List.mem_cons.mp hx with rfl | hx
      · exact hakin.isAlphanum
      · exact hall x (List.mem_append_right _ (List.mem_cons_of_mem c hx))
  | @exchanged before after c d hakin hne =>
    have hperm := (List.Perm.swap c d after).append_left before
    exact hall x (hperm.mem_iff.mp hx)

theorem Slip.map_toUpper (h : Slip cs ds) (hcs : ∀ c ∈ cs, isPlain c = true) :
    Slip cs (ds.map Char.toUpper) := by
  cases h with
  | @replaced before after c d hakin hne =>
    have hbefore := map_toUpper_of_isPlain fun x hx => hcs x (List.mem_append_left _ hx)
    have hafter := map_toUpper_of_isPlain fun x hx => hcs x (List.mem_append_right _ (List.mem_cons_of_mem c hx))
    have hupper : d.toUpper.toUpper = d.toUpper := toUpper_of_not_isLower (not_isLower_toUpper d)
    rw [List.map_append, List.map_cons, hbefore, hafter]
    exact .replaced before after hakin.toUpper (by rwa [hupper])
  | @exchanged before after c d hakin hne =>
    have hperm := (List.Perm.swap c d after).append_left before
    rw [map_toUpper_of_isPlain fun x hx => hcs x (hperm.mem_iff.mp hx)]
    exact .exchanged before after hakin hne

theorem Slip.ne_nil (h : Slip cs ds) : ds ≠ [] := by
  cases h <;> simp

/-- A slip among capitals and digits changes the remainder. -/
theorem Slip.number_ne (h : Slip cs ds) (hcs : ∀ c ∈ cs, isPlain c = true)
    (hds : ∀ d ∈ ds, isPlain d = true) (hlength : cs.length ≤ 34) :
    ¬ number (rotated cs) ≡ number (rotated ds) [MOD 97] := by
  rw [← ZMod.natCast_eq_natCast_iff]
  intro hsame
  cases h with
  | @replaced before after c d hakin hne =>
    have hc : isPlain c = true := hcs c (by simp)
    have hd : isPlain d = true := hds d (by simp)
    obtain ⟨front, back, hplace⟩ := rotated_infix (n := 1) before after (by omega)
    have hfirst : rotated (before ++ c :: after) = front ++ c :: back := hplace [c] rfl
    have hsecond : rotated (before ++ d :: after) = front ++ d :: back := hplace [d] rfl
    rw [hfirst, hsecond] at hsame
    exact hne (congrArg Char.toUpper (eq_of_replaced hc hd hakin front back hsame))
  | @exchanged before after c d hakin hne =>
    have hc : isPlain c = true := hcs c (by simp)
    have hd : isPlain d = true := hds d (by simp)
    -- A pair across the end of the first four characters stands at the two ends of what is read.
    by_cases hseam : before.length = 3
    · have hmiddle := places_le fun x (hx : x ∈ after ++ before) => hcs x (by
        rcases List.mem_append.mp hx with hx | hx <;> simp [hx])
      rw [rotated_seam hseam, rotated_seam hseam] at hsame
      simp only [List.length_append, List.length_cons] at hmiddle hlength
      exact hne (congrArg Char.toUpper (eq_of_ends_exchanged hc hd hakin _ (by omega) hsame.symm))
    · obtain ⟨front, back, hplace⟩ := rotated_infix (n := 2) before after (by omega)
      have hfirst : rotated (before ++ c :: d :: after) = front ++ c :: d :: back := hplace [c, d] rfl
      have hsecond : rotated (before ++ d :: c :: after) = front ++ d :: c :: back := hplace [d, c] rfl
      rw [hfirst, hsecond] at hsame
      exact hne (congrArg Char.toUpper (eq_of_exchanged hc hd hakin front back hsame))

theorem isIban_of_slip {text : String} (hiban : isIban text = true) (hslip : Slip (compact text) ds) :
    isIban (String.ofList ds) = false := by
  have hvalid := (isIban_iff text).mp hiban
  obtain ⟨-, hlength, hchars, -⟩ := id hvalid
  have hplain : ∀ c ∈ compact text, isPlain c = true := fun c hc => isPlain_of_mem_compact hc (hchars c hc)
  have hall := hslip.isAlphanum hplain
  rw [Bool.eq_false_iff]
  intro hother
  have hvalid' := (isIban_iff _).mp hother
  have hplain' : ∀ d ∈ ds.map Char.toUpper, isPlain d = true := by
    rw [← compact_ofList hall]
    exact fun d hd => isPlain_of_mem_compact hd (hvalid'.2.2.1 d hd)
  rw [compact_ofList hall] at hvalid'
  exact (hslip.map_toUpper hplain).number_ne hplain hplain' hlength
    (hvalid.number_rotated.trans hvalid'.number_rotated.symm)

end Slips

end Formwork.Iban

namespace Formwork.Check

open Iban

/-- A text that passes fails with any one slip in its compact form, also one across the end of the first four
characters. -/
theorem iban_fails_of_slip {text : String} {cs : List Char} (hvalue : text ≠ "")
    (hpasses : iban.failure? (.string text) = none) (hslip : Slip (compact text) cs) :
    iban.failure? (.string (String.ofList cs)) = some (.bool true) := by
  have hempty : isEmpty (.string text) = false := decide_eq_false hvalue
  rw [failure?_iban_eq_none_iff, hempty] at hpasses
  have hiban : isIban text = true := hpasses.resolve_left (by decide)
  have hfails := isIban_of_slip hiban hslip
  have hne : isEmpty (.string (String.ofList cs)) = false :=
    decide_eq_false fun h => hslip.ne_nil (String.ofList_eq_empty_iff.mp h)
  have hloose : (Json.string (String.ofList cs)).looseText = String.ofList cs := rfl
  rw [failure?_iban, hne, hloose, hfails]
  rfl

theorem iban_fails_of_exchanged_front : iban.failure? (.string "de89 3704 0044 0532 0130 00") = none ∧
    Slip (compact "de89 3704 0044 0532 0130 00") "DE83970400440532013000".toList ∧
    iban.failure? (.string "DE83970400440532013000") = some (.bool true) := by
  have hpasses : iban.failure? (.string "de89 3704 0044 0532 0130 00") = none := by decide +kernel
  have hcompact : compact "de89 3704 0044 0532 0130 00" =
      "DE8".toList ++ '9' :: '3' :: "70400440532013000".toList := by decide +kernel
  have htext : "DE83970400440532013000".toList =
      "DE8".toList ++ '3' :: '9' :: "70400440532013000".toList := by decide +kernel
  have hslip : Slip (compact "de89 3704 0044 0532 0130 00") "DE83970400440532013000".toList := by
    rw [hcompact, htext]
    exact .exchanged _ _ (.inr ⟨by decide, by decide⟩) (by decide)
  have hfails := iban_fails_of_slip (by decide) hpasses hslip
  rw [String.ofList_toList] at hfails
  exact ⟨hpasses, hslip, hfails⟩

end Formwork.Check
