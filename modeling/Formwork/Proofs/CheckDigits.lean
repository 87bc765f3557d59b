import Mathlib.Data.Nat.ModEq
import Formwork.Proofs.Letters
import Formwork.Proofs.Segments
import Formwork.Validation.Check

/-! The check digits of an account number. The remainder that is carried from character to character is that of
the whole number, in which a letter takes two decimal places, and no cut and no step on the way is out of
bounds. -/

namespace Formwork.Iban

open Text

section Number

def isPlain (c : Char) : Bool := c.isUpper || c.isDigit

def decimal (c : Char) : List Char := if c.isDigit then [c] else Nat.toDigits 10 (c.toNat - 'A'.toNat + 10)

/-- The number written in decimal by putting its decimal form in the place of each character. -/
def number (cs : List Char) : Nat := Nat.ofDigitChars 10 (cs.flatMap decimal) 0

def rotated (cs : List Char) : List Char := cs.drop 4 ++ cs.take 4

theorem mem_rotated {cs : List Char} {c : Char} : c ∈ rotated cs ↔ c ∈ cs := by
  rw [rotated, List.mem_append, or_comm, ← List.mem_append, List.take_append_drop]

theorem decimal_of_isUpper {c : Char} (h : c.isUpper = true) :
    decimal c = Nat.toDigits 10 (c.toNat - 55) ∧ 10 ≤ c.toNat - 55 ∧ c.toNat - 55 < 36 ∧
      digitValue? c = some (c.toNat - 55) := by
  obtain ⟨hfirst, hlast⟩ := isUpper_iff.mp h
  have hdigit : ¬ c.isDigit = true := by
    rw [isDigit_iff]
    omega
  have hsame : c.toNat - 'A'.toNat + 10 = c.toNat - 55 := by
    have : 'A'.toNat = 65 := rfl
    omega
  refine ⟨by rw [decimal, if_neg hdigit, hsame], by omega, by omega, ?_⟩
  rw [digitValue?_eq, if_neg (by omega), if_neg (by omega), if_pos ⟨hfirst, hlast⟩]

theorem length_toDigits {n : Nat} (hleast : 10 ≤ n) (hlt : n < 36) : (Nat.toDigits 10 n).length = 2 := by
  have htable : ∀ n < 36, 10 ≤ n → (Nat.toDigits 10 n).length = 2 := by decide
  exact htable n hlt hleast

theorem ofDigitChars_modEq {m n : Nat} (h : m ≡ n [MOD 97]) (ds : List Char) :
    Nat.ofDigitChars 10 ds m ≡ Nat.ofDigitChars 10 ds n [MOD 97] := by
  rw [@Nat.ofDigitChars_eq_ofDigitChars_zero ds m, @Nat.ofDigitChars_eq_ofDigitChars_zero ds n]
  exact (h.mul_left _).add_right _

theorem addPlace_eq {c : Char} (h : isPlain c = true) (r : Nat) :
    addPlace r c = Nat.ofDigitChars 10 (decimal c) r % 97 := by
  by_cases hdigit : c.isDigit = true
  · obtain ⟨hvalue, hlt⟩ := digitValue?_of_isDigit hdigit
    have hstep : ¬ 10 ≤ c.toNat - 48 := by omega
    simp [addPlace, decimal, hdigit, hvalue, hstep, Nat.ofDigitChars_cons, Nat.mul_comm]
  · obtain ⟨hform, hstep, hlt, hvalue⟩ := decimal_of_isUpper (by simpa [isPlain, hdigit] using h)
    rw [hform, Nat.ofDigitChars_eq_ofDigitChars_zero, Nat.ofDigitChars_ten_toDigits, length_toDigits hstep hlt]
    simp [addPlace, hvalue, hstep, Nat.mul_comm]

theorem foldl_addPlace_modEq {cs : List Char} (h : ∀ c ∈ cs, isPlain c = true) (r : Nat) :
    cs.foldl addPlace r ≡ Nat.ofDigitChars 10 (cs.flatMap decimal) r [MOD 97] := by
  induction cs generalizing r with
  | nil => exact Nat.ModEq.refl r
  | cons c cs ih =>
    obtain ⟨hc, hcs⟩ := List.forall_mem_cons.mp h
    rw [List.foldl_cons, List.flatMap_cons, Nat.ofDigitChars_append, addPlace_eq hc]
    exact (ih hcs _).trans (ofDigitChars_modEq (Nat.mod_modEq _ _) _)

theorem addPlace_lt (r : Nat) (c : Char) : addPlace r c < 97 := Nat.mod_lt _ (by decide)

theorem foldl_addPlace_lt {cs : List Char} {r : Nat} (h : r < 97) : cs.foldl addPlace r < 97 := by
  induction cs generalizing r with
  | nil => exact h
  | cons c cs ih => exact ih (addPlace_lt r c)

/-- What the check carries along is the remainder of the number itself. -/
theorem remainder_eq {cs : List Char} (h : ∀ c ∈ cs, isPlain c = true) :
    remainder cs = number (rotated cs) % 97 :=
  calc remainder cs = remainder cs % 97 := (Nat.mod_eq_of_lt (foldl_addPlace_lt (by decide))).symm
    _ = number (rotated cs) % 97 := foldl_addPlace_modEq (fun c hc => h c (mem_rotated.mp hc)) 0

example : number (rotated "DE89370400440532013000".toList) = 370400440532013000131489 := by decide +kernel

end Number

section Shape

def Valid (cs : List Char) : Prop :=
  15 ≤ cs.length ∧ cs.length ≤ 34 ∧ (∀ c ∈ cs, c.isAlphanum = true) ∧
    ∃ a b c d rest, cs = a :: b :: c :: d :: rest ∧
      (a.isAlpha = true ∧ b.isAlpha = true ∧ c.isDigit = true ∧ d.isDigit = true) ∧
      number (rest ++ [a, b, c, d]) ≡ 1 [MOD 97]

theorem isPlain_of_not_isLower {c : Char} (h : ¬ c.isLower = true) (hc : c.isAlphanum = true) :
    isPlain c = true := by
  simpa [isPlain, isAlphanum_iff, h] using hc

theorem isPlain_of_mem_compact {text : String} {c : Char} (h : c ∈ compact text)
    (hc : c.isAlphanum = true) : isPlain c = true := by
  obtain ⟨d, -, rfl⟩ := List.mem_map.mp h
  exact isPlain_of_not_isLower (not_isLower_toUpper d) hc

theorem isShaped_iff {cs : List Char} : isShaped cs = true ↔
    15 ≤ cs.length ∧ cs.length ≤ 34 ∧ (∀ c ∈ cs, c.isAlphanum = true) ∧
      (∀ c ∈ cs.take 2, c.isAlpha = true) ∧ ∀ c ∈ (cs.drop 2).take 2, c.isDigit = true := by
  simp only [isShaped, Bool.and_eq_true, decide_eq_true_eq, List.all_eq_true, and_assoc]
  rfl

theorem exists_front {cs : List Char} (h : 15 ≤ cs.length) :
    ∃ a b c d rest, cs = a :: b :: c :: d :: rest := by
  match cs, h with
  | a :: b :: c :: d :: rest, _ => exact ⟨a, b, c, d, rest, rfl⟩

theorem Valid.number_rotated {cs : List Char} (h : Valid cs) : number (rotated cs) ≡ 1 [MOD 97] := by
  obtain ⟨-, -, -, a, b, c, d, rest, rfl, -, hnumber⟩ := h
  exact hnumber

theorem isIban_iff (text : String) : isIban text = true ↔ Valid (compact text) := by
  have hplain (c : Char) : c ∈ compact text → c.isAlphanum = true → isPlain c = true := isPlain_of_mem_compact
  rw [isIban, Valid]
  generalize compact text = cs at *
  simp only [Bool.and_eq_true, isShaped_iff, beq_iff_eq, and_assoc]
  refine and_congr_right fun hleast => and_congr_right fun _ => and_congr_right fun hall => ?_
  obtain ⟨a, b, c, d, rest, rfl⟩ := exists_front hleast
  rw [remainder_eq fun c hc => hplain c hc (hall c hc)]
  constructor
  · rintro ⟨hcountry, hdigits, hcheck⟩
    obtain ⟨ha, hb⟩ : a.isAlpha = true ∧ b.isAlpha = true := by simpa using hcountry
    obtain ⟨hc, hd⟩ : c.isDigit = true ∧ d.isDigit = true := by simpa using hdigits
    exact ⟨a, b, c, d, rest, rfl, ha, hb, hc, hd, hcheck⟩
  · rintro ⟨_, _, _, _, _, ⟨⟩, ha, hb, hc, hd, hcheck⟩
    exact ⟨by simp [ha, hb], by simp [hc, hd], hcheck⟩

end Shape

section Machine

/-- What stops a check that is done by bytes and in words of 32 bits. -/
inductive Fault where
  | beyondEnd
  | withinCharacter
  | overflow

def cut : Nat → List Char → Except Fault (List Char × List Char)
  | 0, cs => .ok ([], cs)
  | _ + 1, [] => .error .beyondEnd
  | n + 1, c :: cs =>
    if c.utf8Size ≤ n + 1 then do
      let (front, back) ← cut (n + 1 - c.utf8Size) cs
      .ok (c :: front, back)
    else .error .withinCharacter

def word (n : Nat) : Except Fault UInt32 := if n < 2 ^ 32 then .ok (.ofNat n) else .error .overflow

/-- The remainder in words. There is none if a character is no digit of any base. -/
def wordRemainder? : UInt32 → List Char → Except Fault (Option UInt32)
  | r, [] => .ok (some r)
  | r, c :: cs =>
    match digitValue? c with
    | none => .ok none
    | some d => do
      let product ← word (r.toNat * if 10 ≤ d then 100 else 10)
      let sum ← word (product.toNat + d)
      wordRemainder? (sum % 97) cs

def examine (cs : List Char) : Except Fault Bool := do
  let country ← cut 2 cs
  let digits ← cut 2 country.2
  if country.1.all Char.isAlpha && digits.1.all Char.isDigit then
    let front ← cut 4 cs
    let remainder ← wordRemainder? 0 (front.2 ++ front.1)
    return remainder == some 1
  else return false

def byteSize (cs : List Char) : Nat := (cs.map Char.utf8Size).sum

def evaluate (text : String) : Except Fault Bool :=
  let cs := compact text
  if minLength ≤ byteSize cs && byteSize cs ≤ maxLength && cs.all Char.isAlphanum then examine cs
  else .ok false

theorem cut_eq {cs : List Char} (h : ∀ c ∈ cs, c.utf8Size = 1) {n : Nat} (hn : n ≤ cs.length) :
    cut n cs = .ok (cs.take n, cs.drop n) := by
  induction cs generalizing n with
  | nil =>
    obtain rfl : n = 0 := by simpa using hn
    rfl
  | cons c cs ih =>
    cases n with
    | zero => rfl
    | succ n =>
      obtain ⟨hc, hcs⟩ := List.forall_mem_cons.mp h
      have hrest := ih hcs (Nat.le_of_succ_le_succ hn)
      simp [cut, hc, hrest, bind, Except.bind]

theorem utf8Size_of_isAlphanum {c : Char} (h : c.isAlphanum = true) : c.utf8Size = 1 := by
  rw [isAlphanum_iff_toNat] at h
  have hlast : c.toNat ≤ 127 := by omega
  exact Char.utf8Size_eq_one_iff.mpr (UInt32.le_iff_toNat_le.mpr hlast)

theorem word_eq {n : Nat} (h : n < 2 ^ 32) : word n = .ok (.ofNat n) := if_pos h

theorem exists_digitValue? {c : Char} (h : isPlain c = true) : ∃ d < 36, digitValue? c = some d := by
  by_cases hdigit : c.isDigit = true
  · obtain ⟨hvalue, hlt⟩ := digitValue?_of_isDigit hdigit
    exact ⟨_, by omega, hvalue⟩
  · obtain ⟨-, -, hlt, hvalue⟩ := decimal_of_isUpper (by simpa [isPlain, hdigit] using h)
    exact ⟨_, hlt, hvalue⟩

theorem wordRemainder?_eq {cs : List Char} (h : ∀ c ∈ cs, isPlain c = true) {r : Nat} (hr : r < 97) :
    wordRemainder? (.ofNat r) cs = .ok (some (.ofNat (cs.foldl addPlace r))) := by
  induction cs generalizing r with
  | nil => rfl
  | cons c cs ih =>
    obtain ⟨hc, hcs⟩ := List.forall_mem_cons.mp h
    obtain ⟨d, hd, hvalue⟩ := exists_digitValue? hc
    let step := if 10 ≤ d then 100 else 10
    have hplace : addPlace r c = (r * step + d) % 97 := by simp [addPlace, hvalue, step]
    have hstep : step ≤ 100 := by
      simp only [step]
      split <;> omega
    have hproduct : r * step ≤ 96 * 100 := Nat.mul_le_mul (by omega) hstep
    have hword {n : Nat} (hn : n < 2 ^ 32) : (UInt32.ofNat n).toNat = n := UInt32.toNat_ofNat_of_lt' hn
    have hmod : UInt32.ofNat (r * step + d) % 97 = .ofNat (addPlace r c) := by
      apply UInt32.toNat_inj.mp
      rw [UInt32.toNat_mod, hword (by omega), hplace, hword (by omega)]
      rfl
    have hrest := ih hcs (addPlace_lt r c)
    have hfirst : word ((UInt32.ofNat r).toNat * step) = .ok (.ofNat (r * step)) := by
      rw [hword (by omega), word_eq (by omega)]
    have hsecond : word ((UInt32.ofNat (r * step)).toNat + d) = .ok (.ofNat (r * step + d)) := by
      rw [hword (by omega), word_eq (by omega)]
    rw [List.foldl_cons, ← hrest, ← hmod]
    simp only [wordRemainder?, hvalue, step] at *
    simp only [hfirst, hsecond, bind, Except.bind]

theorem examine_eq {cs : List Char} (hplain : ∀ c ∈ cs, isPlain c = true)
    (hsizes : ∀ c ∈ cs, c.utf8Size = 1) (hlength : 4 ≤ cs.length) :
    examine cs = .ok ((cs.take 2).all Char.isAlpha && ((cs.drop 2).take 2).all Char.isDigit &&
      remainder cs == 1) := by
  have hcountry := cut_eq hsizes (by omega : 2 ≤ cs.length)
  have hdigits : cut 2 (cs.drop 2) = .ok ((cs.drop 2).take 2, (cs.drop 2).drop 2) :=
    cut_eq (fun c hc => hsizes c (List.mem_of_mem_drop hc)) (by simp; omega)
  have hfront := cut_eq hsizes hlength
  have hremainder : wordRemainder? 0 (cs.drop 4 ++ cs.take 4) = .ok (some (.ofNat (remainder cs))) :=
    wordRemainder?_eq (fun c hc => hplain c (mem_rotated.mp hc)) (by decide : 0 < 97)
  have hone : (some (UInt32.ofNat (remainder cs)) == some 1) = (remainder cs == 1) := by
    have hlt : remainder cs < 97 := foldl_addPlace_lt (by decide)
    have hword : (UInt32.ofNat (remainder cs)).toNat = remainder cs :=
      UInt32.toNat_ofNat_of_lt' (Nat.lt_trans hlt (by decide))
    rw [Bool.eq_iff_iff, beq_iff_eq, beq_iff_eq, Option.some_inj, ← UInt32.toNat_inj, hword]
    rfl
  unfold examine
  simp only [hcountry, hdigits, hfront, hremainder, bind, Except.bind]
  cases (cs.take 2).all Char.isAlpha && ((cs.drop 2).take 2).all Char.isDigit with
  | false => rfl
  | true => exact congrArg Except.ok hone

theorem evaluate_eq (text : String) : evaluate text = .ok (isIban text) := by
  have hplain (c : Char) : c ∈ compact text → c.isAlphanum = true → isPlain c = true := isPlain_of_mem_compact
  simp only [evaluate, isIban, isShaped]
  generalize compact text = cs at *
  by_cases hall : cs.all Char.isAlphanum = true
  · have hchars : ∀ c ∈ cs, c.isAlphanum = true := List.all_eq_true.mp hall
    have hsizes : ∀ c ∈ cs, c.utf8Size = 1 := fun c hc => utf8Size_of_isAlphanum (hchars c hc)
    have hbytes : byteSize cs = cs.length := by
      rw [byteSize, List.map_congr_left hsizes, List.map_const', List.sum_replicate_nat, Nat.mul_one]
    rw [hbytes, hall, Bool.and_true]
    split
    next h =>
      have hleast : minLength ≤ cs.length := by simp_all
      have hlength : 4 ≤ cs.length := Nat.le_trans (by decide) hleast
      rw [examine_eq (fun c hc => hplain c hc (hchars c hc)) hsizes hlength, h, Bool.true_and]
    next h =>
      rw [Bool.eq_false_iff.mpr h]
      rfl
  · simp [hall]

end Machine

end Formwork.Iban

namespace Formwork.Check

open Iban

theorem failure?_iban (value : Json) : iban.failure? value =
    if isEmpty value = true then none else failIf (!isIban value.looseText) (.bool true) := rfl

theorem failure?_iban_eq_none_iff {value : Json} :
    iban.failure? value = none ↔ isEmpty value = true ∨ isIban value.looseText = true := by
  rw [failure?_iban, failIf_unless_empty_eq_none_iff]

/-- A text passes if it is empty or, once it is compact, has the shape of an account number whose decimal form
leaves the remainder one. Done by bytes and in words, the check never stops and says the same. -/
theorem iban_passes_iff (text : String) :
    (iban.failure? (.string text) = none ↔ text = "" ∨ Valid (compact text)) ∧
      evaluate text = .ok (isIban text) := by
  refine ⟨?_, evaluate_eq text⟩
  have hempty : isEmpty (.string text) = true ↔ text = "" := decide_eq_true_iff
  rw [failure?_iban_eq_none_iff, hempty, ← isIban_iff]
  rfl

end Formwork.Check
