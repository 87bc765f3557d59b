import Mathlib.Order.Basic
import Formwork.Text.Blank
import Formwork.Text.Numeral

/-! Letters and digits of ASCII by their code points. -/

namespace Formwork.Text

variable {c : Char}

theorem between_iff (c lo hi : Char) : lo ≤ c ∧ c ≤ hi ↔ lo.toNat ≤ c.toNat ∧ c.toNat ≤ hi.toNat :=
  and_congr UInt32.le_iff_toNat_le UInt32.le_iff_toNat_le

theorem decide_between_iff (c lo hi : Char) :
    (decide (lo.val ≤ c.val) && decide (c.val ≤ hi.val)) = true ↔ lo.toNat ≤ c.toNat ∧ c.toNat ≤ hi.toNat := by
  rw [Bool.and_eq_true, decide_eq_true_eq, decide_eq_true_eq]
  exact between_iff c lo hi

theorem isUpper_iff : c.isUpper = true ↔ 65 ≤ c.toNat ∧ c.toNat ≤ 90 :=
  decide_eq_true_iff.trans (between_iff c 'A' 'Z')

theorem isLower_iff : c.isLower = true ↔ 97 ≤ c.toNat ∧ c.toNat ≤ 122 := decide_between_iff c 'a' 'z'

theorem isDigit_iff : c.isDigit = true ↔ 48 ≤ c.toNat ∧ c.toNat ≤ 57 := decide_between_iff c '0' '9'

theorem isAlpha_iff : c.isAlpha = true ↔ c.isUpper = true ∨ c.isLower = true :=
  iff_of_eq (Bool.or_eq_true c.isUpper c.isLower)

theorem isAlphanum_iff : c.isAlphanum = true ↔ (c.isUpper = true ∨ c.isLower = true) ∨ c.isDigit = true := by
  rw [Char.isAlphanum, Bool.or_eq_true, isAlpha_iff]

theorem isAlphanum_iff_toNat : c.isAlphanum = true ↔ (65 ≤ c.toNat ∧ c.toNat ≤ 90 ∨ 97 ≤ c.toNat ∧ c.toNat ≤ 122) ∨
    48 ≤ c.toNat ∧ c.toNat ≤ 57 := by
  rw [isAlphanum_iff, isUpper_iff, isLower_iff, isDigit_iff]

theorem toNat_toUpper (c : Char) :
    c.toUpper.toNat = if 97 ≤ c.toNat ∧ c.toNat ≤ 122 then c.toNat - 32 else c.toNat := by
  have hrange : 'a'.val ≤ c.val ∧ c.val ≤ 'z'.val ↔ 97 ≤ c.toNat ∧ c.toNat ≤ 122 := between_iff c 'a' 'z'
  unfold Char.toUpper
  split
  next h =>
    rw [if_pos (hrange.mp h)]
    obtain ⟨hfirst, hlast⟩ := hrange.mp h
    change (c.val + ('A'.val - 'a'.val)).toNat = c.val.toNat - 32
    have hval : c.val.toNat = c.toNat := rfl
    have hshift : ('A'.val - 'a'.val).toNat = 2 ^ 32 - 32 := rfl
    rw [UInt32.toNat_add, hval, hshift]
    omega
  next h => rw [if_neg fun hc => h (hrange.mpr hc)]

theorem not_isLower_toUpper (c : Char) : ¬ c.toUpper.isLower = true := by
  rw [isLower_iff, toNat_toUpper]
  split <;> omega

theorem isUpper_toUpper_iff : c.toUpper.isUpper = true ↔ c.isAlpha = true := by
  rw [isAlpha_iff, isUpper_iff, isUpper_iff, isLower_iff, toNat_toUpper]
  split <;> omega

theorem toUpper_of_not_isLower (h : ¬ c.isLower = true) : c.toUpper = c := by
  rw [isLower_iff] at h
  exact Char.toNat_inj.mp (by rw [toNat_toUpper, if_neg h])

theorem digitValue?_eq (c : Char) : digitValue? c =
    if 48 ≤ c.toNat ∧ c.toNat ≤ 57 then some (c.toNat - 48)
    else if 97 ≤ c.toNat ∧ c.toNat ≤ 122 then some (c.toNat - 87)
    else if 65 ≤ c.toNat ∧ c.toNat ≤ 90 then some (c.toNat - 55)
    else none := by
  simp only [digitValue?, between_iff]
  rfl

theorem isBlank_of_isAlphanum (h : c.isAlphanum = true) : isBlank c = false := by
  have hapart : ∀ r ∈ blanks, r.2 < 48 ∨ 122 < r.1 := by decide
  rw [isAlphanum_iff_toNat] at h
  rw [Bool.eq_false_iff]
  intro hblank
  obtain ⟨r, hr, hbounds⟩ := Ranges.contains_iff.mp hblank
  have := hapart r hr
  omega

end Formwork.Text
