import Mathlib.Data.List.Basic

/-! The bytes of a text in UTF-8. -/

namespace Formwork.Text

theorem mem_toUTF8 {s : String} {b : UInt8} :
    b ∈ s.toUTF8.data ↔ ∃ c ∈ s.toList, b ∈ String.utf8EncodeChar c := by
  rw [String.toUTF8, ← String.utf8Encode_toList, List.utf8Encode, List.data_toByteArray]
  simp

theorem utf8EncodeChar_of_ascii {c : Char} (h : c.toNat ≤ 127) :
    String.utf8EncodeChar c = [UInt8.ofNat c.toNat] := by
  simp [String.utf8EncodeChar, h]

theorem le_of_mem_utf8EncodeChar {c : Char} (h : ¬ c.toNat ≤ 127) {b : UInt8}
    (hb : b ∈ String.utf8EncodeChar c) : 128 ≤ b.toNat := by
  have hlead (n m : Nat) (hm : 128 ≤ m) (hn : n + m < 256) : 128 ≤ (UInt8.ofNat (n + m)).toNat := by
    rw [UInt8.toNat_ofNat_of_lt' (by simpa using hn)]
    omega
  have hascii : ¬ c.val.toNat ≤ 127 := h
  unfold String.utf8EncodeChar at hb
  simp only [hascii, if_false] at hb
  split at hb
  · obtain rfl | rfl : b = _ ∨ b = _ := by simpa only [List.mem_cons, List.not_mem_nil, or_false] using hb
    all_goals exact hlead _ _ (by omega) (by omega)
  · split at hb
    · obtain rfl | rfl | rfl : b = _ ∨ b = _ ∨ b = _ := by
        simpa only [List.mem_cons, List.not_mem_nil, or_false] using hb
      all_goals exact hlead _ _ (by omega) (by omega)
    · obtain rfl | rfl | rfl | rfl : b = _ ∨ b = _ ∨ b = _ ∨ b = _ := by
        simpa only [List.mem_cons, List.not_mem_nil, or_false] using hb
      all_goals exact hlead _ _ (by omega) (by omega)

theorem toNat_ofNat_of_ascii {n : Nat} (h : n ≤ 127) : (UInt8.ofNat n).toNat = n := by
  rw [UInt8.toNat_ofNat', Nat.mod_eq_of_lt (by omega)]

end Formwork.Text
