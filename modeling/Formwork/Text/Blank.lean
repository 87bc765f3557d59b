import Formwork.Text.Ranges

/-! White space by the Unicode property, and what remains of a text without it. -/

namespace Formwork.Text

/-- The characters with the property White_Space. -/
def blanks : Ranges :=
  [(0x09, 0x0D), (0x20, 0x20), (0x85, 0x85), (0xA0, 0xA0), (0x1680, 0x1680), (0x2000, 0x200A),
    (0x2028, 0x2029), (0x202F, 0x202F), (0x205F, 0x205F), (0x3000, 0x3000)]

def isBlank (c : Char) : Bool := blanks.contains c

def trimBy (p : Char → Bool) (cs : List Char) : List Char :=
  ((cs.dropWhile p).reverse.dropWhile p).reverse

theorem trimBy_append (p : Char → Bool) (cs more : List Char) :
    ∃ rest, trimBy p (cs ++ more) = trimBy p cs ++ rest := by
  by_cases hnil : cs.dropWhile p = []
  · exact ⟨trimBy p (cs ++ more), by simp [trimBy, hnil]⟩
  · have hfront : (cs ++ more).dropWhile p = cs.dropWhile p ++ more := by
      simp [List.dropWhile_append, hnil]
    have hback : cs.dropWhile p = trimBy p cs ++ ((cs.dropWhile p).reverse.takeWhile p).reverse := by
      rw [trimBy, ← List.reverse_append, List.takeWhile_append_dropWhile, List.reverse_reverse]
    by_cases hmore : more.reverse.dropWhile p = []
    · exact ⟨[], by simp [trimBy, hfront, List.dropWhile_append, hmore]⟩
    · have hall : trimBy p (cs ++ more) =
          cs.dropWhile p ++ (more.reverse.dropWhile p).reverse := by
        simp [trimBy, hfront, List.dropWhile_append, hmore]
      rw [hall, hback, List.append_assoc]
      exact ⟨_, rfl⟩

def trim (cs : List Char) : List Char := trimBy isBlank cs

def isBlankText (s : String) : Bool := s.toList.all isBlank

end Formwork.Text
