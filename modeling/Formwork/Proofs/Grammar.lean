import Formwork.Dialect

/-! What is known of how a dialect reads patterns: what signs at the ends of a pattern and a group around it make
of its alternatives, and which texts only such a sign can make a pattern. -/

namespace Formwork

/-- What a pattern says. Each alternative, in written order, matches some parts of a text, which are given by the
places of their ends. A dollar sign that is put behind the pattern holds at some places of a text: after a comment
that runs to the end of the pattern, at all of them. -/
structure Sense where
  alternatives : List (String → Nat → Nat → Prop)
  closing : String → Nat → Prop

namespace Sense

def Spans (a : Sense) (text : String) (k i j : Nat) : Prop :=
  ∃ p, a.alternatives[k]? = some p ∧ p text i j

def Whole (a : Sense) (text : String) : Prop := ∃ k, a.Spans text k 0 text.length

end Sense

def repeaters : List Char := ['*', '+', '?', '\x7b']

/-- A syntax of patterns and what they say, for a dialect that takes the patterns of this syntax, unless it refuses
one for its size. -/
structure Grammar [Dialect] where
  sense? : String → Option Sense
  accepted {s : String} {matcher : String → Bool} : Dialect.matcher? s = some matcher →
    ∃ a, sense? s = some a ∧ ∀ text, matcher text = true ↔ ∃ k i j, a.Spans text k i j
  caret {s : String} {a : Sense} : sense? s = some a → ∃ b, sense? ("^" ++ s) = some b ∧
    ∀ text k i j, b.Spans text k i j ↔ a.Spans text k i j ∧ (k = 0 → i = 0)
  dollar {s : String} {a : Sense} : sense? s = some a → ∃ b, sense? (s ++ "$") = some b ∧
    ∀ text k i j, b.Spans text k i j ↔
      a.Spans text k i j ∧ (k + 1 = a.alternatives.length → a.closing text j)
  closing_end {s : String} {a : Sense} : sense? s = some a → ∀ text, a.closing text text.length
  /-- Only what repeats the item before it can tell that a circumflex has been put before the text. -/
  of_caret {s : String} : (sense? ("^" ++ s)).isSome = true → sense? s = none →
    ∃ c ∈ s.toList.head?, c ∈ repeaters
  /-- Only a backslash can take a dollar sign that is put behind the text for a character. -/
  of_dollar {s : String} : (sense? (s ++ "$")).isSome = true → sense? s = none → s.toList.getLast? = some '\\'
  /-- A group has one alternative, and what is set in it ends with it. -/
  group {s : String} {a b : Sense} : sense? s = some a → sense? ("(?:" ++ s ++ ")") = some b →
    b.alternatives.length = 1 ∧ (∀ text i j, b.Spans text 0 i j ↔ ∃ k, a.Spans text k i j) ∧
      ∀ text j, b.closing text j ↔ j = text.length

namespace Grammar

variable [Dialect] (g : Grammar) {s : String}

theorem matcher?_eq_none (h : g.sense? s = none) : Dialect.matcher? s = none := by
  rw [Option.eq_none_iff_forall_ne_some]
  intro m hm
  obtain ⟨a, ha, -⟩ := g.accepted hm
  rw [h] at ha
  cases ha

end Grammar

end Formwork
