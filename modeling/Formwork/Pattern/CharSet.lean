import Formwork.Text.Blank
import Formwork.Text.Case
import Formwork.Text.Word

/-! Sets of characters as a pattern describes them. -/

namespace Formwork

open Text

inductive CharSet where
  | ranges (rs : Ranges)
  | union (a b : CharSet)
  | inter (a b : CharSet)
  | compl (a : CharSet)
  /-- All characters that differ from a member in case alone. -/
  | anyCase (a : CharSet)
deriving DecidableEq

namespace CharSet

def contains : CharSet → Char → Bool
  | ranges rs, c => rs.contains c
  | union a b, c => a.contains c || b.contains c
  | inter a b, c => a.contains c && b.contains c
  | compl a, c => !a.contains c
  | anyCase a, c => (caseVariants c).any a.contains

def single (c : Char) : CharSet := ranges [(c.toNat, c.toNat)]

def none : CharSet := ranges []

def all : CharSet := compl none

def diff (a b : CharSet) : CharSet := inter a (compl b)

def symmDiff (a b : CharSet) : CharSet := union (diff a b) (diff b a)

def anyCaseIf (caseless : Bool) (a : CharSet) : CharSet := if caseless then anyCase a else a

def complIf (negated : Bool) (a : CharSet) : CharSet := if negated then compl a else a

def weight : CharSet → Nat
  | ranges rs => max 1 rs.length
  | union a b => a.weight + b.weight
  | inter a b => a.weight + b.weight
  | compl a => a.weight
  | anyCase a => 2 * a.weight

def digits : CharSet := ranges decimalDigits

def blanks : CharSet := ranges Text.blanks

def words : CharSet := ranges wordCharacters

def named? : String → Option CharSet
  | "alnum" => ranges [(0x30, 0x39), (0x41, 0x5A), (0x61, 0x7A)]
  | "alpha" => ranges [(0x41, 0x5A), (0x61, 0x7A)]
  | "ascii" => ranges [(0x00, 0x7F)]
  | "blank" => ranges [(0x09, 0x09), (0x20, 0x20)]
  | "cntrl" => ranges [(0x00, 0x1F), (0x7F, 0x7F)]
  | "digit" => ranges [(0x30, 0x39)]
  | "graph" => ranges [(0x21, 0x7E)]
  | "lower" => ranges [(0x61, 0x7A)]
  | "print" => ranges [(0x20, 0x7E)]
  | "punct" => ranges [(0x21, 0x2F), (0x3A, 0x40), (0x5B, 0x60), (0x7B, 0x7E)]
  | "space" => ranges [(0x09, 0x0D), (0x20, 0x20)]
  | "upper" => ranges [(0x41, 0x5A)]
  | "word" => ranges [(0x30, 0x39), (0x41, 0x5A), (0x5F, 0x5F), (0x61, 0x7A)]
  | "xdigit" => ranges [(0x30, 0x39), (0x41, 0x46), (0x61, 0x66)]
  | _ => Option.none

theorem contains_single {c d : Char} : (single c).contains d = true ↔ d = c := by
  simp only [single, contains, Ranges.contains, List.any_cons, List.any_nil, Bool.or_false,
    Bool.and_eq_true, decide_eq_true_eq]
  constructor
  · intro h
    exact Char.toNat_inj.mp (Nat.le_antisymm h.2 h.1)
  · rintro rfl
    simp

end CharSet

end Formwork
