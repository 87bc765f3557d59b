import Formwork.Proofs.Address

/-! The segments of the paths that a parent hands to its children. A key without a point adds one
segment, and so does an index. -/

namespace Formwork

namespace Text

theorem digitValue?_of_isDigit {c : Char} (h : c.isDigit = true) :
    digitValue? c = some (c.toNat - 48) ∧ c.toNat - 48 < 10 := by
  simp only [Char.isDigit, Bool.and_eq_true, decide_eq_true_eq] at h
  have hrange : '0' ≤ c ∧ c ≤ '9' := h
  have hlast : c.toNat ≤ 57 := UInt32.le_iff_toNat_le.mp hrange.2
  exact ⟨if_pos hrange, by omega⟩

theorem readDigits?_eq {cs : List Char} (h : ∀ c ∈ cs, c.isDigit = true) (n : Nat) :
    readDigits? 10 n cs = some (Nat.ofDigitChars 10 cs n) := by
  induction cs generalizing n with
  | nil => simp [readDigits?]
  | cons c cs ih =>
    obtain ⟨hd, hlt⟩ := digitValue?_of_isDigit (h c List.mem_cons_self)
    simp only [readDigits?, hd, if_pos hlt, Nat.ofDigitChars_cons]
    exact ih (fun d hm => h d (List.mem_cons_of_mem _ hm)) _

theorem isDigit_of_mem_natText {n : Nat} {c : Char} (h : c ∈ (natText n).toList) :
    c.isDigit = true := by
  rw [natText, String.toList_ofList] at h
  exact Nat.isDigit_of_mem_toDigits (by decide) (by decide) h

theorem natText_ne_empty (n : Nat) : natText n ≠ "" := by
  intro h
  have hnil : Nat.toDigits 10 n = [] := by
    rw [← String.toList_ofList (l := Nat.toDigits 10 n)]
    exact congrArg String.toList h
  exact Nat.toDigits_ne_nil hnil

theorem point_notMem_natText (n : Nat) : '.' ∉ (natText n).toList := by
  intro h
  exact absurd (isDigit_of_mem_natText h) (by decide)

theorem readCount?_natText (n : Nat) : readCount? (natText n).toList = some n := by
  have hne : (natText n).toList ≠ [] := fun h => natText_ne_empty n (String.toList_eq_nil_iff.mp h)
  have hread : readNat? 10 (natText n).toList = some n := by
    have hempty : (natText n).toList.isEmpty = false := by simpa using hne
    rw [readNat?, hempty, if_neg (by decide), readDigits?_eq fun c => isDigit_of_mem_natText]
    simp [natText]
  unfold readCount?
  split
  · next rest h =>
    have hplus : '+' ∈ (natText n).toList := by rw [h]; exact List.mem_cons_self
    exact absurd (isDigit_of_mem_natText hplus) (by decide)
  · exact hread

end Text

namespace Node.Branch

def text : Branch → String
  | key k => k
  | index i => Text.natText i

def Plain : Branch → Prop
  | key k => k ≠ "" ∧ '.' ∉ k.toList
  | index _ => True

end Node.Branch

namespace ControlPath

open Node (Branch)

def child (p : ControlPath) : Branch → ControlPath
  | .key k => p.childKey k
  | .index i => p.childIndex i

theorem segments_root : root.segments = [] := rfl

theorem segments_of_ne_root {p : ControlPath} (h : p ≠ root) :
    p.segments = (Text.pieces '.' p.text.toList).map String.ofList := by
  obtain ⟨text⟩ := p
  have ht : text ≠ "" := fun he => h (by rw [he]; rfl)
  simp [segments, isRoot, ht]

theorem segments_joined {p : ControlPath} (h : p ≠ root) (s : String) :
    (ControlPath.mk (p.text ++ "." ++ s)).segments =
      p.segments ++ (Text.pieces '.' s.toList).map String.ofList := by
  have hne : ControlPath.mk (p.text ++ "." ++ s) ≠ root := by
    intro he
    have := congrArg (fun q => q.text.toList.length) he
    simp [root] at this
  rw [segments_of_ne_root hne, segments_of_ne_root h]
  simp [Text.pieces_append_cons]

theorem segments_childKey (p : ControlPath) {k : String} (hk : k ≠ "") :
    (p.childKey k).segments = p.segments ++ (Text.pieces '.' k.toList).map String.ofList := by
  by_cases h : p = root
  · subst h
    have hne : ControlPath.mk k ≠ root := fun he => hk (congrArg text he)
    rw [segments_root, List.nil_append]
    exact segments_of_ne_root hne
  · have hroot : p.isRoot = false := by
      obtain ⟨text⟩ := p
      simpa [isRoot, root] using h
    rw [childKey, hroot]
    exact segments_joined h k

theorem segments_childIndex {p : ControlPath} (h : p ≠ root) (i : Nat) :
    (p.childIndex i).segments = p.segments ++ [Text.natText i] := by
  rw [childIndex, segments_joined h, Text.pieces_of_notMem (Text.point_notMem_natText i)]
  simp

/-- An array is never at the root, so that an index always follows other segments. -/
theorem segments_child {p : ControlPath} {b : Branch} (hb : b.Plain)
    (hp : p = root → ∃ k, b = .key k) : (p.child b).segments = p.segments ++ [b.text] := by
  cases b with
  | key k =>
    rw [child, segments_childKey p hb.1, Text.pieces_of_notMem hb.2]
    simp [Branch.text]
  | index i =>
    refine segments_childIndex (fun h => ?_) i
    obtain ⟨k, hk⟩ := hp h
    cases hk

theorem child_ne_root {p : ControlPath} {b : Branch} (hb : b.Plain)
    (hp : p = root → ∃ k, b = .key k) : p.child b ≠ root := by
  intro h
  have := congrArg (fun q => q.segments.length) h
  simp [segments_child hb hp, segments_root] at this

theorem length_segments_childKey {p : ControlPath} {k : String} (hk : k ≠ "")
    (hpoint : '.' ∈ k.toList) : p.segments.length + 1 < (p.childKey k).segments.length := by
  obtain ⟨cs, ds, he⟩ := List.append_of_mem hpoint
  have hc := List.length_pos_iff.mpr (Text.pieces_ne_nil '.' cs)
  have hd := List.length_pos_iff.mpr (Text.pieces_ne_nil '.' ds)
  rw [segments_childKey p hk, he, Text.pieces_append_cons]
  simp only [List.length_append, List.length_map]
  omega

end ControlPath

end Formwork
