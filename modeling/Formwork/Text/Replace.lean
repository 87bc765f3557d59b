/-! Putting a text in place of the first occurrence of another. -/

namespace Formwork.Text

def dropHead? : List Char → List Char → Option (List Char)
  | [], cs => some cs
  | _ :: _, [] => none
  | h :: hs, c :: cs => if h = c then dropHead? hs cs else none

def replaceFirst (needle replacement : List Char) : List Char → List Char
  | [] => if needle.isEmpty then replacement else []
  | c :: cs =>
    match dropHead? needle (c :: cs) with
    | some rest => replacement ++ rest
    | none => c :: replaceFirst needle replacement cs

/-- The needle stands at a place of the text, and at none before it. -/
structure FirstAt (needle cs : List Char) (place : Nat) : Prop where
  here : needle <+: cs.drop place
  earliest : ∀ i < place, ¬ needle <+: cs.drop i

theorem dropHead?_eq_some {head cs rest : List Char} :
    dropHead? head cs = some rest ↔ cs = head ++ rest := by
  induction head generalizing cs with
  | nil => simp [dropHead?, eq_comm]
  | cons h hs ih =>
    cases cs with
    | nil => simp [dropHead?]
    | cons c cs =>
      by_cases hc : h = c
      · simp [dropHead?, hc, ih]
      · simp [dropHead?, hc, Ne.symm hc]

theorem replaceFirst_of_firstAt {needle cs : List Char} {place : Nat} (hne : needle ≠ [])
    (h : FirstAt needle cs place) (replacement : List Char) :
    replaceFirst needle replacement cs =
      cs.take place ++ replacement ++ cs.drop (place + needle.length) := by
  induction cs generalizing place with
  | nil =>
    have hnil : needle = [] := by simpa using h.here
    exact absurd hnil hne
  | cons c cs ih =>
    cases place with
    | zero =>
      obtain ⟨rest, hrest⟩ := h.here
      have hdrop : dropHead? needle (c :: cs) = some rest := dropHead?_eq_some.mpr hrest.symm
      have hafter : (c :: cs).drop needle.length = rest := by
        rw [show c :: cs = needle ++ rest from hrest.symm, List.drop_left]
      simp [replaceFirst, hdrop, hafter]
    | succ place =>
      have hdrop : dropHead? needle (c :: cs) = none := by
        cases hd : dropHead? needle (c :: cs) with
        | none => rfl
        | some rest =>
          have hprefix : needle <+: c :: cs := ⟨rest, (dropHead?_eq_some.mp hd).symm⟩
          exact absurd hprefix (h.earliest 0 (Nat.succ_pos place))
      have hrest : FirstAt needle cs place :=
        ⟨h.here, fun i hi => h.earliest (i + 1) (Nat.succ_lt_succ hi)⟩
      simp [replaceFirst, hdrop, ih hrest, Nat.succ_add]

end Formwork.Text
