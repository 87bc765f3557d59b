/-! Cutting a text at a separator and joining the pieces again. -/

namespace Formwork.Text

/-- The pieces between separators: one more than there are separators, so never none. -/
def pieces (sep : Char) : List Char → List (List Char)
  | [] => [[]]
  | c :: cs =>
    if c = sep then [] :: pieces sep cs
    else
      match pieces sep cs with
      | [] => [[c]]
      | p :: ps => (c :: p) :: ps

def joined (sep : Char) : List (List Char) → List Char
  | [] => []
  | [p] => p
  | p :: q :: ps => p ++ sep :: joined sep (q :: ps)

theorem pieces_ne_nil (sep : Char) (cs : List Char) : pieces sep cs ≠ [] := by
  cases cs with
  | nil => simp [pieces]
  | cons c cs =>
    unfold pieces
    split
    · simp
    · split <;> simp

theorem joined_pieces (sep : Char) (cs : List Char) : joined sep (pieces sep cs) = cs := by
  induction cs with
  | nil => rfl
  | cons c cs ih =>
    unfold pieces
    have hne := pieces_ne_nil sep cs
    split
    · next h =>
      subst h
      cases hp : pieces c cs with
      | nil => exact absurd hp hne
      | cons p ps => simpa [joined, hp] using ih
    · cases hp : pieces sep cs with
      | nil => exact absurd hp hne
      | cons p ps =>
        rw [hp] at ih
        cases ps <;> simpa [joined] using ih

theorem mem_joined {sep c : Char} {ps : List (List Char)} (h : c ∈ joined sep ps) :
    c = sep ∨ ∃ p ∈ ps, c ∈ p := by
  induction ps with
  | nil => simp [joined] at h
  | cons p ps ih =>
    cases ps with
    | nil => exact .inr ⟨p, by simp, h⟩
    | cons q qs =>
      simp only [joined, List.mem_append, List.mem_cons] at h
      obtain h | h | h := h
      · exact .inr ⟨p, by simp, h⟩
      · exact .inl h
      · obtain h | ⟨r, hr, hc⟩ := ih h
        · exact .inl h
        · exact .inr ⟨r, List.mem_cons_of_mem _ hr, hc⟩

theorem mem_joined_of_mem {sep c : Char} {p : List Char} {ps : List (List Char)} (hp : p ∈ ps)
    (hc : c ∈ p) : c ∈ joined sep ps := by
  induction ps with
  | nil => simp at hp
  | cons q qs ih =>
    cases qs with
    | nil =>
      have hpq : p = q := by simpa using hp
      exact hpq ▸ hc
    | cons r rs =>
      obtain rfl | hp := List.mem_cons.mp hp
      · simp [joined, hc]
      · simp [joined, ih hp]

theorem notMem_of_mem_pieces {sep : Char} {cs p : List Char} (h : p ∈ pieces sep cs) :
    sep ∉ p := by
  induction cs generalizing p with
  | nil =>
    have : p = [] := by simpa [pieces] using h
    simp [this]
  | cons c cs ih =>
    unfold pieces at h
    have hne := pieces_ne_nil sep cs
    split at h
    · rcases List.mem_cons.mp h with rfl | h
      · simp
      · exact ih h
    · next hc =>
      cases hp : pieces sep cs with
      | nil => exact absurd hp hne
      | cons q qs =>
        rw [hp] at h ih
        rcases List.mem_cons.mp h with rfl | h
        · have := ih List.mem_cons_self
          simp [this, Ne.symm hc]
        · exact ih (List.mem_cons_of_mem _ h)

theorem pieces_of_notMem {sep : Char} {cs : List Char} (h : sep ∉ cs) : pieces sep cs = [cs] := by
  induction cs with
  | nil => rfl
  | cons c cs ih =>
    have hc : c ≠ sep := fun e => h (by simp [e])
    have hcs : sep ∉ cs := fun e => h (List.mem_cons_of_mem _ e)
    simp [pieces, hc, ih hcs]

theorem pieces_append_cons (sep : Char) (cs ds : List Char) :
    pieces sep (cs ++ sep :: ds) = pieces sep cs ++ pieces sep ds := by
  induction cs with
  | nil => simp [pieces]
  | cons c cs ih =>
    have hne := pieces_ne_nil sep cs
    by_cases hc : c = sep
    · simp [pieces, hc, ih]
    · cases hp : pieces sep cs with
      | nil => exact absurd hp hne
      | cons p ps => simp [pieces, hc, ih, hp]

theorem pieces_joined {sep : Char} {ps : List (List Char)} (hne : ps ≠ []) (h : ∀ p ∈ ps, sep ∉ p) :
    pieces sep (joined sep ps) = ps := by
  induction ps with
  | nil => exact absurd rfl hne
  | cons p ps ih =>
    obtain ⟨hp, hps⟩ := List.forall_mem_cons.mp h
    cases ps with
    | nil => exact pieces_of_notMem hp
    | cons q qs => rw [joined, pieces_append_cons, pieces_of_notMem hp, ih (by simp) hps, List.singleton_append]

theorem notMem_of_forall_pieces {sep c : Char} {cs : List Char} (hc : c ≠ sep)
    (h : ∀ p ∈ pieces sep cs, c ∉ p) : c ∉ cs := by
  intro hmem
  rw [← joined_pieces sep cs] at hmem
  obtain heq | ⟨p, hp, hcp⟩ := mem_joined hmem
  · exact hc heq
  · exact h p hp hcp

theorem joined_cons (sep : Char) (p : List Char) (ps : List (List Char)) :
    joined sep (p :: ps) = p ++ ps.flatMap (sep :: ·) := by
  induction ps generalizing p with
  | nil => simp [joined]
  | cons q qs ih => rw [joined, ih, List.flatMap_cons, List.cons_append]

end Formwork.Text
