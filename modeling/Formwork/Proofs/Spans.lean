import Formwork.Pattern

/-! What a pattern matches, told by the parts of a text that it spans, and the search by marked positions
that finds them. -/

namespace Formwork.Pattern

def before? (text : List Char) : Nat → Option Char
  | 0 => none
  | i + 1 => text[i]?

def Steps (R : Nat → Nat → Prop) : Nat → Nat → Nat → Prop
  | 0, i, j => i = j
  | n + 1, i, j => ∃ k, R i k ∧ Steps R n k j

/-- The pattern matches the part of the text between two positions. -/
def Spans (text : List Char) : Pattern → Nat → Nat → Prop
  | empty, i, j => i = j
  | one set, i, j => j = i + 1 ∧ ∃ c, text[i]? = some c ∧ set.contains c = true
  | look l, i, j => i = j ∧ i ≤ text.length ∧ l.holds (before? text i) text[i]? = true
  | seq a b, i, j => ∃ k, Spans text a i k ∧ Spans text b k j
  | alt a b, i, j => Spans text a i j ∨ Spans text b i j
  | repeated body least most, i, j =>
    ∃ n, least ≤ n ∧ (∀ m, most = some m → n ≤ max least m) ∧ Steps (Spans text body) n i j

def Whole (p : Pattern) (text : String) : Prop := Spans text.toList p 0 text.toList.length

theorem Spans.le_length {text : List Char} {p : Pattern} {i j : Nat} (h : Spans text p i j)
    (hi : i ≤ text.length) : j ≤ text.length := by
  induction p generalizing i j with
  | empty => exact h ▸ hi
  | one set =>
    obtain ⟨rfl, c, hc, -⟩ := h
    exact (List.getElem?_eq_some_iff.mp hc).1
  | look l => exact h.1 ▸ hi
  | seq a b iha ihb =>
    obtain ⟨k, ha, hb⟩ := h
    exact ihb hb (iha ha hi)
  | alt a b iha ihb => exact h.elim (fun ha => iha ha hi) fun hb => ihb hb hi
  | repeated body least most ih =>
    obtain ⟨n, -, -, hsteps⟩ := h
    induction n generalizing i with
    | zero => exact hsteps ▸ hi
    | succ n ihn =>
      obtain ⟨k, hfirst, hrest⟩ := hsteps
      exact ihn (ih hfirst hi) hrest

section Steps

variable {R : Nat → Nat → Prop} {m n i j k : Nat}

theorem Steps.concat (h : Steps R n i k) (hlast : R k j) : Steps R (n + 1) i j := by
  induction n generalizing i with
  | zero =>
    cases h
    exact ⟨j, hlast, rfl⟩
  | succ n ih =>
    obtain ⟨l, hfirst, hrest⟩ := h
    exact ⟨l, hfirst, ih hrest⟩

theorem steps_succ_iff : Steps R (n + 1) i j ↔ ∃ k, Steps R n i k ∧ R k j := by
  constructor
  · induction n generalizing i with
    | zero =>
      rintro ⟨k, hfirst, rfl⟩
      exact ⟨i, rfl, hfirst⟩
    | succ n ih =>
      rintro ⟨l, hfirst, hrest⟩
      obtain ⟨k, hsteps, hlast⟩ := ih hrest
      exact ⟨k, ⟨l, hfirst, hsteps⟩, hlast⟩
  · rintro ⟨k, hsteps, hlast⟩
    exact hsteps.concat hlast

theorem Steps.append (h : Steps R m i k) (h' : Steps R n k j) : Steps R (m + n) i j := by
  induction m generalizing i with
  | zero =>
    cases h
    rwa [Nat.zero_add]
  | succ m ih =>
    obtain ⟨l, hfirst, hrest⟩ := h
    rw [Nat.succ_add]
    exact ⟨l, hfirst, ih hrest⟩

theorem Steps.split (h : Steps R (m + n) i j) : ∃ k, Steps R m i k ∧ Steps R n k j := by
  induction m generalizing i with
  | zero => exact ⟨i, rfl, Nat.zero_add n ▸ h⟩
  | succ m ih =>
    rw [Nat.succ_add] at h
    obtain ⟨l, hfirst, hrest⟩ := h
    obtain ⟨k, hsteps, hlast⟩ := ih hrest
    exact ⟨k, ⟨l, hfirst, hsteps⟩, hlast⟩

end Steps

namespace Marks

def On (marks : Marks) (j : Nat) : Prop := marks[j]? = some true

variable {a b marks : Marks} {j : Nat}

theorem length_either (h : a.length = b.length) : (a.either b).length = a.length := by
  simp [Marks.either, h]

theorem on_either (h : a.length = b.length) : (a.either b).On j ↔ a.On j ∨ b.On j := by
  unfold On Marks.either
  rw [List.getElem?_zipWith]
  by_cases hj : j < a.length
  · rw [List.getElem?_eq_getElem hj, List.getElem?_eq_getElem (h ▸ hj)]
    simp
  · rw [List.getElem?_eq_none (by omega), List.getElem?_eq_none (by omega)]
    simp

theorem length_both (h : a.length = b.length) : (a.both b).length = a.length := by
  simp [Marks.both, h]

theorem on_both : (a.both b).On j ↔ a.On j ∧ b.On j := by
  unfold On Marks.both
  rw [List.getElem?_zipWith]
  cases a[j]? <;> cases b[j]? <;> simp

theorem unmarked_le {x y : Bool} (h : x = true → y = true) :
    (if y == false then 1 else 0) ≤ if x == false then 1 else 0 := by
  cases x with
  | true =>
    obtain rfl : y = true := h rfl
    exact Nat.le_refl _
  | false => cases y <;> decide

theorem count_false_lt (h : a.length = b.length) (hsub : ∀ j, a.On j → b.On j) (hne : a ≠ b) :
    b.count false < a.count false := by
  induction a generalizing b with
  | nil => exact absurd (List.length_eq_zero_iff.mp h.symm).symm hne
  | cons x xs ih =>
    cases b with
    | nil => cases h
    | cons y ys =>
      have hrest : ∀ j, On xs j → On ys j := fun j => hsub (j + 1)
      have hfirst : x = true → y = true := by simpa [On] using hsub 0
      rw [List.count_cons, List.count_cons]
      by_cases hxs : xs = ys
      · subst hxs
        have hxy : x ≠ y := fun heq => hne (heq ▸ rfl)
        cases x with
        | true => exact absurd (hfirst rfl).symm hxy
        | false =>
          obtain rfl : y = true := by simpa using hxy.symm
          exact Nat.lt_succ_self _
      · exact Nat.add_lt_add_of_lt_of_le (ih (Nat.succ.inj h) hrest hxs) (unmarked_le hfirst)

theorem On.lt_length (h : marks.On j) : j < marks.length := (List.getElem?_eq_some_iff.mp h).1

end Marks

section Look

variable (l : Look) (before : Option Char) (text : List Char)

theorem length_lookMarks : (lookMarks l before text).length = text.length + 1 := by
  induction text generalizing before with
  | nil => rfl
  | cons c cs ih => rw [lookMarks, List.length_cons, ih, List.length_cons]

theorem on_lookMarks (j : Nat) : (lookMarks l before text).On j ↔ j ≤ text.length ∧
    l.holds (if j = 0 then before else before? text j) text[j]? = true := by
  induction text generalizing before j with
  | nil =>
    cases j with
    | zero => simp [lookMarks, Marks.On]
    | succ j => simp [lookMarks, Marks.On]
  | cons c cs ih =>
    cases j with
    | zero => simp [lookMarks, Marks.On]
    | succ j =>
      have hrest := ih (some c) j
      have hbefore : (if j = 0 then some c else before? cs j) = before? (c :: cs) (j + 1) := by
        cases j <;> rfl
      rw [hbefore] at hrest
      simpa [lookMarks, Marks.On] using hrest

end Look

/-- A function on marks leads from the positions marked to those that a relation reaches. -/
structure Traces (size : Nat) (step : Marks → Marks) (R : Nat → Nat → Prop) : Prop where
  length : ∀ {marks : Marks}, marks.length = size → (step marks).length = size
  on : ∀ {marks : Marks}, marks.length = size → ∀ j, (step marks).On j ↔ ∃ i, marks.On i ∧ R i j

namespace Traces

variable {size : Nat} {step step' : Marks → Marks} {R S : Nat → Nat → Prop} {marks : Marks}

theorem comp (h : Traces size step R) (h' : Traces size step' S) :
    Traces size (fun marks => step' (step marks)) fun i j => ∃ k, R i k ∧ S k j where
  length hm := h'.length (h.length hm)
  on hm j := by
    rw [h'.on (h.length hm)]
    simp only [h.on hm]
    constructor
    · rintro ⟨k, ⟨i, hi, hik⟩, hkj⟩
      exact ⟨i, hi, k, hik, hkj⟩
    · rintro ⟨i, hi, k, hik, hkj⟩
      exact ⟨k, ⟨i, hi, hik⟩, hkj⟩

theorem either (h : Traces size step R) (h' : Traces size step' S) :
    Traces size (fun marks => (step marks).either (step' marks)) fun i j => R i j ∨ S i j where
  length hm := by
    rw [Marks.length_either ((h.length hm).trans (h'.length hm).symm), h.length hm]
  on hm j := by
    rw [Marks.on_either ((h.length hm).trans (h'.length hm).symm), h.on hm, h'.on hm]
    simp only [and_or_left, exists_or]

theorem congr (h : Traces size step R) (hrel : ∀ i j, R i j ↔ S i j) : Traces size step S where
  length := h.length
  on hm j := by
    rw [h.on hm]
    simp only [hrel]

theorem steps (h : Traces size step R) (n : Nat) : Traces size (Nat.repeat step n) (Steps R n) := by
  induction n with
  | zero => exact ⟨id, fun _ j => ⟨fun hj => ⟨j, hj, rfl⟩, fun ⟨i, hi, hij⟩ => hij ▸ hi⟩⟩
  | succ n ih => exact (ih.comp h).congr fun i j => steps_succ_iff.symm

theorem withinSteps (h : Traces size step R) (n : Nat) :
    Traces size (withinSteps step n) fun i j => ∃ m, m ≤ n ∧ Steps R m i j := by
  induction n with
  | zero =>
    refine ⟨id, fun _ j => ⟨fun hj => ⟨j, hj, 0, Nat.le_refl 0, rfl⟩, ?_⟩⟩
    rintro ⟨i, hi, m, hm, hsteps⟩
    obtain rfl : m = 0 := Nat.le_zero.mp hm
    exact hsteps ▸ hi
  | succ n ih =>
    have hself : Traces size id fun i j => i = j :=
      ⟨id, fun _ j => ⟨fun hj => ⟨j, hj, rfl⟩, fun ⟨i, hi, hij⟩ => hij ▸ hi⟩⟩
    refine (hself.either (h.comp ih)).congr fun i j => ⟨?_, ?_⟩
    · rintro (rfl | ⟨k, hik, m, hm, hsteps⟩)
      · exact ⟨0, Nat.zero_le _, rfl⟩
      · exact ⟨m + 1, Nat.succ_le_succ hm, k, hik, hsteps⟩
    · rintro ⟨m, hm, hsteps⟩
      cases m with
      | zero => exact .inl hsteps
      | succ m =>
        obtain ⟨k, hik, hrest⟩ := hsteps
        exact .inr ⟨k, hik, m, Nat.succ_le_succ_iff.mp hm, hrest⟩

theorem lt_size (h : Traces size step R) (hm : marks.length = size) {n i j : Nat} (hi : marks.On i)
    (hsteps : Steps R n i j) : j < size := by
  have hon : (Nat.repeat step n marks).On j := ((h.steps n).on hm j).mpr ⟨i, hi, hsteps⟩
  exact (h.steps n).length hm ▸ hon.lt_length

theorem on_either_step (h : Traces size step R) (hm : marks.length = size) (i : Nat) :
    (marks.either (step marks)).On i ↔ marks.On i ∨ ∃ k, marks.On k ∧ R k i := by
  rw [Marks.on_either (hm.trans (h.length hm).symm), h.on hm]

theorem on_of_steps_of_fixed (h : Traces size step R) (hm : marks.length = size)
    (hfix : marks.either (step marks) = marks) {n i j : Nat} (hi : marks.On i)
    (hsteps : Steps R n i j) : marks.On j := by
  induction n generalizing i with
  | zero => exact hsteps ▸ hi
  | succ n ih =>
    obtain ⟨k, hik, hrest⟩ := hsteps
    exact ih (hfix ▸ (h.on_either_step hm k).mpr (.inr ⟨i, hi, hik⟩)) hrest

theorem count_false_either_step (h : Traces size step R) (hm : marks.length = size)
    (hfix : marks.either (step marks) ≠ marks) :
    (marks.either (step marks)).count false < marks.count false := by
  have hlength : marks.length = (step marks).length := hm.trans (h.length hm).symm
  exact Marks.count_false_lt (Marks.length_either hlength).symm
    (fun i hi => (h.on_either_step hm i).mpr (.inl hi)) hfix.symm

/-- Each round but the last marks a position that was not marked, so there are fewer rounds than
positions. -/
theorem on_closure (h : Traces size step R) {fuel : Nat} (hm : marks.length = size)
    (hfuel : marks.count false ≤ fuel ∨ ∀ i, ¬ marks.On i) (j : Nat) :
    (closure step fuel marks).On j ↔ ∃ i, marks.On i ∧ ∃ n, Steps R n i j := by
  induction fuel generalizing marks with
  | zero =>
    refine ⟨fun hj => ⟨j, hj, 0, rfl⟩, ?_⟩
    rintro ⟨i, hi, n, hsteps⟩
    rcases hfuel with hnone | hoff
    · have hlt : j < marks.length := hm ▸ h.lt_size hm hi hsteps
      have hmem : marks[j] ≠ false := fun hfalse =>
        List.count_eq_zero.mp (Nat.le_zero.mp hnone) (hfalse ▸ List.getElem_mem _)
      rw [closure, Marks.On, List.getElem?_eq_getElem hlt]
      exact congrArg some (by simpa using hmem)
    · exact absurd hi (hoff i)
  | succ fuel ih =>
    have hlength : marks.length = (step marks).length := hm.trans (h.length hm).symm
    unfold closure
    by_cases hfix : marks.either (step marks) = marks
    · rw [if_pos hfix]
      exact ⟨fun hj => ⟨j, hj, 0, rfl⟩, fun ⟨i, hi, n, hsteps⟩ => h.on_of_steps_of_fixed hm hfix hi hsteps⟩
    · rw [if_neg hfix]
      have hfuel' : (marks.either (step marks)).count false ≤ fuel ∨
          ∀ i, ¬ (marks.either (step marks)).On i := by
        rcases hfuel with hcount | hoff
        · have hlt := h.count_false_either_step hm hfix
          exact .inl (by omega)
        · refine .inr fun i hi => ?_
          rcases (h.on_either_step hm i).mp hi with hi | ⟨k, hk, -⟩
          · exact hoff i hi
          · exact hoff k hk
      rw [ih ((Marks.length_either hlength).trans hm) hfuel']
      constructor
      · rintro ⟨i, hi, n, hsteps⟩
        rcases (h.on_either_step hm i).mp hi with hi | ⟨k, hk, hki⟩
        · exact ⟨i, hi, n, hsteps⟩
        · exact ⟨k, hk, n + 1, i, hki, hsteps⟩
      · rintro ⟨i, hi, n, hsteps⟩
        exact ⟨i, (h.on_either_step hm i).mpr (.inl hi), n, hsteps⟩

end Traces

theorem length_closure {step : Marks → Marks} {size : Nat}
    (h : ∀ {marks : Marks}, marks.length = size → (step marks).length = size) (fuel : Nat)
    {marks : Marks} (hm : marks.length = size) : (closure step fuel marks).length = size := by
  induction fuel generalizing marks with
  | zero => exact hm
  | succ fuel ih =>
    dsimp only [closure]
    split
    · exact hm
    · exact ih ((Marks.length_either (hm.trans (h hm).symm)).trans hm)

theorem traces_one (text : List Char) (set : CharSet) :
    Traces (text.length + 1) (ends text (one set)) (Spans text (one set)) where
  length hm := by simp [ends, hm]
  on {marks} hm j := by
    cases j with
    | zero => simp [ends, Marks.On, Spans]
    | succ j =>
      have hiff : (ends text (one set) marks).On (j + 1) ↔
          marks.On j ∧ ∃ c, text[j]? = some c ∧ set.contains c = true := by
        simp only [ends, Marks.On, List.getElem?_cons_succ, List.getElem?_zipWith]
        cases text[j]? <;> cases marks[j]? <;> simp
      rw [hiff]
      constructor
      · exact fun ⟨hj, hc⟩ => ⟨j, hj, rfl, hc⟩
      · rintro ⟨i, hi, heq, hc⟩
        obtain rfl : j = i := Nat.succ.inj heq
        exact ⟨hi, hc⟩

theorem traces_look (text : List Char) (l : Look) :
    Traces (text.length + 1) (ends text (look l)) (Spans text (look l)) where
  length hm := by rw [ends, Marks.length_both (by rw [hm, length_lookMarks]), hm]
  on hm j := by
    have hbefore : (if j = 0 then none else before? text j) = before? text j := by
      cases j <;> rfl
    rw [ends, Marks.on_both, on_lookMarks, hbefore]
    constructor
    · exact fun ⟨hj, hlook⟩ => ⟨j, hj, rfl, hlook⟩
    · rintro ⟨i, hi, rfl, hlook⟩
      exact ⟨hi, hlook⟩

/-- The search finds all ends of the parts that the pattern spans from a marked position. -/
theorem traces_ends (text : List Char) (p : Pattern) :
    Traces (text.length + 1) (ends text p) (Spans text p) := by
  induction p with
  | empty => exact ⟨id, fun _ j => ⟨fun hj => ⟨j, hj, rfl⟩, fun ⟨i, hi, hij⟩ => hij ▸ hi⟩⟩
  | one set => exact traces_one text set
  | look l => exact traces_look text l
  | seq a b iha ihb => exact iha.comp ihb
  | alt a b iha ihb => exact iha.either ihb
  | repeated body least most ih =>
    cases most with
    | some most =>
      refine ((ih.steps least).comp (ih.withinSteps (most - least))).congr fun i j => ⟨?_, ?_⟩
      · rintro ⟨k, hfirst, m, hm, hrest⟩
        refine ⟨least + m, Nat.le_add_right _ _, fun n hn => ?_, hfirst.append hrest⟩
        cases hn
        omega
      · rintro ⟨n, hleast, hmost, hsteps⟩
        have hbound := hmost most rfl
        obtain ⟨m, rfl⟩ := Nat.exists_eq_add_of_le hleast
        obtain ⟨k, hfirst, hrest⟩ := hsteps.split
        exact ⟨k, hfirst, m, by omega, hrest⟩
    | none =>
      have hrepeat := ih.steps least
      refine ⟨fun hm => length_closure ih.length _ (hrepeat.length hm), fun {marks} hm j => ?_⟩
      have hlength := hrepeat.length hm
      have hfuel : (Nat.repeat (ends text body) least marks).count false ≤ text.length ∨
          ∀ i, ¬ (Nat.repeat (ends text body) least marks).On i := by
        by_cases hon : ∃ i, (Nat.repeat (ends text body) least marks).On i
        · obtain ⟨i, hi⟩ := hon
          have hle := List.count_le_length (a := false) (l := Nat.repeat (ends text body) least marks)
          have hne : (Nat.repeat (ends text body) least marks).count false ≠
              (Nat.repeat (ends text body) least marks).length := fun heq =>
            nomatch List.count_eq_length.mp heq true (List.mem_of_getElem? hi)
          exact .inl (by omega)
        · exact .inr (not_exists.mp hon)
      rw [ends, ih.on_closure hlength hfuel]
      simp only [hrepeat.on hm]
      constructor
      · rintro ⟨k, ⟨i, hi, hfirst⟩, m, hrest⟩
        exact ⟨i, hi, least + m, Nat.le_add_right _ _, nofun, hfirst.append hrest⟩
      · rintro ⟨i, hi, n, hleast, -, hsteps⟩
        obtain ⟨m, rfl⟩ := Nat.exists_eq_add_of_le hleast
        obtain ⟨k, hfirst, hrest⟩ := hsteps.split
        exact ⟨k, ⟨i, hi, hfirst⟩, m, hrest⟩

theorem isMatch_iff {p : Pattern} {text : String} :
    p.isMatch text = true ↔ ∃ i j, i ≤ text.toList.length ∧ Spans text.toList p i j := by
  have hon := (traces_ends text.toList p).on (List.length_replicate (n := text.toList.length + 1) (a := true))
  have hall (i : Nat) :
      Marks.On (List.replicate (text.toList.length + 1) true) i ↔ i ≤ text.toList.length := by
    rw [Marks.On, List.getElem?_replicate]
    split <;> simp <;> omega
  have hany (marks : Marks) : marks.any id = true ↔ ∃ j, marks.On j := by
    simp [List.any_eq_true, Marks.On, List.mem_iff_getElem?]
  simp only [isMatch, hany, hon, hall]
  rw [exists_comm]

end Formwork.Pattern
