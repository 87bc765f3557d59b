import Mathlib.Data.List.Basic
import Mathlib.Data.List.TakeWhile
import Formwork.Pattern.Reader

/-! Where the parts of a written pattern end. A reader that succeeds takes a text off the front, and whatever
stands behind the seam is left alone, as long as it does not go on with the part. -/

namespace Formwork.Pattern

open Text

section Scan

variable {P : Char → Bool} {cs t : List Char} {d : Char} {rest : List Char}

theorem takeWhile_seam (h : ∀ c, t.head? = some c → P c = false) :
    (cs.takeWhile P ++ t).takeWhile P = cs.takeWhile P := by
  rw [List.takeWhile_append_of_pos fun _ hc => List.mem_takeWhile_imp hc]
  cases t with
  | nil => simp
  | cons c t => simp [h c rfl]

theorem dropWhile_seam (h : ∀ c, t.head? = some c → P c = false) :
    (cs.takeWhile P ++ t).dropWhile P = t := by
  rw [List.dropWhile_append_of_pos fun _ hc => List.mem_takeWhile_imp hc]
  cases t with
  | nil => rfl
  | cons c t => simp [h c rfl]

theorem stop_of_dropWhile (h : cs.dropWhile P = d :: rest) : P d = false := by
  have hhead := List.head?_dropWhile_not P cs
  rw [h] at hhead
  exact hhead

theorem eq_of_dropWhile (h : cs.dropWhile P = d :: rest) : cs = cs.takeWhile P ++ d :: rest := by
  rw [← h, List.takeWhile_append_dropWhile]

theorem takeWhile_stop (h : cs.dropWhile P = d :: rest) (t : List Char) :
    (cs.takeWhile P ++ d :: t).takeWhile P = cs.takeWhile P :=
  takeWhile_seam fun _ hc => Option.some.inj hc ▸ stop_of_dropWhile h

theorem dropWhile_stop (h : cs.dropWhile P = d :: rest) (t : List Char) :
    (cs.takeWhile P ++ d :: t).dropWhile P = d :: t :=
  dropWhile_seam fun _ hc => Option.some.inj hc ▸ stop_of_dropWhile h

theorem head?_append_congr {u : List Char} (h : t.head? = rest.head?) :
    (u ++ t).head? = (u ++ rest).head? := by
  cases u with
  | nil => exact h
  | cons c u => rfl

theorem head?_append_cons (u : List Char) (c : Char) (t t' : List Char) :
    (u ++ c :: t).head? = (u ++ c :: t').head? := head?_append_congr rfl

theorem getLast?_concat_ne (u : List Char) {c : Char} (h : c ≠ d) : (u ++ [c]).getLast? ≠ some d := by
  rw [List.getLast?_concat]
  exact fun heq => h (Option.some.inj heq)

theorem getLast?_cons_ne {u : List Char} (c : Char) (hne : u ≠ []) (h : u.getLast? ≠ some d) :
    (c :: u).getLast? ≠ some d := by
  rwa [List.getLast?_cons_of_ne_nil hne]

theorem append_cons_of_notMem {u v z : List Char} (hd : d ∉ u) (h : u ++ d :: z = v ++ d :: t)
    (t' : List Char) : ∃ z', v ++ d :: t' = u ++ d :: z' := by
  rcases List.append_eq_append_iff.mp h with ⟨w, rfl, hw⟩ | ⟨w, rfl, hw⟩
  · cases w with
    | nil => exact ⟨t', by simp⟩
    | cons c w =>
      obtain ⟨rfl, rfl⟩ := List.cons.inj hw
      exact ⟨w ++ d :: t', by simp⟩
  · cases w with
    | nil => exact ⟨t', by simp⟩
    | cons c w =>
      obtain ⟨rfl, -⟩ := List.cons.inj hw
      exact absurd (by simp) hd

end Scan

namespace Escape

theorem notMem_of_isHexDigit {u : List Char} (hhex : ∀ c ∈ u, isHexDigit c = true) {d : Char}
    (hd : isHexDigit d = false) : d ∉ u := by
  intro hmem
  rw [hhex d hmem] at hd
  cases hd

theorem readCode?_digits {u : List Char} (hne : u ≠ []) (hhex : ∀ c ∈ u, isHexDigit c = true)
    (t : List Char) : readCode? u.length (u ++ t) = (charOf? u).map (·, t) := by
  have hopen : ∀ w, u ++ t ≠ '\x7b' :: w := by
    intro w heq
    cases u with
    | nil => exact hne rfl
    | cons c u =>
      obtain rfl : c = '\x7b' := (List.cons.inj heq).1
      exact notMem_of_isHexDigit hhex (by decide) List.mem_cons_self
  rw [readCode?.eq_def]
  split
  next w heq => exact absurd heq (hopen w)
  next =>
    dsimp only
    rw [List.take_left, List.drop_left, if_pos ⟨rfl, List.all_eq_true.mpr hhex⟩]

theorem readCode?_seam {count : Nat} (hcount : 0 < count) {cs rest : List Char} {c : Char}
    (h : readCode? count cs = some (c, rest)) :
    ∃ u, u ≠ [] ∧ u.getLast? ≠ some '$' ∧ cs = u ++ rest ∧ ∀ t, readCode? count (u ++ t) = some (c, t) := by
  unfold readCode? at h
  split at h
  next v =>
    split at h
    next after hdrop =>
      obtain ⟨d, hd, heq⟩ := Option.map_eq_some_iff.mp h
      obtain ⟨rfl, rfl⟩ := Prod.mk.inj heq
      refine ⟨'\x7b' :: v.takeWhile isHexDigit ++ ['\x7d'], by simp,
        getLast?_concat_ne _ (by decide), ?_, fun t => ?_⟩
      · rw [List.append_assoc, List.cons_append, List.singleton_append, ← eq_of_dropWhile hdrop]
      · simp only [List.cons_append, List.append_assoc, List.nil_append, readCode?,
          takeWhile_stop hdrop, dropWhile_stop hdrop, hd, Option.map_some]
    next => cases h
  next hbrace =>
    dsimp only at h
    split at h
    next hdigits =>
      obtain ⟨d, hd, heq⟩ := Option.map_eq_some_iff.mp h
      obtain ⟨rfl, rfl⟩ := Prod.mk.inj heq
      obtain ⟨hlength, hall⟩ := hdigits
      have hhex : ∀ c ∈ cs.take count, isHexDigit c = true := List.all_eq_true.mp hall
      have hne : cs.take count ≠ [] := List.ne_nil_of_length_pos (by omega)
      refine ⟨cs.take count, hne, fun hlast => ?_, (List.take_append_drop count cs).symm, fun t => ?_⟩
      · exact notMem_of_isHexDigit hhex (by decide) (List.mem_of_getLast? hlast)
      · have hread := readCode?_digits hne hhex t
        rwa [hlength, hd] at hread
    next => cases h

def EdgeFree (cs : List Char) : Prop := readEdge? cs = some (.wordEdge, cs)

theorem edgeFree_iff {cs : List Char} : EdgeFree cs ↔
    ∀ v, cs = '\x7b' :: v → ∃ c, v.head? = some c ∧ isEdgeNameChar c = false := by
  unfold EdgeFree readEdge?
  split
  next c v =>
    split
    next hc =>
      constructor
      · intro h
        split at h
        next after hdrop =>
          obtain ⟨l, -, heq⟩ := Option.map_eq_some_iff.mp h
          obtain rfl := (Prod.mk.inj heq).2
          have hlength := congrArg List.length (eq_of_dropWhile hdrop)
          simp only [List.length_append, List.length_cons] at hlength
          omega
        next => cases h
      · intro h
        obtain ⟨d, hd, hfalse⟩ := h _ rfl
        obtain rfl : c = d := Option.some.inj hd
        rw [hc] at hfalse
        cases hfalse
    next hc =>
      refine ⟨fun _ w heq => ?_, fun _ => rfl⟩
      cases heq
      exact ⟨c, rfl, Bool.not_eq_true _ ▸ hc⟩
  next => simp
  next hlong hshort =>
    refine ⟨fun _ v heq => ?_, fun _ => rfl⟩
    cases v with
    | nil => exact absurd heq hshort
    | cons c v => exact absurd heq (hlong c v)

theorem readEdge?_seam {cs rest : List Char} {l : Look} (h : readEdge? cs = some (l, rest)) :
    (l = .wordEdge ∧ rest = cs) ∨
      ∃ u, u ≠ [] ∧ u.getLast? ≠ some '$' ∧ cs = u ++ rest ∧ ∀ t, readEdge? (u ++ t) = some (l, t) := by
  unfold readEdge? at h
  split at h
  next c v =>
    split at h
    next hc =>
      split at h
      next after hdrop =>
        obtain ⟨d, hd, heq⟩ := Option.map_eq_some_iff.mp h
        obtain ⟨rfl, rfl⟩ := Prod.mk.inj heq
        have htake : (c :: v).takeWhile isEdgeNameChar = c :: v.takeWhile isEdgeNameChar := by
          simp [hc]
        refine .inr ⟨'\x7b' :: (c :: v).takeWhile isEdgeNameChar ++ ['\x7d'], by simp,
          getLast?_concat_ne _ (by decide), ?_, fun t => ?_⟩
        · rw [List.append_assoc, List.cons_append, List.singleton_append, ← eq_of_dropWhile hdrop]
        · have hstop := takeWhile_stop hdrop t
          have hstop' := dropWhile_stop hdrop t
          rw [htake] at hstop hstop' hd ⊢
          simp only [List.cons_append, List.append_assoc, List.nil_append] at hstop hstop' ⊢
          simp only [readEdge?, hc, if_true, hstop, hstop', hd, Option.map_some]
      next => cases h
    next =>
      cases h
      exact .inl ⟨rfl, rfl⟩
  next => cases h
  next =>
    cases h
    exact .inl ⟨rfl, rfl⟩

def fixedLetters : List Char :=
  ['d', 's', 'w', 'D', 'S', 'W', 'a', 'f', 't', 'n', 'r', 'v', 'A', 'z', 'B', '<', '>']

/-- What the character after the backslash makes of what follows: a code, the name of an edge, or nothing
more. -/
inductive Kind (c : Char) : Prop
  | code (count : Nat) (hcount : 0 < count)
    (h : ∀ v, read? (c :: v) = (readCode? count v).map fun (d, rest) => (char d, rest))
  | edge (hc : c = 'b') (h : ∀ v, read? (c :: v) = (readEdge? v).map fun (l, rest) => (look l, rest))
  | fixed (e : Escape) (h : ∀ v, read? (c :: v) = some (e, v))
  | refused (h : ∀ v, read? (c :: v) = none)

theorem kind (c : Char) : Kind c := by
  by_cases hcode : c = 'x' ∨ c = 'u' ∨ c = 'U'
  · rcases hcode with rfl | rfl | rfl <;> exact .code _ (by decide) fun _ => rfl
  by_cases hedge : c = 'b'
  · subst hedge
    exact .edge rfl fun _ => rfl
  by_cases hfixed : c ∈ fixedLetters
  · simp only [fixedLetters, List.mem_cons, List.not_mem_nil, or_false] at hfixed
    rcases hfixed with rfl | rfl | rfl | rfl | rfl | rfl | rfl | rfl | rfl | rfl | rfl | rfl | rfl | rfl |
      rfl | rfl | rfl <;> exact .fixed _ fun _ => rfl
  · have hother : ∀ v, read? (c :: v) =
        if c.toNat < 128 ∧ !c.isAlphanum then some (char c, v) else none := by
      intro v
      simp only [fixedLetters, List.mem_cons, not_or] at hfixed hcode
      simp only [read?]
      split <;> simp_all
    by_cases hplain : c.toNat < 128 ∧ !c.isAlphanum
    · exact .fixed _ fun v => (hother v).trans (if_pos hplain)
    · exact .refused fun v => (hother v).trans (if_neg hplain)

/-- Only the edge of a word looks at what comes after the escape. -/
theorem read?_seam {cs rest : List Char} {e : Escape} (h : read? cs = some (e, rest)) :
    ∃ u, u ≠ [] ∧ (u.getLast? = some '$' → u = ['$']) ∧ cs = u ++ rest ∧
      ∀ t, ((∃ l, e = look l) → EdgeFree rest → EdgeFree t) → read? (u ++ t) = some (e, t) := by
  cases cs with
  | nil => cases h
  | cons c v =>
    cases kind c with
    | code count hcount hc =>
      rw [hc] at h
      obtain ⟨⟨d, rest'⟩, hd, heq⟩ := Option.map_eq_some_iff.mp h
      obtain ⟨rfl, rfl⟩ := Prod.mk.inj heq
      obtain ⟨u, hne, hlast, rfl, hu⟩ := readCode?_seam hcount hd
      have hend := getLast?_cons_ne c hne hlast
      refine ⟨c :: u, by simp, fun hdollar => absurd hdollar hend, rfl, fun t _ => ?_⟩
      rw [List.cons_append, hc, hu, Option.map_some]
    | edge hb hc =>
      rw [hc] at h
      obtain ⟨⟨l, rest'⟩, hl, heq⟩ := Option.map_eq_some_iff.mp h
      obtain ⟨rfl, rfl⟩ := Prod.mk.inj heq
      rcases readEdge?_seam hl with ⟨rfl, rfl⟩ | ⟨u, hne, hlast, rfl, hu⟩
      · refine ⟨[c], by simp, fun hdollar => ?_, rfl, fun t ht => ?_⟩
        · rw [hb] at hdollar
          exact absurd hdollar (by decide)
        · have hfree : EdgeFree t := ht ⟨_, rfl⟩ hl
          rw [List.singleton_append, hc, hfree, Option.map_some]
      · have hend := getLast?_cons_ne c hne hlast
        refine ⟨c :: u, by simp, fun hdollar => absurd hdollar hend, rfl, fun t _ => ?_⟩
        rw [List.cons_append, hc, hu, Option.map_some]
    | fixed e' hc =>
      rw [hc] at h
      cases h
      exact ⟨[c], by simp, fun hdollar => by simpa using hdollar, rfl, fun t _ => hc t⟩
    | refused hc =>
      rw [hc] at h
      cases h

end Escape

end Formwork.Pattern
