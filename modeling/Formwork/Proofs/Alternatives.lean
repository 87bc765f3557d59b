import Formwork.Proofs.Readings
import Formwork.Proofs.Spans

/-! The alternatives of a pattern, in the order in which they are written, and what each of them matches when
a condition has been put before the first one or behind the last one. -/

namespace Formwork.Pattern

variable {text : List Char} {p q : Pattern} {ps : List Pattern} {i j : Nat}

theorem spans_concat_concat : Spans text (concat (ps ++ [p])) i j ↔
    ∃ k, Spans text (concat ps) i k ∧ Spans text p k j := by
  induction ps generalizing i with
  | nil =>
    constructor
    · rintro ⟨k, hp, rfl⟩
      exact ⟨i, rfl, hp⟩
    · rintro ⟨k, rfl, hp⟩
      exact ⟨j, hp, rfl⟩
  | cons q ps ih =>
    have hcons (l : List Pattern) (i j : Nat) :
        Spans text (concat (q :: l)) i j ↔ ∃ k, Spans text q i k ∧ Spans text (concat l) k j := Iff.rfl
    simp only [List.cons_append, hcons, ih]
    constructor
    · rintro ⟨k, hq, l, hps, hp⟩
      exact ⟨l, ⟨k, hq, hps⟩, hp⟩
    · rintro ⟨l, ⟨k, hq, hps⟩, hp⟩
      exact ⟨k, hq, l, hps, hp⟩

theorem spans_foldl_alt : Spans text (ps.foldl (fun later p => alt p later) q) i j ↔
    ∃ p ∈ q :: ps, Spans text p i j := by
  induction ps generalizing q with
  | nil => simp
  | cons p ps ih =>
    rw [List.foldl_cons, ih]
    simp only [List.mem_cons, exists_eq_or_imp, Spans]
    rw [or_assoc, or_left_comm]

theorem spans_textStart : Spans text (look .textStart) i j ↔ i = j ∧ i = 0 := by
  cases i with
  | zero => simp [Spans, Look.holds, before?]
  | succ i =>
    simp only [Spans, Look.holds, before?, Nat.add_one_ne_zero, and_false, iff_false]
    rintro ⟨-, hle, hnone⟩
    rw [Option.isNone_iff_eq_none, List.getElem?_eq_none_iff] at hnone
    omega

theorem spans_textEnd (hi : i ≤ text.length) :
    Spans text (look .textEnd) i j ↔ i = j ∧ j = text.length := by
  simp only [Spans, Look.holds]
  constructor
  · rintro ⟨rfl, -, hnone⟩
    rw [Option.isNone_iff_eq_none, List.getElem?_eq_none_iff] at hnone
    exact ⟨rfl, Nat.le_antisymm hi hnone⟩
  · rintro ⟨rfl, rfl⟩
    simp

namespace Reading

variable {r s : Reading} {k : Nat} {l : Look}

def alternatives (r : Reading) : List Pattern := r.branches.reverse ++ [r.branch]

def Spans (r : Reading) (text : List Char) (k i j : Nat) : Prop :=
  ∃ b, r.alternatives[k]? = some b ∧ b.Spans text i j

theorem spans_pattern : r.pattern.Spans text i j ↔ ∃ k, r.Spans text k i j := by
  have hmem (b : Pattern) : b ∈ r.alternatives ↔ b ∈ r.branch :: r.branches := by
    simp [alternatives, or_comm]
  rw [pattern, spans_foldl_alt]
  simp only [← hmem, List.mem_iff_getElem?, Spans]
  constructor
  · rintro ⟨b, ⟨k, hk⟩, hb⟩
    exact ⟨k, b, hk, hb⟩
  · rintro ⟨k, b, hk, hb⟩
    exact ⟨b, ⟨k, hk⟩, hb⟩

theorem alternatives_of_grafted (h : Grafted p r s) :
    ∃ b bs, r.alternatives = b :: bs ∧ s.alternatives = seq p b :: bs := by
  cases h with
  | first hb =>
    refine ⟨r.branch, [], by simp [alternatives, hb], ?_⟩
    rw [alternatives, branch_graft, hb]
    rfl
  | @later bs b hb =>
    refine ⟨b, bs.reverse ++ [r.branch], by simp [alternatives, hb], ?_⟩
    rw [alternatives, List.reverse_append]
    rfl

theorem spans_grafted (h : Grafted p r s) : s.Spans text k i j ↔
    if k = 0 then ∃ m, p.Spans text i m ∧ r.Spans text k m j else r.Spans text k i j := by
  obtain ⟨b, bs, hr, hs⟩ := alternatives_of_grafted h
  cases k with
  | zero => simp [Spans, hr, hs, Pattern.Spans]
  | succ k => simp [Spans, hr, hs]

/-- The condition in front holds at the start of the text alone, so the first alternative has to match from
there. -/
theorem spans_caret (h : Grafted (look .textStart) r s) :
    s.Spans text k i j ↔ r.Spans text k i j ∧ (k = 0 → i = 0) := by
  rw [spans_grafted h]
  split
  next hk =>
    simp only [spans_textStart, hk, forall_const]
    constructor
    · rintro ⟨m, ⟨rfl, rfl⟩, hspans⟩
      exact ⟨hspans, rfl⟩
    · rintro ⟨hspans, rfl⟩
      exact ⟨0, ⟨rfl, rfl⟩, hspans⟩
  next hk => simp [hk]

theorem branch_add : (r.add p).branch = concat (r.items.reverse.filterMap id ++ [p]) := by
  simp [add, branch]

theorem branches_add : (r.add p).branches = r.branches := rfl

theorem spans_add : (r.add p).Spans text k i j ↔
    if k + 1 = r.alternatives.length then ∃ m, r.Spans text k i m ∧ p.Spans text m j
    else r.Spans text k i j := by
  have hlength : r.alternatives.length = r.branches.reverse.length + 1 := by simp [alternatives]
  have hbranch : r.branch = concat (r.items.reverse.filterMap id) := rfl
  rcases Nat.lt_trichotomy k r.branches.reverse.length with hk | hk | hk
  · rw [if_neg (by omega), Spans, Spans, alternatives, alternatives, branches_add,
      List.getElem?_append_left hk, List.getElem?_append_left hk]
  · subst hk
    rw [if_pos hlength.symm]
    simp only [Spans, alternatives, branches_add, List.getElem?_concat_length, Option.some.injEq,
      exists_eq_left', branch_add, spans_concat_concat, hbranch]
  · have hnone (b : Pattern) : (r.branches.reverse ++ [b])[k]? = none := by
      rw [List.getElem?_eq_none_iff, List.length_append, List.length_singleton]
      omega
    rw [if_neg (by omega)]
    simp [Spans, alternatives, branches_add, hnone]

end Reading

end Formwork.Pattern
