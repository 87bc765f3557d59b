import Formwork.Proofs.Seams

/-! Where a bracketed class of a written pattern ends: at the bracket that closes it, whatever comes after. -/

namespace Formwork.Pattern.Class

variable {caseless : Bool} {cs rest : List Char} {set : CharSet}

theorem notMem_of_named? {name : String} (h : CharSet.named? name = some set) : ']' ∉ name.toList := by
  unfold CharSet.named? at h
  split at h <;> first | decide | cases h

def readSetName? (caseless negated : Bool) (cs : List Char) : Option (CharSet × List Char) :=
  match cs.dropWhile (· ≠ ':') with
  | ':' :: ']' :: after => do
    let members ← CharSet.named? (String.ofList (cs.takeWhile (· ≠ ':')))
    some ((members.anyCaseIf caseless).complIf negated, after)
  | _ => none

theorem readNamed?_cons (h : cs.head? ≠ some '^') :
    readNamed? caseless (':' :: cs) = readSetName? caseless false cs := by
  cases cs with
  | nil => rfl
  | cons c v =>
    have hc : c ≠ '^' := fun heq => h (congrArg some heq)
    simp only [readNamed?, List.cons.injEq, hc, false_and, imp_self, implies_true]
    rfl

theorem readSetName?_seam {negated : Bool} (h : readSetName? caseless negated cs = some (set, rest)) :
    ∃ u, ']' ∉ u ∧ cs = u ++ ']' :: rest ∧
      ∀ t, readSetName? caseless negated (u ++ ']' :: t) = some (set, t) := by
  unfold readSetName? at h
  split at h
  next after hdrop =>
    obtain ⟨members, hmembers, heq⟩ := Option.bind_eq_some_iff.mp h
    obtain ⟨rfl, rfl⟩ := Prod.mk.inj (Option.some.inj heq)
    have hnot := notMem_of_named? hmembers
    rw [String.toList_ofList] at hnot
    refine ⟨cs.takeWhile (· ≠ ':') ++ [':'], ?_, ?_, fun t => ?_⟩
    · rw [List.mem_append, not_or]
      exact ⟨hnot, by decide⟩
    · rw [List.append_assoc, List.singleton_append]
      exact eq_of_dropWhile hdrop
    · rw [List.append_assoc, List.singleton_append, readSetName?, takeWhile_stop hdrop,
        dropWhile_stop hdrop, hmembers]
      rfl
  next => cases h

theorem readNamed?_seam (h : readNamed? caseless cs = some (set, rest)) :
    ∃ u, ']' ∉ u ∧ cs = u ++ ']' :: rest ∧ ∀ t, readNamed? caseless (u ++ ']' :: t) = some (set, t) := by
  have hcolon : ∃ v, cs = ':' :: v := by
    unfold readNamed? at h
    split at h
    next v => exact ⟨v, rfl⟩
    next => cases h
  obtain ⟨v, rfl⟩ := hcolon
  by_cases hv : v.head? = some '^'
  · obtain ⟨v, rfl⟩ := List.head?_eq_some_iff.mp hv
    have hname : readSetName? caseless true v = some (set, rest) := h
    obtain ⟨u, hnot, rfl, hu⟩ := readSetName?_seam hname
    exact ⟨':' :: '^' :: u, by simpa using hnot, rfl, hu⟩
  · rw [readNamed?_cons hv] at h
    obtain ⟨u, hnot, rfl, hu⟩ := readSetName?_seam h
    refine ⟨':' :: u, by simpa using hnot, rfl, fun t => ?_⟩
    have hhead : (u ++ ']' :: t).head? ≠ some '^' := by
      cases u with
      | nil => exact (by decide : some ']' ≠ some '^')
      | cons c u => exact hv
    exact (readNamed?_cons hhead).trans (hu t)

theorem readMember?_seam {e : Escape} (h : readMember? cs = some (e, rest)) (he : ∀ l, e ≠ .look l) :
    ∃ u, u ≠ [] ∧ cs = u ++ rest ∧ ∀ t, readMember? (u ++ t) = some (e, t) := by
  unfold readMember? at h
  split at h
  next => cases h
  next v =>
    obtain ⟨u, -, -, rfl, hu⟩ := Escape.read?_seam h
    exact ⟨'\\' :: u, by simp, rfl, fun t => hu t fun ⟨l, hl⟩ => absurd hl (he l)⟩
  next c v hc =>
    cases h
    refine ⟨[c], by simp, rfl, fun t => ?_⟩
    simp [readMember?]

/-- No hyphen comes here that makes a range. -/
def NoRange (cs : List Char) : Prop :=
  ∀ more, cs = '-' :: more → more.head? = some ']' ∨ more.head? = some '-'

theorem readRange?_single {e : Escape} (h : readMember? cs = some (e, rest)) (hrest : NoRange rest) :
    readRange? cs = e.toSet?.map (·, rest) := by
  rw [readRange?, h]
  dsimp only [Option.bind_eq_bind, Option.bind_some]
  split
  next => rfl
  next => rfl
  next more hclose hhyphen =>
    rcases hrest more rfl with hhead | hhead
    · obtain ⟨v, rfl⟩ := List.head?_eq_some_iff.mp hhead
      exact absurd rfl (hclose v)
    · obtain ⟨v, rfl⟩ := List.head?_eq_some_iff.mp hhead
      exact absurd rfl (hhyphen v)
  next => rfl

def range? : Escape → Escape → Option CharSet
  | .char a, .char b => if a ≤ b then some (.ranges [(a.toNat, b.toNat)]) else none
  | _, _ => none

theorem readRange?_range {e : Escape} {more : List Char} (h : readMember? cs = some (e, '-' :: more))
    (hmore : ¬ NoRange ('-' :: more)) :
    readRange? cs = (readMember? more).bind fun (last, rest) => (range? e last).map (·, rest) := by
  rw [readRange?, h]
  dsimp only [Option.bind_eq_bind, Option.bind_some]
  split
  next heq =>
    cases heq
    exact absurd (fun _ heq => .inl ((List.cons.inj heq).2 ▸ rfl)) hmore
  next heq =>
    cases heq
    exact absurd (fun _ heq => .inr ((List.cons.inj heq).2 ▸ rfl)) hmore
  next more' _ _ heq =>
    obtain rfl := (List.cons.inj heq).2
    congr 1
    funext ⟨last, rest⟩
    cases e <;> cases last <;> first | rfl | (dsimp only [range?]; split <;> rfl)
  next hhyphen => exact absurd rfl (hhyphen more)

theorem readRange?_seam (h : readRange? cs = some (set, rest)) :
    ∃ u, u ≠ [] ∧ cs = u ++ rest ∧
      ∀ t, (NoRange rest → NoRange t) → readRange? (u ++ t) = some (set, t) := by
  obtain ⟨⟨first, middle⟩, hfirst, -⟩ := Option.bind_eq_some_iff.mp h
  by_cases hmiddle : NoRange middle
  · rw [readRange?_single hfirst hmiddle] at h
    obtain ⟨set', hset, heq⟩ := Option.map_eq_some_iff.mp h
    obtain ⟨rfl, rfl⟩ := Prod.mk.inj heq
    have hchar : ∀ l, first ≠ .look l := by
      rintro l rfl
      cases hset
    obtain ⟨u, hne, rfl, hu⟩ := readMember?_seam hfirst hchar
    refine ⟨u, hne, rfl, fun t ht => ?_⟩
    rw [readRange?_single (hu t) (ht hmiddle), hset, Option.map_some]
  · obtain ⟨more, rfl, hnone⟩ : ∃ more, middle = '-' :: more ∧
        ¬ (more.head? = some ']' ∨ more.head? = some '-') := by
      obtain ⟨more, hmore⟩ := not_forall.mp hmiddle
      obtain ⟨heq, hnone⟩ := Classical.not_imp.mp hmore
      exact ⟨more, heq, hnone⟩
    rw [readRange?_range hfirst hmiddle] at h
    obtain ⟨⟨last, rest'⟩, hlast, hto⟩ := Option.bind_eq_some_iff.mp h
    obtain ⟨set', hset, heq⟩ := Option.map_eq_some_iff.mp hto
    obtain ⟨rfl, rfl⟩ := Prod.mk.inj heq
    obtain ⟨a, rfl⟩ : ∃ a, first = .char a := by
      cases first <;> first | exact ⟨_, rfl⟩ | cases hset
    obtain ⟨b, rfl⟩ : ∃ b, last = .char b := by
      cases last <;> first | exact ⟨_, rfl⟩ | cases hset
    obtain ⟨u, hne, rfl, hu⟩ := readMember?_seam hfirst nofun
    obtain ⟨v, hvne, rfl, hv⟩ := readMember?_seam hlast nofun
    refine ⟨u ++ '-' :: v, by simp, by simp, fun t _ => ?_⟩
    have hsplit : (u ++ '-' :: v) ++ t = u ++ '-' :: (v ++ t) := by simp
    have hrange : ¬ NoRange ('-' :: (v ++ t)) := by
      intro hno
      have hhead := hno _ rfl
      rw [List.head?_append_of_ne_nil _ hvne] at hhead hnone
      exact hnone hhead
    rw [hsplit, readRange?_range (hu _) hrange, hv]
    exact Option.map_eq_some_iff.mpr ⟨_, hset, rfl⟩

theorem readFirst_other (hclose : cs.head? ≠ some ']') (hhyphen : cs.head? ≠ some '-') :
    readFirst cs = (.none, cs) := by
  unfold readFirst
  split
  next => exact absurd rfl hclose
  next => exact absurd rfl hhyphen
  next => rfl

theorem readFirst_seam (h : readFirst cs = (set, rest)) :
    ∃ u, cs = u ++ rest ∧ ∀ t, t.head? = rest.head? → readFirst (u ++ t) = (set, t) := by
  unfold readFirst at h
  split at h
  next v =>
    cases h
    exact ⟨[']'], rfl, fun _ _ => rfl⟩
  next v =>
    cases h
    refine ⟨'-' :: v.takeWhile (· = '-'), ?_, fun t ht => ?_⟩
    · rw [List.cons_append, List.takeWhile_append_dropWhile]
    · have hstop : ∀ c, t.head? = some c → decide (c = '-') = false := fun c hc => by
        have hhead := List.head?_dropWhile_not (fun c : Char => decide (c = '-')) v
        rw [← ht, hc] at hhead
        exact hhead
      exact congrArg (Prod.mk _) (dropWhile_seam hstop)
  next hclose hhyphen =>
    cases h
    refine ⟨[], rfl, fun t ht => ?_⟩
    have hhead (c : Char) (hc : ∀ v, cs ≠ c :: v) : t.head? ≠ some c := by
      intro heq
      obtain ⟨v, hv⟩ := List.head?_eq_some_iff.mp (ht.symm.trans heq)
      exact hc v hv
    exact readFirst_other (hhead _ hclose) (hhead _ hhyphen)

/-- What comes before the members of a class: the sign of its complement, and what stands for itself. -/
def readHead (cs : List Char) : (Bool × CharSet) × List Char :=
  match cs with
  | '^' :: v => ((true, (readFirst v).1), (readFirst v).2)
  | _ => ((false, (readFirst cs).1), (readFirst cs).2)

theorem readHead_other (h : cs.head? ≠ some '^') :
    readHead cs = ((false, (readFirst cs).1), (readFirst cs).2) := by
  unfold readHead
  split
  next => exact absurd rfl h
  next => rfl

theorem readHead_seam {head : Bool × CharSet} (h : readHead cs = (head, rest)) :
    ∃ u, cs = u ++ rest ∧ ∀ t, t.head? = rest.head? → readHead (u ++ t) = (head, t) := by
  by_cases hcs : cs.head? = some '^'
  · obtain ⟨v, rfl⟩ := List.head?_eq_some_iff.mp hcs
    rw [readHead] at h
    cases hfirst : readFirst v with
    | mk set rest' =>
      rw [hfirst] at h
      obtain ⟨rfl, rfl⟩ := Prod.mk.inj h
      obtain ⟨u, rfl, hu⟩ := readFirst_seam hfirst
      refine ⟨'^' :: u, rfl, fun t ht => ?_⟩
      rw [List.cons_append, readHead, hu t ht]
  · rw [readHead_other hcs] at h
    cases hfirst : readFirst cs with
    | mk set rest' =>
      rw [hfirst] at h
      obtain ⟨rfl, rfl⟩ := Prod.mk.inj h
      obtain ⟨u, rfl, hu⟩ := readFirst_seam hfirst
      refine ⟨u, rfl, fun t ht => ?_⟩
      have hhead : (u ++ t).head? ≠ some '^' := by
        rw [head?_append_congr ht]
        exact hcs
      rw [readHead_other hhead, hu t ht]

theorem read?_succ (fuel : Nat) : read? caseless (fuel + 1) cs =
    (readMembers? caseless fuel none (readHead cs).1.2 (readHead cs).2).bind fun (members, rest) =>
      some ((members.anyCaseIf caseless).complIf (readHead cs).1.1, rest) := by
  by_cases hcs : cs.head? = some '^'
  · obtain ⟨v, rfl⟩ := List.head?_eq_some_iff.mp hcs
    rfl
  · rw [readHead_other hcs]
    cases cs with
    | nil => rfl
    | cons c v =>
      have hc : c ≠ '^' := fun heq => hcs (congrArg some heq)
      simp only [read?, List.cons.injEq, hc, false_and, imp_self, implies_true]
      rfl

/-- A member or a range comes next, no bracket and no operator. -/
def Plain (cs : List Char) : Prop :=
  (∀ c ∈ (cs.take 2).head?, c ≠ ']' ∧ c ≠ '[') ∧ cs.take 2 ∉ [[], ['&', '&'], ['-', '-'], ['~', '~']]

def operators : List (Char × Operator) := [('&', .inter), ('-', .diff), ('~', .symmDiff)]

theorem start_cases (cs : List Char) : cs = [] ∨ (∃ v, cs = ']' :: v) ∨ (∃ v, cs = '[' :: v) ∨
    (∃ c op v, (c, op) ∈ operators ∧ cs = c :: c :: v) ∨ Plain cs := by
  rcases cs with _ | ⟨a, _ | ⟨b, v⟩⟩
  · exact .inl rfl
  · by_cases ha : a = ']' ∨ a = '['
    · rcases ha with rfl | rfl <;> simp
    · simp_all [Plain]
  · by_cases ha : a = ']' ∨ a = '['
    · rcases ha with rfl | rfl <;> simp
    · by_cases hb : a = b ∧ (a = '&' ∨ a = '-' ∨ a = '~')
      · obtain ⟨rfl, rfl | rfl | rfl⟩ := hb <;> simp [operators]
      · simp_all [Plain]
        grind

theorem Plain.congr {cs' : List Char} (h : Plain cs) (htake : cs'.take 2 = cs.take 2) : Plain cs' := by
  unfold Plain
  rwa [htake]

variable {left : Option (Operator × CharSet)} {members : CharSet}

theorem readMembers?_plain (h : Plain cs) (fuel : Nat) :
    readMembers? caseless (fuel + 1) left members cs =
      (readRange? cs).bind fun (more, rest) => readMembers? caseless fuel left (members.union more) rest := by
  rw [readMembers?.eq_def]
  split <;> simp_all [Plain]

theorem readNamed?_none {w t : List Char} (h : readNamed? caseless (w ++ ']' :: t) = none) (t' : List Char) :
    readNamed? caseless (w ++ ']' :: t') = none := by
  rw [Option.eq_none_iff_forall_not_mem]
  rintro ⟨set, rest⟩ hsome
  obtain ⟨u, hnot, heq, hu⟩ := readNamed?_seam hsome
  obtain ⟨z, hz⟩ := append_cons_of_notMem hnot heq.symm t
  rw [hz, hu] at h
  cases h

theorem take_two_seam {u v : List Char} (hu : u ≠ []) (t t' : List Char) :
    (u ++ (v ++ ']' :: t)).take 2 = (u ++ (v ++ ']' :: t')).take 2 := by
  have hlength : 2 ≤ (u ++ (v ++ [']'])).length := by
    have hpos := List.length_pos_iff.mpr hu
    simp only [List.length_append, List.length_singleton]
    omega
  have hsplit (z : List Char) : u ++ (v ++ ']' :: z) = (u ++ (v ++ [']'])) ++ z := by simp
  rw [hsplit t, hsplit t', List.take_append_of_le_length hlength, List.take_append_of_le_length hlength]

theorem NoRange.seam {v t : List Char} (h : NoRange (v ++ ']' :: t)) (t' : List Char) :
    NoRange (v ++ ']' :: t') := by
  intro more heq
  cases v with
  | nil => cases heq
  | cons c v =>
    obtain ⟨rfl, rfl⟩ := List.cons.inj heq
    have hhead := h (v ++ ']' :: t) rfl
    exact head?_append_cons v ']' t t' ▸ hhead

/-- A class ends with the bracket that closes it, and takes no more steps than it has characters. -/
def Closes (read : Nat → List Char → Option (CharSet × List Char)) (start : Nat) (cs rest : List Char)
    (set : CharSet) : Prop :=
  ∃ u, cs = u ++ ']' :: rest ∧ ∀ fuel t, u.length + start ≤ fuel → read fuel (u ++ ']' :: t) = some (set, t)

theorem readMembers?_operator {c : Char} {op : Operator} (h : (c, op) ∈ operators) (fuel : Nat)
    (v : List Char) : readMembers? caseless (fuel + 1) left members (c :: c :: v) =
      readMembers? caseless fuel (some (op, joined caseless left members)) .none v := by
  simp only [operators, List.mem_cons, Prod.mk.injEq, List.not_mem_nil, or_false] at h
  rcases h with ⟨rfl, rfl⟩ | ⟨rfl, rfl⟩ | ⟨rfl, rfl⟩ <;> rfl

section Members

variable {v middle : List Char} {more : CharSet}

theorem closes_bracket :
    Closes (readMembers? caseless · left members) 1 (']' :: rest) rest
      (joined caseless left members) := by
  refine ⟨[], rfl, fun fuel t hfuel => ?_⟩
  obtain ⟨k, rfl⟩ := Nat.exists_eq_add_of_le' hfuel
  rfl

theorem Closes.of_named (hnamed : readNamed? caseless v = some (more, middle))
    (h : Closes (readMembers? caseless · left (members.union more)) 1 middle rest set) :
    Closes (readMembers? caseless · left members) 1 ('[' :: v) rest set := by
  obtain ⟨w, -, rfl, hw⟩ := readNamed?_seam hnamed
  obtain ⟨u, rfl, hu⟩ := h
  refine ⟨'[' :: w ++ ']' :: u, by simp, fun fuel t hfuel => ?_⟩
  simp only [List.length_append, List.length_cons] at hfuel
  obtain ⟨k, rfl⟩ : ∃ k, fuel = k + 1 := ⟨fuel - 1, by omega⟩
  have hagain := hw (u ++ ']' :: t)
  simp only [List.cons_append, List.append_assoc, readMembers?, hagain]
  exact hu k t (by omega)

theorem Closes.of_inner (hnone : readNamed? caseless v = none)
    (hinner : Closes (read? caseless) 2 v middle more)
    (h : Closes (readMembers? caseless · left (members.union more)) 1 middle rest set) :
    Closes (readMembers? caseless · left members) 1 ('[' :: v) rest set := by
  obtain ⟨w, rfl, hw⟩ := hinner
  obtain ⟨u, rfl, hu⟩ := h
  refine ⟨'[' :: w ++ ']' :: u, by simp, fun fuel t hfuel => ?_⟩
  simp only [List.length_append, List.length_cons] at hfuel
  obtain ⟨k, rfl⟩ : ∃ k, fuel = k + 1 := ⟨fuel - 1, by omega⟩
  have hagain := readNamed?_none hnone (u ++ ']' :: t)
  have hinner := hw k (u ++ ']' :: t) (by omega)
  simp only [List.cons_append, List.append_assoc, readMembers?, hagain, hinner]
  exact hu k t (by omega)

theorem Closes.of_operator {c : Char} {op : Operator} (hop : (c, op) ∈ operators)
    (h : Closes (readMembers? caseless · (some (op, joined caseless left members)) .none) 1 v rest
      set) :
    Closes (readMembers? caseless · left members) 1 (c :: c :: v) rest set := by
  obtain ⟨u, rfl, hu⟩ := h
  refine ⟨c :: c :: u, rfl, fun fuel t hfuel => ?_⟩
  rw [List.length_cons, List.length_cons] at hfuel
  obtain ⟨k, rfl⟩ : ∃ k, fuel = k + 1 := ⟨fuel - 1, by omega⟩
  exact (readMembers?_operator hop k _).trans (hu k t (by omega))

theorem Closes.of_range (hplain : Plain cs) (hmore : readRange? cs = some (more, middle))
    (h : Closes (readMembers? caseless · left (members.union more)) 1 middle rest set) :
    Closes (readMembers? caseless · left members) 1 cs rest set := by
  obtain ⟨u, hne, rfl, hu⟩ := readRange?_seam hmore
  obtain ⟨v, rfl, hv⟩ := h
  refine ⟨u ++ v, by simp, fun fuel t hfuel => ?_⟩
  have hpos := List.length_pos_iff.mpr hne
  rw [List.length_append] at hfuel
  obtain ⟨k, rfl⟩ : ∃ k, fuel = k + 1 := ⟨fuel - 1, by omega⟩
  have hstep : readMembers? caseless (k + 1) left members (u ++ (v ++ ']' :: t)) = _ :=
    readMembers?_plain (hplain.congr (take_two_seam hne t rest)) k
  rw [hu _ fun hrest => hrest.seam t] at hstep
  rw [List.append_assoc]
  exact hstep.trans (hv k t (by omega))

theorem closes_members {fuel : Nat}
    (ih : ∀ {left members cs rest set}, readMembers? caseless fuel left members cs = some (set, rest) →
      Closes (readMembers? caseless · left members) 1 cs rest set)
    (ihread : ∀ {cs rest set}, read? caseless fuel cs = some (set, rest) →
      Closes (read? caseless) 2 cs rest set)
    (h : readMembers? caseless (fuel + 1) left members cs = some (set, rest)) :
    Closes (readMembers? caseless · left members) 1 cs rest set := by
  rcases start_cases cs with rfl | ⟨v, rfl⟩ | ⟨v, rfl⟩ | ⟨c, op, v, hop, rfl⟩ | hplain
  · cases h
  · cases h
    exact closes_bracket
  · rw [readMembers?] at h
    split at h
    next named middle hnamed => exact .of_named hnamed (ih h)
    next hnone =>
      obtain ⟨⟨inner, middle⟩, hinner, hmembers⟩ := Option.bind_eq_some_iff.mp h
      exact .of_inner hnone (ihread hinner) (ih hmembers)
  · rw [readMembers?_operator hop] at h
    exact .of_operator hop (ih h)
  · rw [readMembers?_plain hplain] at h
    obtain ⟨⟨more, middle⟩, hmore, hmembers⟩ := Option.bind_eq_some_iff.mp h
    exact .of_range hplain hmore (ih hmembers)

end Members

theorem closes (fuel : Nat) :
    (∀ {cs rest set}, read? caseless fuel cs = some (set, rest) → Closes (read? caseless) 2 cs rest set) ∧
    ∀ {left members cs rest set}, readMembers? caseless fuel left members cs = some (set, rest) →
      Closes (readMembers? caseless · left members) 1 cs rest set := by
  induction fuel with
  | zero => exact ⟨nofun, nofun⟩
  | succ fuel ih =>
    refine ⟨fun {cs rest set} h => ?_, closes_members ih.2 ih.1⟩
    cases hhead : readHead cs with
    | mk head middle =>
      rw [read?_succ, hhead] at h
      obtain ⟨⟨members, rest'⟩, hmembers, heq⟩ := Option.bind_eq_some_iff.mp h
      obtain ⟨rfl, rfl⟩ := Prod.mk.inj (Option.some.inj heq)
      obtain ⟨u, rfl, hu⟩ := readHead_seam hhead
      obtain ⟨v, rfl, hv⟩ := ih.2 hmembers
      refine ⟨u ++ v, by simp, fun fuel t hfuel => ?_⟩
      rw [List.length_append] at hfuel
      obtain ⟨k, rfl⟩ : ∃ k, fuel = k + 1 := ⟨fuel - 1, by omega⟩
      have hagain := hu (v ++ ']' :: t) (by cases v <;> rfl)
      rw [List.append_assoc, read?_succ, hagain]
      exact Option.bind_eq_some_iff.mpr ⟨_, hv k t (by omega), rfl⟩

end Formwork.Pattern.Class
