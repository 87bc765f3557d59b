import Formwork.Proofs.Brackets

/-! The items that a written pattern is read as, one after the other, and where each of them ends. -/

namespace Formwork.Pattern

open Text

section Opening

variable {cs rest : List Char} {flags flags' : Flags}

theorem readName?_seam {name : String} (h : readName? cs = some (name, rest)) :
    ∃ u, cs = u ++ '>' :: rest ∧ ∀ t, readName? (u ++ '>' :: t) = some (name, t) := by
  unfold readName? at h
  dsimp only at h
  split at h
  next after hdrop =>
    split at h
    next hname =>
      cases h
      refine ⟨cs.takeWhile (· ≠ '>'), eq_of_dropWhile hdrop, fun t => ?_⟩
      simp only [readName?, takeWhile_stop hdrop, dropWhile_stop hdrop, hname, if_true]
    next => cases h
  next => cases h

theorem readFlags?_seam {seen : List Char} {value afterHyphen : Bool} {stop : Char}
    (h : readFlags? flags seen value afterHyphen cs = some (flags', stop, rest)) :
    (stop = ':' ∨ stop = ')') ∧ ∃ u, cs = u ++ stop :: rest ∧
      ∀ t, readFlags? flags seen value afterHyphen (u ++ stop :: t) = some (flags', stop, t) := by
  induction cs generalizing flags seen value afterHyphen with
  | nil => cases h
  | cons c v ih =>
    rw [readFlags?] at h
    split at h
    next hstop =>
      split at h
      next => cases h
      next hafter =>
        cases h
        refine ⟨hstop, [], rfl, fun t => ?_⟩
        rw [List.nil_append, readFlags?, if_pos hstop, if_neg hafter]
    next hstop =>
      split at h
      next hhyphen =>
        split at h
        next hvalue =>
          obtain ⟨hend, u, rfl, hu⟩ := ih h
          refine ⟨hend, c :: u, rfl, fun t => ?_⟩
          rw [List.cons_append, readFlags?, if_neg hstop, if_pos hhyphen, if_pos hvalue, hu]
        next => cases h
      next hhyphen =>
        split at h
        next => cases h
        next hseen =>
          obtain ⟨flags₁, hset, h⟩ := Option.bind_eq_some_iff.mp h
          obtain ⟨hend, u, rfl, hu⟩ := ih h
          refine ⟨hend, c :: u, rfl, fun t => ?_⟩
          rw [List.cons_append, readFlags?, if_neg hstop, if_neg hhyphen, if_neg hseen, hset]
          exact hu t

theorem readFlags?_unknown {seen : List Char} {value afterHyphen : Bool} {c : Char}
    (hc : c = 'P' ∨ c = '<') : readFlags? flags seen value afterHyphen (c :: cs) = none := by
  rcases hc with rfl | rfl <;> simp [readFlags?, Flags.set?]

theorem readOpening?_plain (h : cs.head? ≠ some '?') :
    readOpening? flags cs = some (.group flags none, cs) := by
  unfold readOpening?
  split
  next => exact absurd rfl h
  next => exact absurd rfl h
  next => exact absurd rfl h
  next => exact absurd rfl h
  next => rfl

theorem readOpening?_flags (h : ∀ c ∈ cs.head?, c ≠ 'P' ∧ c ≠ '<' ∧ c ≠ ')') :
    readOpening? flags ('?' :: cs) = (readFlags? flags [] true false cs).map fun (flags, stop, rest) =>
      (if stop = ':' then .group flags none else .flags flags, rest) := by
  cases cs with
  | nil => rfl
  | cons c v =>
    have hc := h c rfl
    simp [readOpening?, hc]

theorem readOpening?_named {b : List Char} {o : Opening}
    (hb : ∀ w, readOpening? flags (b ++ w) =
      (readName? w).map fun (name, rest) => (.group flags (some name), rest))
    (h : readOpening? flags (b ++ cs) = some (o, rest)) :
    ∃ u, u.getLast? ≠ some '$' ∧ b ++ cs = u ++ rest ∧ ∀ t, readOpening? flags (u ++ t) = some (o, t) := by
  rw [hb] at h
  obtain ⟨⟨name, rest'⟩, hname, heq⟩ := Option.map_eq_some_iff.mp h
  cases heq
  obtain ⟨u, rfl, hu⟩ := readName?_seam hname
  refine ⟨(b ++ u) ++ ['>'], getLast?_concat_ne _ (by decide), by simp, fun t => ?_⟩
  rw [List.append_assoc, List.append_assoc, List.singleton_append, hb, hu, Option.map_some]

theorem readOpening?_seam {o : Opening} (h : readOpening? flags cs = some (o, rest)) :
    ∃ u, u.getLast? ≠ some '$' ∧ cs = u ++ rest ∧
      ∀ t, (t.head? = some '?' → rest.head? = some '?') → readOpening? flags (u ++ t) = some (o, t) := by
  by_cases hcs : cs.head? = some '?'
  · obtain ⟨v, rfl⟩ := List.head?_eq_some_iff.mp hcs
    have hopening := h
    unfold readOpening? at h
    split at h
    next w heq =>
      cases heq
      obtain ⟨u, hlast, hw, hu⟩ := readOpening?_named (b := ['?', 'P', '<']) (fun _ => rfl) hopening
      exact ⟨u, hlast, hw, fun t _ => hu t⟩
    next w heq =>
      cases heq
      obtain ⟨u, hlast, hw, hu⟩ := readOpening?_named (b := ['?', '<']) (fun _ => rfl) hopening
      exact ⟨u, hlast, hw, fun t _ => hu t⟩
    next => cases h
    next v' _ _ hclose heq =>
      cases heq
      obtain ⟨⟨flags', stop, rest'⟩, hflags, heq⟩ := Option.map_eq_some_iff.mp h
      cases heq
      obtain ⟨hstop, u, rfl, hu⟩ := readFlags?_seam hflags
      have hdollar : stop ≠ '$' := by rcases hstop with rfl | rfl <;> decide
      refine ⟨'?' :: u ++ [stop], getLast?_concat_ne _ hdollar, by simp, fun t _ => ?_⟩
      · have hhead : ∀ c ∈ (u ++ stop :: t).head?, c ≠ 'P' ∧ c ≠ '<' ∧ c ≠ ')' := by
          intro c hc
          obtain ⟨w, hw⟩ := List.head?_eq_some_iff.mp hc
          have hknown : ¬ (c = 'P' ∨ c = '<') := fun hc => by
            have hnone := hu t
            rw [hw, readFlags?_unknown hc] at hnone
            cases hnone
          refine ⟨fun hP => hknown (.inl hP), fun hlt => hknown (.inr hlt), ?_⟩
          rintro rfl
          obtain ⟨w', hw'⟩ := List.head?_eq_some_iff.mp ((head?_append_cons u stop rest t).trans hc)
          exact hclose w' hw'
        rw [List.cons_append, List.cons_append, List.append_assoc, List.singleton_append,
          readOpening?_flags hhead, hu, Option.map_some]
    next hopen => exact absurd rfl (hopen v)
  · rw [readOpening?_plain hcs] at h
    cases h
    exact ⟨[], by simp, rfl, fun t ht => readOpening?_plain fun hhead => hcs (ht hhead)⟩

end Opening

section Bounds

variable {cs rest : List Char}

theorem head?_dropWhile_seam {P : Char → Bool} {t : List Char} (h : t.head? = (cs.dropWhile P).head?) :
    ∀ c, t.head? = some c → P c = false := by
  intro c hc
  have hnot := List.head?_dropWhile_not P cs
  rw [← h, hc] at hnot
  exact hnot

theorem readCount?_seam {n : Nat} {c : Char} (h : readCount? cs = some (n, c :: rest)) :
    ∃ u, cs = u ++ c :: rest ∧ ∀ t, readCount? (u ++ c :: t) = some (n, c :: t) := by
  obtain ⟨m, hm, h⟩ := Option.bind_eq_some_iff.mp h
  split at h
  next hlt =>
    let number := cs.dropWhile isBlank
    let after := number.dropWhile isDigit
    obtain ⟨rfl, hrest⟩ := Prod.mk.inj (Option.some.inj h)
    have hafter : after = after.takeWhile isBlank ++ c :: rest := eq_of_dropWhile hrest
    have hnumber : number = number.takeWhile isDigit ++ (after.takeWhile isBlank ++ c :: rest) := by
      rw [← hafter, List.takeWhile_append_dropWhile]
    refine ⟨cs.takeWhile isBlank ++ (number.takeWhile isDigit ++ after.takeWhile isBlank), ?_, fun t => ?_⟩
    · rw [List.append_assoc, List.append_assoc, ← hnumber, List.takeWhile_append_dropWhile]
    · have hdigits : (after.takeWhile isBlank ++ c :: t).head? = after.head? := by
        rw [head?_append_cons _ c t rest, ← hafter]
      have hblanks : (number.takeWhile isDigit ++ (after.takeWhile isBlank ++ c :: t)).head? =
          number.head? := by
        rw [head?_append_congr (hdigits.trans (congrArg List.head? hafter)), ← hnumber]
      unfold readCount?
      rw [List.append_assoc, List.append_assoc, dropWhile_seam (head?_dropWhile_seam hblanks)]
      dsimp only
      rw [takeWhile_seam (head?_dropWhile_seam hdigits), dropWhile_seam (head?_dropWhile_seam hdigits),
        dropWhile_stop hrest, hm]
      exact if_pos hlt
  next => cases h

theorem readBounds?_seam {bounds : Nat × Option Nat} (h : readBounds? cs = some (bounds, rest)) :
    ∃ u, cs = u ++ '\x7d' :: rest ∧ ∀ t, readBounds? (u ++ '\x7d' :: t) = some (bounds, t) := by
  obtain ⟨⟨least, middle⟩, hleast, h⟩ := Option.bind_eq_some_iff.mp h
  dsimp only at h
  split at h
  next =>
    cases h
    obtain ⟨u, rfl, hu⟩ := readCount?_seam hleast
    refine ⟨u, rfl, fun t => ?_⟩
    rw [readBounds?, hu]
    rfl
  next =>
    cases h
    obtain ⟨u, rfl, hu⟩ := readCount?_seam hleast
    refine ⟨u ++ [','], by simp, fun t => ?_⟩
    rw [List.append_assoc, List.singleton_append, readBounds?, hu]
    rfl
  next more hclose =>
    obtain ⟨⟨most, middle'⟩, hmost, h⟩ := Option.bind_eq_some_iff.mp h
    dsimp only at h
    split at h
    next =>
      split at h
      next hle =>
        cases h
        obtain ⟨u, rfl, hu⟩ := readCount?_seam hleast
        obtain ⟨v, rfl, hv⟩ := readCount?_seam hmost
        refine ⟨u ++ ',' :: v, by simp, fun t => ?_⟩
        cases v with
        | nil => exact absurd rfl (hclose _)
        | cons d v =>
          have hd : d ≠ '\x7d' := by
            rintro rfl
            exact hclose _ rfl
          have hv' := hv t
          rw [List.cons_append] at hv'
          rw [List.append_assoc, List.cons_append, List.cons_append, readBounds?, hu]
          simp [hd, hv', hle]
      next => cases h
    next => cases h
  next => cases h

def readOperator? : List Char → Option ((Nat × Option Nat) × List Char)
  | '*' :: rest => some ((0, none), rest)
  | '+' :: rest => some ((1, none), rest)
  | '?' :: rest => some ((0, some 1), rest)
  | '\x7b' :: rest => readBounds? rest
  | _ => none

theorem readOperator?_seam {bounds : Nat × Option Nat} (h : readOperator? cs = some (bounds, rest)) :
    ∃ u, u ≠ [] ∧ u.getLast? ≠ some '$' ∧ cs = u ++ rest ∧
      ∀ t, readOperator? (u ++ t) = some (bounds, t) := by
  unfold readOperator? at h
  split at h
  next =>
    cases h
    exact ⟨['*'], by simp, by decide, rfl, fun _ => rfl⟩
  next =>
    cases h
    exact ⟨['+'], by simp, by decide, rfl, fun _ => rfl⟩
  next =>
    cases h
    exact ⟨['?'], by simp, by decide, rfl, fun _ => rfl⟩
  next =>
    obtain ⟨u, rfl, hu⟩ := readBounds?_seam h
    refine ⟨'\x7b' :: u ++ ['\x7d'], by simp, getLast?_concat_ne _ (by decide), by simp, fun t => ?_⟩
    rw [List.append_assoc, List.singleton_append]
    exact hu t
  next => cases h

theorem passLazy_eq {bounds : Nat × Option Nat} :
    (match rest with
      | '?' :: rest => some (bounds, rest)
      | _ => some (bounds, rest)) = some (bounds, if rest.head? = some '?' then rest.tail else rest) := by
  split
  next => rfl
  next hlazy =>
    rw [if_neg]
    intro h
    obtain ⟨v, hv⟩ := List.head?_eq_some_iff.mp h
    exact hlazy v hv

theorem readRepetition?_eq : readRepetition? cs = (readOperator? cs).map fun (bounds, rest) =>
    (bounds, if rest.head? = some '?' then rest.tail else rest) := by
  cases cs with
  | nil => rfl
  | cons c v =>
    by_cases hstar : c = '*'
    · subst hstar
      exact passLazy_eq
    by_cases hplus : c = '+'
    · subst hplus
      exact passLazy_eq
    by_cases hquery : c = '?'
    · subst hquery
      exact passLazy_eq
    by_cases hbrace : c = '\x7b'
    · subst hbrace
      have hoperator : readOperator? ('\x7b' :: v) = readBounds? v := rfl
      rw [hoperator, Option.map_eq_bind]
      exact congrArg (Option.bind _) (funext fun _ => passLazy_eq)
    · simp [readRepetition?, readOperator?, hstar, hplus, hquery, hbrace]

theorem readRepetition?_seam {bounds : Nat × Option Nat} (h : readRepetition? cs = some (bounds, rest)) :
    ∃ u, u ≠ [] ∧ u.getLast? ≠ some '$' ∧ cs = u ++ rest ∧
      ∀ t, (t.head? = some '?' → rest.head? = some '?') → readRepetition? (u ++ t) = some (bounds, t) := by
  rw [readRepetition?_eq] at h
  obtain ⟨⟨bounds', middle⟩, hoperator, heq⟩ := Option.map_eq_some_iff.mp h
  obtain ⟨u, hne, hlast, rfl, hu⟩ := readOperator?_seam hoperator
  obtain ⟨rfl, hrest⟩ := Prod.mk.inj heq
  by_cases hlazy : middle.head? = some '?'
  · obtain ⟨v, rfl⟩ := List.head?_eq_some_iff.mp hlazy
    obtain rfl : v = rest := hrest
    refine ⟨u ++ ['?'], by simp, getLast?_concat_ne _ (by decide), by simp, fun t _ => ?_⟩
    rw [readRepetition?_eq, List.append_assoc, List.singleton_append, hu, Option.map_some]
    rfl
  · rw [if_neg hlazy] at hrest
    subst hrest
    refine ⟨u, hne, hlast, rfl, fun t ht => ?_⟩
    rw [readRepetition?_eq, hu, Option.map_some]
    dsimp only
    rw [if_neg fun hhead => hlazy (ht hhead)]

end Bounds

section Atom

variable {cs rest : List Char} {flags : Flags}

/-- Whether a dollar sign that a text ends with has been read as its only character or after a
backslash. -/
def LoneDollar (u : List Char) : Prop := u.getLast? = some '$' → u = ['$'] ∨ u = ['\\', '$']

theorem LoneDollar.of_ne {u : List Char} (h : u.getLast? ≠ some '$') : LoneDollar u :=
  fun hdollar => absurd hdollar h

theorem readAtom?_single {c : Char} (hc : c ≠ '\\') (flags : Flags) :
    ∃ p, ∀ v, readAtom? flags (c :: v) = some (p, v) := by
  by_cases hpoint : c = '.'
  · subst hpoint
    exact ⟨_, fun _ => rfl⟩
  by_cases hcaret : c = '^'
  · subst hcaret
    exact ⟨_, fun _ => rfl⟩
  by_cases hdollar : c = '$'
  · subst hdollar
    exact ⟨_, fun _ => rfl⟩
  · refine ⟨one ((CharSet.single c).anyCaseIf flags.caseless), fun v => ?_⟩
    simp [readAtom?]

theorem readAtom?_seam {p : Pattern} (h : readAtom? flags cs = some (p, rest)) :
    ∃ u, u ≠ [] ∧ LoneDollar u ∧ cs = u ++ rest ∧
      ∀ t, (Escape.EdgeFree rest → Escape.EdgeFree t) → readAtom? flags (u ++ t) = some (p, t) := by
  cases cs with
  | nil => cases h
  | cons c v =>
    by_cases hescape : c = '\\'
    · subst hescape
      obtain ⟨⟨e, rest'⟩, he, heq⟩ := Option.map_eq_some_iff.mp h
      obtain ⟨rfl, rfl⟩ := Prod.mk.inj heq
      obtain ⟨u, hne, hlast, rfl, hu⟩ := Escape.read?_seam he
      refine ⟨'\\' :: u, by simp, fun hdollar => ?_, rfl, fun t ht => ?_⟩
      · rw [List.getLast?_cons_of_ne_nil hne] at hdollar
        exact .inr (congrArg _ (hlast hdollar))
      · rw [List.cons_append, readAtom?, hu t fun _ => ht, Option.map_some]
    · obtain ⟨p', hp⟩ := readAtom?_single hescape flags
      rw [hp] at h
      cases h
      exact ⟨[c], by simp, fun hdollar => .inl (by simpa using hdollar), rfl, fun t _ => hp t⟩

end Atom

/-- What one item does to the group being read: it starts the next alternative, changes the flags, is
matched itself, or repeats the item before it. -/
inductive Item where
  | bar
  | flags (flags : Flags)
  | part (p : Pattern) (names : List String)
  | times (least : Nat) (most : Option Nat)

def Reading.put? (r : Reading) : Item → Option Reading
  | .bar => some r.nextBranch
  | .flags flags => some (r.setFlags flags)
  | .part p names => some { r.add p with names := names }
  | .times least most => r.repeatLast? least most

def readItem? (fuel : Nat) (flags : Flags) (names : List String) :
    List Char → Option (Item × List Char)
  | [] => none
  | c :: rest =>
    if c = ')' then none
    else if c = '|' then some (.bar, rest)
    else if c = '(' then do
      match ← readOpening? flags rest with
      | (.flags flags, rest) => some (.flags flags, rest)
      | (.group flags name, rest) =>
        let inner ← ({ names := names } : Reading).inner? flags name
        let (body, names, rest) ← readBranches? fuel true inner rest
        some (.part body names, rest)
    else if c = '[' then
      (Class.read? flags.caseless fuel rest).map fun (set, rest) => (.part (one set) names, rest)
    else if isRepetition c then
      (readRepetition? (c :: rest)).map fun (bounds, rest) => (.times bounds.1 bounds.2, rest)
    else (readAtom? flags (c :: rest)).map fun (p, rest) => (.part p names, rest)

theorem readBranches?_cons {c : Char} (hc : c ≠ ')') (fuel : Nat) (nested : Bool) (r : Reading)
    (rest : List Char) : readBranches? (fuel + 1) nested r (c :: rest) =
      (readItem? fuel r.flags r.names (c :: rest)).bind fun (item, rest) =>
        (r.put? item).bind fun r => readBranches? fuel nested r rest := by
  have hinner (flags : Flags) (name : Option String) :
      ({ names := r.names } : Reading).inner? flags name = r.inner? flags name := by
    cases name <;> rfl
  simp only [readBranches?, readItem?, if_neg hc]
  split
  next => rfl
  next =>
    split
    next =>
      cases readOpening? r.flags rest with
      | none => rfl
      | some opened =>
        obtain ⟨opening, rest⟩ := opened
        cases opening with
        | group flags name => simp [hinner, Option.bind_assoc, Reading.put?]
        | flags flags => rfl
    next =>
      split
      next => cases Class.read? r.flags.caseless fuel rest <;> rfl
      next =>
        split
        next => cases readRepetition? (c :: rest) <;> rfl
        next => cases readAtom? r.flags (c :: rest) <;> rfl

theorem readBranches?_of_readItem? {fuel : Nat} {r r' : Reading} {cs rest : List Char} {item : Item}
    (hitem : readItem? fuel r.flags r.names cs = some (item, rest)) (hput : r.put? item = some r')
    (nested : Bool) : readBranches? (fuel + 1) nested r cs = readBranches? fuel nested r' rest := by
  cases cs with
  | nil => cases hitem
  | cons c v =>
    have hc : c ≠ ')' := by
      rintro rfl
      cases hitem
    rw [readBranches?_cons hc, hitem]
    dsimp only [Option.bind_some]
    rw [hput, Option.bind_some]

/-- Where an item ends before `rest`, it also ends before `t`. -/
structure Ahead (rest t : List Char) : Prop where
  edge : Escape.EdgeFree rest → Escape.EdgeFree t
  lazy : t.head? = some '?' → rest.head? = some '?'

theorem Ahead.close (v rest t : List Char) : Ahead (v ++ ')' :: rest) (v ++ ')' :: t) where
  edge h := by
    rw [Escape.edgeFree_iff] at h ⊢
    intro w heq
    cases v with
    | nil => cases heq
    | cons c v =>
      obtain ⟨rfl, rfl⟩ := List.cons.inj heq
      exact head?_append_cons v ')' rest t ▸ h _ rfl
  lazy h := (head?_append_cons v ')' rest t).trans h

/-- A group ends with the parenthesis that closes it, and takes no more steps than it has characters. -/
def Nests (r : Reading) (cs rest : List Char) (p : Pattern) (names : List String) : Prop :=
  ∃ u, cs = u ++ ')' :: rest ∧
    ∀ fuel t, u.length + 1 ≤ fuel → readBranches? fuel true r (u ++ ')' :: t) = some (p, names, t)

def Ends (flags : Flags) (names : List String) (cs rest : List Char) (item : Item) : Prop :=
  ∃ u, u ≠ [] ∧ LoneDollar u ∧ cs = u ++ rest ∧
    ∀ fuel t, u.length ≤ fuel → Ahead rest t → readItem? fuel flags names (u ++ t) = some (item, t)

section Ends

variable {fuel : Nat} {flags : Flags} {names : List String} {v rest : List Char} {item : Item}

theorem ends_group
    (ih : ∀ {r cs p names rest}, readBranches? fuel true r cs = some (p, names, rest) → Nests r cs rest p names)
    (h : readItem? fuel flags names ('(' :: v) = some (item, rest)) : Ends flags names ('(' :: v) rest item := by
  obtain ⟨⟨opening, middle⟩, hopening, h⟩ := Option.bind_eq_some_iff.mp h
  obtain ⟨u, hlast, rfl, hu⟩ := readOpening?_seam hopening
  cases opening with
  | flags flags' =>
    cases h
    refine ⟨'(' :: u, by simp, .of_ne ?_, rfl, fun fuel t _ ht => ?_⟩
    · cases u with
      | nil => decide
      | cons c u => exact hlast
    · exact Option.bind_eq_some_iff.mpr ⟨_, hu t ht.lazy, rfl⟩
  | group flags' name =>
    obtain ⟨inner, hinner, h⟩ := Option.bind_eq_some_iff.mp h
    obtain ⟨⟨body, names', rest'⟩, hbody, heq⟩ := Option.bind_eq_some_iff.mp h
    cases heq
    obtain ⟨w, rfl, hw⟩ := ih hbody
    refine ⟨'(' :: u ++ (w ++ [')']), by simp, .of_ne ?_, by simp, fun fuel t hfuel ht => ?_⟩
    · rw [← List.append_assoc]
      exact getLast?_concat_ne _ (by decide)
    · simp only [List.length_append, List.length_cons, List.length_nil] at hfuel
      have hsplit : '(' :: u ++ (w ++ [')']) ++ t = '(' :: (u ++ (w ++ ')' :: t)) := by simp
      rw [hsplit]
      refine Option.bind_eq_some_iff.mpr ⟨_, hu _ fun hhead => ?_, ?_⟩
      · exact (head?_append_cons w ')' rest t).trans hhead
      · exact Option.bind_eq_some_iff.mpr ⟨_, hinner, Option.bind_eq_some_iff.mpr ⟨_, hw _ t (by omega), rfl⟩⟩

theorem ends_class (h : readItem? fuel flags names ('[' :: v) = some (item, rest)) :
    Ends flags names ('[' :: v) rest item := by
  obtain ⟨⟨set, rest'⟩, hset, heq⟩ := Option.map_eq_some_iff.mp h
  cases heq
  obtain ⟨u, rfl, hu⟩ := (Class.closes fuel).1 hset
  refine ⟨'[' :: u ++ [']'], by simp, .of_ne (getLast?_concat_ne _ (by decide)), by simp,
    fun fuel t hfuel _ => ?_⟩
  simp only [List.length_append, List.length_cons, List.length_nil] at hfuel
  rw [List.append_assoc, List.singleton_append]
  exact Option.map_eq_some_iff.mpr ⟨_, hu fuel t (by omega), rfl⟩

theorem readItem?_repetition {c : Char} (hc : isRepetition c = true) : readItem? fuel flags names (c :: v) =
    (readRepetition? (c :: v)).map fun (bounds, rest) => (.times bounds.1 bounds.2, rest) := by
  have hclose : c ≠ ')' := by rintro rfl; cases hc
  have hbar : c ≠ '|' := by rintro rfl; cases hc
  have hgroup : c ≠ '(' := by rintro rfl; cases hc
  have hclass : c ≠ '[' := by rintro rfl; cases hc
  rw [readItem?, if_neg hclose, if_neg hbar, if_neg hgroup, if_neg hclass, if_pos hc]

theorem readItem?_atom {c : Char} (hc : c ∉ [')', '|', '(', '[']) (hrep : ¬ isRepetition c = true) :
    readItem? fuel flags names (c :: v) =
      (readAtom? flags (c :: v)).map fun (p, rest) => (.part p names, rest) := by
  simp only [List.mem_cons, List.not_mem_nil, or_false, not_or] at hc
  obtain ⟨hclose, hbar, hgroup, hclass⟩ := hc
  rw [readItem?, if_neg hclose, if_neg hbar, if_neg hgroup, if_neg hclass, if_neg hrep]

theorem ends_of_map {α : Type} {f : List Char → Option (α × List Char)} {g : α → Item} {c : Char}
    (hstep : ∀ fuel v, readItem? fuel flags names (c :: v) = (f (c :: v)).map fun (a, rest) => (g a, rest))
    (hf : ∀ {a rest}, f (c :: v) = some (a, rest) → ∃ u, u ≠ [] ∧ LoneDollar u ∧ c :: v = u ++ rest ∧
      ∀ t, Ahead rest t → f (u ++ t) = some (a, t))
    (h : readItem? fuel flags names (c :: v) = some (item, rest)) : Ends flags names (c :: v) rest item := by
  rw [hstep] at h
  obtain ⟨⟨a, rest'⟩, ha, heq⟩ := Option.map_eq_some_iff.mp h
  cases heq
  obtain ⟨u, hne, hlast, hv, hu⟩ := hf ha
  refine ⟨u, hne, hlast, hv, fun fuel t _ ht => ?_⟩
  cases u with
  | nil => exact absurd rfl hne
  | cons d u =>
    obtain rfl := (List.cons.inj hv).1
    rw [List.cons_append, hstep]
    exact Option.map_eq_some_iff.mpr ⟨_, hu t ht, rfl⟩

theorem ends_repetition {c : Char} (hc : isRepetition c = true)
    (h : readItem? fuel flags names (c :: v) = some (item, rest)) : Ends flags names (c :: v) rest item := by
  refine ends_of_map (f := readRepetition?) (g := fun bounds => .times bounds.1 bounds.2)
    (fun _ _ => readItem?_repetition hc) (fun hbounds => ?_) h
  obtain ⟨u, hne, hlast, hv, hu⟩ := readRepetition?_seam hbounds
  exact ⟨u, hne, .of_ne hlast, hv, fun t ht => hu t ht.lazy⟩

theorem ends_atom {c : Char} (hc : c ∉ [')', '|', '(', '[']) (hrep : ¬ isRepetition c = true)
    (h : readItem? fuel flags names (c :: v) = some (item, rest)) : Ends flags names (c :: v) rest item := by
  refine ends_of_map (f := readAtom? flags) (g := fun p => .part p names)
    (fun _ _ => readItem?_atom hc hrep) (fun hp => ?_) h
  obtain ⟨u, hne, hlast, hv, hu⟩ := readAtom?_seam hp
  exact ⟨u, hne, hlast, hv, fun t ht => hu t ht.edge⟩

theorem ends_item {cs : List Char}
    (ih : ∀ {r cs p names rest}, readBranches? fuel true r cs = some (p, names, rest) → Nests r cs rest p names)
    (h : readItem? fuel flags names cs = some (item, rest)) : Ends flags names cs rest item := by
  cases cs with
  | nil => cases h
  | cons c v =>
    by_cases hrep : isRepetition c = true
    · exact ends_repetition hrep h
    by_cases hc : c ∈ [')', '|', '(', '[']
    · simp only [List.mem_cons, List.not_mem_nil, or_false] at hc
      rcases hc with rfl | rfl | rfl | rfl
      · cases h
      · cases h
        exact ⟨['|'], by simp, .of_ne (by decide), rfl, fun _ _ _ _ => rfl⟩
      · exact ends_group ih h
      · exact ends_class h
    · exact ends_atom hc hrep h

theorem nests {r : Reading} {cs : List Char} {p : Pattern}
    (h : readBranches? fuel true r cs = some (p, names, rest)) : Nests r cs rest p names := by
  induction fuel generalizing r cs p names rest with
  | zero => cases h
  | succ fuel ih =>
    cases cs with
    | nil => cases h
    | cons c v =>
      by_cases hc : c = ')'
      · subst hc
        cases h
        refine ⟨[], rfl, fun fuel t hfuel => ?_⟩
        obtain ⟨k, rfl⟩ := Nat.exists_eq_add_of_le' hfuel
        rfl
      · rw [readBranches?_cons hc] at h
        obtain ⟨⟨item, middle⟩, hitem, h⟩ := Option.bind_eq_some_iff.mp h
        obtain ⟨r', hput, hrest⟩ := Option.bind_eq_some_iff.mp h
        obtain ⟨u, hne, -, hv, hu⟩ := ends_item ih hitem
        obtain ⟨w, rfl, hw⟩ := ih hrest
        rw [hv]
        refine ⟨u ++ w, by simp, fun fuel t hfuel => ?_⟩
        rw [List.length_append] at hfuel
        have hpos := List.length_pos_iff.mpr hne
        obtain ⟨k, rfl⟩ : ∃ k, fuel = k + 1 := ⟨fuel - 1, by omega⟩
        have hagain := hu k (w ++ ')' :: t) (by omega) (.close w rest t)
        rw [List.append_assoc, readBranches?_of_readItem? hagain hput]
        exact hw k t (by omega)

end Ends

end Formwork.Pattern
