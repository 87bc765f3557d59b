import Formwork.Proofs.Items

/-! What is read of a text that writes a pattern, item by item, and what is read when a circumflex stands
before the text or a dollar sign behind it. -/

namespace Formwork.Pattern

/-- The text is read from one state of a group to another, item by item. -/
inductive Reads : Reading → List Char → Reading → Prop
  | done (r : Reading) : Reads r [] r
  | item {r r₁ r₂ : Reading} {cs rest : List Char} {item : Item} (fuel : Nat)
    (hitem : readItem? fuel r.flags r.names cs = some (item, rest)) (hput : r.put? item = some r₁)
    (hrest : Reads r₁ rest r₂) : Reads r cs r₂

variable {r r' r'' s s' : Reading} {cs : List Char} {fuel : Nat}

theorem Ends.of_readItem? {flags : Flags} {names : List String} {rest : List Char} {item : Item}
    (h : readItem? fuel flags names cs = some (item, rest)) : Ends flags names cs rest item :=
  ends_item nests h

theorem Ahead.refl (rest : List Char) : Ahead rest rest := ⟨id, id⟩

/-- What cannot be part of the item before it can be added to a text, or taken away, unless an opening
brace would come to stand at the end. -/
theorem Ahead.concat (v : List Char) {c : Char} (t : List Char) (hc : c ≠ '\x7b' ∧ c ≠ '?') :
    Ahead v (v ++ c :: t) where
  edge h := by
    rw [Escape.edgeFree_iff] at h ⊢
    intro w heq
    cases v with
    | nil => exact absurd (List.cons.inj heq).1 hc.1
    | cons d v =>
      obtain ⟨rfl, rfl⟩ := List.cons.inj heq
      obtain ⟨e, he, hname⟩ := h v rfl
      obtain ⟨z, rfl⟩ := List.head?_eq_some_iff.mp he
      exact ⟨e, rfl, hname⟩
  lazy h := by
    cases v with
    | nil => exact absurd (Option.some.inj h) hc.2
    | cons d v => exact h

theorem Ahead.dropLast (v : List Char) {c : Char} (hv : v ≠ ['\x7b']) : Ahead (v ++ [c]) v where
  edge h := by
    rw [Escape.edgeFree_iff] at h ⊢
    rintro w rfl
    obtain ⟨e, he, hname⟩ := h (w ++ [c]) rfl
    cases w with
    | nil => exact absurd rfl hv
    | cons d w => exact ⟨e, he, hname⟩
  lazy h := by
    cases v with
    | nil => cases h
    | cons d v => exact h

theorem Reads.readBranches?_of_close (h : Reads r cs r') (t : List Char) (hfuel : cs.length + 1 ≤ fuel) :
    readBranches? fuel true r (cs ++ ')' :: t) = some (r'.pattern, r'.names, t) ∧
      readBranches? fuel false r cs = some (r'.pattern, r'.names, []) := by
  induction h generalizing fuel with
  | done r =>
    obtain ⟨k, rfl⟩ := Nat.exists_eq_add_of_le' hfuel
    exact ⟨rfl, rfl⟩
  | @item r r₁ r₂ cs rest item k hitem hput hrest ih =>
    obtain ⟨u, hne, -, rfl, hu⟩ := Ends.of_readItem? hitem
    rw [List.length_append] at hfuel
    have hpos := List.length_pos_iff.mpr hne
    obtain ⟨fuel, rfl⟩ : ∃ k, fuel = k + 1 := ⟨fuel - 1, by omega⟩
    have hclose := hu fuel (rest ++ ')' :: t) (by omega) (.concat rest t (by decide))
    have hend := hu fuel rest (by omega) (.refl rest)
    rw [List.append_assoc, readBranches?_of_readItem? hclose hput, readBranches?_of_readItem? hend hput]
    exact ih (by omega)

theorem reads_of_readBranches? {p : Pattern} {names : List String} {rest : List Char}
    (h : readBranches? fuel false r cs = some (p, names, rest)) : ∃ r', Reads r cs r' ∧ r'.pattern = p := by
  induction fuel generalizing r cs with
  | zero => cases h
  | succ fuel ih =>
    cases cs with
    | nil =>
      cases h
      exact ⟨r, .done r, rfl⟩
    | cons c v =>
      by_cases hc : c = ')'
      · subst hc
        cases h
      · rw [readBranches?_cons hc] at h
        obtain ⟨⟨item, rest'⟩, hitem, h⟩ := Option.bind_eq_some_iff.mp h
        obtain ⟨r₁, hput, hrest⟩ := Option.bind_eq_some_iff.mp h
        obtain ⟨r', hreads, hp⟩ := ih hrest
        exact ⟨r', .item fuel hitem hput hreads, hp⟩

theorem read?_eq_some_iff {text : String} {p : Pattern} :
    read? text = some p ↔ ∃ r, Reads {} text.toList r ∧ r.pattern = p ∧ p.weight ≤ weightLimit := by
  constructor
  · intro h
    obtain ⟨⟨p', names, rest⟩, hbranches, h⟩ := Option.bind_eq_some_iff.mp h
    dsimp only at h
    split at h
    next hweight =>
      cases h
      obtain ⟨r, hreads, rfl⟩ := reads_of_readBranches? hbranches
      exact ⟨r, hreads, rfl, hweight⟩
    next => cases h
  · rintro ⟨r, hreads, rfl, hweight⟩
    have hbranches := (hreads.readBranches?_of_close [] (by omega : _ ≤ 2 * text.toList.length + 2)).2
    exact Option.bind_eq_some_iff.mpr ⟨_, hbranches, if_pos hweight⟩

theorem Reads.unique (h : Reads r cs r') (h' : Reads r cs r'') : r' = r'' := by
  induction h with
  | done r =>
    cases h' with
    | done => rfl
    | item fuel hitem _ _ => cases hitem
  | @item r r₁ r₂ cs rest item fuel hitem hput _ ih =>
    cases h' with
    | done => cases hitem
    | @item _ r₁' _ _ rest' item' fuel' hitem' hput' hrest' =>
      obtain ⟨u, -, -, rfl, hu⟩ := Ends.of_readItem? hitem
      obtain ⟨u', -, -, hcs, hu'⟩ := Ends.of_readItem? hitem'
      have hsame := hu (max u.length u'.length) rest (Nat.le_max_left _ _) (.refl rest)
      rw [hcs, hu' (max u.length u'.length) rest' (Nat.le_max_right _ _) (.refl rest')] at hsame
      cases hsame
      rw [hput] at hput'
      cases hput'
      exact ih hrest'

def Flags.dollar (flags : Flags) : Look := if flags.lines then .lineEnd else .textEnd

section Dollar

theorem Reads.dollar (h : Reads r cs r') :
    Reads r (cs ++ ['$']) (r'.add (look r'.flags.dollar)) := by
  induction h with
  | done r => exact .item 0 rfl rfl (.done _)
  | item fuel hitem hput _ ih =>
    obtain ⟨u, -, -, rfl, hu⟩ := Ends.of_readItem? hitem
    rw [List.append_assoc]
    have hagain := hu u.length _ (Nat.le_refl _) (.concat (c := '$') _ [] (by decide))
    exact .item _ hagain hput ih

theorem not_reads_brace : ¬ Reads r ['\x7b', '$'] r' := by
  intro h
  cases h with
  | item fuel hitem _ _ => cases hitem

/-- A dollar sign at the end of a text is an item of its own, unless a backslash stands before it. -/
theorem Reads.of_dollar (h : Reads r (cs ++ ['$']) r'') (hcs : cs.getLast? ≠ some '\\') :
    ∃ r', Reads r cs r' ∧ r'' = r'.add (look r'.flags.dollar) := by
  generalize htext : cs ++ ['$'] = text at h
  induction h generalizing cs with
  | done r => simp at htext
  | @item r r₁ r₂ text rest item fuel hitem hput hrest ih =>
    obtain ⟨u, hne, hlone, rfl, hu⟩ := Ends.of_readItem? hitem
    rcases rest.eq_nil_or_concat' with rfl | ⟨w, c, rfl⟩
    · rw [List.append_nil] at htext
      subst htext
      rcases hlone List.getLast?_concat with hu' | hu'
      · obtain rfl : cs = [] := by simpa using hu'
        cases hitem
        cases hput
        cases hrest with
        | done => exact ⟨r, .done r, rfl⟩
        | item fuel hitem _ _ => cases hitem
      · have hslash : cs = ['\\'] := List.append_cancel_right (hu' : cs ++ ['$'] = ['\\'] ++ ['$'])
        exact absurd (by rw [hslash]; rfl) hcs
    · rw [← List.append_assoc] at htext
      obtain ⟨rfl, hc⟩ := List.append_inj' htext rfl
      obtain rfl : '$' = c := List.singleton_inj.mp hc
      by_cases hw : w = ['\x7b']
      · subst hw
        exact absurd hrest not_reads_brace
      · have hlast : w.getLast? ≠ some '\\' := fun heq => hcs (by rw [List.getLast?_append, heq]; rfl)
        obtain ⟨r', hreads, heq⟩ := ih hlast rfl
        exact ⟨r', .item _ (hu u.length w (Nat.le_refl _) (.dropLast w hw)) hput hreads, heq⟩

end Dollar

section Graft

/-- A group to which an item of its own has been added in front of everything else in its first branch. -/
inductive Grafted (p : Pattern) : Reading → Reading → Prop
  | first {r : Reading} (h : r.branches = []) : Grafted p r { r with items := r.items ++ [some p] }
  | later {r : Reading} {bs : List Pattern} {b : Pattern} (h : r.branches = bs ++ [b]) :
    Grafted p r { r with branches := bs ++ [seq p b] }

variable {p : Pattern} {item : Item}

theorem Grafted.same (h : Grafted p r s) : s.flags = r.flags ∧ s.names = r.names := by
  cases h <;> exact ⟨rfl, rfl⟩

theorem branch_graft (r : Reading) (p : Pattern) :
    ({ r with items := r.items ++ [some p] } : Reading).branch = seq p r.branch := by
  simp [Reading.branch, concat]

def Reading.Fresh (r : Reading) : Prop := r.items = [] ∧ r.branches = []

theorem not_fresh_of_put? (h : r.put? item = some r') : ¬ r'.Fresh := by
  rintro ⟨hitems, hbranches⟩
  cases item with
  | bar =>
    cases h
    cases hbranches
  | flags flags =>
    cases h
    cases hitems
  | part p names =>
    cases h
    cases hitems
  | times least most =>
    rw [Reading.put?, Reading.repeatLast?] at h
    split at h
    next =>
      cases h
      cases hitems
    next => cases h

/-- An item does the same to both groups, but for a repetition of what has been added. -/
theorem Grafted.rel_put? (h : Grafted p r s) (hfresh : r.Fresh → ∀ least most, item ≠ .times least most) :
    Option.Rel (Grafted p) (r.put? item) (s.put? item) := by
  cases h with
  | first hb =>
    cases item with
    | bar =>
      have hnext : ({ r with items := r.items ++ [some p] } : Reading).nextBranch =
          { r.nextBranch with branches := [] ++ [seq p r.branch] } := by
        rw [Reading.nextBranch, branch_graft]
        simp only [Reading.nextBranch, hb, List.nil_append]
      exact .some (hnext ▸ .later (by simp [Reading.nextBranch, hb]))
    | flags flags => exact .some (.first hb)
    | part q names => exact .some (.first hb)
    | times least most =>
      cases hitems : r.items with
      | nil => exact absurd rfl (hfresh ⟨hitems, hb⟩ least most)
      | cons last items =>
        cases last with
        | none => simp [Reading.put?, Reading.repeatLast?, hitems]
        | some q =>
          simp only [Reading.put?, Reading.repeatLast?, hitems, List.cons_append]
          exact .some (.first hb)
  | @later bs b hb =>
    cases item with
    | bar =>
      have hnext : r.nextBranch.branches = (r.branch :: bs) ++ [b] := congrArg (r.branch :: ·) hb
      exact .some (.later hnext)
    | flags flags => exact .some (.later hb)
    | part q names => exact .some (.later hb)
    | times least most =>
      simp only [Reading.put?, Reading.repeatLast?]
      cases r.items with
      | nil => exact .none
      | cons last items =>
        cases last with
        | none => exact .none
        | some q => exact .some (.later hb)

theorem not_fresh_of_times {least : Nat} {most : Option Nat} (h : r.put? (.times least most) = some r') :
    ¬ r.Fresh := by
  rintro ⟨hitems, -⟩
  simp [Reading.put?, Reading.repeatLast?, hitems] at h

theorem Grafted.put? (h : Grafted p r s) (hput : r.put? item = some r') :
    ∃ s', s.put? item = some s' ∧ Grafted p r' s' := by
  have hfresh : r.Fresh → ∀ least most, item ≠ .times least most := by
    rintro hr least most rfl
    exact not_fresh_of_times hput hr
  have hrel := h.rel_put? hfresh
  rw [hput] at hrel
  generalize s.put? item = answer at hrel
  cases hrel with
  | some hgraft => exact ⟨_, rfl, hgraft⟩

theorem Grafted.of_put? (h : Grafted p r s) (hfresh : r.Fresh → ∀ least most, item ≠ .times least most)
    (hput : s.put? item = some s') : ∃ r', r.put? item = some r' ∧ Grafted p r' s' := by
  have hrel := h.rel_put? hfresh
  rw [hput] at hrel
  generalize r.put? item = answer at hrel
  cases hrel with
  | some hgraft => exact ⟨_, rfl, hgraft⟩

theorem Reads.graft (h : Reads r cs r') (hgraft : Grafted p r s) :
    ∃ s', Reads s cs s' ∧ Grafted p r' s' := by
  induction h generalizing s with
  | done r => exact ⟨s, .done s, hgraft⟩
  | item fuel hitem hput _ ih =>
    obtain ⟨s₁, hput', hgraft₁⟩ := hgraft.put? hput
    obtain ⟨s', hreads, hgraft'⟩ := ih hgraft₁
    obtain ⟨hflags, hnames⟩ := hgraft.same
    rw [← hflags, ← hnames] at hitem
    exact ⟨s', .item fuel hitem hput' hreads, hgraft'⟩

theorem isRepetition_of_readItem? {flags : Flags} {names : List String} {rest : List Char} {least : Nat}
    {most : Option Nat} (h : readItem? fuel flags names cs = some (.times least most, rest)) :
    ∃ c ∈ cs.head?, isRepetition c = true := by
  cases cs with
  | nil => cases h
  | cons c v =>
    refine ⟨c, rfl, by_contra fun hrep => ?_⟩
    by_cases hc : c ∈ [')', '|', '(', '[']
    · simp only [List.mem_cons, List.not_mem_nil, or_false] at hc
      rcases hc with rfl | rfl | rfl | rfl
      · cases h
      · cases h
      · obtain ⟨⟨opening, middle⟩, -, h⟩ := Option.bind_eq_some_iff.mp h
        cases opening with
        | flags => cases h
        | group =>
          obtain ⟨inner, -, h⟩ := Option.bind_eq_some_iff.mp h
          obtain ⟨body, -, heq⟩ := Option.bind_eq_some_iff.mp h
          cases heq
      · obtain ⟨set, -, heq⟩ := Option.map_eq_some_iff.mp h
        cases heq
    · rw [readItem?_atom hc hrep] at h
      obtain ⟨atom, -, heq⟩ := Option.map_eq_some_iff.mp h
      cases heq

/-- Only what repeats the item before it can tell whether something has been read before the text. -/
theorem Reads.of_graft (h : Reads s cs s') (hgraft : Grafted p r s)
    (hfresh : r.Fresh → ∀ c ∈ cs.head?, isRepetition c = false) :
    ∃ r', Reads r cs r' ∧ Grafted p r' s' := by
  induction h generalizing r with
  | done s => exact ⟨r, .done r, hgraft⟩
  | @item s s₁ s' cs rest item fuel hitem hput _ ih =>
    obtain ⟨hflags, hnames⟩ := hgraft.same
    rw [hflags, hnames] at hitem
    have hitems : r.Fresh → ∀ least most, item ≠ .times least most := by
      rintro hr least most rfl
      obtain ⟨c, hc, hrep⟩ := isRepetition_of_readItem? hitem
      rw [hfresh hr c hc] at hrep
      cases hrep
    obtain ⟨r₁, hput', hgraft₁⟩ := hgraft.of_put? hitems hput
    obtain ⟨r', hreads, hgraft'⟩ := ih hgraft₁ fun hr => absurd hr (not_fresh_of_put? hput')
    exact ⟨r', .item fuel hitem hput' hreads, hgraft'⟩

theorem reads_caret_iff : Reads {} ('^' :: cs) s' ↔ Reads (Reading.add {} (look .textStart)) cs s' := by
  constructor
  · intro h
    cases h with
    | item fuel hitem hput hrest =>
      cases hitem
      cases hput
      exact hrest
  · exact fun h => .item 0 rfl rfl h

end Graft

end Formwork.Pattern
