import Formwork.Proofs.Segments

/-! What an addition does to the tree of a store: one container takes a node at a new branch, and
everything else keeps its place. -/

namespace Formwork

namespace Node

def place? (key : String) : Node → Option Branch
  | group children =>
    if key = "" ∨ Keyed.contains key children = true then none else some (.key key)
  | array children => some (.index children.length)
  | leaf _ => none

def adding (n : Node) (key : String) (m : Node) : Node :=
  match n with
  | group children => group (Keyed.insert key m children)
  | array children => array (children ++ [m])
  | leaf l => leaf l

theorem place?_group {key : String} {children : List (String × Node)} {b : Branch}
    (h : (group children).place? key = some b) :
    b = .key key ∧ key ≠ "" ∧ Keyed.get? key children = none := by
  rw [place?] at h
  split at h
  · cases h
  · next hno =>
    have hfree : Keyed.contains key children ≠ true := fun hc => hno (.inr hc)
    refine ⟨(Option.some.inj h).symm, fun hk => hno (.inl hk), ?_⟩
    simpa [Keyed.contains] using hfree

theorem key_ne_empty_of_place {n : Node} {key k : String} (h : n.place? key = some (.key k)) :
    k ≠ "" := by
  cases n with
  | group children =>
    obtain ⟨hb, hne, -⟩ := place?_group h
    cases hb
    exact hne
  | array children => cases h
  | leaf l => cases h

theorem below?_place {n : Node} {key : String} {b : Branch} (h : n.place? key = some b) :
    n.below? b = none := by
  cases n with
  | group children =>
    obtain ⟨rfl, -, hfree⟩ := place?_group h
    exact hfree
  | array children =>
    cases h
    simp [below?]
  | leaf l => cases h

theorem below?_adding {n : Node} {key : String} {b : Branch} (h : n.place? key = some b) (m : Node)
    (b' : Branch) : (n.adding key m).below? b' = if b' = b then some m else n.below? b' := by
  cases n with
  | group children =>
    obtain ⟨rfl, -, -⟩ := place?_group h
    cases b' with
    | key k =>
      simp only [adding, below?, Branch.key.injEq]
      by_cases hk : k = key
      · rw [if_pos hk, hk, Keyed.get?_insert_self]
      · rw [if_neg hk, Keyed.get?_insert_of_ne hk]
    | index i => simp [adding, below?]
  | array children =>
    cases h
    cases b' with
    | key k => simp [adding, below?]
    | index i =>
      simp only [adding, below?, Branch.index.injEq, List.getElem?_append]
      by_cases hi : i = children.length
      · simp [hi]
      · by_cases hlt : i < children.length
        · simp [hi, hlt]
        · have hpos : i - children.length ≠ 0 := by omega
          simp [hi, hlt, hpos]
  | leaf l => cases h

theorem below?_adding_self {n : Node} {key : String} {b : Branch} (h : n.place? key = some b)
    (m : Node) : (n.adding key m).below? b = some m := by
  rw [below?_adding h, if_pos rfl]

theorem map_replace_of_get?_none {children : List (String × Node)} {key : String}
    (h : Keyed.get? key children = none) (m : Node) :
    (children.map fun (k, c) => if k = key then (k, m) else (k, c)) = children := by
  induction children with
  | nil => rfl
  | cons e children ih =>
    obtain ⟨k, c⟩ := e
    by_cases hk : k = key
    · simp [Keyed.get?, hk] at h
    · rw [Keyed.get?_cons, if_neg hk] at h
      simp [hk, ih h]

theorem map_replace_insert {children : List (String × Node)} {key : String}
    (h : Keyed.get? key children = none) (m m' : Node) :
    ((Keyed.insert key m children).map fun (k, c) => if k = key then (k, m') else (k, c)) =
      Keyed.insert key m' children := by
  induction children with
  | nil => simp [Keyed.insert]
  | cons e children ih =>
    obtain ⟨k, c⟩ := e
    by_cases hk : k = key
    · simp [Keyed.get?, hk] at h
    · rw [Keyed.get?_cons, if_neg hk] at h
      by_cases hlt : key < k
      · simp [Keyed.insert, hk, hlt, map_replace_of_get?_none h]
      · simp [Keyed.insert, hk, hlt, ih h]

theorem withBelow_adding {n : Node} {key : String} {b : Branch} (h : n.place? key = some b)
    (m m' : Node) : (n.adding key m).withBelow b m' = n.adding key m' := by
  cases n with
  | group children =>
    obtain ⟨rfl, -, hfree⟩ := place?_group h
    exact congrArg group (map_replace_insert hfree m m')
  | array children =>
    cases h
    simp [adding, withBelow]
  | leaf l => cases h

theorem withBelow_withBelow (n : Node) (b : Branch) (c d : Node) :
    (n.withBelow b c).withBelow b d = n.withBelow b d := by
  cases n with
  | group children =>
    cases b with
    | key k =>
      simp only [withBelow, List.map_map, group.injEq]
      refine List.map_congr_left fun e _ => ?_
      by_cases he : e.1 = k <;> simp [he]
    | index i => rfl
  | array children => cases b <;> simp [withBelow]
  | leaf l => cases b <;> rfl

theorem resolve_append (ps qs : List String) (n : Node) :
    n.resolve (ps ++ qs) = (n.resolve ps).bind (resolve qs) := by
  induction ps generalizing n with
  | nil => rfl
  | cons p ps ih =>
    simp only [List.cons_append, resolve]
    cases n.child? p with
    | none => rfl
    | some c => exact ih c

theorem modify_append (f : Node → Node) (ps qs : List String) (n : Node) :
    n.modify f (ps ++ qs) = n.modify (fun c => c.modify f qs) ps := by
  induction ps generalizing n with
  | nil => rfl
  | cons p ps ih =>
    simp only [List.cons_append, modify]
    cases n.child? p with
    | none => rfl
    | some c => simp only [ih c]

theorem modify_modify {ps : List String} {n c : Node} (h : n.resolve ps = some c)
    (f g : Node → Node) : (n.modify f ps).modify g ps = n.modify (fun m => g (f m)) ps := by
  induction ps generalizing n with
  | nil => rfl
  | cons p ps ih =>
    obtain ⟨b, d, hb, hd, h⟩ := resolve_cons_eq_some h
    have hb' : (n.withBelow b (d.modify f ps)).branch? p = some b := by rw [branch?_withBelow, hb]
    have hd' : (n.withBelow b (d.modify f ps)).below? b = some (d.modify f ps) := by
      rw [below?_withBelow hd, if_pos rfl]
    rw [modify_cons hb hd, modify_cons hb' hd', modify_cons hb hd, withBelow_withBelow, ih h]

theorem resolve_modify {ps : List String} {n c : Node} (h : n.resolve ps = some c)
    (f : Node → Node) : (n.modify f ps).resolve ps = some (f c) := by
  induction ps generalizing n with
  | nil =>
    cases h
    rfl
  | cons p ps ih =>
    obtain ⟨b, d, hb, hd, h⟩ := resolve_cons_eq_some h
    rw [modify_cons hb hd, resolve_cons, branch?_withBelow, hb]
    simp [below?_withBelow hd, ih h]

theorem modify_congr {ps : List String} {n c : Node} (h : n.resolve ps = some c)
    {f g : Node → Node} (hfg : f c = g c) : n.modify f ps = n.modify g ps := by
  induction ps generalizing n with
  | nil =>
    cases h
    exact hfg
  | cons p ps ih =>
    obtain ⟨b, d, hb, hd, h⟩ := resolve_cons_eq_some h
    rw [modify_cons hb hd, modify_cons hb hd, ih h]

theorem at?_append (a a' : Address) (n : Node) : n.at? (a ++ a') = (n.at? a).bind (at? a') := by
  induction a generalizing n with
  | nil => rfl
  | cons b a ih =>
    simp only [List.cons_append, at?]
    cases n.below? b with
    | none => rfl
    | some c => exact ih c

theorem address?_cons_eq_some {s : String} {ss : List String} {n : Node} {a : Address}
    (h : n.address? (s :: ss) = some a) :
    ∃ b c r, n.branch? s = some b ∧ n.below? b = some c ∧ c.address? ss = some r ∧ a = b :: r := by
  obtain ⟨b, hb, h⟩ := Option.bind_eq_some_iff.mp h
  obtain ⟨c, hc, h⟩ := Option.bind_eq_some_iff.mp h
  obtain ⟨r, hr, he⟩ := Option.map_eq_some_iff.mp h
  exact ⟨b, c, r, hb, hc, hr, he.symm⟩

theorem address?_append {ss : List String} {n c : Node} {a : Address}
    (ha : n.address? ss = some a) (hc : n.at? a = some c) (ts : List String) :
    n.address? (ss ++ ts) = (c.address? ts).map (a ++ ·) := by
  induction ss generalizing n a with
  | nil =>
    cases ha
    cases hc
    simp
  | cons s ss ih =>
    obtain ⟨b, d, r, hb, hd, hr, rfl⟩ := address?_cons_eq_some ha
    rw [at?, hd] at hc
    simp only [List.cons_append, address?, hb, hd, Option.bind_some, ih hr hc, Option.map_map]
    rfl

theorem length_address? {ss : List String} {n : Node} {a : Address}
    (ha : n.address? ss = some a) : a.length = ss.length := by
  induction ss generalizing n a with
  | nil =>
    cases ha
    rfl
  | cons s ss ih =>
    obtain ⟨b, d, r, -, -, hr, rfl⟩ := address?_cons_eq_some ha
    simp [ih hr]

/-- The node without what is below it. -/
def bare : Node → Node
  | group _ => group []
  | array _ => array []
  | leaf l => leaf l

/-- The second tree has all nodes of the first where they were, with more below them at most. -/
def Grows (n n' : Node) : Prop :=
  ∀ a m, n.at? a = some m → ∃ m', n'.at? a = some m' ∧ m'.bare = m.bare

theorem bare_adding (n : Node) (key : String) (m : Node) : (n.adding key m).bare = n.bare := by
  cases n <;> rfl

theorem plain_of_place {n : Node} {key : String} {b : Branch} (h : n.place? key = some b)
    (hkey : n.bare = group [] → '.' ∉ key.toList) : b.Plain := by
  cases n with
  | group children =>
    obtain ⟨rfl, hne, -⟩ := place?_group h
    exact ⟨hne, hkey rfl⟩
  | array children =>
    cases h
    trivial
  | leaf l => cases h

theorem Grows.refl (n : Node) : Grows n n := fun _ m h => ⟨m, h, rfl⟩

theorem Grows.trans {n n' n'' : Node} (h : Grows n n') (h' : Grows n' n'') : Grows n n'' := by
  intro a m hm
  obtain ⟨m', hm', hb⟩ := h a m hm
  obtain ⟨m'', hm'', hb'⟩ := h' a m' hm'
  exact ⟨m'', hm'', hb'.trans hb⟩

theorem Grows.bare_eq {n n' : Node} (h : Grows n n') : n'.bare = n.bare := by
  obtain ⟨m, hm, hb⟩ := h [] n rfl
  cases hm
  exact hb

theorem branch?_of_bare_eq {n n' : Node} (h : n'.bare = n.bare) (s : String) :
    n'.branch? s = n.branch? s := by
  cases n <;> cases n' <;> simp_all [bare, branch?]

theorem Grows.below? {n n' c : Node} {b : Branch} (h : Grows n n') (hc : n.below? b = some c) :
    ∃ c', n'.below? b = some c' ∧ Grows c c' := by
  obtain ⟨c', hc', -⟩ := h [b] c (by rw [at?, hc]; rfl)
  obtain ⟨c'', hc'', h''⟩ := Option.bind_eq_some_iff.mp hc'
  cases h''
  refine ⟨c', hc'', fun a m hm => ?_⟩
  obtain ⟨m', hm', hb⟩ := h (b :: a) m (by rw [at?, hc]; exact hm)
  rw [at?, hc''] at hm'
  exact ⟨m', hm', hb⟩

theorem grows_of_below {n n' : Node} (hb : n'.bare = n.bare)
    (h : ∀ b c, n.below? b = some c → ∃ c', n'.below? b = some c' ∧ Grows c c') :
    Grows n n' := by
  intro a m hm
  cases a with
  | nil =>
    cases hm
    exact ⟨n', rfl, hb⟩
  | cons b a =>
    obtain ⟨c, hc, hm⟩ := Option.bind_eq_some_iff.mp hm
    obtain ⟨c', hc', hg⟩ := h b c hc
    obtain ⟨m', hm', hbare⟩ := hg a m hm
    exact ⟨m', by rw [at?, hc']; exact hm', hbare⟩

theorem Grows.address? {ss : List String} {n n' : Node} {a : Address} (h : Grows n n')
    (ha : n.address? ss = some a) : n'.address? ss = some a := by
  induction ss generalizing n n' a with
  | nil => exact ha
  | cons s ss ih =>
    obtain ⟨b, c, r, hb, hc, hr, rfl⟩ := address?_cons_eq_some ha
    obtain ⟨c', hc', hg⟩ := h.below? hc
    simp [Node.address?, branch?_of_bare_eq h.bare_eq, hb, hc', ih hg hr]

theorem grows_adding {n : Node} {key : String} {b : Branch} (h : n.place? key = some b)
    (m : Node) : Grows n (n.adding key m) := by
  refine grows_of_below (bare_adding n key m) fun b' c hc => ⟨c, ?_, Grows.refl c⟩
  have hne : b' ≠ b := by
    rintro rfl
    rw [below?_place h] at hc
    cases hc
  rw [below?_adding h, if_neg hne, hc]

theorem grows_withBelow {n c d : Node} {b : Branch} (hc : n.below? b = some c) (h : Grows c d) :
    Grows n (n.withBelow b d) := by
  refine grows_of_below (by cases n <;> cases b <;> rfl) fun b' c' hc' => ?_
  rw [below?_withBelow hc]
  by_cases hb : b' = b
  · subst hb
    cases hc.symm.trans hc'
    exact ⟨d, if_pos rfl, h⟩
  · exact ⟨c', by rw [if_neg hb, hc'], Grows.refl c'⟩

theorem grows_modify {ps : List String} {n c : Node} {f : Node → Node}
    (hc : n.resolve ps = some c) (h : Grows c (f c)) : Grows n (n.modify f ps) := by
  induction ps generalizing n with
  | nil =>
    cases hc
    exact h
  | cons p ps ih =>
    obtain ⟨b, d, hb, hd, hc⟩ := resolve_cons_eq_some hc
    rw [modify_cons hb hd]
    exact grows_withBelow hd (ih hc)

theorem at?_modify_self {ps : List String} {n c : Node} {a : Address} {f : Node → Node}
    (ha : n.address? ps = some a) (hc : n.at? a = some c) (h : Grows c (f c)) :
    (n.modify f ps).at? a = some (f c) := by
  have hr : n.resolve ps = some c := by rw [resolve_eq, ha, Option.bind_some, hc]
  have hm := resolve_modify hr f
  rwa [resolve_eq, (grows_modify hr h).address? ha] at hm

theorem at?_modify_adding {ps : List String} {n c : Node} {a : Address} {key : String} {b : Branch}
    (ha : n.address? ps = some a) (hc : n.at? a = some c) (hb : c.place? key = some b) {m d : Node}
    {a' : Address} (hd : (n.modify (fun c => c.adding key m) ps).at? a' = some d) :
    (∃ d', n.at? a' = some d') ∨ ∃ r, a' = a ++ b :: r := by
  induction ps generalizing n a a' with
  | nil =>
    cases ha
    cases hc
    cases a' with
    | nil => exact .inl ⟨_, rfl⟩
    | cons b' r =>
      rw [modify, at?, below?_adding hb] at hd
      by_cases he : b' = b
      · exact .inr ⟨r, by rw [he]; rfl⟩
      · rw [if_neg he] at hd
        exact .inl ⟨d, hd⟩
  | cons p ps ih =>
    obtain ⟨b₁, c₁, a, hb₁, hc₁, hr, rfl⟩ := address?_cons_eq_some ha
    rw [at?, hc₁] at hc
    rw [modify_cons hb₁ hc₁] at hd
    cases a' with
    | nil => exact .inl ⟨n, rfl⟩
    | cons b' r =>
      rw [at?, below?_withBelow hc₁] at hd
      by_cases he : b' = b₁
      · subst he
        rw [if_pos rfl] at hd
        rcases ih hr hc hd with ⟨d', hd'⟩ | ⟨r', hr'⟩
        · exact .inl ⟨d', by rw [at?, hc₁]; exact hd'⟩
        · exact .inr ⟨r', by rw [hr']; rfl⟩
      · rw [if_neg he] at hd
        exact .inl ⟨d, hd⟩

end Node

namespace Store

open Node (Branch)

theorem add_of_place {s : Store} {key : String} {parent : ControlPath} {c : Node} {b : Branch}
    (hc : s.resolve parent = some c) (hb : c.place? key = some b) (n : Node) :
    s.add key parent n = .ok (parent.child b, s.setNode parent (c.adding key n)) := by
  cases c with
  | group children =>
    obtain ⟨rfl, hk, hfree⟩ := Node.place?_group hb
    simp [add, hc, hk, Keyed.contains, hfree, ControlPath.child, Node.adding]
  | array children =>
    cases hb
    simp [add, hc, ControlPath.child, Node.adding]
  | leaf l => cases hb

theorem add_of_no_place {s : Store} {key : String} {parent : ControlPath} {c : Node}
    (hc : s.resolve parent = some c) (hb : c.place? key = none) (n : Node) :
    ∃ e, s.add key parent n = .error e := by
  cases c with
  | group children =>
    by_cases hk : key = ""
    · exact ⟨.emptyKey parent, by simp [add, hc, hk]⟩
    · have hheld : Keyed.contains key children = true := by simpa [Node.place?, hk] using hb
      exact ⟨.duplicateKey (parent.childKey key), by simp [add, hc, hk, hheld]⟩
  | array children => cases hb
  | leaf l => exact ⟨.leafParent parent, by simp [add, hc]⟩

theorem add_eq_ok {s s' : Store} {key : String} {parent p : ControlPath} {n : Node}
    (h : s.add key parent n = .ok (p, s')) :
    ∃ c b, s.resolve parent = some c ∧ c.place? key = some b ∧ p = parent.child b ∧
      s' = s.setNode parent (c.adding key n) := by
  cases hc : s.resolve parent with
  | none => simp [add, hc] at h
  | some c =>
    cases hb : c.place? key with
    | none =>
      obtain ⟨e, he⟩ := add_of_no_place hc hb n
      cases he.symm.trans h
    | some b =>
      cases (add_of_place hc hb n).symm.trans h
      exact ⟨c, b, rfl, hb, rfl, rfl⟩

end Store

end Formwork
