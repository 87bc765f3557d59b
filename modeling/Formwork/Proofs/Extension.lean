import Formwork.Proofs.Allocation
import Formwork.Proofs.Replacement

/-! Additions to any store, one by one and in runs. A call adds one node or none, every other node stays
where it is, and an array numbers what it is given in the order of the calls. -/

namespace Formwork

namespace Node

theorem bareAt?_append {a : Address} {n m : Node} (h : n.at? a = some m) (a' : Address) :
    n.bareAt? (a ++ a') = m.bareAt? a' := by
  rw [bareAt?, at?_append, h]
  rfl

theorem Grows.address?_iff {ss : List String} {n n' m : Node} {a : Address} (h : Grows n n')
    (hm : n.at? a = some m) : n'.address? ss = some a ↔ n.address? ss = some a := by
  refine ⟨fun ha => ?_, h.address?⟩
  induction ss generalizing n n' a with
  | nil => exact ha
  | cons s ss ih =>
    obtain ⟨b, c', r, hb, hc', hr, rfl⟩ := address?_cons_eq_some ha
    obtain ⟨c, hc, hm⟩ := Option.bind_eq_some_iff.mp hm
    obtain ⟨c'', hc'', hg⟩ := h.below? hc
    have hcc : c'' = c' := Option.some.inj (hc''.symm.trans hc')
    have hb' : n.branch? s = some b := (branch?_of_bare_eq h.bare_eq s).symm.trans hb
    have hr' : c.address? ss = some r := ih (hcc ▸ hg) hm hr
    simp [Node.address?, hb', hc, hr']

/-- An addition changes no node but the container and those above it. -/
theorem at?_modify_adding_of_not_prefix {ps : List String} {n c d : Node} {a a' : Address} {key : String}
    {b : Branch} (ha : n.address? ps = some a) (hc : n.at? a = some c) (hb : c.place? key = some b)
    (m : Node) (hd : n.at? a' = some d) (hnot : ¬ a' <+: a) :
    (n.modify (fun c => c.adding key m) ps).at? a' = some d := by
  induction ps generalizing n a a' with
  | nil =>
    cases ha
    cases hc
    cases a' with
    | nil => exact absurd List.prefix_rfl hnot
    | cons b' r =>
      have hne : b' ≠ b := by
        rintro rfl
        simp [at?, below?_place hb] at hd
      simpa [modify, at?, below?_adding hb, hne] using hd
  | cons p ps ih =>
    obtain ⟨b₁, c₁, r₁, hb₁, hc₁, hr, rfl⟩ := address?_cons_eq_some ha
    rw [modify_cons hb₁ hc₁]
    cases a' with
    | nil => exact absurd List.nil_prefix hnot
    | cons b' r =>
      rw [at?] at hc hd ⊢
      rw [below?_withBelow hc₁]
      by_cases he : b' = b₁
      · subst he
        have hr' : ¬ r <+: r₁ := fun hp => hnot (List.cons_prefix_cons.mpr ⟨rfl, hp⟩)
        rw [hc₁] at hc hd
        rw [if_pos rfl]
        exact ih hr hc hd hr'
      · rw [if_neg he]
        exact hd

end Node

theorem Addition.bare_node (x : Addition) : x.node.bare = x.node := by
  cases x <;> rfl

namespace Store

open Node (Branch Address)

/-- What takes a node under a key: an array always, and a group that has nothing under it. -/
inductive Takes (key : String) : Node → Prop
  | array {children : List Node} : Takes key (.array children)
  | group {children : List (String × Node)} (named : key ≠ "") (free : key ∉ Keyed.keys children) :
    Takes key (.group children)

inductive Refused (s : Store) (x : Addition) : StoreError → Prop
  | unknownParent (missing : s.resolve x.parent = none) : Refused s x (.unknownParent x.parent)
  | leafParent {l : Leaf} (leaf : s.resolve x.parent = some (.leaf l)) :
    Refused s x (.leafParent x.parent)
  | emptyKey {children : List (String × Node)} (group : s.resolve x.parent = some (.group children))
    (unnamed : x.key = "") : Refused s x (.emptyKey x.parent)
  | duplicateKey {children : List (String × Node)} (group : s.resolve x.parent = some (.group children))
    (named : x.key ≠ "") (held : x.key ∈ Keyed.keys children) :
    Refused s x (.duplicateKey (x.parent.childKey x.key))

/-- The second store has one node more, at a branch of the parent. All paths of before lead where they
led, to the very same node unless the parent is at or below it. -/
structure Gains (s s' : Store) (x : Addition) (a : Address) (b : Branch) : Prop where
  parent : s.address? x.parent = some a
  place : ∃ c, s.root.at? a = some c ∧ c.place? x.key = some b
  free : s.root.at? (a ++ [b]) = none
  nodes : ∀ a', s'.root.bareAt? a' = if a' = a ++ [b] then some x.node else s.root.bareAt? a'
  kept : ∀ q n, s.resolve q = some n → ∃ aq n', s.address? q = some aq ∧ s'.address? q = some aq ∧
    s'.resolve q = some n' ∧ (¬ aq <+: a → n' = n) ∧ ∀ r, a = aq ++ r →
      ∀ a', n'.bareAt? a' = if a' = r ++ [b] then some x.node else n.bareAt? a'

section Step

variable {s s' : Store} {x : Addition} {a : Address} {c : Node} {b : Branch}

theorem takes_iff {key : String} : Takes key c ↔ ∃ b, c.place? key = some b := by
  constructor
  · intro h
    cases h with
    | array => exact ⟨_, rfl⟩
    | @group children named free =>
      have hfree : Keyed.get? key children = none := Keyed.get?_eq_none_iff.mpr free
      exact ⟨.key key, by simp [Node.place?, named, Keyed.contains, hfree]⟩
  · rintro ⟨b, hb⟩
    cases c with
    | group children =>
      obtain ⟨-, hne, hfree⟩ := Node.place?_group hb
      exact .group hne (Keyed.get?_eq_none_iff.mp hfree)
    | array children => exact .array
    | leaf l => cases hb

theorem exists_takes_iff :
    (∃ c, s.resolve x.parent = some c ∧ Takes x.key c) ↔ ∃ p s', s.attempt x = .ok (p, s') := by
  constructor
  · rintro ⟨c, hc, htakes⟩
    obtain ⟨b, hb⟩ := takes_iff.mp htakes
    exact ⟨_, _, add_of_place hc hb x.node⟩
  · rintro ⟨p, s', h⟩
    obtain ⟨c, b, hc, hb, -, -⟩ := add_eq_ok h
    exact ⟨c, hc, takes_iff.mpr ⟨b, hb⟩⟩

theorem refused_of_error {e : StoreError} (h : s.attempt x = .error e) : Refused s x e := by
  unfold attempt add at h
  split at h
  · next hp =>
    cases h
    exact .unknownParent hp
  · next l hp =>
    cases h
    exact .leafParent hp
  · cases h
  · next children hp =>
    split_ifs at h with hkey hheld
    · cases h
      exact .emptyKey hp hkey
    · cases h
      have hmem : x.key ∈ Keyed.keys children := by
        by_contra hno
        simp [Keyed.contains, Keyed.get?_eq_none_iff.mpr hno] at hheld
      exact .duplicateKey hp hkey hmem

theorem Fills.bareAt? (h : Fills s x s' a c b) (a' : Address) :
    s'.root.bareAt? a' = if a' = a ++ [b] then some x.node else s.root.bareAt? a' := by
  by_cases he : a' = a ++ [b]
  · rw [if_pos he, he, Node.bareAt?, h.made, Option.map_some, x.bare_node]
  · rw [if_neg he]
    cases hold : s.root.at? a' with
    | none =>
      have hnone : s'.root.at? a' = none := by
        apply Option.eq_none_iff_forall_not_mem.mpr
        intro d hd
        exact he (h.eq_of_made hold hd)
      simp [Node.bareAt?, hold, hnone]
    | some m =>
      obtain ⟨m', hm', hbare⟩ := h.grows a' m hold
      simp [Node.bareAt?, hold, hm', hbare]

theorem Fills.kept (h : Fills s x s' a c b) {q : ControlPath} {n : Node} (hq : s.resolve q = some n) :
    ∃ aq n', s.address? q = some aq ∧ s'.address? q = some aq ∧ s'.resolve q = some n' ∧
      (¬ aq <+: a → n' = n) ∧ ∀ r, a = aq ++ r →
        ∀ a', n'.bareAt? a' = if a' = r ++ [b] then some x.node else n.bareAt? a' := by
  obtain ⟨aq, haq, hn⟩ := Node.address?_of_resolve hq
  have haq' : s'.address? q = some aq := h.grows.address? haq
  obtain ⟨n', hn', -⟩ := h.grows aq n hn
  refine ⟨aq, n', haq, haq', (resolve_eq_at? haq').trans hn', fun hnot => ?_, ?_⟩
  · have hsame := Node.at?_modify_adding_of_not_prefix h.parent h.container h.place x.node hn hnot
    rw [← h.result, hn'] at hsame
    exact Option.some.inj hsame
  · rintro r rfl a'
    have hnodes := h.bareAt? (aq ++ a')
    rw [Node.bareAt?_append hn', Node.bareAt?_append hn] at hnodes
    simpa only [List.append_assoc, List.append_cancel_left_eq] using hnodes

theorem Fills.gains (h : Fills s x s' a c b) : Gains s s' x a b :=
  ⟨h.parent, ⟨c, h.container, h.place⟩, h.free, h.bareAt?, fun _ _ => h.kept⟩

end Step

def extended (s : Store) (xs : List Addition) : Store := xs.foldl after s

section Run

variable {s : Store} {xs : List Addition} {a : Address}

theorem extended_concat (s : Store) (xs : List Addition) (x : Addition) :
    s.extended (xs ++ [x]) = (s.extended xs).after x := List.foldl_concat ..

theorem extended_append (s : Store) (xs ys : List Addition) :
    s.extended (xs ++ ys) = (s.extended xs).extended ys := List.foldl_append ..

theorem grows_extended (s : Store) (xs : List Addition) : s.root.Grows (s.extended xs).root := by
  induction xs using List.reverseRecOn with
  | nil => exact Node.Grows.refl _
  | append_singleton xs x ih =>
    rw [extended_concat]
    exact ih.trans (grows_after _ x)

theorem address?_extended_iff {n : Node} (hn : s.root.at? a = some n) (q : ControlPath) :
    (s.extended xs).address? q = some a ↔ s.address? q = some a :=
  (grows_extended s xs).address?_iff hn

theorem attempt_of_array {x : Addition} {children : List Node} (ha : s.address? x.parent = some a)
    (hat : s.root.at? a = some (.array children)) :
    s.attempt x = .ok (x.parent.childIndex children.length,
      s.setNode x.parent (.array (children ++ [x.node]))) := by
  have hparent : s.resolve x.parent = some (.array children) := (resolve_eq_at? ha).trans hat
  exact add_of_place hparent rfl x.node

theorem bareAt?_child_eq_none_iff {n : Node} {children : List Node} {i : Nat}
    (h : n.at? a = some (.array children)) :
    n.bareAt? (a ++ [.index i]) = none ↔ children.length ≤ i := by
  rw [Node.bareAt?_append h, Node.bareAt?_cons, ← List.getElem?_eq_none_iff]
  cases hi : children[i]? <;> simp [Node.below?, Node.bareAt?, Node.at?, hi]

theorem length_after {x : Addition} {children : List Node} (hat : s.root.at? a = some (.array children)) :
    ∃ children', (s.after x).root.at? a = some (.array children') ∧
      children'.length = children.length + if s.address? x.parent = some a then 1 else 0 := by
  by_cases hx : s.address? x.parent = some a
  · have hok := attempt_of_array hx hat
    obtain ⟨a', c, b, hf, -⟩ := attempt_eq_ok hok
    obtain rfl : a' = a := Option.some.inj (hf.parent.symm.trans hx)
    obtain rfl : c = .array children := Option.some.inj (hf.container.symm.trans hat)
    refine ⟨children ++ [x.node], ?_, by simp [hx]⟩
    rw [after, hok]
    exact hf.at?_container
  · obtain ⟨n', hn', hbare⟩ := grows_after s x a _ hat
    obtain ⟨children', rfl⟩ : ∃ children', n' = .array children' := by
      cases n' <;> simp [Node.bare] at hbare ⊢
    have hlengths : ∀ i, children'.length ≤ i ↔ children.length ≤ i := by
      intro i
      rw [← bareAt?_child_eq_none_iff hn', ← bareAt?_child_eq_none_iff hat, after]
      split
      · next hok =>
        obtain ⟨a', c, b, hf, -⟩ := attempt_eq_ok hok
        have hne : a ++ [.index i] ≠ a' ++ [b] := by
          intro he
          have ha : a = a' := (List.append_inj' he rfl).1
          exact hx (ha ▸ hf.parent)
        rw [hf.bareAt?, if_neg hne]
      · rfl
    have hle := (hlengths children'.length).mp (Nat.le_refl _)
    have hge := (hlengths children.length).mpr (Nat.le_refl _)
    exact ⟨children', hn', by simp [hx]; omega⟩

theorem length_extended {children : List Node} (hat : s.root.at? a = some (.array children))
    (xs : List Addition) : ∃ children', (s.extended xs).root.at? a = some (.array children') ∧
      children'.length = children.length + xs.countP (s.address? ·.parent = some a) := by
  induction xs using List.reverseRecOn with
  | nil => exact ⟨children, hat, by simp⟩
  | append_singleton xs x ih =>
    obtain ⟨children₁, hat₁, hlength₁⟩ := ih
    obtain ⟨children₂, hat₂, hlength₂⟩ := length_after (x := x) hat₁
    have hx : (s.extended xs).address? x.parent = some a ↔ s.address? x.parent = some a :=
      address?_extended_iff hat x.parent
    refine ⟨children₂, by rw [extended_concat, hat₂], ?_⟩
    simp only [hlength₂, hlength₁, hx, List.countP_append, List.countP_singleton, decide_eq_true_eq]
    omega

theorem numbered {children : List Node} (hat : s.root.at? a = some (.array children))
    {earlier later : List Addition} {x : Addition} (hx : s.address? x.parent = some a) :
    let i := children.length + earlier.countP (s.address? ·.parent = some a)
    (∃ s', (s.extended earlier).attempt x = .ok (x.parent.childIndex i, s')) ∧
      ∃ n, (s.extended (earlier ++ x :: later)).root.at? (a ++ [.index i]) = some n ∧
        n.bare = x.node := by
  intro i
  obtain ⟨children', hat', hlength⟩ := length_extended hat earlier
  have hx' : (s.extended earlier).address? x.parent = some a := (address?_extended_iff hat _).mpr hx
  have hok := attempt_of_array hx' hat'
  rw [hlength] at hok
  refine ⟨⟨_, hok⟩, ?_⟩
  obtain ⟨a', c, b, hf, hp⟩ := attempt_eq_ok hok
  obtain rfl : a' = a := Option.some.inj (hf.parent.symm.trans hx')
  obtain rfl : c = .array children' := Option.some.inj (hf.container.symm.trans hat')
  obtain rfl : .index i = b := by simpa [Node.place?, hlength, i] using hf.place
  have hgrows := grows_extended ((s.extended earlier).after x) later
  rw [extended_append]
  obtain ⟨n, hn, hbare⟩ := hgrows (a' ++ [.index i]) x.node (by rw [after, hok]; exact hf.made)
  exact ⟨n, hn, hbare.trans x.bare_node⟩

end Run

/-- Whatever the store, an addition succeeds exactly if its parent takes it. If it does not, the store is as
before and the error says why. If it does, one node is gained and all others stay where they are. Over a run
of additions no path to a node is lost, won or changed, and an array numbers what it is given in the order
of the calls. -/
theorem extended_in_place (s : Store) :
    (∀ x, ((∃ c, s.resolve x.parent = some c ∧ Takes x.key c) ↔ ∃ p s', s.attempt x = .ok (p, s')) ∧
      (∀ e, s.attempt x = .error e → s.after x = s ∧ Refused s x e) ∧
      ∀ p s', s.attempt x = .ok (p, s') → ∃ a b, p = x.parent.child b ∧ Gains s s' x a b) ∧
    (∀ xs a n, s.root.at? a = some n →
      (∃ n', (s.extended xs).root.at? a = some n' ∧ n'.bare = n.bare) ∧
      ∀ q, (s.extended xs).address? q = some a ↔ s.address? q = some a) ∧
    ∀ earlier x later a children, s.root.at? a = some (.array children) → s.address? x.parent = some a →
      let i := children.length + earlier.countP (s.address? ·.parent = some a)
      (∃ s', (s.extended earlier).attempt x = .ok (x.parent.childIndex i, s')) ∧
        ∃ n, (s.extended (earlier ++ x :: later)).root.at? (a ++ [.index i]) = some n ∧
          n.bare = x.node := by
  refine ⟨fun x => ⟨exists_takes_iff, fun e h => ⟨?_, refused_of_error h⟩, fun p s' h => ?_⟩,
    fun xs a n hn => ⟨grows_extended s xs a n hn, address?_extended_iff hn⟩, ?_⟩
  · rw [after, h]
  · obtain ⟨a, c, b, hf, hp⟩ := attempt_eq_ok h
    exact ⟨a, b, hp, hf.gains⟩
  · intro earlier x later a children hat hx
    exact numbered hat hx

/-- The second child of an array inside another one, after a call that writes the parent in another way, one
that fails, and one for the outer array. -/
theorem numbered_under_two_spellings :
    let s : Store := ⟨.group [("grid", .array [.array []])]⟩
    let earlier : List Addition := [.group "" ⟨"grid.00"⟩, .group "" ⟨"rows"⟩, .array "" ⟨"grid"⟩]
    s.root.at? [.key "grid", .index 0] = some (.array []) ∧
      s.address? ⟨"grid.0"⟩ = some [.key "grid", .index 0] ∧
      ∃ s', (s.extended earlier).attempt (.array "" ⟨"grid.0"⟩) = .ok (⟨"grid.0.1"⟩, s') := by
  intro s earlier
  have hat : s.root.at? [.key "grid", .index 0] = some (.array []) := rfl
  have ha : s.address? ⟨"grid.0"⟩ = some [.key "grid", .index 0] := by decide
  have hcount : earlier.countP (s.address? ·.parent = some [.key "grid", .index 0]) = 1 := by decide
  have hpath : ControlPath.childIndex ⟨"grid.0"⟩ 1 = ⟨"grid.0.1"⟩ := by decide
  obtain ⟨⟨s', h⟩, -⟩ := (extended_in_place s).2.2 earlier (.array "" ⟨"grid.0"⟩) [] _ _ hat ha
  rw [hcount] at h
  exact ⟨hat, ha, s', hpath ▸ h⟩

end Store

end Formwork
