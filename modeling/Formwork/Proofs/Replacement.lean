import Formwork.Proofs.Listing

/-! A leaf in the place of another: what is then at each address, and that an arranged tree is known by
what is at its addresses. -/

namespace Formwork

namespace Keyed

variable {α : Type}

theorem Ascending.mem_iff {m : Keyed α} (h : m.Ascending) {key : String} {v : α} :
    (key, v) ∈ m ↔ m.get? key = some v :=
  ⟨h.get?_of_mem, mem_of_get?⟩

theorem Ascending.nodup {m : Keyed α} (h : m.Ascending) : m.Nodup := by
  refine List.Pairwise.imp ?_ h
  rintro e _ hlt rfl
  exact String.lt_irrefl e.1 hlt

theorem Ascending.eq_of_get? {m m' : Keyed α} (h : m.Ascending) (h' : m'.Ascending)
    (hget : ∀ key, m.get? key = m'.get? key) : m = m' := by
  have hperm : m.Perm m' := by
    refine (List.perm_ext_iff_of_nodup h.nodup h'.nodup).mpr fun e => ?_
    rw [h.mem_iff, h'.mem_iff, hget]
  refine hperm.eq_of_pairwise (fun a b _ _ hab hba => ?_) h h'
  exact absurd (String.lt_trans hab hba) (String.lt_irrefl _)

end Keyed

namespace Node

def leafAt? (a : Address) (n : Node) : Option Leaf := (n.at? a).bind leaf?

def bareAt? (a : Address) (n : Node) : Option Node := (n.at? a).map bare

theorem bareAt?_cons (b : Branch) (a : Address) (n : Node) :
    n.bareAt? (b :: a) = (n.below? b).bind (bareAt? a) := by
  rw [bareAt?, at?, Option.map_bind]
  rfl

theorem leafAt?_eq_bind (a : Address) (n : Node) : n.leafAt? a = (n.bareAt? a).bind leaf? := by
  rw [leafAt?, bareAt?, Option.bind_map]
  congr 1
  funext m
  cases m <;> rfl

theorem leafAt?_eq_some {a : Address} {n : Node} {l : Leaf} :
    n.leafAt? a = some l ↔ n.at? a = some (leaf l) := by
  refine ⟨leaf?_eq_some, fun h => ?_⟩
  rw [leafAt?, h]
  rfl

theorem bare_withBelow (n : Node) (b : Branch) (c : Node) : (n.withBelow b c).bare = n.bare := by
  cases n <;> cases b <;> rfl

theorem bareAt?_modify_leaf {ps : List String} {n : Node} {l : Leaf} {a : Address}
    (ha : n.address? ps = some a) (hl : n.resolve ps = some (leaf l)) (l' : Leaf) (a' : Address) :
    (n.modify (fun _ => leaf l') ps).bareAt? a' =
      if a' = a then some (leaf l') else n.bareAt? a' := by
  induction ps generalizing n a a' with
  | nil =>
    cases ha
    cases hl
    cases a' with
    | nil => rfl
    | cons b r => cases b <;> rfl
  | cons p ps ih =>
    obtain ⟨b, c, r, hb, hc, hr, rfl⟩ := address?_cons_eq_some ha
    obtain ⟨b', c', hb', hc', hl⟩ := resolve_cons_eq_some hl
    cases hb.symm.trans hb'
    cases hc.symm.trans hc'
    rw [modify_cons hb hc]
    cases a' with
    | nil =>
      rw [if_neg (List.cons_ne_nil b r).symm]
      exact congrArg some (bare_withBelow n b _)
    | cons b₁ r₁ =>
      rw [bareAt?_cons, bareAt?_cons, below?_withBelow hc]
      by_cases he : b₁ = b
      · subst he
        rw [if_pos rfl, hc, Option.bind_some, Option.bind_some, ih hr hl]
        simp
      · simp [he]

section Arranged

variable {K K' : String → Prop} {P P' : Leaf → Prop} {n n' : Node}

theorem Arranged.leafAt? {a : Address} {l : Leaf} (h : n.Arranged K P)
    (hl : n.leafAt? a = some l) : P l := by
  cases h.at? (leafAt?_eq_some.mp hl) with
  | leaf holds => exact holds

theorem below?_of_bareAt?_eq (he : ∀ a, n.bareAt? a = n'.bareAt? a) (b : Branch) :
    n.below? b = none ∧ n'.below? b = none ∨
      ∃ c c', n.below? b = some c ∧ n'.below? b = some c' ∧ ∀ a, c.bareAt? a = c'.bareAt? a := by
  have hb : ∀ a, (n.below? b).bind (bareAt? a) = (n'.below? b).bind (bareAt? a) := by
    intro a
    rw [← bareAt?_cons, ← bareAt?_cons, he]
  have hnil : ∀ m : Node, m.bareAt? [] = some m.bare := fun m => rfl
  cases hc : n.below? b with
  | none =>
    cases hc' : n'.below? b with
    | none => exact .inl ⟨rfl, rfl⟩
    | some c' =>
      have h := hb []
      simp [hc, hc', hnil] at h
  | some c =>
    cases hc' : n'.below? b with
    | none =>
      have h := hb []
      simp [hc, hc', hnil] at h
    | some c' =>
      refine .inr ⟨c, c', rfl, rfl, fun a => ?_⟩
      have h := hb a
      rwa [hc, hc'] at h

/-- An arranged tree is known by what is at its addresses. -/
theorem Arranged.ext (h : n.Arranged K P) (h' : n'.Arranged K' P')
    (he : ∀ a, n.bareAt? a = n'.bareAt? a) : n = n' := by
  induction h generalizing n' with
  | @group children ascending keys below ih =>
    cases h' with
    | array => cases he []
    | leaf => cases he []
    | @group children' ascending' keys' below' =>
      refine congrArg Node.group (ascending.eq_of_get? ascending' fun k => ?_)
      rcases below?_of_bareAt?_eq he (.key k) with ⟨hn, hn'⟩ | ⟨c, c', hc, hc', hcc⟩
      · exact hn.trans hn'.symm
      · have hm := Keyed.mem_of_get? hc
        have hm' := Keyed.mem_of_get? hc'
        have heq : c = c' := ih (k, c) hm (below' (k, c') hm') hcc
        exact hc.trans (heq ▸ hc'.symm)
  | @array children below ih =>
    cases h' with
    | group => cases he []
    | leaf => cases he []
    | @array children' below' =>
      refine congrArg Node.array (List.ext_getElem? fun i => ?_)
      rcases below?_of_bareAt?_eq he (.index i) with ⟨hn, hn'⟩ | ⟨c, c', hc, hc', hcc⟩
      · exact hn.trans hn'.symm
      · have hm : c ∈ children := List.mem_of_getElem? hc
        have hm' : c' ∈ children' := List.mem_of_getElem? hc'
        have heq : c = c' := ih c hm (below' c' hm') hcc
        exact hc.trans (heq ▸ hc'.symm)
  | leaf holds =>
    cases h' with
    | group => cases he []
    | array => cases he []
    | leaf => exact Option.some.inj (he [])

end Arranged

end Node

namespace Store

open Node (Address)

def leafAt? (s : Store) (a : Address) : Option Leaf := s.root.leafAt? a

theorem leaf?_eq_bind (s : Store) (p : ControlPath) : s.leaf? p = (s.address? p).bind s.leafAt? := by
  rw [leaf?, resolve, Node.resolve_eq, Option.bind_assoc]
  rfl

theorem leaf?_eq_leafAt? {s : Store} {p : ControlPath} {a : Address} (ha : s.address? p = some a) :
    s.leaf? p = s.leafAt? a := by
  rw [leaf?_eq_bind, ha, Option.bind_some]

theorem exists_address_of_leaf? {s : Store} {p : ControlPath} {l : Leaf} (h : s.leaf? p = some l) :
    ∃ a, s.address? p = some a ∧ s.leafAt? a = some l := by
  rw [leaf?_eq_bind] at h
  exact Option.bind_eq_some_iff.mp h

theorem bareAt?_setLeaf {s : Store} {p : ControlPath} {l : Leaf} {a : Address}
    (ha : s.address? p = some a) (hl : s.leaf? p = some l) (l' : Leaf) (a' : Address) :
    (s.setLeaf p l').root.bareAt? a' = if a' = a then some (.leaf l') else s.root.bareAt? a' :=
  Node.bareAt?_modify_leaf ha (resolve_eq_of_leaf? hl) l' a'

theorem bareAt?_setLeaf_of_ne {s : Store} {p : ControlPath} {l : Leaf} {a' : Address}
    (hl : s.leaf? p = some l) (hne : s.address? p ≠ some a') (l' : Leaf) :
    (s.setLeaf p l').root.bareAt? a' = s.root.bareAt? a' := by
  obtain ⟨a, ha, -⟩ := exists_address_of_leaf? hl
  rw [bareAt?_setLeaf ha hl, if_neg]
  rintro rfl
  exact hne ha

theorem leafAt?_setLeaf {s : Store} {p : ControlPath} {l : Leaf} {a : Address}
    (ha : s.address? p = some a) (hl : s.leaf? p = some l) (l' : Leaf) (a' : Address) :
    (s.setLeaf p l').leafAt? a' = if a' = a then some l' else s.leafAt? a' := by
  rw [leafAt?, leafAt?, Node.leafAt?_eq_bind, bareAt?_setLeaf ha hl, Node.leafAt?_eq_bind]
  by_cases h : a' = a
  · simp [h, Node.leaf?]
  · simp [h]

theorem leafAt?_setLeaf_of_ne {s : Store} {p : ControlPath} {l : Leaf} {a' : Address}
    (hl : s.leaf? p = some l) (hne : s.address? p ≠ some a') (l' : Leaf) :
    (s.setLeaf p l').leafAt? a' = s.leafAt? a' := by
  rw [leafAt?, leafAt?, Node.leafAt?_eq_bind, Node.leafAt?_eq_bind, bareAt?_setLeaf_of_ne hl hne]

theorem arranged_setLeaf {s : Store} {K : String → Prop} {P : Leaf → Prop} {p : ControlPath}
    {l : Leaf} (h : s.root.Arranged K P) (hl : s.leaf? p = some l) {l' : Leaf} (hl' : P l') :
    (s.setLeaf p l').root.Arranged K P :=
  h.modify (resolve_eq_of_leaf? hl) fun _ => .leaf hl'

end Store

end Formwork
