import Formwork.Control.Store

/-! Addresses of nodes. An index can be written in several ways, so that several paths may lead to one
node, but they all have its address. -/

namespace Formwork

namespace Node

inductive Branch where
  | key (key : String)
  | index (i : Nat)
deriving DecidableEq

abbrev Address := List Branch

/-- The branch that a segment of a path names. It need not be there. -/
def branch? (segment : String) : Node → Option Branch
  | group _ => some (.key segment)
  | array _ => (Text.readCount? segment.toList).map .index
  | leaf _ => none

def below? (n : Node) (b : Branch) : Option Node :=
  match n, b with
  | group children, .key k => Keyed.get? k children
  | array children, .index i => children[i]?
  | _, _ => none

def withBelow (n : Node) (b : Branch) (child : Node) : Node :=
  match n, b with
  | group children, .key k =>
    group (children.map fun (l, c) => if l = k then (l, child) else (l, c))
  | array children, .index i => array (children.set i child)
  | n, _ => n

def address? : List String → Node → Option Address
  | [], _ => some []
  | s :: ss, n =>
    (n.branch? s).bind fun b => (n.below? b).bind fun c => (c.address? ss).map (b :: ·)

def at? : Address → Node → Option Node
  | [], n => some n
  | b :: a, n => (n.below? b).bind (at? a)

theorem child?_eq (n : Node) (s : String) : n.child? s = (n.branch? s).bind n.below? := by
  cases n with
  | group children => rfl
  | array children => cases h : Text.readCount? s.toList <;> simp [child?, branch?, below?, h]
  | leaf l => rfl

theorem withChild_eq {n : Node} {s : String} {b : Branch} (h : n.branch? s = some b) (c : Node) :
    n.withChild s c = n.withBelow b c := by
  cases n with
  | group children =>
    cases h
    rfl
  | array children =>
    obtain ⟨i, hi, rfl⟩ := Option.map_eq_some_iff.mp h
    simp only [withChild, hi, withBelow]
  | leaf l => cases h

theorem branch?_withBelow (n : Node) (b : Branch) (c : Node) (s : String) :
    (n.withBelow b c).branch? s = n.branch? s := by
  cases n <;> cases b <;> rfl

theorem get?_map_replace (children : List (String × Node)) (k l : String) (c : Node) :
    Keyed.get? l (children.map fun (m, d) => if m = k then (m, c) else (m, d)) =
      (Keyed.get? l children).map fun d => if l = k then c else d := by
  induction children with
  | nil => rfl
  | cons e children ih =>
    obtain ⟨m, d⟩ := e
    by_cases hm : m = k <;> by_cases hl : m = l <;> simp_all [Keyed.get?]

theorem below?_withBelow {n : Node} {b : Branch} {d : Node} (h : n.below? b = some d) (c : Node)
    (b' : Branch) : (n.withBelow b c).below? b' = if b' = b then some c else n.below? b' := by
  cases n with
  | group children =>
    cases b with
    | key k =>
      cases b' with
      | key l =>
        simp only [withBelow, below?, get?_map_replace, Branch.key.injEq] at h ⊢
        by_cases hl : l = k
        · simp [hl, h]
        · simp [hl]
      | index i => simp [withBelow, below?]
    | index i => cases h
  | array children =>
    cases b with
    | key k => cases h
    | index i =>
      cases b' with
      | key l => simp [withBelow, below?]
      | index j =>
        have hi : i < children.length := (List.getElem?_eq_some_iff.mp h).1
        simp only [withBelow, below?, List.getElem?_set, Branch.index.injEq, eq_comm (a := j)]
        by_cases hj : i = j
        · subst hj
          simp [hi]
        · simp [hj]
  | leaf l => cases h

theorem resolve_cons (n : Node) (s : String) (ss : List String) :
    n.resolve (s :: ss) = (n.branch? s).bind fun b => (n.below? b).bind (resolve ss) := by
  rw [resolve, child?_eq, Option.bind_assoc]

/-- What a path leads to only depends on its address. -/
theorem resolve_eq (ss : List String) (n : Node) :
    n.resolve ss = (n.address? ss).bind fun a => n.at? a := by
  induction ss generalizing n with
  | nil => rfl
  | cons s ss ih =>
    rw [resolve_cons, address?]
    cases hb : n.branch? s with
    | none => rfl
    | some b =>
      cases hc : n.below? b with
      | none => simp [hc]
      | some c =>
        simp only [hc, Option.bind_some, ih c]
        cases c.address? ss <;> simp [at?, hc]

theorem address?_of_resolve {ss : List String} {n m : Node} (h : n.resolve ss = some m) :
    ∃ a, n.address? ss = some a ∧ n.at? a = some m := by
  rw [resolve_eq] at h
  exact Option.bind_eq_some_iff.mp h

theorem modify_cons {n c : Node} {s : String} {b : Branch} (hb : n.branch? s = some b)
    (hc : n.below? b = some c) (f : Node → Node) (ss : List String) :
    n.modify f (s :: ss) = n.withBelow b (c.modify f ss) := by
  have hchild : n.child? s = some c := by rw [child?_eq, hb, Option.bind_some, hc]
  rw [modify, hchild]
  exact withChild_eq hb _

theorem resolve_cons_eq_some {n m : Node} {s : String} {ss : List String}
    (h : n.resolve (s :: ss) = some m) :
    ∃ b c, n.branch? s = some b ∧ n.below? b = some c ∧ c.resolve ss = some m := by
  rw [resolve_cons] at h
  obtain ⟨b, hb, h⟩ := Option.bind_eq_some_iff.mp h
  obtain ⟨c, hc, h⟩ := Option.bind_eq_some_iff.mp h
  exact ⟨b, c, hb, hc, h⟩

theorem address?_modify_leaf {ps : List String} {n : Node} {l : Leaf}
    (h : n.resolve ps = some (leaf l)) (l' : Leaf) (ss : List String) :
    (n.modify (fun _ => leaf l') ps).address? ss = n.address? ss := by
  induction ps generalizing n ss with
  | nil =>
    cases h
    cases ss <;> rfl
  | cons p ps ih =>
    obtain ⟨b, c, hb, hc, h⟩ := resolve_cons_eq_some h
    rw [modify_cons hb hc]
    cases ss with
    | nil => rfl
    | cons s ss =>
      rw [address?, address?, branch?_withBelow]
      cases hs : n.branch? s with
      | none => rfl
      | some b' =>
        simp only [Option.bind_some, below?_withBelow hc]
        by_cases he : b' = b
        · simp only [he, if_true, hc, Option.bind_some, ih h]
        · simp only [he, if_false]

/-- After a leaf is replaced, the paths with its address lead to the new one, and all others to the
leaves of before. -/
theorem leaf?_modify_leaf {ps : List String} {n : Node} {l : Leaf}
    (h : n.resolve ps = some (leaf l)) (l' : Leaf) (ss : List String) :
    ((n.modify (fun _ => leaf l') ps).resolve ss).bind leaf? =
      if n.address? ss = n.address? ps then some l' else (n.resolve ss).bind leaf? := by
  induction ps generalizing n ss with
  | nil =>
    cases h
    cases ss with
    | nil => rfl
    | cons s ss => simp [address?, branch?, modify, resolve_cons]
  | cons p ps ih =>
    obtain ⟨b, c, hb, hc, h⟩ := resolve_cons_eq_some h
    obtain ⟨a, ha, -⟩ := address?_of_resolve h
    rw [modify_cons hb hc]
    have hp : n.address? (p :: ps) = some (b :: a) := by simp [address?, hb, hc, ha]
    rw [hp]
    cases ss with
    | nil =>
      have hn : leaf? (n.withBelow b (c.modify (fun _ => leaf l') ps)) = leaf? n := by
        cases n <;> cases b <;> rfl
      simpa only [resolve, Option.bind_some, address?, Option.some.injEq, reduceCtorEq, if_false] using hn
    | cons s ss =>
      rw [resolve_cons, resolve_cons, branch?_withBelow, address?]
      cases hs : n.branch? s with
      | none => simp
      | some b' =>
        simp only [Option.bind_some, below?_withBelow hc]
        by_cases he : b' = b
        · subst he
          simp only [if_true, hc, Option.bind_some, ih h, ha]
          cases c.address? ss <;> simp
        · simp only [he, if_false]
          cases n.below? b' with
          | none => simp
          | some d => cases hd : d.address? ss <;> simp [hd, he]

theorem leaf?_eq_some {o : Option Node} {l : Leaf} (h : o.bind leaf? = some l) :
    o = some (leaf l) := by
  obtain ⟨n, rfl, hn⟩ := Option.bind_eq_some_iff.mp h
  cases n <;> simp_all [leaf?]

end Node

namespace Store

def address? (s : Store) (path : ControlPath) : Option Node.Address :=
  s.root.address? path.segments

theorem resolve_eq_at? {s : Store} {path : ControlPath} {a : Node.Address}
    (h : s.address? path = some a) : s.resolve path = s.root.at? a := by
  have ha : s.root.address? path.segments = some a := h
  rw [resolve, Node.resolve_eq, ha, Option.bind_some]

theorem resolve_eq_of_leaf? {s : Store} {path : ControlPath} {l : Leaf}
    (h : s.leaf? path = some l) : s.resolve path = some (.leaf l) :=
  Node.leaf?_eq_some h

theorem leaf?_congr {s : Store} {p q : ControlPath} (h : s.address? p = s.address? q) :
    s.leaf? p = s.leaf? q := by
  simp only [leaf?, resolve, Node.resolve_eq]
  rw [show s.root.address? p.segments = s.root.address? q.segments from h]

theorem address?_setLeaf {s : Store} {p : ControlPath} {l : Leaf} (h : s.leaf? p = some l)
    (l' : Leaf) (q : ControlPath) : (s.setLeaf p l').address? q = s.address? q :=
  Node.address?_modify_leaf (resolve_eq_of_leaf? h) l' q.segments

theorem leaf?_setLeaf {s : Store} {p : ControlPath} {l : Leaf} (h : s.leaf? p = some l)
    (l' : Leaf) (q : ControlPath) :
    (s.setLeaf p l').leaf? q = if s.address? q = s.address? p then some l' else s.leaf? q :=
  Node.leaf?_modify_leaf (resolve_eq_of_leaf? h) l' q.segments

theorem leaf?_setLeaf_self {s : Store} {p : ControlPath} {l : Leaf} (h : s.leaf? p = some l)
    (l' : Leaf) : (s.setLeaf p l').leaf? p = some l' := by
  rw [leaf?_setLeaf h, if_pos rfl]

end Store

end Formwork
