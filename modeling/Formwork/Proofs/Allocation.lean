import Mathlib.Data.List.Induction
import Formwork.Proofs.Listing

/-! Additions one after another from an empty store. Their paths stay with the nodes they were handed
out for exactly as long as no key of a group holds a point. -/

namespace Formwork

inductive Addition where
  | group (key : String) (parent : ControlPath)
  | array (key : String) (parent : ControlPath)
  | control (key : String) (parent : ControlPath) (leaf : Leaf)

namespace Addition

def key : Addition → String
  | group key _ => key
  | array key _ => key
  | control key _ _ => key

def parent : Addition → ControlPath
  | group _ parent => parent
  | array _ parent => parent
  | control _ parent _ => parent

def node : Addition → Node
  | group _ _ => .group []
  | array _ _ => .array []
  | control _ _ l => .leaf l

theorem below?_node (x : Addition) (b : Node.Branch) : x.node.below? b = none := by
  cases x <;> cases b <;> rfl

theorem arranged_node {K : String → Prop} {P : Leaf → Prop} {x : Addition}
    (h : ∀ l, x.node = .leaf l → P l) : x.node.Arranged K P := by
  cases x with
  | group key parent => exact .group List.Pairwise.nil nofun nofun
  | array key parent => exact .array nofun
  | control key parent l => exact .leaf (h l rfl)

end Addition

namespace Store

open Node (Branch Address)

def attempt (s : Store) (x : Addition) : Except StoreError (ControlPath × Store) :=
  s.add x.key x.parent x.node

def after (s : Store) (x : Addition) : Store :=
  match s.attempt x with
  | .ok (_, s') => s'
  | .error _ => s

def reached (xs : List Addition) : Store := xs.foldl after empty

/-- The path leads to the address and resolves to the given node, but for what may have been added
below it. -/
structure Leads (s : Store) (p : ControlPath) (a : Address) (n : Node) : Prop where
  address : s.address? p = some a
  node : ∃ m, s.resolve p = some m ∧ m.bare = n.bare

/-- Every call that succeeds answers with a path that no earlier one answered with and that leads, from
then on, to the node which the call made; the listings name each node once. -/
structure Faithful (xs : List Addition) : Prop where
  unused : ∀ earlier y between x later p q s t, xs = earlier ++ y :: between ++ x :: later →
    (reached earlier).attempt y = .ok (q, s) →
    (reached (earlier ++ y :: between)).attempt x = .ok (p, t) → p ≠ q
  lasting : ∀ before x later p s, xs = before ++ x :: later →
    (reached before).attempt x = .ok (p, s) →
    ∃ a, (reached before).root.at? a = none ∧
      ∀ soon, soon <+: later → (reached (before ++ x :: soon)).Leads p a x.node
  paths : (reached xs).paths.Nodup
  leaves : ∀ a l, (reached xs).root.at? a = some (.leaf l) →
    ((reached xs).leafPaths.map (reached xs).address?).count (some a) = 1

/-- The call does not succeed in putting a key with a point into a group. -/
def PlainCall (s : Store) (x : Addition) : Prop :=
  ∀ p s' children, s.attempt x = .ok (p, s') → s.resolve x.parent = some (.group children) →
    '.' ∉ x.key.toList

def Plain (xs : List Addition) : Prop :=
  ∀ before x later, xs = before ++ x :: later → (reached before).PlainCall x

structure Fills (s : Store) (x : Addition) (s' : Store) (a : Address) (c : Node) (b : Branch) :
    Prop where
  parent : s.address? x.parent = some a
  container : s.root.at? a = some c
  place : c.place? x.key = some b
  result : s'.root = s.root.modify (fun c => c.adding x.key x.node) x.parent.segments

section Step

variable {s s' : Store} {x : Addition} {a : Address} {c : Node} {b : Branch}

theorem attempt_eq_ok {p : ControlPath} (h : s.attempt x = .ok (p, s')) :
    ∃ a c b, Fills s x s' a c b ∧ p = x.parent.child b := by
  obtain ⟨c, b, hc, hb, rfl, rfl⟩ := add_eq_ok h
  obtain ⟨a, ha, hat⟩ := Node.address?_of_resolve hc
  exact ⟨a, c, b, ⟨ha, hat, hb, Node.modify_congr hc rfl⟩, rfl⟩

theorem Fills.resolve_parent (h : Fills s x s' a c b) : s.resolve x.parent = some c := by
  rw [resolve_eq_at? h.parent, h.container]

theorem Fills.grows (h : Fills s x s' a c b) : s.root.Grows s'.root := by
  rw [h.result]
  exact Node.grows_modify h.resolve_parent (Node.grows_adding h.place x.node)

theorem Fills.at?_container (h : Fills s x s' a c b) :
    s'.root.at? a = some (c.adding x.key x.node) := by
  rw [h.result]
  exact Node.at?_modify_self h.parent h.container (Node.grows_adding h.place x.node)

theorem Fills.free (h : Fills s x s' a c b) : s.root.at? (a ++ [b]) = none := by
  rw [Node.at?_append, h.container, Option.bind_some, Node.at?, Node.below?_place h.place]
  rfl

theorem Fills.made (h : Fills s x s' a c b) : s'.root.at? (a ++ [b]) = some x.node := by
  rw [Node.at?_append, h.at?_container, Option.bind_some, Node.at?,
    Node.below?_adding_self h.place]
  rfl

theorem Fills.eq_of_made (h : Fills s x s' a c b) {a' : Address} {d : Node}
    (hold : s.root.at? a' = none) (hnew : s'.root.at? a' = some d) : a' = a ++ [b] := by
  rw [h.result] at hnew
  rcases Node.at?_modify_adding h.parent h.container h.place hnew with ⟨d', hd'⟩ | ⟨r, rfl⟩
  · cases hold.symm.trans hd'
  · cases r with
    | nil => rfl
    | cons b' r =>
      rw [← h.result, List.append_cons, Node.at?_append, h.made, Option.bind_some, Node.at?,
        x.below?_node] at hnew
      cases hnew

theorem Fills.address?_child (h : Fills s x s' a c b) (hroot : s.root.bare = .group [])
    (hplain : b.Plain) : s'.address? (x.parent.child b) = some (a ++ [b]) := by
  have hkey : x.parent = .root → ∃ k, b = .key k := by
    intro hparent
    have ha := h.parent
    have hc := h.container
    rw [hparent] at ha
    cases ha
    cases hc
    exact Node.key_of_group ((Node.grows_adding h.place x.node).bare_eq.trans hroot)
      (Node.below?_adding_self h.place x.node)
  have hbelow := Node.below?_adding_self h.place x.node
  rw [address?, ControlPath.segments_child hplain hkey,
    Node.address?_append (h.grows.address? h.parent) h.at?_container]
  simp [Node.address?, Node.branch?_text hbelow, hbelow]

theorem Fills.plain (h : Fills s x s' a c b) (hcall : s.PlainCall x)
    {p : ControlPath} (hx : s.attempt x = .ok (p, s')) : b.Plain := by
  refine Node.plain_of_place h.place fun hc => ?_
  have hparent := h.resolve_parent
  cases c with
  | group children => exact hcall p s' children hx hparent
  | array children => cases hc
  | leaf l => cases hc

theorem Fills.arranged {K : String → Prop} {P : Leaf → Prop} (h : Fills s x s' a c b)
    (hs : s.root.Arranged K P) (hkey : ∀ k, b = .key k → K k) (hx : ∀ l, x.node = .leaf l → P l) :
    s'.root.Arranged K P := by
  rw [h.result]
  exact hs.modify h.resolve_parent fun hc => hc.adding h.place hkey (x.arranged_node hx)

theorem grows_after (s : Store) (x : Addition) : s.root.Grows (s.after x).root := by
  rw [after]
  split
  · next h =>
    obtain ⟨a, c, b, hf, -⟩ := attempt_eq_ok h
    exact hf.grows
  · exact Node.Grows.refl s.root

theorem WellKeyed.after (h : s.WellKeyed) (hcall : s.PlainCall x) : (s.after x).WellKeyed := by
  rw [Store.after]
  split
  · next p s' hx =>
    obtain ⟨a, c, b, hf, -⟩ := attempt_eq_ok hx
    have hkey : ∀ k, b = .key k → (Branch.key k).Plain := fun k hk => hk ▸ hf.plain hcall hx
    exact ⟨hf.arranged h.root hkey fun _ _ => trivial, hf.grows.bare_eq.trans h.base⟩
  · exact h

end Step

theorem reached_concat (before : List Addition) (x : Addition) :
    reached (before ++ [x]) = (reached before).after x := by
  simp [reached]

theorem grows_reached (xs ys : List Addition) :
    (reached xs).root.Grows (reached (xs ++ ys)).root := by
  induction ys using List.reverseRecOn with
  | nil =>
    rw [List.append_nil]
    exact Node.Grows.refl _
  | append_singleton ys y ih =>
    rw [← List.append_assoc, reached_concat]
    exact ih.trans (grows_after _ y)

theorem bare_root_reached (xs : List Addition) : (reached xs).root.bare = .group [] :=
  (grows_reached [] xs).bare_eq

theorem reached_of_attempt {before : List Addition} {x : Addition} {p : ControlPath} {s : Store}
    (h : (reached before).attempt x = .ok (p, s)) : reached (before ++ [x]) = s := by
  rw [reached_concat, after, h]

theorem Plain.of_append {xs ys : List Addition} (h : Plain (xs ++ ys)) : Plain xs := by
  intro before x later he
  exact h before x (later ++ ys) (by rw [he]; simp)

theorem wellKeyed_reached {xs : List Addition} (h : Plain xs) : (reached xs).WellKeyed := by
  induction xs using List.reverseRecOn with
  | nil => exact ⟨.group List.Pairwise.nil nofun nofun, rfl⟩
  | append_singleton xs x ih =>
    rw [reached_concat]
    exact (ih h.of_append).after (h xs x [] rfl)

theorem arranged_reached {P : Leaf → Prop} {xs : List Addition}
    (h : ∀ x ∈ xs, ∀ l, x.node = .leaf l → P l) : (reached xs).root.Arranged (· ≠ "") P := by
  induction xs using List.reverseRecOn with
  | nil => exact .group List.Pairwise.nil nofun nofun
  | append_singleton xs x ih =>
    have hxs := ih fun y hy => h y (List.mem_append_left _ hy)
    have hx := h x (List.mem_append_right _ List.mem_cons_self)
    rw [reached_concat, after]
    split
    · next hs =>
      obtain ⟨a, c, b, hf, -⟩ := attempt_eq_ok hs
      exact hf.arranged hxs (fun k hk => Node.key_ne_empty_of_place (hk ▸ hf.place)) hx
    · exact hxs

theorem Leads.of_grows {s s' : Store} {p : ControlPath} {a : Address} {n : Node}
    (h : s.Leads p a n) (hg : s.root.Grows s'.root) : s'.Leads p a n := by
  obtain ⟨ha, m, hm, hb⟩ := h
  rw [resolve_eq_at? ha] at hm
  obtain ⟨m', hm', hb'⟩ := hg a m hm
  have ha' : s'.address? p = some a := hg.address? ha
  exact ⟨ha', m', by rw [resolve_eq_at? ha', hm'], hb'.trans hb⟩

theorem leads_of_attempt {before : List Addition} {x : Addition} {p : ControlPath} {s : Store}
    (hcall : (reached before).PlainCall x) (h : (reached before).attempt x = .ok (p, s)) :
    ∃ a, (reached before).root.at? a = none ∧
      ∀ soon, (reached (before ++ x :: soon)).Leads p a x.node := by
  obtain ⟨a, c, b, hf, rfl⟩ := attempt_eq_ok h
  refine ⟨a ++ [b], hf.free, fun soon => ?_⟩
  have ha := hf.address?_child (bare_root_reached before) (hf.plain hcall h)
  have hlead : s.Leads (x.parent.child b) (a ++ [b]) x.node :=
    ⟨ha, x.node, by rw [resolve_eq_at? ha, hf.made], rfl⟩
  have hg := grows_reached (before ++ [x]) soon
  rw [reached_of_attempt h, ← List.append_cons] at hg
  exact hlead.of_grows hg

theorem Plain.unused {xs earlier between later : List Addition} {x y : Addition}
    {p q : ControlPath} {s t : Store} (h : Plain xs)
    (he : xs = earlier ++ y :: between ++ x :: later)
    (hy : (reached earlier).attempt y = .ok (q, s))
    (hx : (reached (earlier ++ y :: between)).attempt x = .ok (p, t)) : p ≠ q := by
  have hey : xs = earlier ++ y :: (between ++ x :: later) := by rw [he]; simp
  obtain ⟨a, -, ha⟩ := leads_of_attempt (h _ _ _ hey) hy
  obtain ⟨a', hfree, ha'⟩ := leads_of_attempt (h _ _ _ he) hx
  rintro rfl
  obtain ⟨hq, m, hm, -⟩ := ha between
  rw [resolve_eq_at? hq] at hm
  have hsame : a' = a := by
    have hg := (grows_reached (earlier ++ y :: between) [x]).address? hq
    exact Option.some.inj ((ha' []).address.symm.trans hg)
  rw [hsame, hm] at hfree
  cases hfree

theorem Faithful.plain {xs : List Addition} (h : Faithful xs) : Plain xs := by
  intro before x later he p s children hx hparent hpoint
  obtain ⟨a', hfree, hlead⟩ := h.lasting before x later p s he hx
  obtain ⟨hp, m, hm, -⟩ := hlead [] List.nil_prefix
  rw [resolve_eq_at? hp] at hm
  rw [reached_of_attempt hx] at hp hm
  obtain ⟨a, c, b, hf, rfl⟩ := attempt_eq_ok hx
  have hplace := hf.place
  rw [Option.some.inj (hf.resolve_parent.symm.trans hparent)] at hplace
  obtain ⟨rfl, hne, -⟩ := Node.place?_group hplace
  have hlength := Node.length_address? hp
  rw [hf.eq_of_made hfree hm, List.length_append, Node.length_address? hf.parent] at hlength
  exact absurd hlength (Nat.ne_of_lt (ControlPath.length_segments_childKey hne hpoint))

/-- Additions from an empty store keep what their paths promise exactly if no group gets a key with a
point in it. -/
theorem faithful_iff_plain (xs : List Addition) : Faithful xs ↔ Plain xs := by
  constructor
  · exact Faithful.plain
  · intro h
    have hw := wellKeyed_reached h
    refine ⟨fun earlier y between x later p q s t he hy hx => h.unused he hy hx, ?_,
      hw.nodup_paths, fun a l ha => hw.count_leafPaths ha⟩
    intro before x later p s he hx
    obtain ⟨a, hfree, hlead⟩ := leads_of_attempt (h before x later he) hx
    exact ⟨a, hfree, fun soon _ => hlead soon⟩

/-- The path of a control under a key with a point leads nowhere, or to what was added there before. -/
theorem not_faithful_of_pointed_key :
    (∃ s, empty.attempt (.control "a.b" .root (.fresh [] [])) = .ok (⟨"a.b"⟩, s) ∧
      s.resolve ⟨"a.b"⟩ = none) ∧
    (reached [.group "a" .root, .array "b" ⟨"a"⟩, .control "a.b" .root (.fresh [] [])]).paths =
      [.root, ⟨"a"⟩, ⟨"a.b"⟩, ⟨"a.b"⟩] ∧
    ¬ Faithful [.control "a.b" .root (.fresh [] [])] :=
  ⟨⟨_, rfl, rfl⟩, by decide,
    fun h => h.plain [] _ [] rfl _ _ [] rfl rfl (by decide)⟩

end Store

end Formwork
