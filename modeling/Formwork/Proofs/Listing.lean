import Mathlib.Data.List.Nodup
import Formwork.Proofs.Addition

/-! The listing of a tree whose group keys ascend and hold no point: every address once, and the path
of each is read back to it. -/

namespace Formwork

namespace Node

/-- Groups have their children in ascending order of keys with the property `K`, and all leaves have the
property `P`. -/
inductive Arranged (K : String → Prop) (P : Leaf → Prop) : Node → Prop
  | group {children : List (String × Node)} (ascending : Keyed.Ascending children)
      (keys : ∀ e ∈ children, K e.1) (below : ∀ e ∈ children, Arranged K P e.2) :
      Arranged K P (group children)
  | array {children : List Node} (below : ∀ c ∈ children, Arranged K P c) :
      Arranged K P (array children)
  | leaf {l : Leaf} (holds : P l) : Arranged K P (leaf l)

section Arranged

variable {K : String → Prop} {P : Leaf → Prop} {n c m : Node} {b : Branch}

theorem Arranged.below? (h : n.Arranged K P) (hc : n.below? b = some c) :
    (∀ k, b = .key k → K k) ∧ c.Arranged K P := by
  cases h with
  | group _ keys below =>
    cases b with
    | key k =>
      have hm := Keyed.mem_of_get? hc
      refine ⟨?_, below _ hm⟩
      rintro k' ⟨⟩
      exact keys _ hm
    | index i => cases hc
  | array below =>
    cases b with
    | key k => cases hc
    | index i => exact ⟨nofun, below c (List.mem_of_getElem? hc)⟩
  | leaf holds => cases hc

theorem Arranged.withBelow (h : n.Arranged K P) (hc : c.Arranged K P) :
    (n.withBelow b c).Arranged K P := by
  cases h with
  | @group children ascending keys below =>
    cases b with
    | key k =>
      have hkey : ∀ e : String × Node, (if e.1 = k then (e.1, c) else e).1 = e.1 := by
        intro e
        by_cases he : e.1 = k <;> simp [he]
      refine .group (List.pairwise_map.mpr (ascending.imp fun {e f} hlt => ?_)) ?_ ?_
      · simpa only [hkey] using hlt
      · intro e he
        obtain ⟨f, hf, rfl⟩ := List.mem_map.mp he
        simpa only [hkey] using keys f hf
      · intro e he
        obtain ⟨f, hf, rfl⟩ := List.mem_map.mp he
        by_cases hk : f.1 = k
        · simpa [hk] using hc
        · simpa [hk] using below f hf
    | index i => exact .group ascending keys below
  | array below =>
    cases b with
    | key k => exact .array below
    | index i =>
      refine .array fun d hd => ?_
      rcases List.mem_or_eq_of_mem_set hd with hd | rfl
      · exact below d hd
      · exact hc
  | leaf holds => cases b <;> exact .leaf holds

theorem Arranged.adding {key : String} (h : n.Arranged K P) (hb : n.place? key = some b)
    (hkey : ∀ k, b = .key k → K k) (hm : m.Arranged K P) : (n.adding key m).Arranged K P := by
  cases h with
  | group ascending keys below =>
    obtain ⟨rfl, -, -⟩ := place?_group hb
    refine .group (ascending.insert key m) ?_ ?_
    · intro e he
      rcases Keyed.mem_of_mem_insert he with rfl | he
      · exact hkey _ rfl
      · exact keys e he
    · intro e he
      rcases Keyed.mem_of_mem_insert he with rfl | he
      · exact hm
      · exact below e he
  | array below =>
    refine .array fun d hd => ?_
    rcases List.mem_append.mp hd with hd | hd
    · exact below d hd
    · rw [List.mem_singleton.mp hd]
      exact hm
  | leaf holds => cases hb

theorem Arranged.modify {ps : List String} {f : Node → Node} (h : n.Arranged K P)
    (hc : n.resolve ps = some c) (hf : c.Arranged K P → (f c).Arranged K P) :
    (n.modify f ps).Arranged K P := by
  induction ps generalizing n with
  | nil =>
    cases hc
    exact hf h
  | cons p ps ih =>
    obtain ⟨b, d, hb, hd, hc⟩ := resolve_cons_eq_some hc
    rw [modify_cons hb hd]
    exact h.withBelow (ih (h.below? hd).2 hc)

theorem Arranged.at? {a : Address} (h : n.Arranged K P) (hm : n.at? a = some m) :
    m.Arranged K P := by
  induction a generalizing n with
  | nil =>
    cases hm
    exact h
  | cons b a ih =>
    obtain ⟨c, hc, hm⟩ := Option.bind_eq_some_iff.mp hm
    exact ih (h.below? hc).2 hm

theorem Arranged.key_of_at? {a : Address} {k : String} (h : n.Arranged K P) (hm : n.at? a = some m)
    (hk : .key k ∈ a) : K k := by
  induction a generalizing n with
  | nil => cases hk
  | cons b a ih =>
    obtain ⟨c, hc, hm⟩ := Option.bind_eq_some_iff.mp hm
    obtain ⟨hkey, hbelow⟩ := h.below? hc
    rcases List.mem_cons.mp hk with hb | hk
    · exact hkey k hb.symm
    · exact ih hbelow hm hk

theorem Arranged.mono {K' : String → Prop} (h : n.Arranged K P) (hK : ∀ k, K k → K' k) :
    n.Arranged K' P := by
  induction h with
  | group ascending keys _ ih => exact .group ascending (fun e he => hK _ (keys e he)) ih
  | array _ ih => exact .array ih
  | leaf holds => exact .leaf holds

end Arranged

abbrev WellKeyed : Node → Prop := Arranged (fun k => (Branch.key k).Plain) fun _ => True

theorem WellKeyed.plain {n m : Node} {a : Address} (h : n.WellKeyed) (hm : n.at? a = some m) :
    ∀ b ∈ a, b.Plain := by
  intro b hb
  cases b with
  | key k => exact h.key_of_at? hm hb
  | index i => trivial

theorem branch?_text {n c : Node} {b : Branch} (h : n.below? b = some c) :
    n.branch? b.text = some b := by
  cases n with
  | group children =>
    cases b with
    | key k => rfl
    | index i => cases h
  | array children =>
    cases b with
    | key k => cases h
    | index i => simp [branch?, Branch.text, Text.readCount?_natText]
  | leaf l => cases h

theorem key_of_group {n c : Node} {b : Branch} (hn : n.bare = group [])
    (hc : n.below? b = some c) : ∃ k, b = .key k := by
  cases n with
  | group children =>
    cases b with
    | key k => exact ⟨k, rfl⟩
    | index i => cases hc
  | array children => cases hn
  | leaf l => cases hn

theorem address?_texts {n m : Node} {a : Address} (h : n.at? a = some m) :
    n.address? (a.map Branch.text) = some a := by
  induction a generalizing n with
  | nil => rfl
  | cons b a ih =>
    obtain ⟨c, hc, h⟩ := Option.bind_eq_some_iff.mp h
    simp [address?, branch?_text hc, hc, ih h]

def under (b : Branch) (e : Address × Node) : Address × Node := (b :: e.1, e.2)

mutual
def listing : Node → List (Address × Node)
  | group children => ([], group children) :: memberListing children
  | array children => ([], array children) :: itemListing 0 children
  | leaf l => [([], leaf l)]
def itemListing (i : Nat) : List Node → List (Address × Node)
  | [] => []
  | n :: ns => (listing n).map (under (.index i)) ++ itemListing (i + 1) ns
def memberListing : List (String × Node) → List (Address × Node)
  | [] => []
  | (k, n) :: ns => (listing n).map (under (.key k)) ++ memberListing ns
end

def addresses (n : Node) : List Address := n.listing.map (·.1)

mutual
theorem walk_eq (p : ControlPath) (n : Node) :
    n.walk p = n.listing.map fun e => (e.1.foldl ControlPath.child p, e.2) := by
  cases n with
  | group children =>
    rw [walk, listing, walkMembers_eq]
    rfl
  | array children =>
    rw [walk, listing, walkItems_eq]
    rfl
  | leaf l => rfl
theorem walkItems_eq (p : ControlPath) (i : Nat) (ns : List Node) :
    walkItems p i ns = (itemListing i ns).map fun e => (e.1.foldl ControlPath.child p, e.2) := by
  cases ns with
  | nil => rfl
  | cons n ns =>
    rw [walkItems, itemListing, walk_eq, walkItems_eq, List.map_append, List.map_map]
    rfl
theorem walkMembers_eq (p : ControlPath) (ns : List (String × Node)) :
    walkMembers p ns = (memberListing ns).map fun e => (e.1.foldl ControlPath.child p, e.2) := by
  cases ns with
  | nil => rfl
  | cons e ns =>
    obtain ⟨k, n⟩ := e
    rw [walkMembers, memberListing, walk_eq, walkMembers_eq, List.map_append, List.map_map]
    rfl
end

theorem mem_map_under {b : Branch} {a : Address} {m : Node} {es : List (Address × Node)} :
    (a, m) ∈ es.map (under b) ↔ ∃ r, a = b :: r ∧ (r, m) ∈ es := by
  constructor
  · intro h
    obtain ⟨e, he, heq⟩ := List.mem_map.mp h
    cases heq
    exact ⟨e.1, rfl, he⟩
  · rintro ⟨r, rfl, h⟩
    exact List.mem_map.mpr ⟨(r, m), h, rfl⟩

theorem mem_memberListing {ns : List (String × Node)} {a : Address} {m : Node} :
    (a, m) ∈ memberListing ns ↔ ∃ k n r, (k, n) ∈ ns ∧ a = .key k :: r ∧ (r, m) ∈ n.listing := by
  induction ns with
  | nil => simp [memberListing]
  | cons e ns ih =>
    obtain ⟨k, n⟩ := e
    rw [memberListing, List.mem_append, mem_map_under, ih]
    constructor
    · rintro (⟨r, ha, hr⟩ | ⟨l, c, r, hc, ha, hr⟩)
      · exact ⟨k, n, r, List.mem_cons_self, ha, hr⟩
      · exact ⟨l, c, r, List.mem_cons_of_mem _ hc, ha, hr⟩
    · rintro ⟨l, c, r, hc, ha, hr⟩
      rcases List.mem_cons.mp hc with he | hc
      · cases he
        exact .inl ⟨r, ha, hr⟩
      · exact .inr ⟨l, c, r, hc, ha, hr⟩

theorem mem_itemListing {ns : List Node} {i : Nat} {a : Address} {m : Node} :
    (a, m) ∈ itemListing i ns ↔
      ∃ j n r, ns[j]? = some n ∧ a = .index (i + j) :: r ∧ (r, m) ∈ n.listing := by
  induction ns generalizing i with
  | nil => simp [itemListing]
  | cons n ns ih =>
    rw [itemListing, List.mem_append, mem_map_under, ih]
    constructor
    · rintro (⟨r, ha, hr⟩ | ⟨j, c, r, hc, ha, hr⟩)
      · exact ⟨0, n, r, rfl, ha, hr⟩
      · exact ⟨j + 1, c, r, hc, by rw [ha, Nat.add_right_comm, Nat.add_assoc], hr⟩
    · rintro ⟨j, c, r, hc, ha, hr⟩
      cases j with
      | zero =>
        cases hc
        exact .inl ⟨r, ha, hr⟩
      | succ j => exact .inr ⟨j, c, r, hc, by rw [ha, Nat.add_right_comm, Nat.add_assoc], hr⟩

section

variable {K : String → Prop} {P : Leaf → Prop}

theorem Arranged.mem_listing_cons {n m : Node} {b : Branch} {a : Address} (h : n.Arranged K P) :
    (b :: a, m) ∈ n.listing ↔ ∃ c, n.below? b = some c ∧ (a, m) ∈ c.listing := by
  cases h with
  | @group children ascending _ _ =>
    simp only [listing, List.mem_cons, Prod.mk.injEq, reduceCtorEq, false_and, false_or,
      mem_memberListing, List.cons.injEq]
    constructor
    · rintro ⟨k, c, r, hc, ⟨rfl, rfl⟩, hm⟩
      exact ⟨c, ascending.get?_of_mem hc, hm⟩
    · rintro ⟨c, hc, hm⟩
      cases b with
      | key k => exact ⟨k, c, a, Keyed.mem_of_get? hc, ⟨rfl, rfl⟩, hm⟩
      | index i => cases hc
  | @array children _ =>
    simp only [listing, List.mem_cons, Prod.mk.injEq, reduceCtorEq, false_and, false_or,
      mem_itemListing, List.cons.injEq, Nat.zero_add]
    constructor
    · rintro ⟨j, c, r, hc, ⟨rfl, rfl⟩, hm⟩
      exact ⟨c, hc, hm⟩
    · rintro ⟨c, hc, hm⟩
      cases b with
      | key k => cases hc
      | index i => exact ⟨i, c, a, hc, ⟨rfl, rfl⟩, hm⟩
  | leaf holds => cases b <;> simp [listing, Node.below?]

theorem mem_listing_nil {n m : Node} : ([], m) ∈ n.listing ↔ n = m := by
  cases n <;> simp [listing, mem_memberListing, mem_itemListing, @eq_comm _ m]

/-- The listing has the nodes of the tree and no others. -/
theorem Arranged.mem_listing {n m : Node} {a : Address} (h : n.Arranged K P) :
    (a, m) ∈ n.listing ↔ n.at? a = some m := by
  induction a generalizing n with
  | nil => simp [mem_listing_nil, Node.at?]
  | cons b a ih =>
    rw [h.mem_listing_cons, Node.at?, Option.bind_eq_some_iff]
    constructor
    · rintro ⟨c, hc, hm⟩
      exact ⟨c, hc, (ih (h.below? hc).2).mp hm⟩
    · rintro ⟨c, hc, hm⟩
      exact ⟨c, hc, (ih (h.below? hc).2).mpr hm⟩

theorem fst_map_under (b : Branch) (es : List (Address × Node)) :
    (es.map (under b)).map (·.1) = (es.map (·.1)).map (b :: ·) := by
  rw [List.map_map, List.map_map]
  rfl

theorem nodup_map_under {b : Branch} {es : List (Address × Node)} (h : (es.map (·.1)).Nodup) :
    ((es.map (under b)).map (·.1)).Nodup := by
  rw [fst_map_under]
  exact h.map fun _ _ he => (List.cons.inj he).2

theorem nodup_memberListing {ns : List (String × Node)} (h : Keyed.Ascending ns)
    (hbelow : ∀ e ∈ ns, e.2.addresses.Nodup) : ((memberListing ns).map (·.1)).Nodup := by
  induction ns with
  | nil => exact List.nodup_nil
  | cons e ns ih =>
    obtain ⟨k, n⟩ := e
    have hc := List.pairwise_cons.mp h
    rw [memberListing, List.map_append, List.nodup_append]
    refine ⟨nodup_map_under (hbelow _ List.mem_cons_self),
      ih hc.2 fun e he => hbelow e (List.mem_cons_of_mem _ he), ?_⟩
    rintro a ha a' ha' rfl
    obtain ⟨⟨_, m⟩, hm, rfl⟩ := List.mem_map.mp ha
    obtain ⟨⟨_, m'⟩, hm', he⟩ := List.mem_map.mp ha'
    cases he
    obtain ⟨r, hr, -⟩ := mem_map_under.mp hm
    obtain ⟨l, c, r', hc', hr', -⟩ := mem_memberListing.mp hm'
    have hkl : k = l := by
      rw [hr] at hr'
      cases hr'
      rfl
    exact String.lt_irrefl k (hkl ▸ hc.1 (l, c) hc')

theorem nodup_itemListing {ns : List Node} (i : Nat) (hbelow : ∀ c ∈ ns, c.addresses.Nodup) :
    ((itemListing i ns).map (·.1)).Nodup := by
  induction ns generalizing i with
  | nil => exact List.nodup_nil
  | cons n ns ih =>
    rw [itemListing, List.map_append, List.nodup_append]
    refine ⟨nodup_map_under (hbelow _ List.mem_cons_self),
      ih (i + 1) fun c hc => hbelow c (List.mem_cons_of_mem _ hc), ?_⟩
    rintro a ha a' ha' rfl
    obtain ⟨⟨_, m⟩, hm, rfl⟩ := List.mem_map.mp ha
    obtain ⟨⟨_, m'⟩, hm', he⟩ := List.mem_map.mp ha'
    cases he
    obtain ⟨r, hr, -⟩ := mem_map_under.mp hm
    obtain ⟨j, c, r', -, hr', -⟩ := mem_itemListing.mp hm'
    rw [hr] at hr'
    have hij : i = i + 1 + j := Branch.index.inj (List.cons.inj hr').1
    omega

theorem Arranged.nodup_addresses {n : Node} (h : n.Arranged K P) : n.addresses.Nodup := by
  induction h with
  | group ascending _ _ ih =>
    refine List.nodup_cons.mpr ⟨fun hm => ?_, nodup_memberListing ascending ih⟩
    obtain ⟨⟨_, m⟩, hm, rfl⟩ := List.mem_map.mp hm
    obtain ⟨k, c, r, -, hr, -⟩ := mem_memberListing.mp hm
    cases hr
  | array _ ih =>
    refine List.nodup_cons.mpr ⟨fun hm => ?_, nodup_itemListing 0 ih⟩
    obtain ⟨⟨_, m⟩, hm, rfl⟩ := List.mem_map.mp hm
    obtain ⟨j, c, r, -, hr, -⟩ := mem_itemListing.mp hm
    cases hr
  | leaf holds => exact List.nodup_singleton _

theorem Arranged.mem_addresses {n : Node} {a : Address} (h : n.Arranged K P) :
    a ∈ n.addresses ↔ ∃ m, n.at? a = some m := by
  constructor
  · intro ha
    obtain ⟨⟨_, m⟩, hm, rfl⟩ := List.mem_map.mp ha
    exact ⟨m, h.mem_listing.mp hm⟩
  · rintro ⟨m, hm⟩
    exact List.mem_map.mpr ⟨(a, m), h.mem_listing.mpr hm, rfl⟩

end

end Node

namespace ControlPath

open Node (Branch Address)

def ofAddress (a : Address) : ControlPath := a.foldl child root

theorem segments_foldl_child {a : Address} {p : ControlPath} (ha : ∀ b ∈ a, b.Plain)
    (hp : p = root → ∀ b ∈ a.head?, ∃ k, b = .key k) :
    (a.foldl child p).segments = p.segments ++ a.map Branch.text := by
  induction a generalizing p with
  | nil => simp
  | cons b a ih =>
    have hc := List.forall_mem_cons.mp ha
    have hb : p = root → ∃ k, b = .key k := fun h => hp h b rfl
    have hne := child_ne_root hc.1 hb
    rw [List.foldl_cons, ih hc.2 fun h => absurd h hne, segments_child hc.1 hb, List.map_cons,
      List.append_assoc]
    rfl

end ControlPath

namespace Store

open Node (Branch Address)

structure WellKeyed (s : Store) : Prop where
  root : s.root.WellKeyed
  base : s.root.bare = .group []

theorem segments_ofAddress {s : Store} (hbase : s.root.bare = .group []) {a : Address} {m : Node}
    (ha : s.root.at? a = some m) (hplain : ∀ b ∈ a, b.Plain) :
    (ControlPath.ofAddress a).segments = a.map Branch.text := by
  refine ControlPath.segments_foldl_child hplain fun _ b hb => ?_
  cases a with
  | nil => cases hb
  | cons b' a =>
    cases hb
    obtain ⟨c, hc, -⟩ := Option.bind_eq_some_iff.mp ha
    exact Node.key_of_group hbase hc

/-- The path that is built along an address is read back to that address. -/
theorem address?_ofAddress {s : Store} (hbase : s.root.bare = .group []) {a : Address} {m : Node}
    (ha : s.root.at? a = some m) (hplain : ∀ b ∈ a, b.Plain) :
    s.address? (.ofAddress a) = some a := by
  rw [address?, segments_ofAddress hbase ha hplain]
  exact Node.address?_texts ha

theorem WellKeyed.address?_ofAddress {s : Store} (h : s.WellKeyed) {a : Address} {m : Node}
    (ha : s.root.at? a = some m) : s.address? (.ofAddress a) = some a :=
  Store.address?_ofAddress h.base ha (h.root.plain ha)

theorem paths_eq (s : Store) : s.paths = s.root.addresses.map .ofAddress := by
  rw [paths, nodes, Node.walk_eq, Node.addresses, List.map_map, List.map_map]
  rfl

theorem WellKeyed.address?_paths {s : Store} (h : s.WellKeyed) :
    s.paths.map s.address? = s.root.addresses.map some := by
  rw [paths_eq, List.map_map]
  refine List.map_congr_left fun a ha => ?_
  obtain ⟨m, hm⟩ := h.root.mem_addresses.mp ha
  exact h.address?_ofAddress hm

theorem WellKeyed.nodup_address?_paths {s : Store} (h : s.WellKeyed) :
    (s.paths.map s.address?).Nodup := by
  rw [h.address?_paths]
  exact h.root.nodup_addresses.map fun _ _ => Option.some.inj

theorem WellKeyed.nodup_paths {s : Store} (h : s.WellKeyed) : s.paths.Nodup :=
  h.nodup_address?_paths.of_map

theorem WellKeyed.mem_leafPaths {s : Store} (h : s.WellKeyed) {a : Address} {l : Leaf}
    (ha : s.root.at? a = some (.leaf l)) : .ofAddress a ∈ s.leafPaths := by
  have hmem : .ofAddress a ∈ s.paths := by
    rw [paths_eq]
    exact List.mem_map_of_mem (h.root.mem_addresses.mpr ⟨_, ha⟩)
  have hleaf : s.leaf? (.ofAddress a) = some l := by
    rw [leaf?, resolve_eq_at? (h.address?_ofAddress ha), ha]
    rfl
  exact List.mem_filter.mpr ⟨hmem, by rw [hleaf]; rfl⟩

theorem WellKeyed.count_leafPaths {s : Store} (h : s.WellKeyed) {a : Address} {l : Leaf}
    (ha : s.root.at? a = some (.leaf l)) : (s.leafPaths.map s.address?).count (some a) = 1 := by
  have hnodup : (s.leafPaths.map s.address?).Nodup :=
    h.nodup_address?_paths.sublist (List.filter_sublist.map _)
  refine List.count_eq_one_of_mem hnodup (List.mem_map.mpr ⟨_, h.mem_leafPaths ha, ?_⟩)
  exact h.address?_ofAddress ha

end Store

end Formwork
