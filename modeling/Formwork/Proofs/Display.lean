import Formwork.Proofs.Replacement

/-! What a snapshot shows of a control. In its place in the document stand the flags of all leaves at or
below it, and the value and the failures of a leaf. -/

namespace Formwork

open Node (Branch Address)

namespace Json

/-- A step down in the document of a snapshot: to the member under the key in a group, or to an element of
the controls of an array. -/
def shown? (b : Branch) (v : Json) : Option Json :=
  match b with
  | .key k => v.member? k
  | .index i => (v.member? "controls").bind fun controls => controls.asArray?.bind (·[i]?)

def shownAt? : Address → Json → Option Json
  | [], v => some v
  | b :: a, v => (v.shown? b).bind (shownAt? a)

end Json

namespace Node

def SomeLeaf (n : Node) (P : Leaf → Prop) : Prop := ∃ a l, n.leafAt? a = some l ∧ P l

theorem leafAt?_cons (b : Branch) (a : Address) (n : Node) :
    n.leafAt? (b :: a) = (n.below? b).bind (leafAt? a) := by
  rw [leafAt?, at?, Option.bind_assoc]
  rfl

theorem someLeaf_leaf {l : Leaf} {P : Leaf → Prop} : (leaf l).SomeLeaf P ↔ P l := by
  constructor
  · rintro ⟨a, m, hm, hp⟩
    cases a with
    | nil =>
      cases hm
      exact hp
    | cons b a =>
      rw [leafAt?_cons] at hm
      cases hm
  · exact fun hp => ⟨[], l, rfl, hp⟩

theorem someLeaf_iff_below {n : Node} {P : Leaf → Prop} (hn : n.leaf? = none) :
    n.SomeLeaf P ↔ ∃ b c, n.below? b = some c ∧ c.SomeLeaf P := by
  constructor
  · rintro ⟨a, l, hl, hp⟩
    cases a with
    | nil => cases hn.symm.trans hl
    | cons b a =>
      rw [leafAt?_cons] at hl
      obtain ⟨c, hc, hl⟩ := Option.bind_eq_some_iff.mp hl
      exact ⟨b, c, hc, a, l, hl, hp⟩
  · rintro ⟨b, c, hc, a, l, hl, hp⟩
    exact ⟨b :: a, l, by rw [leafAt?_cons, hc, Option.bind_some, hl], hp⟩

theorem anyLeafOfItems_eq_any (p : Leaf → Bool) (ns : List Node) :
    anyLeafOfItems p ns = ns.any (anyLeaf p) := by
  induction ns with
  | nil => rfl
  | cons n ns ih => rw [anyLeafOfItems, ih, List.any_cons]

theorem anyLeafOfMembers_eq_any (p : Leaf → Bool) (ns : List (String × Node)) :
    anyLeafOfMembers p ns = ns.any fun e => e.2.anyLeaf p := by
  induction ns with
  | nil => rfl
  | cons e ns ih => rw [anyLeafOfMembers, ih, List.any_cons]

theorem Arranged.anyLeaf_iff {K : String → Prop} {P : Leaf → Prop} {n : Node} (h : n.Arranged K P)
    (p : Leaf → Bool) : n.anyLeaf p = true ↔ n.SomeLeaf fun l => p l = true := by
  induction h with
  | @group children ascending _ _ ih =>
    rw [anyLeaf, anyLeafOfMembers_eq_any, List.any_eq_true, someLeaf_iff_below rfl]
    constructor
    · rintro ⟨⟨k, c⟩, hm, hp⟩
      exact ⟨.key k, c, ascending.get?_of_mem hm, (ih _ hm).mp hp⟩
    · rintro ⟨b, c, hc, hs⟩
      cases b with
      | key k =>
        have hm := Keyed.mem_of_get? hc
        exact ⟨(k, c), hm, (ih _ hm).mpr hs⟩
      | index i => cases hc
  | @array children _ ih =>
    rw [anyLeaf, anyLeafOfItems_eq_any, List.any_eq_true, someLeaf_iff_below rfl]
    constructor
    · rintro ⟨c, hm, hp⟩
      obtain ⟨i, hi⟩ := List.mem_iff_getElem?.mp hm
      exact ⟨.index i, c, hi, (ih c hm).mp hp⟩
    · rintro ⟨b, c, hc, hs⟩
      cases b with
      | key k => cases hc
      | index i =>
        have hm : c ∈ children := List.mem_of_getElem? hc
        exact ⟨c, hm, (ih c hm).mpr hs⟩
  | leaf => exact (someLeaf_leaf (P := fun l => p l = true)).symm

mutual
theorem status_eq_anyLeaf {q : Status → Bool} (hvalid : q .valid = false)
    (hjoin : ∀ a b, q (a.join b) = (q a || q b)) (n : Node) :
    q n.status = n.anyLeaf fun l => q l.status := by
  cases n with
  | group children => exact memberStatus_eq_anyLeaf hvalid hjoin children
  | array children => exact itemStatus_eq_anyLeaf hvalid hjoin children
  | leaf l => rfl
theorem itemStatus_eq_anyLeaf {q : Status → Bool} (hvalid : q .valid = false)
    (hjoin : ∀ a b, q (a.join b) = (q a || q b)) (ns : List Node) :
    q (itemStatus ns) = anyLeafOfItems (fun l => q l.status) ns := by
  cases ns with
  | nil => exact hvalid
  | cons n ns =>
    rw [itemStatus, anyLeafOfItems, hjoin, status_eq_anyLeaf hvalid hjoin,
      itemStatus_eq_anyLeaf hvalid hjoin]
theorem memberStatus_eq_anyLeaf {q : Status → Bool} (hvalid : q .valid = false)
    (hjoin : ∀ a b, q (a.join b) = (q a || q b)) (ns : List (String × Node)) :
    q (memberStatus ns) = anyLeafOfMembers (fun l => q l.status) ns := by
  cases ns with
  | nil => exact hvalid
  | cons e ns =>
    rw [memberStatus, anyLeafOfMembers, hjoin, status_eq_anyLeaf hvalid hjoin,
      memberStatus_eq_anyLeaf hvalid hjoin]
end

section Status

variable {K : String → Prop} {P : Leaf → Prop} {n : Node}

theorem Arranged.invalid_iff (h : n.Arranged K P) :
    n.status = .invalid ↔ n.SomeLeaf fun l => l.status = .invalid := by
  have hany := status_eq_anyLeaf (q := fun s => s = .invalid) rfl
    (fun a b => by simp [Status.join_eq_invalid]) n
  rw [← decide_eq_true_iff (p := n.status = .invalid), hany, h.anyLeaf_iff]
  simp only [decide_eq_true_eq]

theorem Arranged.valid_iff (h : n.Arranged K P) :
    n.status = .valid ↔ ∀ a l, n.leafAt? a = some l → l.status = .valid := by
  have hany := status_eq_anyLeaf (q := fun s => s ≠ .valid) rfl
    (fun a b => by simp [Status.join_eq_valid, -not_and, not_and_or]) n
  rw [← not_iff_not, ← decide_eq_true_iff (p := ¬ n.status = .valid), hany, h.anyLeaf_iff]
  simp [SomeLeaf]

theorem Arranged.pending_iff (h : n.Arranged K P) : n.status = .pending ↔
    (¬ n.SomeLeaf fun l => l.status = .invalid) ∧ n.SomeLeaf fun l => l.status = .pending := by
  rw [← h.invalid_iff]
  constructor
  · intro hp
    have hinvalid : n.status ≠ .invalid := by simp [hp]
    have hvalid : ¬ ∀ a l, n.leafAt? a = some l → l.status = .valid := by
      rw [← h.valid_iff, hp]
      exact nofun
    push Not at hvalid
    obtain ⟨a, l, hl, hne⟩ := hvalid
    refine ⟨hinvalid, a, l, hl, ?_⟩
    cases hs : l.status with
    | pending => exact hs
    | valid => exact absurd hs hne
    | invalid => exact absurd (h.invalid_iff.mpr ⟨a, l, hl, hs⟩) hinvalid
  · rintro ⟨hinvalid, a, l, hl, hs⟩
    cases hn : n.status with
    | pending => rfl
    | invalid => exact absurd hn hinvalid
    | valid => cases hs.symm.trans (h.valid_iff.mp hn a l hl)

end Status

end Node

namespace Snapshot

def flags : List String := ["valid", "invalid", "pending", "touched", "untouched", "dirty", "errors"]

theorem toJsons_ofItems (ns : List Node) :
    toJsons (ofItems ns) = ns.map fun n => (ofNode n).toJson := by
  induction ns with
  | nil => rfl
  | cons n ns ih => rw [ofItems, toJsons, ih, List.map_cons]

theorem get?_putMembers_of_notMem {key : String} {ns : List (String × Node)}
    (h : ∀ e ∈ ns, e.1 ≠ key) (members : Keyed Json) :
    (putMembers members (ofMembers ns)).get? key = members.get? key := by
  induction ns generalizing members with
  | nil => rfl
  | cons e ns ih =>
    obtain ⟨hne, hns⟩ := List.forall_mem_cons.mp h
    rw [ofMembers, putMembers, ih hns, Keyed.get?_put_of_ne hne.symm]

theorem get?_putMembers {key : String} {c : Node} {ns : List (String × Node)}
    (h : Keyed.Ascending ns) (hc : Keyed.get? key ns = some c) (members : Keyed Json) :
    (putMembers members (ofMembers ns)).get? key = some (ofNode c).toJson := by
  induction ns generalizing members with
  | nil => cases hc
  | cons e ns ih =>
    obtain ⟨k, n⟩ := e
    obtain ⟨hlt, hns⟩ := List.pairwise_cons.mp h
    rw [Keyed.get?_cons] at hc
    rw [ofMembers, putMembers]
    by_cases hk : k = key
    · rw [if_pos hk] at hc
      cases hc
      subst hk
      have hlater : ∀ e ∈ ns, e.1 ≠ k := fun e he heq => String.lt_irrefl k (heq ▸ hlt e he)
      rw [get?_putMembers_of_notMem hlater, Keyed.get?_put_self]
    · rw [if_neg hk] at hc
      exact ih hns hc _

section Flags

variable {P : Leaf → Prop} {n c : Node} {b : Branch}

theorem shown?_toJson (h : n.Arranged (· ∉ flags) P) (hc : n.below? b = some c) :
    (ofNode n).toJson.shown? b = some (ofNode c).toJson := by
  cases h with
  | @group children ascending _ _ =>
    cases b with
    | key k => exact get?_putMembers ascending hc _
    | index i => cases hc
  | @array children _ =>
    cases b with
    | key k => cases hc
    | index i =>
      have hi : children[i]? = some c := hc
      have hcontrols : (ofNode (.array children)).toJson.member? "controls" =
          some (.array (toJsons (ofItems children))) := by
        simp [ofNode, toJson, State.members, Json.member?, Keyed.get?]
      simp only [Json.shown?, hcontrols, Option.bind_some, Json.asArray?, toJsons_ofItems,
        List.getElem?_map, hi, Option.map_some]
  | leaf => cases hc

theorem shownAt?_toJson {a : Address} (h : n.Arranged (· ∉ flags) P) (hc : n.at? a = some c) :
    (ofNode n).toJson.shownAt? a = some (ofNode c).toJson := by
  induction a generalizing n with
  | nil =>
    cases hc
    rfl
  | cons b a ih =>
    obtain ⟨m, hm, hc⟩ := Option.bind_eq_some_iff.mp hc
    rw [Json.shownAt?, shown?_toJson h hm, Option.bind_some, ih (h.below? hm).2 hc]

theorem get?_members_append (state : State) (more : Keyed Json) :
    ∀ key ∈ flags, Keyed.get? key (state.members ++ more) = state.members.get? key := by
  simp [flags, State.members, Keyed.get?]

theorem exists_members (h : n.Arranged (· ∉ flags) P) :
    ∃ members : Keyed Json, (ofNode n).toJson = .object members ∧
      (∀ key ∈ flags, members.get? key = (State.ofNode n).members.get? key) ∧
      ∀ l, n = .leaf l → members.get? "value" = some l.value := by
  cases h with
  | @group children _ keys _ =>
    refine ⟨_, rfl, fun key hkey => get?_putMembers_of_notMem ?_ _, nofun⟩
    rintro e he rfl
    exact keys e he hkey
  | array => exact ⟨_, rfl, get?_members_append _ _, nofun⟩
  | leaf =>
    refine ⟨_, rfl, get?_members_append _ _, ?_⟩
    rintro _ ⟨⟩
    rfl

end Flags

def Flag (members : Keyed Json) (name : String) (P : Prop) : Prop :=
  ∃ b, members.get? name = some (.bool b) ∧ (b = true ↔ P)

structure Shows (n : Node) (members : Keyed Json) : Prop where
  invalid : Flag members "invalid" (n.SomeLeaf fun l => l.status = .invalid)
  pending : Flag members "pending"
    ((¬ n.SomeLeaf fun l => l.status = .invalid) ∧ n.SomeLeaf fun l => l.status = .pending)
  valid : Flag members "valid" (∀ a l, n.leafAt? a = some l → l.status = .valid)
  touched : Flag members "touched" (n.SomeLeaf fun l => l.touched = true)
  untouched : Flag members "untouched" (¬ n.SomeLeaf fun l => l.touched = true)
  dirty : Flag members "dirty" (n.SomeLeaf fun l => l.dirty = true)
  leaf : ∀ l, n = .leaf l → members.get? "value" = some l.value ∧
    members.get? "errors" = some (.ofOption .object l.failures)

theorem shows_of_flags {P : Leaf → Prop} {n : Node} (h : n.Arranged (· ∉ flags) P)
    {members : Keyed Json} (hflags : ∀ key ∈ flags, members.get? key = (State.ofNode n).members.get? key)
    (hvalue : ∀ l, n = .leaf l → members.get? "value" = some l.value) : Shows n members where
  invalid := ⟨n.status = .invalid, hflags "invalid" (by decide),
    by rw [decide_eq_true_iff, h.invalid_iff]⟩
  pending := ⟨n.status = .pending, hflags "pending" (by decide),
    by rw [decide_eq_true_iff, h.pending_iff]⟩
  valid := ⟨n.status = .valid, hflags "valid" (by decide), by rw [decide_eq_true_iff, h.valid_iff]⟩
  touched := ⟨n.touched, hflags "touched" (by decide), h.anyLeaf_iff Leaf.touched⟩
  untouched := ⟨!n.touched, hflags "untouched" (by decide), by
    rw [Bool.not_eq_true', Bool.eq_false_iff, Node.touched, ne_eq, h.anyLeaf_iff]⟩
  dirty := ⟨n.dirty, hflags "dirty" (by decide), h.anyLeaf_iff Leaf.dirty⟩
  leaf := by
    rintro l rfl
    exact ⟨hvalue l rfl, hflags "errors" (by decide)⟩

end Snapshot

namespace Store

/-- In a store whose groups have ascending keys, none of them the name of a flag, a path that leads to a
node leads to an object in the document of the snapshot, and that shows the node. -/
theorem snapshot_shows {s : Store} (h : s.root.Arranged (· ∉ Snapshot.flags) fun _ => True)
    {p : ControlPath} {n : Node} (hn : s.resolve p = some n) :
    ∃ a members, s.address? p = some a ∧ s.snapshot.toJson.shownAt? a = some (.object members) ∧
      Snapshot.Shows n members := by
  obtain ⟨a, ha, hat⟩ := Node.address?_of_resolve hn
  obtain ⟨members, hmembers, hflags, hvalue⟩ := Snapshot.exists_members (h.at? hat)
  refine ⟨a, members, ha, ?_, Snapshot.shows_of_flags (h.at? hat) hflags hvalue⟩
  rw [snapshot, Snapshot.shownAt?_toJson h hat, hmembers]

/-- An array in which one leaf waits and another is invalid, next to a leaf under the name that the
document has for the elements of arrays. -/
theorem shows_invalid_over_pending :
    let waiting : Leaf := { Leaf.fresh [] [.external "taken" ""] with status := .pending, touched := true }
    let wrong : Leaf := { Leaf.fresh [] [] with status := .invalid, failures := some [("taken", .null)] }
    let s : Store := ⟨.group [("controls", .leaf (.fresh [] [])), ("rows", .array [.leaf waiting, .leaf wrong])]⟩
    ∃ a, ∃ members : Keyed Json, s.address? ⟨"rows"⟩ = some a ∧
      s.snapshot.toJson.shownAt? a = some (.object members) ∧
        members.get? "invalid" = some (.bool true) ∧ members.get? "pending" = some (.bool false) := by
  intro waiting wrong s
  have h : s.root.Arranged (· ∉ Snapshot.flags) fun _ => True := by
    refine .group (List.pairwise_pair.mpr (by decide)) (by decide) ?_
    refine List.forall_mem_cons.mpr ⟨.leaf trivial, List.forall_mem_singleton.mpr (.array ?_)⟩
    exact List.forall_mem_cons.mpr ⟨.leaf trivial, List.forall_mem_singleton.mpr (.leaf trivial)⟩
  obtain ⟨a, members, ha, hmembers, hshows⟩ := snapshot_shows h (p := ⟨"rows"⟩) rfl
  have hwrong : (Node.array [.leaf waiting, .leaf wrong]).SomeLeaf fun l => l.status = .invalid :=
    ⟨[.index 1], wrong, rfl, rfl⟩
  obtain ⟨b, hb, hinvalid⟩ := hshows.invalid
  obtain ⟨b', hb', hpending⟩ := hshows.pending
  have hb'' : b' = false := Bool.eq_false_iff.mpr fun hp => (hpending.mp hp).1 hwrong
  exact ⟨a, members, ha, hmembers, hinvalid.mpr hwrong ▸ hb, hb'' ▸ hb'⟩

end Store

end Formwork
