import Mathlib.Data.List.Forall2
import Mathlib.Data.List.Perm.Subperm
import Formwork.Proofs.Allocation

/-! The paths that lead to one node. An index may be written with a plus sign and zeros before it, so that
besides the path that is listed endlessly many lead to a child of an array. -/

namespace Formwork

namespace Text

theorem eq_digitChar_of_digitValue? {c : Char} {d : Nat} (h : digitValue? c = some d) (hd : d < 10) :
    c = d.digitChar := by
  have hdigits : ∀ d < 10, d.digitChar.toNat = 48 + d := by decide
  unfold digitValue? at h
  split_ifs at h with hten hlower hupper
  · have hfirst : 48 ≤ c.toNat := UInt32.le_iff_toNat_le.mp hten.1
    have hlast : c.toNat ≤ 57 := UInt32.le_iff_toNat_le.mp hten.2
    have hvalue : c.toNat - 48 = d := Option.some.inj h
    apply Char.toNat_inj.mp
    rw [hdigits d hd]
    omega
  · have hfirst : 97 ≤ c.toNat := UInt32.le_iff_toNat_le.mp hlower.1
    have hvalue : c.toNat - 87 = d := Option.some.inj h
    omega
  · have hfirst : 65 ≤ c.toNat := UInt32.le_iff_toNat_le.mp hupper.1
    have hvalue : c.toNat - 55 = d := Option.some.inj h
    omega

theorem readDigits?_cons_eq_some {acc n : Nat} {c : Char} {cs : List Char}
    (h : readDigits? 10 acc (c :: cs) = some n) :
    ∃ d < 10, c = d.digitChar ∧ readDigits? 10 (10 * acc + d) cs = some n := by
  rw [readDigits?] at h
  split at h
  · next d hd =>
    split_ifs at h with hlt
    exact ⟨d, hlt, eq_digitChar_of_digitValue? hd hlt, h⟩
  · cases h

theorem toDigits_append_of_readDigits? {cs : List Char} {acc n : Nat} (hacc : 0 < acc)
    (h : readDigits? 10 acc cs = some n) : Nat.toDigits 10 acc ++ cs = Nat.toDigits 10 n := by
  induction cs generalizing acc with
  | nil =>
    have hn : acc = n := by simpa [readDigits?] using h
    simp [hn]
  | cons c cs ih =>
    obtain ⟨d, hd, rfl, hrest⟩ := readDigits?_cons_eq_some h
    have hdigits := Nat.toDigits_append_toDigits (b := 10) (by decide) hacc hd
    rw [Nat.toDigits_of_lt_base hd] at hdigits
    have hnext := ih (by omega : 0 < 10 * acc + d) hrest
    rw [← hnext, ← hdigits, List.append_assoc, List.singleton_append]

/-- A number may be read from its digits with zeros before them, and from nothing else. -/
theorem readDigits?_zero_eq_some {cs : List Char} {n : Nat} (hne : cs ≠ [])
    (h : readDigits? 10 0 cs = some n) :
    ∃ zeros, cs = List.replicate zeros '0' ++ Nat.toDigits 10 n := by
  induction cs with
  | nil => exact absurd rfl hne
  | cons c cs ih =>
    obtain ⟨d, hd, rfl, hrest⟩ := readDigits?_cons_eq_some h
    by_cases hzero : d = 0
    · subst hzero
      by_cases hcs : cs = []
      · subst hcs
        have hn : 0 = n := by simpa [readDigits?] using hrest
        exact ⟨0, by simp [← hn]⟩
      · obtain ⟨zeros, hzeros⟩ := ih hcs hrest
        exact ⟨zeros + 1, by simp [hzeros, List.replicate_succ]⟩
    · have hdigits := toDigits_append_of_readDigits? (by omega : 0 < 10 * 0 + d) hrest
      rw [Nat.mul_zero, Nat.zero_add, Nat.toDigits_of_lt_base hd] at hdigits
      exact ⟨0, by simpa using hdigits⟩

def padded (zeros n : Nat) : String := String.ofList (List.replicate zeros '0') ++ natText n

theorem toList_padded (zeros n : Nat) :
    (padded zeros n).toList = List.replicate zeros '0' ++ Nat.toDigits 10 n := by
  simp [padded, natText]

theorem isDigit_of_mem_padded {zeros n : Nat} {c : Char} (h : c ∈ (padded zeros n).toList) :
    c.isDigit = true := by
  rw [toList_padded, List.mem_append] at h
  rcases h with h | h
  · rw [List.eq_of_mem_replicate h]
    decide
  · exact Nat.isDigit_of_mem_toDigits (by decide) (by decide) h

theorem readDigits?_padded (zeros n : Nat) : readDigits? 10 0 (padded zeros n).toList = some n := by
  have hvalue : Nat.ofDigitChars 10 (List.replicate zeros '0') 0 = 0 := by
    induction zeros with
    | zero => simp
    | succ zeros ih => simp [List.replicate_succ, Nat.ofDigitChars_cons, ih]
  rw [readDigits?_eq fun c => isDigit_of_mem_padded, toList_padded]
  simp [Nat.ofDigitChars_append, hvalue]

theorem readNat?_eq_some_iff {cs : List Char} {n : Nat} :
    readNat? 10 cs = some n ↔ ∃ zeros, cs = (padded zeros n).toList := by
  constructor
  · intro h
    unfold readNat? at h
    split_ifs at h with hempty
    have hne : cs ≠ [] := fun hnil => hempty (by simp [hnil])
    obtain ⟨zeros, hzeros⟩ := readDigits?_zero_eq_some hne h
    exact ⟨zeros, by rw [hzeros, toList_padded]⟩
  · rintro ⟨zeros, rfl⟩
    have hne : (padded zeros n).toList.isEmpty = false := by
      simp [toList_padded, Nat.toDigits_ne_nil]
    rw [readNat?, hne, if_neg (by decide), readDigits?_padded]

theorem readCount?_eq_some_iff {cs : List Char} {n : Nat} :
    readCount? cs = some n ↔
      ∃ zeros, cs = (padded zeros n).toList ∨ cs = '+' :: (padded zeros n).toList := by
  have hplus : ∀ zeros rest, '+' :: rest ≠ (padded zeros n).toList := by
    intro zeros rest he
    have hdigit := isDigit_of_mem_padded (he ▸ List.mem_cons_self)
    exact absurd hdigit (by decide)
  unfold readCount?
  split
  · next rest =>
    simp [readNat?_eq_some_iff, hplus]
  · next hno =>
    have hsign : ∀ zeros, cs ≠ '+' :: (padded zeros n).toList := fun _ he => hno _ he
    simp [readNat?_eq_some_iff, hsign]

end Text

namespace Node

/-- The texts that name a branch as a segment of a path. -/
inductive Branch.Spelled : Branch → String → Prop
  | key (k : String) : Spelled (.key k) k
  | index (i zeros : Nat) : Spelled (.index i) (Text.padded zeros i)
  | signed (i zeros : Nat) : Spelled (.index i) ("+" ++ Text.padded zeros i)

theorem Branch.spelled_key_iff {k s : String} : (Branch.key k).Spelled s ↔ s = k := by
  constructor
  · rintro ⟨⟩
    rfl
  · rintro rfl
    exact .key s

theorem Branch.spelled_index_iff {i : Nat} {s : String} :
    (Branch.index i).Spelled s ↔ Text.readCount? s.toList = some i := by
  rw [Text.readCount?_eq_some_iff]
  constructor
  · intro h
    cases h with
    | index _ zeros => exact ⟨zeros, .inl rfl⟩
    | signed _ zeros => exact ⟨zeros, .inr (by simp)⟩
  · rintro ⟨zeros, h | h⟩
    · obtain rfl := String.toList_injective h
      exact .index i zeros
    · have hs : s = "+" ++ Text.padded zeros i := String.toList_injective (by simp [h])
      exact hs ▸ .signed i zeros

theorem branch?_eq_some_iff {n c : Node} {b : Branch} (h : n.below? b = some c) (s : String) :
    n.branch? s = some b ↔ b.Spelled s := by
  cases n with
  | group children =>
    cases b with
    | key k => simp [branch?, Branch.spelled_key_iff]
    | index i => cases h
  | array children =>
    cases b with
    | key k => cases h
    | index i => simp [branch?, Branch.spelled_index_iff]
  | leaf l => cases h

/-- To a node lead those paths whose segments spell its address. -/
theorem address?_eq_some_iff {n m : Node} {a : Address} (h : n.at? a = some m) (ss : List String) :
    n.address? ss = some a ↔ List.Forall₂ Branch.Spelled a ss := by
  induction a generalizing n ss with
  | nil =>
    cases ss with
    | nil => simp [address?]
    | cons s ss =>
      have hno : n.address? (s :: ss) ≠ some [] := by
        intro ha
        obtain ⟨b, c, r, -, -, -, he⟩ := address?_cons_eq_some ha
        cases he
      simp [hno]
  | cons b a ih =>
    obtain ⟨c, hc, h⟩ := Option.bind_eq_some_iff.mp h
    cases ss with
    | nil => simp [address?]
    | cons s ss =>
      rw [List.forall₂_cons, ← branch?_eq_some_iff hc, ← ih h]
      constructor
      · intro ha
        obtain ⟨b', c', r, hb', hc', hr, he⟩ := address?_cons_eq_some ha
        cases he
        cases hc.symm.trans hc'
        exact ⟨hb', hr⟩
      · rintro ⟨hb, hr⟩
        simp [address?, hb, hc, hr]

theorem exists_at?_of_address? {ss : List String} {n : Node} {a : Address}
    (h : n.address? ss = some a) : ∃ m, n.at? a = some m := by
  induction ss generalizing n a with
  | nil =>
    cases h
    exact ⟨n, rfl⟩
  | cons s ss ih =>
    obtain ⟨b, c, r, -, hc, hr, rfl⟩ := address?_cons_eq_some h
    obtain ⟨m, hm⟩ := ih hr
    exact ⟨m, by rw [at?, hc]; exact hm⟩

theorem key_mem_of_spelled {a : Address} {ss : List String} {k : String}
    (h : List.Forall₂ Branch.Spelled a ss) (hk : .key k ∈ a) : k ∈ ss := by
  induction h with
  | nil => cases hk
  | cons hb _ ih =>
    rcases List.mem_cons.mp hk with rfl | hk
    · rw [Branch.spelled_key_iff.mp hb]
      exact List.mem_cons_self
    · exact List.mem_cons_of_mem _ (ih hk)

theorem segments_of_keys {a : Address} {ss : List String} (h : List.Forall₂ Branch.Spelled a ss)
    (hkeys : ∀ b ∈ a, ∃ k, b = .key k) : ss = a.map Branch.text := by
  induction h with
  | nil => rfl
  | cons hb _ ih =>
    obtain ⟨k, rfl⟩ := hkeys _ List.mem_cons_self
    have hrest := ih fun b hb => hkeys b (List.mem_cons_of_mem _ hb)
    rw [Branch.spelled_key_iff.mp hb, hrest]
    rfl

end Node

namespace ControlPath

theorem point_notMem_of_mem_segments {p : ControlPath} {s : String} (h : s ∈ p.segments) :
    '.' ∉ s.toList := by
  by_cases hp : p = root
  · rw [hp, segments_root] at h
    cases h
  · rw [segments_of_ne_root hp] at h
    obtain ⟨cs, hcs, rfl⟩ := List.mem_map.mp h
    rw [String.toList_ofList]
    exact Text.notMem_of_mem_pieces hcs

def firstChild (p : ControlPath) (zeros : Nat) : ControlPath :=
  ⟨p.text ++ "." ++ Text.padded zeros 0⟩

theorem firstChild_injective (p : ControlPath) : Function.Injective p.firstChild := by
  intro zeros zeros' h
  have hlength := congrArg (fun q => q.text.toList.length) h
  simpa [firstChild, Text.toList_padded] using hlength

theorem segments_firstChild {p : ControlPath} (hp : p ≠ root) (zeros : Nat) :
    (p.firstChild zeros).segments = p.segments ++ [Text.padded zeros 0] := by
  have hpoint : '.' ∉ (Text.padded zeros 0).toList := by
    intro h
    exact absurd (Text.isDigit_of_mem_padded h) (by decide)
  rw [firstChild, segments_joined hp, Text.pieces_of_notMem hpoint]
  simp

theorem segments_ne_nil {p : ControlPath} (hp : p ≠ root) : p.segments ≠ [] := by
  rw [segments_of_ne_root hp]
  simp [Text.pieces_ne_nil]

theorem segments_injective {p q : ControlPath} (h : p.segments = q.segments) : p = q := by
  by_cases hp : p = root
  · by_contra hne
    have hq : q ≠ root := fun he => hne (hp.trans he.symm)
    rw [hp, segments_root] at h
    exact segments_ne_nil hq h.symm
  · have hq : q ≠ root := by
      rintro rfl
      exact segments_ne_nil hp h
    rw [segments_of_ne_root hp, segments_of_ne_root hq] at h
    have hpieces := (List.map_inj_right fun _ _ => String.ofList_injective).mp h
    have htext : p.text.toList = q.text.toList := by
      rw [← Text.joined_pieces '.' p.text.toList, hpieces, Text.joined_pieces]
    obtain ⟨text⟩ := p
    exact congrArg mk (String.toList_injective htext)

end ControlPath

namespace Store

open Node (Branch Address)

def Itemless (s : Store) : Prop := ∀ p c cs, s.resolve p ≠ some (.array (c :: cs))

section

variable {s : Store} {P : Leaf → Prop} {p : ControlPath} {a : Address} {n : Node}

theorem plain_of_spelled (hroot : s.root.Arranged (· ≠ "") P) (hn : s.root.at? a = some n)
    (hspelled : List.Forall₂ Branch.Spelled a p.segments) : ∀ b ∈ a, b.Plain := by
  intro b hb
  cases b with
  | key k =>
    have hmem := Node.key_mem_of_spelled hspelled hb
    exact ⟨hroot.key_of_at? hn hb, ControlPath.point_notMem_of_mem_segments hmem⟩
  | index i => trivial

/-- The path that is listed for a node has plain keys and indices for its segments, and leads to it. -/
theorem listed_of_address? (hroot : s.root.Arranged (· ≠ "") P) (hbase : s.root.bare = .group [])
    (h : s.address? p = some a) :
    (ControlPath.ofAddress a).segments = a.map Branch.text ∧ .ofAddress a ∈ s.paths ∧
      ∀ q, s.address? q = some a ↔ List.Forall₂ Branch.Spelled a q.segments := by
  obtain ⟨n, hn⟩ := Node.exists_at?_of_address? h
  have hspelled (q : ControlPath) : s.address? q = some a ↔ List.Forall₂ Branch.Spelled a q.segments :=
    Node.address?_eq_some_iff hn q.segments
  have hplain := plain_of_spelled hroot hn ((hspelled p).mp h)
  refine ⟨segments_ofAddress hbase hn hplain, ?_, hspelled⟩
  rw [paths_eq]
  exact List.mem_map_of_mem (hroot.mem_addresses.mpr ⟨n, hn⟩)

theorem keys_of_itemless (hroot : s.root.Arranged (· ≠ "") P) (hbase : s.root.bare = .group [])
    (hfree : s.Itemless) (h : s.address? p = some a) : ∀ b ∈ a, ∃ k, b = .key k := by
  obtain ⟨n, hn⟩ := Node.exists_at?_of_address? h
  have hplain := plain_of_spelled hroot hn ((Node.address?_eq_some_iff hn p.segments).mp h)
  intro b hb
  cases b with
  | key k => exact ⟨k, rfl⟩
  | index i =>
    obtain ⟨before, after, rfl⟩ := List.append_of_mem hb
    rw [Node.at?_append] at hn
    obtain ⟨c, hc, hn⟩ := Option.bind_eq_some_iff.mp hn
    obtain ⟨d, hd, -⟩ := Option.bind_eq_some_iff.mp hn
    have hbefore : ∀ b ∈ before, b.Plain := fun b hb => hplain b (List.mem_append_left _ hb)
    have hpath := resolve_eq_at? (address?_ofAddress hbase hc hbefore)
    rw [hc] at hpath
    cases c with
    | group children => cases hd
    | leaf l => cases hd
    | array children =>
      cases children with
      | nil => cases hd
      | cons e es => exact absurd hpath (hfree _ e es)

theorem eq_ofAddress_of_itemless (hroot : s.root.Arranged (· ≠ "") P) (hbase : s.root.bare = .group [])
    (hfree : s.Itemless) (h : s.address? p = some a) : p = .ofAddress a := by
  obtain ⟨hsegments, -, hspelled⟩ := listed_of_address? hroot hbase h
  have hkeys := keys_of_itemless hroot hbase hfree h
  apply ControlPath.segments_injective
  rw [hsegments, Node.segments_of_keys ((hspelled p).mp h) hkeys]

theorem address?_firstChild {c : Node} {cs : List Node} (hbase : s.root.bare = .group [])
    (h : s.resolve p = some (.array (c :: cs))) :
    ∃ a, s.root.at? (a ++ [.index 0]) = some c ∧
      ∀ zeros, s.address? (p.firstChild zeros) = some (a ++ [.index 0]) := by
  obtain ⟨a, ha, hn⟩ := Node.address?_of_resolve h
  have hp : p ≠ .root := by
    rintro rfl
    have harray : s.root = .array (c :: cs) := Option.some.inj h
    rw [harray] at hbase
    cases hbase
  have hat : s.root.at? (a ++ [.index 0]) = some c := by
    rw [Node.at?_append, hn]
    rfl
  refine ⟨a, hat, fun zeros => ?_⟩
  have hread := Branch.spelled_index_iff.mp (.index 0 zeros)
  rw [address?, ControlPath.segments_firstChild hp, Node.address?_append ha hn]
  simp [Node.address?, Node.branch?, hread, Node.below?]

end

/-- In every store that additions lead to, a path that resolves stands beside a listed one: to the same
node lead this one and all others with the same keys, in which a plus sign and zeros may come before each
index. All paths that resolve are listed, and no two lead to one node, exactly if no array has a child. -/
theorem address?_spelled (xs : List Addition) :
    (∀ p a, (reached xs).address? p = some a →
      (ControlPath.ofAddress a).segments = a.map Branch.text ∧ .ofAddress a ∈ (reached xs).paths ∧
      ∀ q, (reached xs).address? q = some a ↔ List.Forall₂ Branch.Spelled a q.segments) ∧
    ((∀ p n, (reached xs).resolve p = some n → p ∈ (reached xs).paths) ↔ (reached xs).Itemless) ∧
    ((∀ p q a, (reached xs).address? p = some a → (reached xs).address? q = some a → p = q) ↔
      (reached xs).Itemless) := by
  have hroot : (reached xs).root.Arranged (· ≠ "") fun _ => True := arranged_reached fun _ _ _ _ => trivial
  have hbase := bare_root_reached xs
  refine ⟨fun p a h => listed_of_address? hroot hbase h, ⟨fun h => ?_, fun h => ?_⟩, fun h => ?_, fun h => ?_⟩
  · intro p c cs harray
    obtain ⟨a, hat, haddress⟩ := address?_firstChild hbase harray
    let more := (List.range ((reached xs).paths.length + 1)).map p.firstChild
    have hnodup : more.Nodup := List.nodup_range.map p.firstChild_injective
    have hsub : more ⊆ (reached xs).paths := by
      intro q hq
      obtain ⟨zeros, -, rfl⟩ := List.mem_map.mp hq
      exact h _ c ((resolve_eq_at? (haddress zeros)).trans hat)
    have hlength := (hnodup.subperm hsub).length_le
    simp only [more, List.length_map, List.length_range] at hlength
    omega
  · intro p n hp
    obtain ⟨a, ha, -⟩ := Node.address?_of_resolve hp
    rw [eq_ofAddress_of_itemless hroot hbase h ha]
    exact (listed_of_address? hroot hbase ha).2.1
  · intro p c cs harray
    obtain ⟨a, -, haddress⟩ := address?_firstChild hbase harray
    have hsame := h _ _ _ (haddress 0) (haddress 1)
    exact absurd (p.firstChild_injective hsame) (by decide)
  · intro p q a hp hq
    rw [eq_ofAddress_of_itemless hroot hbase h hp, eq_ofAddress_of_itemless hroot hbase h hq]

theorem unlisted_with_zero :
    let s := reached [.array "items" .root, .control "" ⟨"items"⟩ (.fresh [] [])]
    s.paths = [.root, ⟨"items"⟩, ⟨"items.0"⟩] ∧
      s.address? ⟨"items.00"⟩ = some [.key "items", .index 0] ∧
      s.address? ⟨"items.0"⟩ = some [.key "items", .index 0] ∧
      ¬ ∀ p n, s.resolve p = some n → p ∈ s.paths := by
  intro s
  have hpaths : s.paths = [.root, ⟨"items"⟩, ⟨"items.0"⟩] := by decide
  refine ⟨hpaths, by decide, by decide, fun h => ?_⟩
  have hlisted := h ⟨"items.00"⟩ (.leaf (.fresh [] [])) rfl
  rw [hpaths] at hlisted
  exact absurd hlisted (by decide)

end Store

end Formwork
