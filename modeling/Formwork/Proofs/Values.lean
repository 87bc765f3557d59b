import Formwork.Dialect.Common
import Formwork.Proofs.Built
import Formwork.Proofs.LeafSteps

/-! The value of a form. Along the path of a leaf the value of that leaf is read, and what is given to the
leaf is written there and nowhere else. -/

namespace Formwork

open Node (Address)

namespace Json

def below? (segment : String) : Json → Option Json
  | .object members => Keyed.get? segment members
  | .array items => (Text.readCount? segment.toList).bind fun i => items[i]?
  | _ => none

def readAt? : List String → Json → Option Json
  | [], v => some v
  | s :: ss, v => (v.below? s).bind (readAt? ss)

def writtenAt : Json → List String → Json → Json
  | _, [], new => new
  | .object members, s :: ss, new =>
    .object (members.map fun (k, v) => if k = s then (k, v.writtenAt ss new) else (k, v))
  | .array items, s :: ss, new =>
    match Text.readCount? s.toList with
    | some i => .array (items.modify i fun v => v.writtenAt ss new)
    | none => .array items
  | v, _ :: _, _ => v

end Json

namespace Node

theorem below?_value {n c : Node} {s : String} (h : n.child? s = some c) :
    n.value.below? s = some c.value := by
  cases n with
  | group children =>
    have hget : Keyed.get? s children = some c := h
    rw [value, Json.below?, memberValues_eq, Keyed.get?_map, hget]
    rfl
  | array children =>
    obtain ⟨i, hi, hc⟩ := Option.bind_eq_some_iff.mp h
    rw [value, Json.below?, itemValues_eq, hi, Option.bind_some, List.getElem?_map, hc]
    rfl
  | leaf l => cases h

theorem readAt?_value {ss : List String} {n m : Node} (h : n.resolve ss = some m) :
    n.value.readAt? ss = some m.value := by
  induction ss generalizing n with
  | nil =>
    cases h
    rfl
  | cons s ss ih =>
    obtain ⟨c, hc, h⟩ := Option.bind_eq_some_iff.mp h
    rw [Json.readAt?, below?_value hc, Option.bind_some, ih h]

section Arranged

variable {K : String → Prop} {P : Leaf → Prop} {n c c' : Node} {b : Branch} {s : String}
  {ss : List String}

theorem value_withBelow {v : Json} (h : n.Arranged K P) (hb : n.branch? s = some b)
    (hc : n.below? b = some c) (hv : c'.value = c.value.writtenAt ss v) :
    (n.withBelow b c').value = n.value.writtenAt (s :: ss) v := by
  cases h with
  | @group children ascending _ _ =>
    cases hb
    rw [withBelow, value, value, Json.writtenAt, memberValues_eq, memberValues_eq, List.map_map, List.map_map]
    refine congrArg Json.object (List.map_congr_left fun e he => ?_)
    obtain ⟨k, d⟩ := e
    by_cases hk : k = s
    · have hget := ascending.get?_of_mem he
      cases (hk ▸ hget).symm.trans hc
      simp [hk, hv]
    · simp [hk]
  | @array children _ =>
    obtain ⟨i, hi, rfl⟩ := Option.map_eq_some_iff.mp hb
    rw [withBelow, value, value, Json.writtenAt, hi, itemValues_eq, itemValues_eq]
    refine congrArg Json.array (List.ext_getElem? fun j => ?_)
    have hat : children[i]? = some c := hc
    rw [List.getElem?_modify, List.getElem?_map, List.getElem?_map, List.getElem?_set]
    by_cases hj : i = j
    · subst hj
      obtain ⟨hlt, rfl⟩ := List.getElem?_eq_some_iff.mp hat
      simp [hlt, hv]
    · simp [hj]
  | leaf => cases hb

theorem value_modify_leaf {l : Leaf} (h : n.Arranged K P) (hl : n.resolve ss = some (leaf l)) (l' : Leaf) :
    (n.modify (fun _ => leaf l') ss).value = n.value.writtenAt ss l'.value := by
  induction ss generalizing n with
  | nil => rfl
  | cons s ss ih =>
    obtain ⟨b, c, hb, hc, hl⟩ := resolve_cons_eq_some hl
    rw [modify_cons hb hc]
    exact value_withBelow h hb hc (ih (h.below? hc).2 hl)

theorem fst_itemListing_set {children : List Node} {j : Nat} (i : Nat) (hc : children[j]? = some c)
    (hc' : c'.addresses = c.addresses) :
    (itemListing i (children.set j c')).map (·.1) = (itemListing i children).map (·.1) := by
  induction children generalizing i j with
  | nil => cases hc
  | cons d children ih =>
    cases j with
    | zero =>
      have hd : d = c := Option.some.inj hc
      have hlisting : c'.listing.map (·.1) = d.listing.map (·.1) := hd ▸ hc'
      rw [List.set_cons_zero, itemListing, itemListing, List.map_append, List.map_append, fst_map_under,
        fst_map_under, hlisting]
    | succ j =>
      have hat : children[j]? = some c := hc
      rw [List.set_cons_succ, itemListing, itemListing, List.map_append, List.map_append, ih (i + 1) hat]

theorem fst_memberListing_map {children : List (String × Node)} {k : String}
    (hc' : ∀ e ∈ children, e.1 = k → c'.addresses = e.2.addresses) :
    (memberListing (children.map fun (l, c) => if l = k then (l, c') else (l, c))).map (·.1) =
      (memberListing children).map (·.1) := by
  induction children with
  | nil => rfl
  | cons e children ih =>
    obtain ⟨l, d⟩ := e
    obtain ⟨hd, hrest⟩ := List.forall_mem_cons.mp hc'
    rw [List.map_cons, memberListing]
    by_cases hl : l = k
    · have hlisting : c'.listing.map (·.1) = d.listing.map (·.1) := hd hl
      rw [if_pos hl, memberListing, List.map_append, List.map_append, fst_map_under, fst_map_under,
        hlisting, ih hrest]
    · rw [if_neg hl, memberListing, List.map_append, List.map_append, ih hrest]

theorem addresses_withBelow (h : n.Arranged K P) (hc : n.below? b = some c)
    (hc' : c'.addresses = c.addresses) : (n.withBelow b c').addresses = n.addresses := by
  cases h with
  | @group children ascending _ _ =>
    cases b with
    | key k =>
      refine congrArg (List.cons []) (fst_memberListing_map fun (l, d) he hl => ?_)
      have hget := ascending.get?_of_mem he
      have hkey : l = k := hl
      cases (hkey ▸ hget).symm.trans hc
      exact hc'
    | index i => cases hc
  | array _ =>
    cases b with
    | key k => cases hc
    | index i => exact congrArg (List.cons []) (fst_itemListing_set 0 hc hc')
  | leaf => cases b <;> cases hc

theorem addresses_modify_leaf {l : Leaf} (h : n.Arranged K P) (hl : n.resolve ss = some (leaf l))
    (l' : Leaf) : (n.modify (fun _ => leaf l') ss).addresses = n.addresses := by
  induction ss generalizing n with
  | nil =>
    cases hl
    rfl
  | cons s ss ih =>
    obtain ⟨b, c, hb, hc, hl⟩ := resolve_cons_eq_some hl
    rw [modify_cons hb hc]
    exact addresses_withBelow h hc (ih (h.below? hc).2 hl)

end Arranged

end Node

namespace Store

variable {s : Store} {K : String → Prop} {P : Leaf → Prop} {p : ControlPath} {l : Leaf}

theorem readAt?_value (hl : s.leaf? p = some l) : s.root.value.readAt? p.segments = some l.value :=
  Node.readAt?_value (resolve_eq_of_leaf? hl)

theorem value_setLeaf (h : s.root.Arranged K P) (hl : s.leaf? p = some l) (l' : Leaf) :
    (s.setLeaf p l').root.value = s.root.value.writtenAt p.segments l'.value :=
  Node.value_modify_leaf h (resolve_eq_of_leaf? hl) l'

theorem paths_setLeaf (h : s.root.Arranged K P) (hl : s.leaf? p = some l) (l' : Leaf) :
    (s.setLeaf p l').paths = s.paths := by
  rw [paths_eq, paths_eq]
  exact congrArg (List.map _) (Node.addresses_modify_leaf h (resolve_eq_of_leaf? hl) l')

end Store

/-- What is dirty or touched remains so, and the generation does not decrease. -/
structure Leaf.Advances (l l' : Leaf) : Prop where
  dirty : l.dirty = true → l'.dirty = true
  touched : l.touched = true → l'.touched = true
  generation : l.generation ≤ l'.generation

theorem Leaf.Advances.rfl {l : Leaf} : l.Advances l := ⟨id, id, Nat.le_refl _⟩

theorem Leaf.Advances.trans {l l' l'' : Leaf} (h : l.Advances l') (h' : l'.Advances l'') : l.Advances l'' :=
  ⟨h'.dirty ∘ h.dirty, h'.touched ∘ h.touched, Nat.le_trans h.generation h'.generation⟩

theorem Operation.Makes.advances [Dialect] {o : Operation} {l l' : Leaf} (h : o.Makes l l') : l.Advances l' := by
  cases h with
  | touched => exact ⟨id, fun _ => rfl, Nat.le_refl _⟩
  | renewed value dirty kept => exact ⟨kept, id, Nat.le_succ _⟩
  | settled => exact ⟨id, id, Nat.le_refl _⟩
  | answered => exact ⟨id, id, Nat.le_succ _⟩

namespace Entry

variable {e : Entry} {a : Address} {l : Leaf}

theorem advances [Dialect] (hl : e.before.store.leafAt? a = some l) :
    ∃ l', e.after.store.leafAt? a = some l' ∧ l.Advances l' := by
  obtain hstore | ⟨p, m, m', hm, hmakes, hstore⟩ := e.steps.leaves
  · rw [hstore]
    exact ⟨l, hl, .rfl⟩
  · obtain ⟨b, hb, hat⟩ := Store.exists_address_of_leaf? hm
    rw [hstore, Store.leafAt?_setLeaf hb hm]
    by_cases hab : a = b
    · subst hab
      cases hl.symm.trans hat
      exact ⟨m', if_pos rfl, hmakes.advances⟩
    · exact ⟨l, (if_neg hab).trans hl, .rfl⟩

theorem arranged [Dialect] {K : String → Prop} (h : e.before.store.root.Arranged K fun _ => True) :
    e.after.store.root.Arranged K fun _ => True := by
  obtain hstore | ⟨p, m, m', hm, -, hstore⟩ := e.steps.leaves
  · exact hstore ▸ h
  · rw [hstore]
    exact Store.arranged_setLeaf h hm trivial

end Entry

namespace Form

structure Given (f : Form) (p : ControlPath) (v : Json) (dirty : Bool) (f' : Form) : Prop where
  leaf : ∃ l', f'.store.leaf? p = some l' ∧ l'.value = v ∧ l'.dirty = dirty
  value : f'.value = f.value.writtenAt p.segments v
  read : f'.value.readAt? p.segments = some v
  paths : f'.store.paths = f.store.paths
  others : ∀ a, f.store.address? p ≠ some a → f'.store.leafAt? a = f.store.leafAt? a
  sources : f'.sources = f.sources

section

variable [Dialect]

structure Shows (f : Form) (p : ControlPath) (l : Leaf) : Prop where
  read : f.value.readAt? p.segments = some l.value
  set : ∀ v, ∃ r, f.setValue p v = .ok r ∧ Given f p v true r.form
  setDefault : ∀ v, ∃ r, f.setDefault p v = .ok r ∧ Given f p v l.dirty r.form

structure Refuses (f : Form) (p : ControlPath) : Prop where
  leaf : f.leaf p = .error (.notAControl p)
  message : f.errorMessage p = .error (.notAControl p)
  operations : ∀ o : Operation, o.path? = some p → f.operate o = .error (.notAControl p) ∧
    (Entry.mk f o).after = f ∧ (Entry.mk f o).events = []

section

variable {f : Form} {K : String → Prop} {P : Leaf → Prop} {p : ControlPath} {l : Leaf}

omit [Dialect] in
theorem given_setLeaf (h : f.store.root.Arranged K P) (hl : f.store.leaf? p = some l) (l' : Leaf) :
    Given f p l'.value l'.dirty (f.setLeaf p l') := by
  have hl' : (f.setLeaf p l').store.leaf? p = some l' := Store.leaf?_setLeaf_self hl l'
  exact ⟨⟨l', hl', rfl, rfl⟩, Store.value_setLeaf h hl l', Store.readAt?_value hl', Store.paths_setLeaf h hl l',
    fun _ ha => Store.leafAt?_setLeaf_of_ne hl ha l', rfl⟩

theorem given_revalidate (h : f.store.root.Arranged K P) (hl : f.store.leaf? p = some l) (l' : Leaf) :
    Given f p l'.value l'.dirty (f.revalidate p l').form := by
  rw [revalidate_eq]
  exact given_setLeaf h hl l'.validated

theorem shows_of_leaf? (h : f.store.root.Arranged K P) (hl : f.store.leaf? p = some l) : f.Shows p l where
  read := Store.readAt?_value hl
  set v := by
    let l' := { l with value := v, dirty := true, generation := l.generation + 1 }
    exact ⟨_, setValue_eq hl v, given_revalidate h hl l'⟩
  setDefault v := by
    let l' := { l with value := v, generation := l.generation + 1 }
    exact ⟨_, setDefault_eq hl v, given_revalidate h hl l'⟩

theorem refuses_of_leaf? (hl : f.store.leaf? p = none) : f.Refuses p := by
  refine ⟨leaf_eq_error hl, ?_, fun o ho => ?_⟩
  · rw [errorMessage, leaf_eq_error hl]
    rfl
  · have hreply : (Entry.mk f o).reply = .error (.notAControl p) := Entry.operate_error ho hl
    exact ⟨hreply, by rw [Entry.after, hreply], by rw [Entry.events, hreply]⟩

theorem arranged_proceed (h : f.store.root.Arranged K fun _ => True) (os : List Operation) :
    (f.proceed os).store.root.Arranged K fun _ => True := by
  induction os generalizing f with
  | nil => exact h
  | cons o os ih => exact ih (Entry.arranged h)

theorem advances_proceed (os : List Operation) {a : Address} (hl : f.store.leafAt? a = some l) :
    ∃ l', (f.proceed os).store.leafAt? a = some l' ∧ l.Advances l' := by
  induction os generalizing f l with
  | nil => exact ⟨l, hl, .rfl⟩
  | cons o os ih =>
    obtain ⟨m, hm, hfirst⟩ := Entry.advances (e := ⟨f, o⟩) hl
    obtain ⟨l', hl', hrest⟩ := ih hm
    exact ⟨l', hl', hfirst.trans hrest⟩

end

/-- In every state of a built form, its value is made up of those of its leaves and changes with them,
nothing can be done where there is no leaf, and whatever is done next, no leaf goes back. -/
theorem shows_of_build {schema : Json} {messages : Messages} {f : Form}
    (h : build schema messages = .ok f) (os : List Operation) :
    (∀ p l, (f.proceed os).store.leaf? p = some l → (f.proceed os).Shows p l) ∧
      (∀ p, (f.proceed os).store.leaf? p = none → (f.proceed os).Refuses p) ∧
      ∀ more a l, (f.proceed os).store.leafAt? a = some l →
        ∃ l', ((f.proceed os).proceed more).store.leafAt? a = some l' ∧ l.Advances l' := by
  have hroot : f.store.root.Arranged (fun _ => True) fun _ => True := arranged_build h fun _ _ _ => trivial
  have harranged := arranged_proceed hroot os
  exact ⟨fun p l hl => shows_of_leaf? harranged hl, fun p hl => refuses_of_leaf? hl,
    fun more a l hl => advances_proceed more hl⟩

end

def rows : Json := .object [("rows", .array (List.replicate 2 (.object [("type", .string "input")])))]

def rowsForm : Form where
  store := ⟨.group [("rows", .array (List.replicate 2 (.leaf (.fresh [] []))))]⟩
  messages := []
  sources := []

theorem value_secondRow :
    build rows [] = .ok rowsForm ∧ ∃ r,
      (rowsForm.proceed [.touch ⟨"rows.1"⟩]).setValue ⟨"rows.01"⟩ (.string "ann") = .ok r ∧
        r.form.value = .object [("rows", .array [.null, .string "ann"])] ∧
        r.form.store.paths = [.root, ⟨"rows"⟩, ⟨"rows.0"⟩, ⟨"rows.1"⟩] := by
  have hbuild : build rows [] = .ok rowsForm := rfl
  have hleaf : (rowsForm.proceed [.touch ⟨"rows.1"⟩]).store.leaf? ⟨"rows.01"⟩ =
      some { Leaf.fresh [] [] with touched := true } := rfl
  obtain ⟨r, hr, hgiven⟩ := ((shows_of_build hbuild [.touch ⟨"rows.1"⟩]).1 _ _ hleaf).set (.string "ann")
  refine ⟨hbuild, r, hr, ?_, ?_⟩
  · rw [hgiven.value]
    rfl
  · rw [hgiven.paths]
    decide

end Form

end Formwork
