import Formwork.Dialect.Common
import Formwork.Proofs.Built
import Formwork.Proofs.Effect

/-! Deeds to different leaves are independent: the store that they lead to only depends on what is done
to each leaf, in its own order. -/

namespace Formwork

open Node (Address)

/-- What is done to one leaf. A settlement names the ticket by its number among those of the leaf. -/
inductive Deed where
  | setValue (value : Json)
  | setDefault (value : Json)
  | applyOptions (options : List SelectOption)
  | validate
  | touch
  | settle (number : Nat) (outcome : Option Failures)

def Store.deedsAt (s : Store) (a : Address) (ds : List (ControlPath × Deed)) : List Deed :=
  (ds.filter fun d => s.address? d.1 = some a).map (·.2)

def Deed.settlements (outcomes : List (Nat × Option Failures)) : List Deed :=
  outcomes.map fun e => .settle e.1 e.2

/-- The deeds are the same but for the order of settlements that follow one another and are for different
tickets. -/
inductive Deed.Reordered : List Deed → List Deed → Prop
  | refl (ds : List Deed) : Reordered ds ds
  | settlements (before later : List Deed) {outcomes outcomes' : List (Nat × Option Failures)}
      (distinct : (outcomes.map (·.1)).Nodup) (perm : outcomes.Perm outcomes') :
      Reordered (before ++ settlements outcomes ++ later) (before ++ settlements outcomes' ++ later)
  | trans {ds ds' ds'' : List Deed} (h : Reordered ds ds') (h' : Reordered ds' ds'') :
      Reordered ds ds''

namespace Session

/-- The tickets for the leaf that a path leads to, in order of issue, with their numbers. -/
def ticketsOf (s : Session) (path : ControlPath) : List (Ticket × Nat) :=
  s.tickets.zipIdx.filter fun e => s.form.store.address? e.1.path = s.form.store.address? path

/-- The command that does a deed. If the leaf has no ticket with the number of the deed, there is none
with the number of the command. -/
def command (s : Session) (path : ControlPath) : Deed → Command
  | .setValue value => .setValue path value
  | .setDefault value => .setDefault path value
  | .applyOptions options => .applyOptions path options
  | .validate => .validate path
  | .touch => .touch path
  | .settle number outcome =>
    .settle (((s.ticketsOf path)[number]?.map (·.2)).getD s.tickets.length) outcome

def act [Dialect] (s : Session) (path : ControlPath) (d : Deed) : Session := s.after (s.command path d)

def actAll [Dialect] (s : Session) (ds : List (ControlPath × Deed)) : Session :=
  ds.foldl (fun s d => s.act d.1 d.2) s

end Session

/-- All that the deeds to one leaf depend on: the leaf, and the counts that its tickets carry. -/
structure Strand where
  leaf : Leaf
  issued : List Nat

namespace Strand

variable [Dialect]

def renew (st : Strand) (m : Leaf) : Strand :=
  ⟨m.validated, st.issued ++ if m.awaits then [m.generation] else []⟩

def step (st : Strand) : Deed → Strand
  | .setValue value =>
    st.renew { st.leaf with value := value, dirty := true, generation := st.leaf.generation + 1 }
  | .setDefault value => st.renew { st.leaf with value := value, generation := st.leaf.generation + 1 }
  | .applyOptions [] => st
  | .applyOptions (first :: _) =>
    st.renew { st.leaf with value := first.value, generation := st.leaf.generation + 1 }
  | .validate => st.renew { st.leaf with generation := st.leaf.generation + 1 }
  | .touch => { st with leaf := { st.leaf with touched := true } }
  | .settle number outcome =>
    if st.issued[number]? = some st.leaf.generation then
      { st with leaf := st.leaf.settled outcome }
    else st

/-- The tickets carry different counts, none of which the leaf has yet to reach. -/
structure Sound (st : Strand) : Prop where
  nodup : st.issued.Nodup
  le : ∀ g ∈ st.issued, g ≤ st.leaf.generation

theorem Sound.renew {st : Strand} (h : st.Sound) {m : Leaf}
    (hm : m.generation = st.leaf.generation + 1) : (st.renew m).Sound := by
  have hgen : m.validated.generation = m.generation := rfl
  have hnew : ∀ g ∈ if m.awaits then [m.generation] else [], g = m.generation := by
    intro g hg
    split_ifs at hg with ha
    · exact List.mem_singleton.mp hg
    · cases hg
  constructor
  · refine List.nodup_append.mpr ⟨h.nodup, ?_, fun g hg g' hg' he => ?_⟩
    · split_ifs <;> simp
    · have hle := h.le g hg
      have hlt := hnew g' hg'
      omega
  · intro g hg
    show g ≤ m.generation
    rcases List.mem_append.mp hg with hg | hg
    · have hle := h.le g hg
      omega
    · exact Nat.le_of_eq (hnew g hg)

theorem Sound.step {st : Strand} (h : st.Sound) (d : Deed) : (st.step d).Sound := by
  cases d with
  | setValue value => exact h.renew rfl
  | setDefault value => exact h.renew rfl
  | applyOptions options =>
    cases options with
    | nil => exact h
    | cons first rest => exact h.renew rfl
  | validate => exact h.renew rfl
  | touch => exact ⟨h.nodup, h.le⟩
  | settle number outcome =>
    rw [Strand.step]
    split_ifs
    · exact ⟨h.nodup, h.le⟩
    · exact h

theorem Sound.steps {st : Strand} (h : st.Sound) (ds : List Deed) : (ds.foldl Strand.step st).Sound := by
  induction ds generalizing st with
  | nil => exact h
  | cons d ds ih => exact ih (h.step d)

/-- Of two tickets, at most one has the count of the leaf. -/
theorem Sound.settle_comm {st : Strand} (h : st.Sound) {k k' : Nat} (hk : k ≠ k')
    (o o' : Option Failures) :
    (st.step (.settle k o)).step (.settle k' o') = (st.step (.settle k' o')).step (.settle k o) := by
  by_cases hs : st.issued[k]? = some st.leaf.generation
  · have hs' : st.issued[k']? ≠ some st.leaf.generation := by
      intro he
      have hlt := (List.getElem?_eq_some_iff.mp hs).1
      exact hk ((List.getElem?_inj hlt h.nodup).mp (hs.trans he.symm))
    simp [Strand.step, hs, hs', Leaf.settled]
  · by_cases hs' : st.issued[k']? = some st.leaf.generation <;>
      simp [Strand.step, hs, hs', Leaf.settled]

theorem Sound.settlements_perm {outcomes outcomes' : List (Nat × Option Failures)}
    (hperm : outcomes.Perm outcomes') {st : Strand} (h : st.Sound)
    (hdistinct : (outcomes.map (·.1)).Nodup) :
    (Deed.settlements outcomes).foldl Strand.step st =
      (Deed.settlements outcomes').foldl Strand.step st := by
  induction hperm generalizing st with
  | nil => rfl
  | cons e _ ih => exact ih (h.step _) (List.nodup_cons.mp hdistinct).2
  -- Two neighbours are for different tickets, and at most one of these is up to date.
  | swap e e' rest =>
    have hne : e'.1 ≠ e.1 := by
      have hnot := (List.nodup_cons.mp hdistinct).1
      rintro he
      exact hnot (List.mem_map.mpr ⟨e, List.mem_cons_self, he.symm⟩)
    exact congrArg ((Deed.settlements rest).foldl Strand.step) (h.settle_comm hne e'.2 e.2)
  | trans hfirst _ ih ih' =>
    exact (ih h hdistinct).trans (ih' h ((hfirst.map _).nodup_iff.mp hdistinct))

theorem Sound.reordered {ds ds' : List Deed} (hr : Deed.Reordered ds ds') {st : Strand}
    (h : st.Sound) : ds.foldl Strand.step st = ds'.foldl Strand.step st := by
  induction hr with
  | refl => rfl
  | settlements before later distinct perm =>
    rw [List.foldl_append, List.foldl_append, List.foldl_append, List.foldl_append,
      (h.steps before).settlements_perm perm distinct]
  | trans _ _ ih ih' => exact ih.trans ih'

end Strand

namespace Session

variable {s s' : Session} {path : ControlPath} {a : Address} {l : Leaf} {st : Strand}

def issued (s : Session) (a : Address) : List Nat :=
  (s.tickets.filter fun t => s.form.store.address? t.path = some a).map (·.generation)

def strand? (s : Session) (a : Address) : Option Strand :=
  (s.form.store.leafAt? a).map fun l => ⟨l, s.issued a⟩

structure Puts (s : Session) (a : Address) (st : Strand) (s' : Session) : Prop where
  strand : s'.strand? a = some st
  others : ∀ a', a' ≠ a → s'.strand? a' = s.strand? a'
  bare : ∀ a', a' ≠ a → s'.form.store.root.bareAt? a' = s.form.store.root.bareAt? a'

theorem Puts.refl (h : s.strand? a = some st) : s.Puts a st s :=
  ⟨h, fun _ _ => rfl, fun _ _ => rfl⟩

theorem Puts.setLeaf (ha : s.form.store.address? path = some a)
    (hl : s.form.store.leaf? path = some l) {l' : Leaf} {new : List Ticket}
    (hstore : s'.form.store = s.form.store.setLeaf path l') (htickets : s'.tickets = s.tickets ++ new)
    (hnew : ∀ t ∈ new, t.path = path) :
    s.Puts a ⟨l', s.issued a ++ new.map (·.generation)⟩ s' := by
  have haddress : ∀ q, s'.form.store.address? q = s.form.store.address? q := by
    intro q
    rw [hstore, Store.address?_setLeaf hl]
  have hissued : ∀ a', s'.issued a' = s.issued a' ++
      (new.filter fun t => s.form.store.address? t.path = some a').map (·.generation) := by
    intro a'
    simp only [issued, haddress, htickets, List.filter_append, List.map_append]
  constructor
  · have hall : new.filter (fun t => s.form.store.address? t.path = some a) = new := by
      refine List.filter_eq_self.mpr fun t ht => ?_
      simp [hnew t ht, ha]
    rw [strand?, hissued, hall, hstore, Store.leafAt?_setLeaf ha hl, if_pos rfl]
    rfl
  · intro a' hne
    have hnone : new.filter (fun t => s.form.store.address? t.path = some a') = [] := by
      refine List.filter_eq_nil_iff.mpr fun t ht => ?_
      simp [hnew t ht, ha, hne.symm]
    rw [strand?, strand?, hissued, hnone, hstore, Store.leafAt?_setLeaf ha hl, if_neg hne]
    simp
  · intro a' hne
    rw [hstore, Store.bareAt?_setLeaf ha hl, if_neg hne]

theorem Puts.withForm (ha : s.form.store.address? path = some a)
    (hl : s.form.store.leaf? path = some l) (l' : Leaf) :
    s.Puts a ⟨l', s.issued a⟩ (s.withForm (s.form.setLeaf path l')) := by
  have hputs : s.Puts a _ (s.withForm (s.form.setLeaf path l')) :=
    Puts.setLeaf ha hl rfl (List.append_nil _).symm nofun
  rwa [List.map_nil, List.append_nil] at hputs

theorem map_ticketsOf (ha : s.form.store.address? path = some a) :
    (s.ticketsOf path).map (·.1.generation) = s.issued a := by
  have hfst : s.tickets = s.tickets.zipIdx.map (·.1) := by simp
  rw [issued, hfst, List.filter_map, List.map_map, ticketsOf, ha]
  rfl

theorem of_ticketsOf {number : Nat} {t : Ticket} {i : Nat}
    (h : (s.ticketsOf path)[number]? = some (t, i)) :
    s.tickets[i]? = some t ∧ s.form.store.address? t.path = s.form.store.address? path := by
  obtain ⟨hmem, haddress⟩ := List.mem_filter.mp (List.mem_of_getElem? h)
  exact ⟨List.mk_mem_zipIdx_iff_getElem?.mp hmem, of_decide_eq_true haddress⟩

section

variable [Dialect]

theorem act_settle_of_none {number : Nat} (h : (s.ticketsOf path)[number]? = none)
    (outcome : Option Failures) : s.act path (.settle number outcome) = s := by
  have hnone : s.tickets[s.tickets.length]? = none := List.getElem?_eq_none (Nat.le_refl _)
  rw [act, command, h]
  exact after_of_error (perform_settle_noTicket hnone outcome)

theorem act_settle_of_some {number : Nat} {t : Ticket} {i : Nat}
    (h : (s.ticketsOf path)[number]? = some (t, i)) (outcome : Option Failures) :
    s.act path (.settle number outcome) = s.after (.settle i outcome) := by
  rw [act, command, h]
  rfl

theorem act_renewal (ha : s.form.store.address? path = some a)
    (hl : s.form.store.leaf? path = some l) {d : Deed} (hc : (s.command path d).renewed? = some path) :
    s.Puts a (Strand.renew ⟨l, s.issued a⟩ ((s.command path d).begun l)) (s.act path d) := by
  have hact : s.act path d = (s.renewal (s.command path d) path l).session :=
    after_of_perform (perform_renewal hc hl)
  have hputs : s.Puts a _ (s.act path d) := Puts.setLeaf ha hl (congrArg (·.form.store) hact)
    (congrArg (·.tickets) hact) fun t ht => (Form.issue?_eq_some (Option.mem_toList.mp ht)).2.1
  have hnew : (s.form.issue? path ((s.command path d).begun l)).toList.map (·.generation) =
      if ((s.command path d).begun l).awaits then [((s.command path d).begun l).generation] else [] := by
    unfold Form.issue?
    split_ifs <;> rfl
  rwa [hnew] at hputs

theorem act_settle (ha : s.form.store.address? path = some a)
    (hl : s.form.store.leaf? path = some l) (number : Nat) (outcome : Option Failures) :
    s.Puts a (Strand.step ⟨l, s.issued a⟩ (.settle number outcome))
      (s.act path (.settle number outcome)) := by
  have hstrand : s.strand? a = some ⟨l, s.issued a⟩ :=
    congrArg (Option.map _) ((Store.leaf?_eq_leafAt? ha).symm.trans hl)
  have hissued : (s.issued a)[number]? = (s.ticketsOf path)[number]?.map (·.1.generation) := by
    rw [← map_ticketsOf ha, List.getElem?_map]
  rw [Strand.step, hissued]
  cases ht : (s.ticketsOf path)[number]? with
  | none =>
    rw [act_settle_of_none ht]
    exact Puts.refl hstrand
  | some e =>
    obtain ⟨t, i⟩ := e
    obtain ⟨hticket, haddress⟩ := of_ticketsOf ht
    have hlt : s.form.store.leaf? t.path = some l := (Store.leaf?_congr haddress).trans hl
    have hcurrent : t.generation = l.generation ↔ l.generation = t.generation := eq_comm
    simp only [act_settle_of_some ht, after_of_perform (perform_settle hticket hlt outcome),
      Option.map_some, Option.some_inj, hcurrent]
    by_cases hg : l.generation = t.generation
    · rw [if_pos hg, if_pos hg]
      exact Puts.withForm (haddress.trans ha) hlt _
    · rw [if_neg hg, if_neg hg]
      exact Puts.refl hstrand

theorem act_leaf (ha : s.form.store.address? path = some a) (hst : s.strand? a = some st) (d : Deed) :
    s.Puts a (st.step d) (s.act path d) := by
  obtain ⟨l, hl, rfl⟩ := Option.map_eq_some_iff.mp hst
  have hleaf : s.form.store.leaf? path = some l := (Store.leaf?_eq_leafAt? ha).trans hl
  cases d with
  | setValue value => exact act_renewal (d := .setValue value) ha hleaf rfl
  | setDefault value => exact act_renewal (d := .setDefault value) ha hleaf rfl
  | validate => exact act_renewal (d := .validate) ha hleaf rfl
  | applyOptions options =>
    cases options with
    | cons first rest => exact act_renewal (d := .applyOptions (first :: rest)) ha hleaf rfl
    | nil =>
      rw [act, command, after_of_perform (perform_vain hleaf)]
      exact Puts.refl hst
  | touch =>
    rw [act, command, after_of_perform (perform_touch hleaf)]
    exact Puts.withForm ha hleaf _
  | settle number outcome => exact act_settle ha hleaf number outcome

theorem act_of_leaf?_eq_none (hl : s.form.store.leaf? path = none) (d : Deed) : s.act path d = s := by
  cases d with
  | setValue value => exact after_of_error (perform_renewal_error rfl hl)
  | setDefault value => exact after_of_error (perform_renewal_error rfl hl)
  | validate => exact after_of_error (perform_renewal_error rfl hl)
  | applyOptions options =>
    cases options with
    | cons first rest => exact after_of_error (perform_renewal_error rfl hl)
    | nil => exact after_of_error (perform_vain_error hl)
  | touch => exact after_of_error (perform_touch_error hl)
  | settle number outcome =>
    cases ht : (s.ticketsOf path)[number]? with
    | none => exact act_settle_of_none ht outcome
    | some e =>
      obtain ⟨t, i⟩ := e
      obtain ⟨hticket, haddress⟩ := of_ticketsOf ht
      have hlt : s.form.store.leaf? t.path = none := (Store.leaf?_congr haddress).trans hl
      rw [act_settle_of_some ht]
      exact after_of_error (perform_settle_error hticket hlt outcome)

theorem act_cases (s : Session) (path : ControlPath) (d : Deed) :
    (∃ b st, s.form.store.address? path = some b ∧ s.strand? b = some st ∧
      s.Puts b (st.step d) (s.act path d)) ∨
    s.act path d = s ∧ ∀ b, s.form.store.address? path = some b → s.strand? b = none := by
  cases hl : s.form.store.leaf? path with
  | none =>
    refine .inr ⟨act_of_leaf?_eq_none hl d, fun b hb => ?_⟩
    rw [Store.leaf?_eq_leafAt? hb] at hl
    exact Option.map_eq_none_iff.mpr hl
  | some l =>
    obtain ⟨b, hb, hlb⟩ := Store.exists_address_of_leaf? hl
    have hst : s.strand? b = some ⟨l, s.issued b⟩ := congrArg (Option.map _) hlb
    exact .inl ⟨b, _, hb, hst, act_leaf hb hst d⟩

/-- A deed through a path is one step of the strand there, and nothing to all others. -/
theorem strand?_act (s : Session) (path : ControlPath) (d : Deed) (a : Address) :
    (s.act path d).strand? a =
      if s.form.store.address? path = some a then (s.strand? a).map (·.step d) else s.strand? a := by
  rcases s.act_cases path d with ⟨b, st, hb, hst, hputs⟩ | ⟨hact, hnone⟩
  · rw [hb]
    split_ifs with hab
    · cases hab
      rw [hputs.strand, hst]
      rfl
    · exact hputs.others a fun he => hab (he ▸ rfl)
  · rw [hact]
    split_ifs with ha
    · rw [hnone a ha]
      rfl
    · rfl

theorem bareAt?_act (hst : s.strand? a = none) (path : ControlPath) (d : Deed) :
    (s.act path d).form.store.root.bareAt? a = s.form.store.root.bareAt? a := by
  rcases s.act_cases path d with ⟨b, st, hb, hstb, hputs⟩ | ⟨hact, -⟩
  · refine hputs.bare a ?_
    rintro rfl
    cases hst.symm.trans hstb
  · rw [hact]

theorem arranged_act (h : s.form.store.root.Arranged (fun _ => True) fun _ => True)
    (path : ControlPath) (d : Deed) :
    (s.act path d).form.store.root.Arranged (fun _ => True) fun _ => True := by
  rcases s.after_change (s.command path d) with ⟨r, hr, he⟩ | ⟨he, -⟩
  · rw [act, he]
    rcases hr.form_eq with heq | ⟨q, l, l', hl, heq⟩
    · exact heq ▸ h
    · exact heq ▸ Store.arranged_setLeaf h hl trivial
  · rw [act, he]
    exact h

omit [Dialect] in
theorem deedsAt_cons (s : Store) (a : Address) (path : ControlPath) (d : Deed)
    (ds : List (ControlPath × Deed)) :
    s.deedsAt a ((path, d) :: ds) = if s.address? path = some a then d :: s.deedsAt a ds
      else s.deedsAt a ds := by
  unfold Store.deedsAt
  split_ifs with h <;> simp [h]

theorem strand?_actAll (s : Session) (ds : List (ControlPath × Deed)) (a : Address) :
    (s.actAll ds).strand? a =
      (s.strand? a).map fun st => (s.form.store.deedsAt a ds).foldl Strand.step st := by
  induction ds generalizing s with
  | nil => simp [actAll, Store.deedsAt]
  | cons e ds ih =>
    obtain ⟨path, d⟩ := e
    have hdeeds : (s.act path d).form.store.deedsAt a ds = s.form.store.deedsAt a ds := by
      simp only [Store.deedsAt, act, address?_after]
    have hrest : (s.actAll ((path, d) :: ds)).strand? a = ((s.act path d).actAll ds).strand? a := rfl
    rw [hrest, ih, hdeeds, strand?_act, deedsAt_cons]
    split_ifs
    · rw [Option.map_map]
      rfl
    · rfl

theorem bareAt?_actAll (hst : s.strand? a = none) (ds : List (ControlPath × Deed)) :
    (s.actAll ds).form.store.root.bareAt? a = s.form.store.root.bareAt? a := by
  induction ds generalizing s with
  | nil => rfl
  | cons e ds ih =>
    have hst' : (s.act e.1 e.2).strand? a = none := by
      rw [strand?_act, hst]
      split_ifs <;> rfl
    exact (ih hst').trans (bareAt?_act hst e.1 e.2)

theorem arranged_actAll (h : s.form.store.root.Arranged (fun _ => True) fun _ => True)
    (ds : List (ControlPath × Deed)) :
    (s.actAll ds).form.store.root.Arranged (fun _ => True) fun _ => True := by
  induction ds generalizing s with
  | nil => exact h
  | cons e ds ih => exact ih (arranged_act h e.1 e.2)

omit [Dialect] in
theorem bareAt?_of_strand? (hst : s.strand? a = some st) :
    s.form.store.root.bareAt? a = some (.leaf st.leaf) := by
  obtain ⟨l, hl, rfl⟩ := Option.map_eq_some_iff.mp hst
  rw [Node.bareAt?, Node.leafAt?_eq_some.mp hl]
  rfl

/-- Deeds from a built form lead to the same store in every order that keeps, leaf by leaf, the order of
the deeds to that leaf, or exchanges settlements in a row that are for different tickets. -/
theorem store_actAll_eq {schema : Json} {messages : Messages} {f : Form}
    (h : Form.build schema messages = .ok f) {ds ds' : List (ControlPath × Deed)}
    (hreordered : ∀ a l, f.store.leafAt? a = some l →
      Deed.Reordered (f.store.deedsAt a ds) (f.store.deedsAt a ds')) :
    ((start f).actAll ds).form.store = ((start f).actAll ds').form.store := by
  have harranged : (start f).form.store.root.Arranged (fun _ => True) fun _ => True :=
    Form.arranged_build h fun _ _ _ => trivial
  refine congrArg Store.mk
    ((arranged_actAll harranged ds).ext (arranged_actAll harranged ds') fun a => ?_)
  cases hst : (start f).strand? a with
  | none => rw [bareAt?_actAll hst, bareAt?_actAll hst]
  | some st =>
    obtain ⟨l, hl, rfl⟩ := Option.map_eq_some_iff.mp hst
    have hsound : Strand.Sound ⟨l, (start f).issued a⟩ := ⟨List.nodup_nil, nofun⟩
    have hsteps := hsound.reordered (hreordered a l hl)
    have hds := (strand?_actAll (start f) ds a).trans (congrArg _ hst)
    have hds' := (strand?_actAll (start f) ds' a).trans (congrArg _ hst)
    refine (bareAt?_of_strand? hds).trans (.trans ?_ (bareAt?_of_strand? hds').symm)
    exact congrArg (fun st => some (Node.leaf st.leaf)) hsteps

end

def askedPair : Json :=
  let taken := Json.object [("type", .string "external"), ("url", .string "https://names.test"),
    ("name", .string "taken")]
  let name := Json.object [("type", .string "input"),
    ("validations", .object [("async", .array [taken])])]
  .object [("first", name), ("last", name)]

def askedPairForm : Form where
  store :=
    let l := Leaf.fresh [] [.external "taken" "https://names.test"]
    ⟨.group [("first", .leaf l.checked), ("last", .leaf l.checked)]⟩
  messages := [("taken", .fixed "Validation 'taken' failed")]
  sources := []

/-- The deeds to the last name come between those to the first one, whose two tickets are settled in
either order. -/
theorem store_eq_of_late_first_outcome :
    let first : ControlPath := ⟨"first"⟩
    let last : ControlPath := ⟨"last"⟩
    let taken : Option Failures := some [("taken", .null)]
    let ds := [(first, .setValue (.string "ann")), (first, .validate), (first, .settle 0 taken),
      (first, .settle 1 none), (last, .setValue (.string "lee")), (last, .settle 0 taken)]
    let ds' := [(last, .setValue (.string "lee")), (first, .setValue (.string "ann")),
      (last, .settle 0 taken), (first, .validate), (first, .settle 1 none), (first, .settle 0 taken)]
    Form.build askedPair [] = .ok askedPairForm ∧
      ((start askedPairForm).actAll ds).form.store = ((start askedPairForm).actAll ds').form.store := by
  intro first last taken ds ds'
  have hbuild : Form.build askedPair [] = .ok askedPairForm := rfl
  refine ⟨hbuild, store_actAll_eq hbuild fun a l _ => ?_⟩
  have hfirst : askedPairForm.store.address? first = some [.key "first"] := by decide
  have hlast : askedPairForm.store.address? last = some [.key "last"] := by decide
  by_cases ha : a = [.key "first"]
  · have hds : askedPairForm.store.deedsAt a ds =
        [.setValue (.string "ann"), .validate, .settle 0 taken, .settle 1 none] := by
      simp [ds, Store.deedsAt, hfirst, hlast, ha]
    have hds' : askedPairForm.store.deedsAt a ds' =
        [.setValue (.string "ann"), .validate, .settle 1 none, .settle 0 taken] := by
      simp [ds', Store.deedsAt, hfirst, hlast, ha]
    have hdistinct : ([(0, taken), (1, none)].map (·.1)).Nodup := by decide
    have hswap : [(0, taken), (1, none)].Perm [(1, none), (0, taken)] := .swap _ _ _
    rw [hds, hds']
    exact .settlements [.setValue (.string "ann"), .validate] [] hdistinct hswap
  · have hds : askedPairForm.store.deedsAt a ds = askedPairForm.store.deedsAt a ds' := by
      simp [ds, ds', Store.deedsAt, List.filter_cons, hfirst, Ne.symm ha]
    rw [hds]
    exact .refl _

end Session

end Formwork
