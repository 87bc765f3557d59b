import Formwork.Proofs.FullValidation

/-! What an operation reports of each leaf, and what it does to it. -/

namespace Formwork

open Node (Address)

inductive Operation where
  | setValue (path : ControlPath) (value : Json)
  | setDefault (path : ControlPath) (value : Json)
  | applyOptions (path : ControlPath) (options : List SelectOption)
  | validate (path : ControlPath)
  | touch (path : ControlPath)
  | settle (ticket : Ticket) (outcome : Option Failures)
  | validateFully (path : ControlPath) (policy : RetryPolicy) (transport : Transport)
  | register (key text : String)

def Operation.path? : Operation → Option ControlPath
  | setValue path _ => some path
  | setDefault path _ => some path
  | applyOptions path _ => some path
  | validate path => some path
  | touch path => some path
  | settle t _ => some t.path
  | validateFully path _ _ => some path
  | register _ _ => none

def Operation.sets : Operation → Bool
  | setValue .. => true
  | _ => false

variable [Dialect]

/-- What comes of an operation. The ticket of a full validation is not handed out. -/
def Form.operate (f : Form) : Operation → Except FormError (Form.Reply (Option Ticket))
  | .setValue path value => f.setValue path value
  | .setDefault path value => f.setDefault path value
  | .applyOptions path options => f.applyOptions path options
  | .validate path => f.validate path
  | .touch path => (f.touch path).map fun r => ⟨r.form, r.events, none⟩
  | .settle t outcome => (f.settle t outcome).map fun r => ⟨r.form, r.events, none⟩
  | .validateFully path policy transport =>
    (f.validateFully path policy transport).map fun r => ⟨r.form, r.events, none⟩
  | .register key text => .ok ⟨f.register key text, [], none⟩

namespace Event

def path? : Event → Option ControlPath
  | nodeAllocated path _ => some path
  | valueChanged path _ => some path
  | validationSettled path _ _ => some path
  | staleResultDiscarded path _ _ => some path
  | transportRetry .. => none
  | transportExhausted .. => none

def change? : Event → Option Nat
  | valueChanged _ generation => some generation
  | _ => none

def verdict? : Event → Option (Status × List String)
  | validationSettled _ status keys => some (status, keys)
  | _ => none

end Event

omit [Dialect] in
theorem Attempts.path?_events (p : RetryPolicy) (url : String)
    (attempt : Nat → Except TransportError Json) (left retry : Nat) :
    ∀ ev ∈ (resume p url attempt left retry).events, ev.path? = none := by
  induction left generalizing retry with
  | zero =>
    unfold resume
    cases attempt retry with
    | ok body => exact fun _ h => absurd h List.not_mem_nil
    | error e => exact List.forall_mem_singleton.mpr rfl
  | succ left ih =>
    unfold resume
    cases attempt retry with
    | ok body => exact fun _ h => absurd h List.not_mem_nil
    | error e =>
      by_cases hretry : e.isRetryable = true
      · simp only [hretry, if_true]
        exact List.forall_mem_cons.mpr ⟨rfl, ih (retry + 1)⟩
      · simp only [hretry]
        exact List.forall_mem_singleton.mpr rfl

theorem Inquiry.path?_events_run (p : RetryPolicy) (transport : Transport) (t : Ticket) :
    ∀ ev ∈ (run p transport t).events, ev.path? = none := by
  have hfold : ∀ (vs : List RemoteValidator) (i : Inquiry), (∀ ev ∈ i.events, ev.path? = none) →
      ∀ ev ∈ (vs.foldl (ask p transport t) i).events, ev.path? = none := by
    intro vs
    induction vs with
    | nil => exact fun _ h => h
    | cons v vs ih =>
      intro i hi
      exact ih _ (List.forall_mem_append.mpr ⟨hi, Attempts.path?_events p _ _ _ 0⟩)
  exact hfold t.validators _ nofun

omit [Dialect] in
theorem Store.setLeaf_setLeaf {s : Store} {p : ControlPath} {l : Leaf} (hl : s.leaf? p = some l)
    (l₁ l₂ : Leaf) : (s.setLeaf p l₁).setLeaf p l₂ = s.setLeaf p l₂ :=
  congrArg Store.mk (Node.modify_modify (Store.resolve_eq_of_leaf? hl) _ _)

/-- An operation in a run, and the form that it finds. -/
structure Entry where
  before : Form
  operation : Operation

namespace Entry

def reply (e : Entry) : Except FormError (Form.Reply (Option Ticket)) := e.before.operate e.operation

def after (e : Entry) : Form :=
  match e.reply with
  | .ok r => r.form
  | .error _ => e.before

def events (e : Entry) : List Event :=
  match e.reply with
  | .ok r => r.events
  | .error _ => []

def issued? (e : Entry) : Option Ticket :=
  match e.reply with
  | .ok r => r.result
  | .error _ => none

def eventsAt (a : Address) (e : Entry) : List Event :=
  e.events.filter fun ev => ev.path?.bind e.before.store.address? = some a

def changes (a : Address) (e : Entry) : List Nat := (e.eventsAt a).filterMap Event.change?

def verdicts (a : Address) (e : Entry) : List (Status × List String) :=
  (e.eventsAt a).filterMap Event.verdict?

def Reaches (a : Address) (e : Entry) : Prop :=
  e.reply.isOk ∧ e.operation.path?.bind e.before.store.address? = some a

def Sets (a : Address) (e : Entry) : Prop := e.Reaches a ∧ e.operation.sets = true

/-- The leaf at an address is validated, or an outcome is applied to it. -/
def Judges (a : Address) (e : Entry) : Prop :=
  e.Reaches a ∧
    match e.operation with
    | .settle t _ => (e.before.store.leafAt? a).map Leaf.generation = some t.generation
    | .touch _ => False
    | .applyOptions _ [] => False
    | _ => True

def Issues (a : Address) (generation : Nat) (e : Entry) : Prop :=
  ∃ t, e.issued? = some t ∧ e.before.store.address? t.path = some a ∧ t.generation = generation

/-- How the status of a leaf at an address comes about, and what is reported of it. -/
inductive Tells (e : Entry) (a : Address) (l l' : Leaf) : Prop
  | kept (status : l'.status = l.status) (failures : l'.failures = l.failures)
      (generation : l'.generation = l.generation) (silent : e.verdicts a = []) (idle : ¬ e.Judges a)
      (unissued : ∀ g, ¬ e.Issues a g)
  | awaits (status : l'.status = .pending) (generation : l'.generation = l.generation + 1)
      (silent : e.verdicts a = []) (issues : ∀ g, e.Issues a g ↔ g = l'.generation)
  | concludes (status : l'.status ≠ .pending) (generation : l.generation ≤ l'.generation)
      (verdict : e.verdicts a = [(l'.status, l'.failureKeys)]) (unissued : ∀ g, ¬ e.Issues a g)

structure Moves (e : Entry) (a : Address) (l l' : Leaf) : Prop where
  changes : e.Sets a ∧ e.changes a = [l'.generation] ∧ l.generation < l'.generation ∨
    ¬ e.Sets a ∧ e.changes a = []
  tells : e.Tells a l l'

structure Within (e : Entry) (p : ControlPath) : Prop where
  path : e.operation.path? = some p
  events : ∀ ev ∈ e.events, ∀ q, ev.path? = some q → q = p
  issued : ∀ t, e.issued? = some t → t.path = p

section

variable {e : Entry} {a : Address} {p : ControlPath} {l l' : Leaf}

theorem moves_of_silent (hevents : ∀ ev ∈ e.eventsAt a, ev.change? = none ∧ ev.verdict? = none)
    (hset : ¬ e.Sets a) (hidle : ¬ e.Judges a) (hissued : ∀ g, ¬ e.Issues a g)
    (hstatus : l'.status = l.status) (hfailures : l'.failures = l.failures)
    (hgeneration : l'.generation = l.generation) : e.Moves a l l' := by
  have hchanges : e.changes a = [] := List.filterMap_eq_nil_iff.mpr fun ev hev => (hevents ev hev).1
  have hverdicts : e.verdicts a = [] := List.filterMap_eq_nil_iff.mpr fun ev hev => (hevents ev hev).2
  exact ⟨.inr ⟨hset, hchanges⟩, .kept hstatus hfailures hgeneration hverdicts hidle hissued⟩

theorem Within.elsewhere (h : e.Within p) (ha : e.before.store.address? p ≠ some a) : e.Moves a l l := by
  have hevents : e.eventsAt a = [] := by
    refine List.filter_eq_nil_iff.mpr fun ev hev => ?_
    cases hq : ev.path? with
    | none => simp
    | some q =>
      obtain rfl := h.events ev hev q hq
      simpa using ha
  have hreaches : ¬ e.Reaches a := by
    rintro ⟨-, hpath⟩
    rw [h.path] at hpath
    exact ha hpath
  refine moves_of_silent (hevents ▸ nofun) (fun hs => hreaches hs.1) (fun hj => hreaches hj.1) ?_
    rfl rfl rfl
  rintro g ⟨t, ht, hpath, -⟩
  rw [h.issued t ht] at hpath
  exact ha hpath

theorem filterMap_eventsAt {β : Type} {f : Event → Option β} (h : e.Within p)
    (ha : e.before.store.address? p = some a) (hf : ∀ ev : Event, ev.path? = none → f ev = none) :
    (e.eventsAt a).filterMap f = e.events.filterMap f := by
  rw [eventsAt, List.filterMap_filter]
  refine List.filterMap_congr fun ev hev => ?_
  cases hq : ev.path? with
  | none => simp [hf ev hq]
  | some q =>
    obtain rfl := h.events ev hev q hq
    simp [ha]

theorem Within.changes (h : e.Within p) (ha : e.before.store.address? p = some a) :
    e.changes a = e.events.filterMap Event.change? := by
  refine filterMap_eventsAt h ha fun ev hev => ?_
  cases ev <;> first | rfl | cases hev

theorem Within.verdicts (h : e.Within p) (ha : e.before.store.address? p = some a) :
    e.verdicts a = e.events.filterMap Event.verdict? := by
  refine filterMap_eventsAt h ha fun ev hev => ?_
  cases ev <;> first | rfl | cases hev

end

/-- Every leaf after the operation was one before, and what is reported tells what became of it. -/
def Follows (e : Entry) : Prop :=
  ∀ a l', e.after.store.leafAt? a = some l' → ∃ l, e.before.store.leafAt? a = some l ∧ e.Moves a l l'

theorem follows_of_kept {e : Entry} (hstore : e.after.store = e.before.store)
    (h : ∀ a l, e.Moves a l l) : e.Follows := by
  intro a l hl
  rw [hstore] at hl
  exact ⟨l, hl, h a l⟩

theorem Within.follows {e : Entry} {p : ControlPath} {l l' : Leaf} (h : e.Within p)
    (hl : e.before.store.leaf? p = some l) (hstore : e.after.store = e.before.store.setLeaf p l')
    (hmoves : ∀ a, e.before.store.address? p = some a → e.Moves a l l') : e.Follows := by
  obtain ⟨a, ha, hat⟩ := Store.exists_address_of_leaf? hl
  intro b m hm
  rw [hstore, Store.leafAt?_setLeaf ha hl] at hm
  split_ifs at hm with hb
  · cases hm
    subst hb
    exact ⟨l, hat, hmoves b ha⟩
  · exact ⟨m, hm, h.elsewhere fun hb' => hb (Option.some.inj (hb'.symm.trans ha))⟩

section Operations

variable {f : Form} {o : Operation} {p : ControlPath} {l : Leaf} {r : Form.Reply (Option Ticket)}

theorem within_of_reply (hr : f.operate o = .ok r) (ho : o.path? = some p)
    (hevents : ∀ ev ∈ r.events, ∀ q, ev.path? = some q → q = p)
    (hissued : ∀ t, r.result = some t → t.path = p) : (Entry.mk f o).Within p := by
  refine ⟨ho, ?_, ?_⟩
  · rw [events, reply, hr]
    exact hevents
  · rw [issued?, reply, hr]
    exact hissued

theorem follows_of_error {e : FormError} (he : f.operate o = .error e) : (Entry.mk f o).Follows := by
  have hreply : (Entry.mk f o).reply = .error e := he
  have hreaches : ∀ a, ¬ (Entry.mk f o).Reaches a := by
    rintro a ⟨hok, -⟩
    rw [hreply] at hok
    cases hok
  refine follows_of_kept (by rw [after, hreply]) fun a l => ?_
  refine moves_of_silent ?_ (fun hs => hreaches a hs.1) (fun hj => hreaches a hj.1) ?_ rfl rfl rfl
  · rw [eventsAt, events, hreply]
    nofun
  · rintro g ⟨t, ht, -⟩
    rw [issued?, hreply] at ht
    cases ht

def heralds (o : Operation) (p : ControlPath) (generation : Nat) : List Event :=
  if o.sets then [.valueChanged p generation] else []

omit [Dialect] in
theorem change?_heralds (o : Operation) (p : ControlPath) (g : Nat) :
    (heralds o p g).filterMap Event.change? = if o.sets then [g] else [] := by
  unfold heralds
  split <;> rfl

omit [Dialect] in
theorem verdict?_heralds (o : Operation) (p : ControlPath) (g : Nat) :
    (heralds o p g).filterMap Event.verdict? = [] := by
  unfold heralds
  split <;> rfl

omit [Dialect] in
theorem path?_heralds {o : Operation} {p : ControlPath} {g : Nat} {ev : Event} (h : ev ∈ heralds o p g) :
    ev.path? = some p := by
  unfold heralds at h
  split at h
  · cases List.mem_singleton.mp h
    rfl
  · cases h

/-- A leaf has been put in the place of another at a path, and nothing has changed a value but a command
that sets it. -/
theorem follows_of_put {l' : Leaf} {rest : List Event} (ho : o.path? = some p)
    (hl : f.store.leaf? p = some l) (hr : f.operate o = .ok r)
    (hstore : r.form.store = f.store.setLeaf p l')
    (hevents : r.events = heralds o p l'.generation ++ rest)
    (hrest : ∀ ev ∈ rest, ev.change? = none ∧ ∀ q, ev.path? = some q → q = p)
    (hissued : ∀ t, r.result = some t → t.path = p)
    (hlt : o.sets = true → l.generation < l'.generation)
    (htells : ∀ a, f.store.address? p = some a →
      (Entry.mk f o).verdicts a = rest.filterMap Event.verdict? → (Entry.mk f o).Tells a l l') :
    (Entry.mk f o).Follows := by
  have hreply : (Entry.mk f o).reply = .ok r := hr
  have hentry : (Entry.mk f o).events = heralds o p l'.generation ++ rest := by
    rw [events, hreply]
    exact hevents
  have hwithin : (Entry.mk f o).Within p := by
    refine within_of_reply hr ho (fun ev hev q hq => ?_) hissued
    rcases List.mem_append.mp (hevents ▸ hev) with hev | hev
    · exact Option.some.inj (hq.symm.trans (path?_heralds hev))
    · exact (hrest ev hev).2 q hq
  refine hwithin.follows hl (by rw [after, hreply]; exact hstore) fun a ha => ?_
  have hquiet : rest.filterMap Event.change? = [] :=
    List.filterMap_eq_nil_iff.mpr fun ev hev => (hrest ev hev).1
  have hchanges : (Entry.mk f o).changes a = if o.sets then [l'.generation] else [] := by
    rw [hwithin.changes ha, hentry, List.filterMap_append, change?_heralds, hquiet, List.append_nil]
  refine ⟨?_, htells a ha ?_⟩
  · cases hsets : o.sets with
    | true =>
      have hreaches : (Entry.mk f o).Reaches a := ⟨by rw [hreply]; rfl, by rw [ho]; exact ha⟩
      rw [hsets] at hchanges
      exact .inl ⟨⟨hreaches, hsets⟩, hchanges, hlt hsets⟩
    | false =>
      rw [hsets] at hchanges
      refine .inr ⟨fun hs => ?_, hchanges⟩
      cases hsets.symm.trans hs.2
  · rw [hwithin.verdicts ha, hentry, List.filterMap_append, verdict?_heralds, List.nil_append]

theorem follows_of_awaits {l' : Leaf} {t : Ticket} (ho : o.path? = some p)
    (hl : f.store.leaf? p = some l)
    (hr : f.operate o = .ok ⟨f.setLeaf p l', heralds o p l'.generation, some t⟩)
    (hstatus : l'.status = .pending) (hgeneration : l'.generation = l.generation + 1)
    (hpath : t.path = p) (hticket : t.generation = l'.generation) : (Entry.mk f o).Follows := by
  refine follows_of_put ho hl hr rfl (List.append_nil _).symm nofun ?_ (fun _ => by omega) ?_
  · rintro _ ⟨⟩
    exact hpath
  · intro a ha hverdicts
    refine .awaits hstatus hgeneration hverdicts fun g => ?_
    have hissued : (Entry.mk f o).issued? = some t := by
      have hreply : (Entry.mk f o).reply = .ok _ := hr
      rw [issued?, hreply]
    constructor
    · rintro ⟨t', ht', -, rfl⟩
      cases hissued.symm.trans ht'
      exact hticket
    · rintro rfl
      exact ⟨t, hissued, by rw [hpath]; exact ha, hticket⟩

theorem not_issues (hr : f.operate o = .ok r) (hresult : r.result = none) (a : Address) (g : Nat) :
    ¬ (Entry.mk f o).Issues a g := by
  have hreply : (Entry.mk f o).reply = .ok r := hr
  rintro ⟨t, ht, -⟩
  rw [issued?, hreply] at ht
  cases hresult.symm.trans ht

theorem follows_of_concludes {l' : Leaf} {f' : Form} (asked : List Event) (ho : o.path? = some p)
    (hl : f.store.leaf? p = some l)
    (hr : f.operate o = .ok ⟨f', heralds o p l'.generation ++ (asked ++ [Form.settledEvent p l']), none⟩)
    (hstore : f'.store = f.store.setLeaf p l') (hasked : ∀ ev ∈ asked, ev.path? = none)
    (hstatus : l'.status ≠ .pending) (hle : l.generation ≤ l'.generation)
    (hlt : o.sets = true → l.generation < l'.generation) : (Entry.mk f o).Follows := by
  have hquiet : ∀ ev ∈ asked, ev.change? = none ∧ ev.verdict? = none := by
    intro ev hev
    have hpath := hasked ev hev
    cases ev <;> first | exact ⟨rfl, rfl⟩ | cases hpath
  refine follows_of_put ho hl hr hstore rfl ?_ nofun hlt fun a ha hverdicts => ?_
  · refine List.forall_mem_append.mpr ⟨fun ev hev => ⟨(hquiet ev hev).1, fun q hq => ?_⟩, ?_⟩
    · cases (hasked ev hev).symm.trans hq
    · refine List.forall_mem_singleton.mpr ⟨rfl, ?_⟩
      rintro _ ⟨⟩
      rfl
  · have hnil : asked.filterMap Event.verdict? = [] :=
      List.filterMap_eq_nil_iff.mpr fun ev hev => (hquiet ev hev).2
    rw [List.filterMap_append, hnil] at hverdicts
    exact .concludes hstatus hle hverdicts (not_issues hr rfl a)

theorem follows_of_revalidate {l₁ : Leaf} (ho : o.path? = some p) (hl : f.store.leaf? p = some l)
    (hgeneration : l₁.generation = l.generation + 1)
    (hr : f.operate o = .ok { f.revalidate p l₁ with
      events := heralds o p l₁.generation ++ (f.revalidate p l₁).events }) : (Entry.mk f o).Follows := by
  rw [Form.revalidate_eq] at hr
  cases ha : l₁.awaits with
  | true =>
    obtain ⟨t, ht⟩ : ∃ t, f.issue? p l₁ = some t := by simp [Form.issue?, ha]
    obtain ⟨-, hpath, hticket, -, -⟩ := Form.issue?_eq_some ht
    have hstatus : l₁.validated.status = .pending := by rw [Leaf.validated, ha]; rfl
    simp only [ha, ht, if_true, List.append_nil] at hr
    exact follows_of_awaits ho hl hr hstatus hgeneration hpath hticket
  | false =>
    have hnone : f.issue? p l₁ = none := by rw [Form.issue?, ha]; rfl
    have hstatus : l₁.validated.status ≠ .pending := by
      rw [Leaf.validated, ha]
      exact Leaf.statusOf_ne_pending _
    have hlt : l.generation < l₁.validated.generation := by
      show l.generation < l₁.generation
      omega
    simp only [ha, hnone] at hr
    have hasked : ∀ ev ∈ ([] : List Event), ev.path? = none := fun _ h => absurd h List.not_mem_nil
    exact follows_of_concludes [] ho hl hr rfl hasked hstatus (Nat.le_of_lt hlt) fun _ => hlt

theorem operate_error (ho : o.path? = some p) (hl : f.store.leaf? p = none) :
    f.operate o = .error (.notAControl p) := by
  cases o with
  | setValue q v =>
    cases ho
    exact Form.leaf_bind_eq_error hl _
  | setDefault q v =>
    cases ho
    exact Form.leaf_bind_eq_error hl _
  | applyOptions q options =>
    cases ho
    cases options with
    | nil => exact Form.leaf_bind_eq_error hl _
    | cons first _ => exact Form.leaf_bind_eq_error hl _
  | validate q =>
    cases ho
    exact Form.leaf_bind_eq_error hl _
  | touch q =>
    cases ho
    exact congrArg (Except.map _) (Form.leaf_bind_eq_error hl _)
  | settle t outcome =>
    cases ho
    exact congrArg (Except.map _) (Form.leaf_bind_eq_error hl _)
  | validateFully q policy transport =>
    cases ho
    exact congrArg (Except.map _) (Form.validateFully_eq_error hl policy transport)
  | register key text => cases ho

theorem exists_reply (ho : o.path? = some p) (hl : f.store.leaf? p = some l) :
    ∃ r, f.operate o = .ok r := by
  cases o with
  | setValue q v =>
    cases ho
    exact ⟨_, Form.setValue_eq hl v⟩
  | setDefault q v =>
    cases ho
    exact ⟨_, Form.setDefault_eq hl v⟩
  | applyOptions q options =>
    cases ho
    cases options with
    | nil => exact ⟨_, Form.applyOptions_nil_eq hl⟩
    | cons first _ => exact ⟨_, Form.setDefault_eq hl first.value⟩
  | validate q =>
    cases ho
    exact ⟨_, Form.validate_eq hl⟩
  | touch q =>
    cases ho
    exact ⟨_, congrArg (Except.map _) (Form.touch_eq hl)⟩
  | settle t outcome =>
    cases ho
    exact ⟨_, congrArg (Except.map _) (Form.settle_eq hl outcome)⟩
  | validateFully q policy transport =>
    cases ho
    cases ha : l.awaits with
    | false => exact ⟨_, congrArg (Except.map _) (Form.validateFully_of_settled hl ha policy transport)⟩
    | true => exact ⟨_, congrArg (Except.map _) (Form.validateFully_of_awaits hl ha policy transport)⟩
  | register key text => cases ho

/-- An operation fails only at the look for its leaf, which comes before all it does. -/
theorem reply_eq_error {e : Entry} {error : FormError} (h : e.reply = .error error) :
    ∃ p, e.operation.path? = some p ∧ e.before.store.leaf? p = none ∧ error = .notAControl p := by
  obtain ⟨f, o⟩ := e
  cases ho : o.path? with
  | none =>
    cases o with
    | register key text => cases h
    | _ => cases ho
  | some p =>
    cases hl : f.store.leaf? p with
    | none =>
      cases (operate_error ho hl).symm.trans h
      exact ⟨p, rfl, hl, rfl⟩
    | some l =>
      obtain ⟨r, hr⟩ := exists_reply ho hl
      cases hr.symm.trans h

theorem follows_of_idle (hr : f.operate o = .ok r) (hstore : r.form.store = f.store)
    (hevents : ∀ ev ∈ r.events, ev.change? = none ∧ ev.verdict? = none) (hresult : r.result = none)
    (hset : o.sets = false) (hidle : ∀ a, ¬ (Entry.mk f o).Judges a) :
    (Entry.mk f o).Follows := by
  have hreply : (Entry.mk f o).reply = .ok r := hr
  refine follows_of_kept (by rw [after, hreply]; exact hstore) fun a l => ?_
  refine moves_of_silent (fun ev hev => ?_) (fun hs => ?_) (hidle a) (not_issues hr hresult a) rfl rfl rfl
  · have hmem := List.mem_of_mem_filter hev
    rw [events, hreply] at hmem
    exact hevents ev hmem
  · cases hset.symm.trans hs.2

theorem follows_touch (hl : f.store.leaf? p = some l) : (Entry.mk f (.touch p)).Follows := by
  have hr : f.operate (.touch p) = .ok ⟨f.setLeaf p { l with touched := true }, [], none⟩ :=
    congrArg (Except.map _) (Form.touch_eq hl)
  have hreply : (Entry.mk f (.touch p)).reply = .ok _ := hr
  have hwithin : (Entry.mk f (.touch p)).Within p := within_of_reply hr rfl nofun nofun
  refine hwithin.follows hl (by rw [after, hreply]; rfl) fun a _ => ?_
  refine moves_of_silent ?_ (fun h => nomatch h.2) (fun h => h.2) (not_issues hr rfl a) rfl rfl rfl
  rw [eventsAt, events, hreply]
  nofun

theorem follows_settle {t : Ticket} (outcome : Option Failures) (hl : f.store.leaf? t.path = some l) :
    (Entry.mk f (.settle t outcome)).Follows := by
  have hoperate : f.operate (.settle t outcome) = (f.settle t outcome).map _ := rfl
  rw [Form.settle_eq hl] at hoperate
  by_cases hg : l.generation = t.generation
  · rw [if_pos hg] at hoperate
    exact follows_of_concludes [] rfl hl hoperate rfl nofun (Leaf.statusOf_ne_pending _)
      (Nat.le_refl _) nofun
  · rw [if_neg hg] at hoperate
    refine follows_of_idle hoperate rfl ?_ rfl rfl ?_
    · exact List.forall_mem_singleton.mpr ⟨rfl, rfl⟩
    · rintro a ⟨⟨-, ha⟩, hcurrent⟩
      obtain ⟨m, hm, hgm⟩ := Option.map_eq_some_iff.mp hcurrent
      have hat := (Store.leaf?_eq_leafAt? (p := t.path) ha).symm.trans hl
      cases hat.symm.trans hm
      exact hg hgm

theorem follows_validateFully (policy : RetryPolicy) (transport : Transport)
    (hl : f.store.leaf? p = some l) : (Entry.mk f (.validateFully p policy transport)).Follows := by
  have hoperate : f.operate (.validateFully p policy transport) =
    (f.validateFully p policy transport).map _ := rfl
  have hlt : l.generation < l.generation + 1 := Nat.lt_succ_self _
  cases ha : l.awaits with
  | false =>
    rw [Form.validateFully_of_settled hl ha policy transport] at hoperate
    exact follows_of_concludes [] rfl hl hoperate rfl nofun (Leaf.statusOf_ne_pending _)
      (Nat.le_of_lt hlt) fun _ => hlt
  | true =>
    rw [Form.validateFully_of_awaits hl ha policy transport] at hoperate
    refine follows_of_concludes _ rfl hl hoperate ?_ ?_ (Leaf.statusOf_ne_pending _)
      (Nat.le_of_lt hlt) fun _ => hlt
    · exact Store.setLeaf_setLeaf hl _ _
    · exact Inquiry.path?_events_run policy transport _

/-- What an operation reports of a leaf tells what it does to it. -/
theorem follows (e : Entry) : e.Follows := by
  obtain ⟨f, o⟩ := e
  cases ho : o.path? with
  | none =>
    cases o with
    | register key text => exact follows_of_idle rfl rfl nofun rfl rfl fun _ h => nomatch h.1.2
    | _ => cases ho
  | some p =>
    cases hl : f.store.leaf? p with
    | none => exact follows_of_error (operate_error ho hl)
    | some l =>
      cases o with
      | setValue q v =>
        cases ho
        exact follows_of_revalidate rfl hl rfl (Form.setValue_eq hl v)
      | setDefault q v =>
        cases ho
        exact follows_of_revalidate rfl hl rfl (Form.setDefault_eq hl v)
      | applyOptions q options =>
        cases ho
        cases options with
        | nil => exact follows_of_idle (Form.applyOptions_nil_eq hl) rfl nofun rfl rfl fun _ h => h.2
        | cons first _ => exact follows_of_revalidate rfl hl rfl (Form.setDefault_eq hl first.value)
      | validate q =>
        cases ho
        exact follows_of_revalidate rfl hl rfl (Form.validate_eq hl)
      | touch q =>
        cases ho
        exact follows_touch hl
      | settle t outcome =>
        cases ho
        exact follows_settle outcome hl
      | validateFully q policy transport =>
        cases ho
        exact follows_validateFully policy transport hl
      | register key text => cases ho

end Operations

end Entry

end Formwork
