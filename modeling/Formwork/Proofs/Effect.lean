import Formwork.Form.Session
import Formwork.Proofs.Address

/-! What a command does to a session. It puts one leaf at most in the place of another and issues one
ticket at most; `perform_change` lists all that can happen. -/

namespace Formwork

/-- The control whose value or validation starts anew with a command. -/
def Command.renewed? : Command → Option ControlPath
  | .setValue path _ => some path
  | .setDefault path _ => some path
  | .applyOptions path (_ :: _) => some path
  | .validate path => some path
  | _ => none

def Command.begun : Command → Leaf → Leaf
  | .setValue _ value, l =>
    { l with value := value, dirty := true, generation := l.generation + 1 }
  | .setDefault _ value, l => { l with value := value, generation := l.generation + 1 }
  | .applyOptions _ (first :: _), l =>
    { l with value := first.value, generation := l.generation + 1 }
  | .validate _, l => { l with generation := l.generation + 1 }
  | _, l => l

def Command.heralds : Command → Leaf → List Event
  | .setValue path _, l => [.valueChanged path (l.generation + 1)]
  | _, _ => []

theorem Command.generation_begun {c : Command} {path : ControlPath} (h : c.renewed? = some path)
    (l : Leaf) : (c.begun l).generation = l.generation + 1 := by
  cases c with
  | applyOptions p options => cases options <;> first | rfl | cases h
  | touch p => cases h
  | settle i o => cases h
  | _ => rfl

namespace Form

variable {f : Form} {path : ControlPath} {l : Leaf}

theorem leaf_eq_ok : f.leaf path = .ok l ↔ f.store.leaf? path = some l := by
  unfold Form.leaf
  cases f.store.leaf? path <;> simp

theorem leaf_eq_error (h : f.store.leaf? path = none) : f.leaf path = .error (.notAControl path) := by
  rw [Form.leaf, h]

theorem leaf_bind_eq_error {α : Type} (h : f.store.leaf? path = none) (next : Leaf → Except FormError α) :
    (f.leaf path >>= next) = .error (.notAControl path) := by
  rw [leaf_eq_error h]
  rfl

theorem settle_eq {t : Ticket} (hl : f.store.leaf? t.path = some l) (outcome : Option Failures) :
    f.settle t outcome = .ok
      (if l.generation = t.generation then
        ⟨f.setLeaf t.path (l.settled outcome), [settledEvent t.path (l.settled outcome)],
          .applied (Leaf.statusOf outcome)⟩
      else ⟨f, [.staleResultDiscarded t.path t.generation l.generation], .stale⟩) := by
  have hleaf : f.leaf t.path = .ok l := leaf_eq_ok.mpr hl
  simp only [settle, hleaf, bind, Except.bind]
  by_cases hg : l.generation = t.generation
  · simp only [hg, if_true, Leaf.settled]
  · simp only [hg, if_false]

theorem touch_eq (hl : f.store.leaf? path = some l) :
    f.touch path = .ok ⟨f.setLeaf path { l with touched := true }, [], ()⟩ := by
  rw [touch, leaf_eq_ok.mpr hl]
  rfl

end Form

theorem Session.ticket_eq_ok {s : Session} {i : Nat} {t : Ticket} (ht : s.tickets[i]? = some t) :
    s.ticket i = .ok t := by
  rw [ticket, ht]

variable [Dialect]

namespace Leaf

def Passes (l : Leaf) : Prop := ∀ v ∈ l.locals, v.failure? l.value = none

def awaits (l : Leaf) : Bool := l.checked.failures.isNone && l.hasRemotes

def validated (l : Leaf) : Leaf :=
  { l.checked with status := if l.awaits then .pending else l.checked.status }

theorem passes_iff {l : Leaf} : l.Passes ↔ LocalValidator.runAll l.locals l.value = none :=
  LocalValidator.runAll_eq_none_iff.symm

theorem not_passes_iff {l : Leaf} : ¬ l.Passes ↔ ∃ v ∈ l.locals, v.failure? l.value ≠ none := by
  simp [Passes]

theorem awaits_iff {l : Leaf} : l.awaits = true ↔ l.Passes ∧ l.remotes ≠ [] := by
  simp [awaits, passes_iff, hasRemotes, checked, settled]

end Leaf

namespace Form

def issue? (f : Form) (path : ControlPath) (l : Leaf) : Option Ticket :=
  if l.awaits then
    some ⟨path, l.generation, l.value, l.remotes,
      (f.setLeaf path l.validated).store.snapshot.toJson⟩
  else none

theorem issue?_eq_some {f : Form} {path : ControlPath} {l : Leaf} {t : Ticket}
    (h : f.issue? path l = some t) : l.awaits = true ∧ t.path = path ∧
      t.generation = l.generation ∧ t.value = l.value ∧ t.validators = l.remotes := by
  unfold issue? at h
  split at h
  · next ha =>
    cases h
    exact ⟨ha, rfl, rfl, rfl, rfl⟩
  · cases h

theorem revalidate_eq (f : Form) (path : ControlPath) (l : Leaf) :
    f.revalidate path l = ⟨f.setLeaf path l.validated,
      if l.awaits then [] else [settledEvent path l.validated], f.issue? path l⟩ := by
  have hif : (l.checked.failures.isSome || !l.checked.hasRemotes) = !l.awaits := by
    rw [Leaf.awaits, Bool.not_and, Option.not_isNone]
    rfl
  simp only [revalidate, hif]
  cases ha : l.awaits <;> simp [Leaf.validated, issue?, ha, Leaf.checked, Leaf.settled]

section

variable {f : Form} {path : ControlPath} {l : Leaf}

theorem setValue_eq (hl : f.store.leaf? path = some l) (value : Json) :
    let changed := { l with value := value, dirty := true, generation := l.generation + 1 }
    f.setValue path value = .ok { f.revalidate path changed with
      events := .valueChanged path (l.generation + 1) :: (f.revalidate path changed).events } := by
  rw [setValue, leaf_eq_ok.mpr hl]
  rfl

theorem setDefault_eq (hl : f.store.leaf? path = some l) (value : Json) :
    f.setDefault path value =
      .ok (f.revalidate path { l with value := value, generation := l.generation + 1 }) := by
  rw [setDefault, leaf_eq_ok.mpr hl]
  rfl

theorem validate_eq (hl : f.store.leaf? path = some l) :
    f.validate path = .ok (f.revalidate path { l with generation := l.generation + 1 }) := by
  rw [validate, leaf_eq_ok.mpr hl]
  rfl

theorem applyOptions_nil_eq (hl : f.store.leaf? path = some l) :
    f.applyOptions path [] = .ok ⟨f, [], none⟩ := by
  rw [applyOptions, leaf_eq_ok.mpr hl]
  rfl

end

end Form

namespace Session

def renewal (s : Session) (c : Command) (path : ControlPath) (l : Leaf) : Reply where
  session :=
    { s with
      form := s.form.setLeaf path (c.begun l).validated
      tickets := s.tickets ++ (s.form.issue? path (c.begun l)).toList }
  events := c.heralds l ++
    if (c.begun l).awaits then [] else [Form.settledEvent path (c.begun l).validated]
  answer :=
    match s.form.issue? path (c.begun l) with
    | some t => .issued s.tickets.length t
    | none => .done

/-- What a command can do, with all that it answers and reports. -/
inductive Change (s : Session) : Command → Reply → Prop
  | renewed {c : Command} {path : ControlPath} {l : Leaf} (renews : c.renewed? = some path)
      (leaf : s.form.store.leaf? path = some l) : Change s c (s.renewal c path l)
  | touched {path : ControlPath} {l : Leaf} (leaf : s.form.store.leaf? path = some l) :
      Change s (.touch path) ⟨s.withForm (s.form.setLeaf path { l with touched := true }), [], .done⟩
  | settled {i : Nat} {t : Ticket} {l : Leaf} (ticket : s.tickets[i]? = some t)
      (leaf : s.form.store.leaf? t.path = some l) (current : l.generation = t.generation)
      (outcome : Option Failures) :
      Change s (.settle i outcome) ⟨s.withForm (s.form.setLeaf t.path (l.settled outcome)),
        [Form.settledEvent t.path (l.settled outcome)],
        .settled (.applied (Leaf.statusOf outcome))⟩
  | stale {i : Nat} {t : Ticket} {l : Leaf} (ticket : s.tickets[i]? = some t)
      (leaf : s.form.store.leaf? t.path = some l) (behind : l.generation ≠ t.generation)
      (outcome : Option Failures) :
      Change s (.settle i outcome)
        ⟨s, [.staleResultDiscarded t.path t.generation l.generation], .settled .stale⟩
  | vain {path : ControlPath} {l : Leaf} (leaf : s.form.store.leaf? path = some l) :
      Change s (.applyOptions path []) ⟨s, [], .done⟩

theorem take_revalidate (s : Session) (c : Command) (path : ControlPath) (l : Leaf) :
    s.take (.ok { s.form.revalidate path (c.begun l) with
      events := c.heralds l ++ (s.form.revalidate path (c.begun l)).events }) =
      .ok (s.renewal c path l) := by
  rw [Form.revalidate_eq]
  cases ht : s.form.issue? path (c.begun l) <;> simp [take, renewal, ht, withForm]

theorem perform_renewal {s : Session} {c : Command} {path : ControlPath} {l : Leaf}
    (hc : c.renewed? = some path) (hl : s.form.store.leaf? path = some l) :
    s.perform c = .ok (s.renewal c path l) := by
  rw [← take_revalidate]
  cases c with
  | setValue p v =>
    cases hc
    exact congrArg s.take (Form.setValue_eq hl v)
  | setDefault p v =>
    cases hc
    exact congrArg s.take (Form.setDefault_eq hl v)
  | applyOptions p options =>
    cases options with
    | nil => cases hc
    | cons first rest =>
      cases hc
      exact congrArg s.take (Form.setDefault_eq hl first.value)
  | validate p =>
    cases hc
    exact congrArg s.take (Form.validate_eq hl)
  | touch p => cases hc
  | settle i o => cases hc

theorem perform_renewal_error {s : Session} {c : Command} {path : ControlPath}
    (hc : c.renewed? = some path) (hl : s.form.store.leaf? path = none) :
    s.perform c = .error (.form (.notAControl path)) := by
  cases c with
  | setValue p v =>
    cases hc
    exact congrArg s.take (Form.leaf_bind_eq_error hl _)
  | setDefault p v =>
    cases hc
    exact congrArg s.take (Form.leaf_bind_eq_error hl _)
  | applyOptions p options =>
    cases options with
    | nil => cases hc
    | cons first rest =>
      cases hc
      exact congrArg s.take (Form.leaf_bind_eq_error hl _)
  | validate p =>
    cases hc
    exact congrArg s.take (Form.leaf_bind_eq_error hl _)
  | touch p => cases hc
  | settle i o => cases hc

theorem perform_settle_eq {s : Session} {i : Nat} {t : Ticket} (ht : s.ticket i = .ok t)
    (outcome : Option Failures) : s.perform (.settle i outcome) =
      match s.form.settle t outcome with
      | .error e => .error (.form e)
      | .ok ⟨form, events, settlement⟩ => .ok ⟨s.withForm form, events, .settled settlement⟩ := by
  rw [perform, ht]
  rfl

theorem perform_touch_eq (s : Session) (path : ControlPath) : s.perform (.touch path) =
    match s.form.touch path with
    | .error e => .error (.form e)
    | .ok ⟨form, events, _⟩ => .ok ⟨s.withForm form, events, .done⟩ := rfl

theorem perform_settle {s : Session} {i : Nat} {t : Ticket} {l : Leaf} (ht : s.tickets[i]? = some t)
    (hl : s.form.store.leaf? t.path = some l) (outcome : Option Failures) :
    s.perform (.settle i outcome) = .ok
      (if l.generation = t.generation then
        ⟨s.withForm (s.form.setLeaf t.path (l.settled outcome)),
          [Form.settledEvent t.path (l.settled outcome)],
          .settled (.applied (Leaf.statusOf outcome))⟩
      else
        ⟨s, [.staleResultDiscarded t.path t.generation l.generation], .settled .stale⟩) := by
  rw [perform_settle_eq (ticket_eq_ok ht), Form.settle_eq hl]
  by_cases hg : l.generation = t.generation
  · rw [if_pos hg, if_pos hg]
  · rw [if_neg hg, if_neg hg]
    rfl

theorem perform_touch {s : Session} {path : ControlPath} {l : Leaf}
    (hl : s.form.store.leaf? path = some l) : s.perform (.touch path) =
      .ok ⟨s.withForm (s.form.setLeaf path { l with touched := true }), [], .done⟩ := by
  rw [perform_touch_eq, Form.touch_eq hl]

theorem perform_touch_error {s : Session} {path : ControlPath}
    (hl : s.form.store.leaf? path = none) :
    s.perform (.touch path) = .error (.form (.notAControl path)) := by
  have herror : s.form.touch path = .error (.notAControl path) := Form.leaf_bind_eq_error hl _
  rw [perform_touch_eq, herror]

theorem perform_vain {s : Session} {path : ControlPath} {l : Leaf}
    (hl : s.form.store.leaf? path = some l) :
    s.perform (.applyOptions path []) = .ok ⟨s, [], .done⟩ :=
  congrArg s.take (Form.applyOptions_nil_eq hl)

theorem perform_vain_error {s : Session} {path : ControlPath}
    (hl : s.form.store.leaf? path = none) :
    s.perform (.applyOptions path []) = .error (.form (.notAControl path)) :=
  congrArg s.take (Form.leaf_bind_eq_error hl _)

theorem perform_settle_error {s : Session} {i : Nat} {t : Ticket} (ht : s.tickets[i]? = some t)
    (hl : s.form.store.leaf? t.path = none) (outcome : Option Failures) :
    s.perform (.settle i outcome) = .error (.form (.notAControl t.path)) := by
  have herror : s.form.settle t outcome = .error (.notAControl t.path) := Form.leaf_bind_eq_error hl _
  rw [perform_settle_eq (ticket_eq_ok ht), herror]

theorem perform_settle_noTicket {s : Session} {i : Nat} (ht : s.tickets[i]? = none)
    (outcome : Option Failures) : s.perform (.settle i outcome) = .error .noTicket := by
  have hticket : s.ticket i = .error .noTicket := by rw [ticket, ht]
  rw [perform, hticket]
  rfl

theorem perform_change {s : Session} {c : Command} {r : Reply} (h : s.perform c = .ok r) :
    Change s c r := by
  cases hc : c.renewed? with
  | some path =>
    cases hl : s.form.store.leaf? path with
    | none => cases (perform_renewal_error hc hl).symm.trans h
    | some l =>
      cases (perform_renewal hc hl).symm.trans h
      exact .renewed hc hl
  | none =>
    cases c with
    | setValue p v => cases hc
    | setDefault p v => cases hc
    | validate p => cases hc
    | applyOptions p options =>
      cases options with
      | cons first rest => cases hc
      | nil =>
        cases hl : s.form.store.leaf? p with
        | none => cases (perform_vain_error hl).symm.trans h
        | some l =>
          cases (perform_vain hl).symm.trans h
          exact .vain hl
    | touch p =>
      cases hl : s.form.store.leaf? p with
      | none => cases (perform_touch_error hl).symm.trans h
      | some l =>
        cases (perform_touch hl).symm.trans h
        exact .touched hl
    | settle i outcome =>
      cases ht : s.tickets[i]? with
      | none => cases (perform_settle_noTicket ht outcome).symm.trans h
      | some t =>
        cases hl : s.form.store.leaf? t.path with
        | none => cases (perform_settle_error ht hl outcome).symm.trans h
        | some l =>
          rw [perform_settle ht hl] at h
          cases h
          by_cases hg : l.generation = t.generation
          · rw [if_pos hg]
            exact .settled ht hl hg outcome
          · rw [if_neg hg]
            exact .stale ht hl hg outcome

def after (s : Session) (c : Command) : Session :=
  match s.perform c with
  | .ok r => r.session
  | .error _ => s

def run (s : Session) (commands : List Command) : Session := commands.foldl after s

theorem after_of_perform {s : Session} {c : Command} {r : Reply} (h : s.perform c = .ok r) :
    s.after c = r.session := by
  rw [after, h]

theorem after_of_error {s : Session} {c : Command} {e : CommandError} (h : s.perform c = .error e) :
    s.after c = s := by
  rw [after, h]

theorem after_change (s : Session) (c : Command) :
    (∃ r, Change s c r ∧ s.after c = r.session) ∨
      s.after c = s ∧ ∀ path, c.renewed? = some path → s.form.store.leaf? path = none := by
  unfold after
  cases h : s.perform c with
  | ok r => exact .inl ⟨r, perform_change h, rfl⟩
  | error e =>
    refine .inr ⟨rfl, fun path hc => ?_⟩
    cases hl : s.form.store.leaf? path with
    | none => rfl
    | some l => cases (perform_renewal hc hl).symm.trans h

theorem Change.form_eq {s : Session} {c : Command} {r : Reply} (h : Change s c r) :
    r.session.form = s.form ∨ ∃ path l l', s.form.store.leaf? path = some l ∧
      r.session.form = s.form.setLeaf path l' := by
  cases h with
  | renewed _ hl => exact .inr ⟨_, _, _, hl, rfl⟩
  | touched hl => exact .inr ⟨_, _, _, hl, rfl⟩
  | settled _ hl => exact .inr ⟨_, _, _, hl, rfl⟩
  | stale => exact .inl rfl
  | vain => exact .inl rfl

theorem Change.address?_eq {s : Session} {c : Command} {r : Reply} (h : Change s c r)
    (q : ControlPath) : r.session.form.store.address? q = s.form.store.address? q := by
  rcases h.form_eq with he | ⟨path, l, l', hl, he⟩
  · rw [he]
  · rw [he]
    exact Store.address?_setLeaf hl l' q

theorem address?_after (s : Session) (c : Command) (q : ControlPath) :
    (s.after c).form.store.address? q = s.form.store.address? q := by
  rcases s.after_change c with ⟨r, hr, he⟩ | ⟨he, -⟩
  · rw [he, hr.address?_eq]
  · rw [he]

theorem address?_run (s : Session) (commands : List Command) (q : ControlPath) :
    (s.run commands).form.store.address? q = s.form.store.address? q := by
  induction commands generalizing s with
  | nil => rfl
  | cons c commands ih => exact (ih (s.after c)).trans (s.address?_after c q)

theorem Change.tickets_prefix {s : Session} {c : Command} {r : Reply} (h : Change s c r) :
    s.tickets <+: r.session.tickets := by
  cases h with
  | renewed => exact List.prefix_append _ _
  | _ => exact List.prefix_rfl

theorem tickets_after (s : Session) (c : Command) : s.tickets <+: (s.after c).tickets := by
  rcases s.after_change c with ⟨r, hr, he⟩ | ⟨he, -⟩
  · exact he ▸ hr.tickets_prefix
  · exact he.symm ▸ List.prefix_rfl

end Session

end Formwork
