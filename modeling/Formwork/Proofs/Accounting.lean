import Formwork.Dialect.Common
import Formwork.Proofs.Built
import Formwork.Proofs.Effect

/-! What the status of a leaf rests on, in every state that commands lead to: its local validators, a
ticket that is still out, or the outcome that was applied last. -/

namespace Formwork

open Node (Address)

structure Application where
  number : Nat
  ticket : Ticket
  outcome : Option Failures

namespace Session

section

variable [Dialect]

def applied? (s : Session) (c : Command) : Option Application :=
  match c, s.perform c with
  | .settle i outcome, .ok ⟨_, _, .settled (.applied _)⟩ =>
    s.tickets[i]?.map fun t => ⟨i, t, outcome⟩
  | _, _ => none

def applications (s : Session) : List Command → List Application
  | [] => []
  | c :: commands => (s.applied? c).toList ++ (s.after c).applications commands

def latest? (s : Session) (log : List Application) (a : Address) (generation : Nat) :
    Option Application :=
  (log.filter fun e => s.form.store.address? e.ticket.path = some a ∧
    e.ticket.generation = generation).getLast?

/-- The ticket with the given number is out for the leaf at an address, as the leaf now is. -/
structure Out (s : Session) (log : List Application) (a : Address) (l : Leaf) (i : Nat)
    (t : Ticket) : Prop where
  issued : s.tickets[i]? = some t
  address : s.form.store.address? t.path = some a
  generation : t.generation = l.generation
  value : t.value = l.value
  validators : t.validators = l.remotes
  unapplied : ∀ e ∈ log, e.number ≠ i

/-- What the status of the leaf at an address rests on, after the given applications. -/
structure Accounts (s : Session) (log : List Application) (a : Address) (l : Leaf) : Prop where
  marked : l.status = .invalid ↔ l.failures.isSome = true
  passed : l.status = .valid ∨ l.status = .pending → l.Passes
  awaited : l.status = .pending → l.remotes ≠ [] ∧ ∃ i t, s.Out log a l i t
  explained : l.status = .invalid →
    l.failures = LocalValidator.runAll l.locals l.value ∨
      l.Passes ∧ (s.latest? log a l.generation).map (·.outcome) = some l.failures

section Leaf

variable {s : Session} {log : List Application} {a : Address} {l : Leaf}

theorem accounts_checked (s : Session) (log : List Application) (a : Address) (l : Leaf) :
    s.Accounts log a l.checked := by
  have hpending : l.checked.status ≠ .pending := Leaf.statusOf_ne_pending _
  refine ⟨Leaf.statusOf_eq_invalid, ?_, fun h => absurd h hpending, fun _ => .inl rfl⟩
  rintro (h | h)
  · refine Leaf.passes_iff.mpr (Option.not_isSome_iff_eq_none.mp fun hf => ?_)
    have hinvalid : l.checked.status = .invalid := Leaf.statusOf_eq_invalid.mpr hf
    cases h.symm.trans hinvalid
  · exact absurd h hpending

theorem accounts_validated (hout : l.awaits = true → ∃ i t, s.Out log a l i t) :
    s.Accounts log a l.validated := by
  cases ha : l.awaits with
  | false =>
    have hl : l.validated = l.checked := by simp [Leaf.validated, ha]
    exact hl ▸ accounts_checked s log a l
  | true =>
    obtain ⟨hpasses, hremotes⟩ := Leaf.awaits_iff.mp ha
    obtain ⟨i, t, hissued, haddress, hgen, hvalue, hvalidators, hopen⟩ := hout ha
    have hstatus : l.validated.status = .pending := by simp [Leaf.validated, ha]
    have hfailures : l.validated.failures = none := Leaf.passes_iff.mp hpasses
    refine ⟨?_, fun _ => hpasses, fun _ => ⟨hremotes, i, t, ?_⟩, ?_⟩
    · simp [hstatus, hfailures]
    · exact ⟨hissued, haddress, hgen, hvalue, hvalidators, hopen⟩
    · intro h
      cases hstatus.symm.trans h

theorem Accounts.touched (h : s.Accounts log a l) : s.Accounts log a { l with touched := true } := by
  refine ⟨h.marked, h.passed, fun hp => ?_, h.explained⟩
  obtain ⟨hremotes, i, t, ho⟩ := h.awaited hp
  exact ⟨hremotes, i, t, ho.issued, ho.address, ho.generation, ho.value, ho.validators, ho.unapplied⟩

theorem accounts_settled {e : Application} (hl : l.Passes)
    (haddress : s.form.store.address? e.ticket.path = some a)
    (hgen : l.generation = e.ticket.generation) :
    s.Accounts (log ++ [e]) a (l.settled e.outcome) := by
  have hpending : (l.settled e.outcome).status ≠ .pending := Leaf.statusOf_ne_pending _
  refine ⟨Leaf.statusOf_eq_invalid, fun _ => hl, fun h => absurd h hpending, fun _ => .inr ⟨hl, ?_⟩⟩
  have hlatest : s.latest? (log ++ [e]) a l.generation = some e := by
    simp [latest?, List.filter_append, haddress, hgen]
  show (s.latest? (log ++ [e]) a l.generation).map _ = _
  rw [hlatest]
  rfl

theorem Accounts.frame (h : s.Accounts log a l) (s' : Session) (more : List Application)
    (hs : ∀ q, s'.form.store.address? q = s.form.store.address? q)
    (ht : s.tickets <+: s'.tickets)
    (hmore : ∀ e ∈ more, s.tickets[e.number]? = some e.ticket ∧
      s.form.store.address? e.ticket.path ≠ some a) :
    s'.Accounts (log ++ more) a l := by
  refine ⟨h.marked, h.passed, fun hp => ?_, fun hi => ?_⟩
  · obtain ⟨hremotes, i, t, ho⟩ := h.awaited hp
    obtain ⟨tickets, htickets⟩ := ht
    have hlt : i < s.tickets.length := (List.getElem?_eq_some_iff.mp ho.issued).1
    refine ⟨hremotes, i, t, ?_, (hs _).trans ho.address, ho.generation, ho.value, ho.validators, ?_⟩
    · rw [← htickets, List.getElem?_append_left hlt, ho.issued]
    · intro e he
      rcases List.mem_append.mp he with he | he
      · exact ho.unapplied e he
      · rintro rfl
        obtain ⟨hissued, haddress⟩ := hmore e he
        cases hissued.symm.trans ho.issued
        exact haddress ho.address
  · refine (h.explained hi).imp_right fun ⟨hpasses, hlatest⟩ => ⟨hpasses, ?_⟩
    have hnil : more.filter (fun e => s.form.store.address? e.ticket.path = some a ∧
        e.ticket.generation = l.generation) = [] := by
      refine List.filter_eq_nil_iff.mpr fun e he => ?_
      simp [(hmore e he).2]
    have hsame : s'.latest? (log ++ more) a l.generation = s.latest? log a l.generation := by
      simp only [latest?, hs, List.filter_append, hnil, List.append_nil]
    rw [hsame, hlatest]

end Leaf

/-- The leaves of a session and the applications made so far agree with its tickets. -/
structure Ledger (s : Session) (log : List Application) : Prop where
  known : ∀ e ∈ log, s.tickets[e.number]? = some e.ticket
  counted : ∀ t ∈ s.tickets, ∀ l, s.form.store.leaf? t.path = some l →
    t.generation ≤ l.generation ∧ (t.generation = l.generation → l.Passes)
  accounts : ∀ a l, s.form.store.leafAt? a = some l → s.Accounts log a l

section Step

variable {s : Session} {log : List Application} {c : Command} {path : ControlPath} {l : Leaf}

theorem applied?_of_renewed (hc : c.renewed? = some path) : s.applied? c = none := by
  cases c with
  | settle => cases hc
  | _ => rfl

theorem applied?_of_error {e : CommandError} (h : s.perform c = .error e) : s.applied? c = none := by
  cases c with
  | settle i outcome => simp [applied?, h]
  | _ => rfl

theorem Ledger.put (h : s.Ledger log) (hl : s.form.store.leaf? path = some l) {s' : Session}
    {l' : Leaf} {new : List Ticket} {more : List Application}
    (hstore : s'.form.store = s.form.store.setLeaf path l')
    (htickets : s'.tickets = s.tickets ++ new)
    (hnew : ∀ t ∈ new, t.path = path ∧ t.generation = l'.generation ∧ l'.Passes)
    (hmore : ∀ e ∈ more, s.tickets[e.number]? = some e.ticket ∧
      s.form.store.address? e.ticket.path = s.form.store.address? path)
    (hgen : l.generation < l'.generation ∨
      l.generation = l'.generation ∧ (l.Passes → l'.Passes))
    (haccounts : ∀ a, s.form.store.address? path = some a → s'.Accounts (log ++ more) a l') :
    s'.Ledger (log ++ more) := by
  obtain ⟨a, ha, -⟩ := Store.exists_address_of_leaf? hl
  have haddress : ∀ q, s'.form.store.address? q = s.form.store.address? q := by
    intro q
    rw [hstore, Store.address?_setLeaf hl]
  constructor
  · intro e he
    have hknown : s.tickets[e.number]? = some e.ticket :=
      (List.mem_append.mp he).elim (h.known e) fun he => (hmore e he).1
    rw [htickets, List.getElem?_append_left (List.getElem?_eq_some_iff.mp hknown).1, hknown]
  · intro t ht m hm
    rw [hstore, Store.leaf?_setLeaf hl] at hm
    rcases List.mem_append.mp (htickets ▸ ht) with ht | ht
    · split_ifs at hm with hsame
      · cases hm
        obtain ⟨hle, hpasses⟩ := h.counted t ht l ((Store.leaf?_congr hsame).trans hl)
        rcases hgen with hlt | ⟨heq, hkeeps⟩
        · exact ⟨by omega, fun he => by omega⟩
        · exact ⟨by omega, fun he => hkeeps (hpasses (he.trans heq.symm))⟩
      · exact h.counted t ht m hm
    · obtain ⟨rfl, hgent, hpasses⟩ := hnew t ht
      rw [if_pos rfl] at hm
      cases hm
      exact ⟨Nat.le_of_eq hgent, fun _ => hpasses⟩
  · intro a' m hm
    rw [hstore, Store.leafAt?_setLeaf ha hl] at hm
    split_ifs at hm with hsame
    · cases hm
      exact hsame ▸ haccounts a ha
    · refine (h.accounts a' m hm).frame s' more haddress ⟨new, htickets.symm⟩ fun e he => ?_
      obtain ⟨hknown, hpath⟩ := hmore e he
      refine ⟨hknown, fun ha' => hsame ?_⟩
      exact Option.some.inj (ha'.symm.trans (hpath.trans ha))

theorem Ledger.renewed (h : s.Ledger log) (hc : c.renewed? = some path)
    (hl : s.form.store.leaf? path = some l) : (s.renewal c path l).session.Ledger log := by
  have hgen : l.generation < (c.begun l).validated.generation := by
    have hbegun := Command.generation_begun hc l
    show l.generation < (c.begun l).generation
    omega
  have hledger : (s.renewal c path l).session.Ledger (log ++ []) := by
    refine h.put hl rfl rfl ?_ nofun (.inl hgen) ?_
    · intro t ht
      obtain ⟨hawaits, hpath, hgent, -, -⟩ := Form.issue?_eq_some (Option.mem_toList.mp ht)
      exact ⟨hpath, hgent, (Leaf.awaits_iff.mp hawaits).1⟩
    · intro a ha
      refine accounts_validated fun hawaits => ?_
      obtain ⟨t, ht⟩ : ∃ t, s.form.issue? path (c.begun l) = some t := by simp [Form.issue?, hawaits]
      obtain ⟨-, hpath, hgent, hvalue, hvalidators⟩ := Form.issue?_eq_some ht
      have haddress : (s.renewal c path l).session.form.store.address? t.path = some a := by
        rw [hpath, ← ha]
        exact Store.address?_setLeaf hl _ path
      refine ⟨s.tickets.length, t, ?_, haddress, hgent, hvalue, hvalidators, ?_⟩
      · simp [renewal, ht]
      · rw [List.append_nil]
        rintro e he hnumber
        have hlt := (List.getElem?_eq_some_iff.mp (h.known e he)).1
        omega
  rwa [List.append_nil] at hledger

theorem Ledger.perform (h : s.Ledger log) {r : Reply} (hr : s.perform c = .ok r) :
    r.session.Ledger (log ++ (s.applied? c).toList) := by
  cases perform_change hr with
  | @renewed _ path l hc hl =>
    rw [applied?_of_renewed hc, Option.toList_none, List.append_nil]
    exact h.renewed hc hl
  | @touched path l hl =>
    refine h.put hl rfl (List.append_nil _).symm nofun nofun (.inr ⟨rfl, id⟩) fun a ha => ?_
    have hat : s.form.store.leafAt? a = some l := (Store.leaf?_eq_leafAt? ha).symm.trans hl
    exact (h.accounts a l hat).touched.frame _ [] (Store.address?_setLeaf hl _) List.prefix_rfl nofun
  | @settled i t l ht hl hcurrent outcome =>
    have happlied : s.applied? (.settle i outcome) = some ⟨i, t, outcome⟩ := by
      simp [applied?, hr, ht]
    have hpasses : l.Passes := (h.counted t (List.mem_of_getElem? ht) l hl).2 hcurrent.symm
    rw [happlied, Option.toList_some]
    refine h.put hl rfl (List.append_nil _).symm nofun ?_ (.inr ⟨rfl, id⟩) fun a ha => ?_
    · exact List.forall_mem_singleton.mpr ⟨ht, rfl⟩
    · refine accounts_settled hpasses ?_ hcurrent
      rw [← ha]
      exact Store.address?_setLeaf hl _ t.path
  | @stale i t l ht hl hbehind outcome =>
    have happlied : s.applied? (.settle i outcome) = none := by
      simp [applied?, hr]
    rw [happlied, Option.toList_none, List.append_nil]
    exact h
  | vain => exact (List.append_nil log).symm ▸ h

theorem Ledger.after (h : s.Ledger log) (c : Command) :
    (s.after c).Ledger (log ++ (s.applied? c).toList) := by
  cases hr : s.perform c with
  | ok r => exact after_of_perform hr ▸ h.perform hr
  | error e =>
    rw [applied?_of_error hr, Option.toList_none, List.append_nil, after_of_error hr]
    exact h

end Step

theorem Ledger.run {s : Session} {log : List Application} (h : s.Ledger log)
    (commands : List Command) : (s.run commands).Ledger (log ++ s.applications commands) := by
  induction commands generalizing s log with
  | nil => exact (List.append_nil log).symm ▸ h
  | cons c commands ih =>
    have hrest := ih (h.after c)
    rwa [List.append_assoc] at hrest

theorem ledger_start {schema : Json} {messages : Messages} {f : Form}
    (h : Form.build schema messages = .ok f) : (start f).Ledger [] := by
  refine ⟨nofun, nofun, fun a l hl => ?_⟩
  have hchecked : l.checked = l :=
    (Form.arranged_build h fun _ _ => Outline.checked_of_leafOf?).leafAt? hl
  exact hchecked ▸ accounts_checked (start f) [] a l

/-- In every state that commands lead to from a built form, every leaf has a status that is accounted for. -/
theorem accounts_of_build {schema : Json} {messages : Messages} {f : Form}
    (h : Form.build schema messages = .ok f) (commands : List Command) {a : Address} {l : Leaf}
    (hl : ((start f).run commands).form.store.leafAt? a = some l) :
    ((start f).run commands).Accounts ((start f).applications commands) a l :=
  ((ledger_start h).run commands).accounts a l hl

end

def askedName : Json :=
  let required := Json.object [("type", .string "required")]
  let taken := Json.object [("type", .string "external"), ("url", .string "https://names.test"),
    ("name", .string "taken")]
  let rules := Json.object [("sync", .array [required]), ("async", .array [taken])]
  .object [("name", .object [("type", .string "input"), ("validations", rules)])]

def askedForm : Form where
  store :=
    let l := Leaf.fresh [.check .required] [.external "taken" "https://names.test"]
    ⟨.group [("name", .leaf l.checked)]⟩
  messages := [("taken", .fixed "Validation 'taken' failed")]
  sources := []

/-- The outcome for the first name comes too late, so that the second still waits for its own. -/
theorem pending_after_late_outcome :
    let path : ControlPath := ⟨"name"⟩
    let s := (start askedForm).run
      [.setValue path (.string "ann"), .setValue path (.string "bob"), .settle 0 none]
    let log := (start askedForm).applications
      [.setValue path (.string "ann"), .setValue path (.string "bob"), .settle 0 none]
    Form.build askedName [] = .ok askedForm ∧ ∃ l, s.form.store.leafAt? [.key "name"] = some l ∧
      l.status = .pending ∧ s.Accounts log [.key "name"] l := by
  intro path s log
  have hbuild : Form.build askedName [] = .ok askedForm := rfl
  have hleaf : (s.form.store.leafAt? [.key "name"]).map Leaf.status = some .pending := by decide
  obtain ⟨l, hl, hstatus⟩ := Option.map_eq_some_iff.mp hleaf
  exact ⟨hbuild, l, hl, hstatus, accounts_of_build hbuild _ hl⟩

end Session

end Formwork
