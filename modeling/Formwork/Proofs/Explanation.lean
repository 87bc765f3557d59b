import Formwork.Dialect.Common
import Formwork.Proofs.LeafSteps

/-! All failures of a leaf have messages, and the message of the leaf is that of the failure whose key was
registered first, as it was registered last. -/

namespace Formwork

open Node (Address)

def Explained (entries : Keyed Message) (outcome : Option Failures) : Prop :=
  ∀ failures, outcome = some failures →
    failures ≠ [] ∧ ∀ key ∈ Keyed.keys failures, Registered entries key

section

variable {entries : Keyed Message}

theorem registered_insert {failures : Failures} {key : String} (hkey : Registered entries key)
    (h : ∀ k ∈ Keyed.keys failures, Registered entries k) (detail : Json) :
    ∀ k ∈ Keyed.keys (Keyed.insert key detail failures), Registered entries k := by
  intro k hk
  obtain rfl | hk := Keyed.mem_keys_insert.mp hk
  · exact hkey
  · exact h k hk

variable [Dialect]

theorem LocalValidator.explained_runAll {validators : List LocalValidator}
    (h : ∀ v ∈ validators, Registered entries v.key) (value : Json) :
    Explained entries (runAll validators value) := by
  have hkeys : ∀ k ∈ Keyed.keys (validators.foldl (addFailure value) []), Registered entries k := by
    refine List.foldlRecOn validators (addFailure value)
      (motive := fun failures => ∀ k ∈ Keyed.keys failures, Registered entries k) nofun ?_
    intro failures ih v hv
    unfold addFailure
    split
    · exact registered_insert (h v hv) ih _
    · exact ih
  intro failures hrun
  unfold runAll at hrun
  split at hrun
  · cases hrun
  · next hne =>
    cases hrun
    exact ⟨hne, hkeys⟩

theorem Inquiry.explained_outcome {t : Ticket} (h : ∀ v ∈ t.validators, Registered entries v.name)
    (policy : RetryPolicy) (transport : Transport) :
    Explained entries (run policy transport t).outcome := by
  have hkeys : ∀ k ∈ Keyed.keys (run policy transport t).failures, Registered entries k := by
    refine List.foldlRecOn t.validators (ask policy transport t)
      (motive := fun i => ∀ k ∈ Keyed.keys i.failures, Registered entries k) ?_ ?_
    · simp [Keyed.keys]
    · intro i ih v hv
      simp only [ask]
      split
      · exact registered_insert (h v hv) ih _
      · exact ih
  intro failures hrun
  unfold outcome at hrun
  split at hrun
  · cases hrun
  · next hne =>
    cases hrun
    exact ⟨by simpa using hne, hkeys⟩

structure Leaf.Explained (entries : Keyed Message) (l : Leaf) : Prop where
  registered : l.Registered entries
  explained : Formwork.Explained entries l.failures
  invalid : l.status = .invalid ↔ l.failures.isSome = true

variable {l : Leaf}

omit [Dialect] in
theorem Leaf.Explained.settled (h : l.Registered entries) {outcome : Option Failures}
    (ho : Formwork.Explained entries outcome) : (l.settled outcome).Explained entries :=
  ⟨⟨h.locals, h.remotes⟩, ho, statusOf_eq_invalid⟩

theorem Leaf.Explained.validated (h : l.Registered entries) : l.validated.Explained entries := by
  have hchecked : l.checked.Explained entries :=
    .settled h (LocalValidator.explained_runAll h.locals l.value)
  refine ⟨⟨h.locals, h.remotes⟩, hchecked.explained, ?_⟩
  cases ha : l.awaits with
  | false =>
    have hstatus : l.validated.status = l.checked.status := by rw [Leaf.validated, ha]; rfl
    rw [hstatus]
    exact hchecked.invalid
  | true =>
    have hstatus : l.validated.status = .pending := by rw [Leaf.validated, ha]; rfl
    have hnone : l.validated.failures = none := Leaf.passes_iff.mp (Leaf.awaits_iff.mp ha).1
    simp [hstatus, hnone]

theorem Operation.Makes.explained {o : Operation} {l' : Leaf} (h : o.Makes l l')
    (hl : l.Explained entries)
    (ho : ∀ t outcome, o = .settle t outcome → Formwork.Explained entries outcome) :
    l'.Explained entries := by
  obtain ⟨⟨hlocals, hremotes⟩, hexplained, hinvalid⟩ := hl
  cases h with
  | touched => exact ⟨⟨hlocals, hremotes⟩, hexplained, hinvalid⟩
  | renewed value dirty => exact .validated ⟨hlocals, hremotes⟩
  | settled => exact .settled ⟨hlocals, hremotes⟩ (ho _ _ rfl)
  | answered asked =>
    have hwaiting : l.waiting.Registered entries := ⟨hlocals, hremotes⟩
    exact .settled hwaiting (Inquiry.explained_outcome (asked ▸ hremotes) _ _)

end

namespace Form

variable {f : Form} {entries : Keyed Message} {os : List Operation}

section

variable [Dialect]

/-- Tickets are only settled after they have been handed out, and with what the remote validators of the
ticket have found. -/
def Answered (f : Form) (os : List Operation) : Prop :=
  ∀ earlier t outcome later, os = earlier ++ .settle t outcome :: later →
    (∃ e ∈ f.record earlier, e.issued? = some t) ∧
      ∃ policy transport, outcome = (Inquiry.run policy transport t).outcome

theorem proceed_concat (f : Form) (os : List Operation) (o : Operation) :
    f.proceed (os ++ [o]) = (Entry.mk (f.proceed os) o).after := List.foldl_concat ..

theorem record_concat (f : Form) (os : List Operation) (o : Operation) :
    f.record (os ++ [o]) = f.record os ++ [⟨f.proceed os, o⟩] := by
  induction os generalizing f with
  | nil => rfl
  | cons o' os ih => exact congrArg (Entry.mk f o' :: ·) (ih _)

theorem messages_proceed (f : Form) (os : List Operation) :
    (f.proceed os).messages = f.messages.putAll (os.flatMap Operation.registrations) := by
  induction os generalizing f with
  | nil => rfl
  | cons o os ih =>
    have hstep := (Entry.mk f o).steps.messages
    rw [List.flatMap_cons, Keyed.putAll_append, ← hstep]
    exact ih _

def Explained (entries : Keyed Message) (f : Form) : Prop :=
  ∀ a l, f.store.leafAt? a = some l → l.Explained entries

omit [Dialect] in
theorem Explained.leaf? (h : f.Explained entries) {p : ControlPath} {l : Leaf}
    (hl : f.store.leaf? p = some l) : l.Explained entries := by
  obtain ⟨a, -, hat⟩ := Store.exists_address_of_leaf? hl
  exact h a l hat

theorem Explained.after (h : f.Explained entries) {o : Operation}
    (ho : ∀ t outcome, o = .settle t outcome → Formwork.Explained entries outcome) :
    (Entry.mk f o).after.Explained entries := by
  intro a l hl
  obtain hstore | ⟨p, m, m', hm, hmakes, hstore⟩ := (Entry.mk f o).steps.leaves
  · rw [hstore] at hl
    exact h a l hl
  · obtain ⟨b, hb, -⟩ := Store.exists_address_of_leaf? hm
    rw [hstore, Store.leafAt?_setLeaf hb hm] at hl
    by_cases hab : a = b
    · rw [if_pos hab] at hl
      cases hl
      exact hmakes.explained (h.leaf? hm) ho
    · rw [if_neg hab] at hl
      exact h a l hl

theorem Explained.issued (h : f.Explained entries) {o : Operation} {t : Ticket}
    (ht : (Entry.mk f o).issued? = some t) : ∀ v ∈ t.validators, Registered entries v.name := by
  obtain ⟨l, hl, hvalidators⟩ := (Entry.mk f o).steps.issued t ht
  rw [hvalidators]
  exact (h.leaf? hl).registered.remotes

theorem answered_concat {o : Operation} : f.Answered (os ++ [o]) ↔ f.Answered os ∧
    ∀ t outcome, o = .settle t outcome → (∃ e ∈ f.record os, e.issued? = some t) ∧
      ∃ policy transport, outcome = (Inquiry.run policy transport t).outcome := by
  constructor
  · intro h
    constructor
    · intro earlier t outcome later hos
      refine h earlier t outcome (later ++ [o]) ?_
      rw [hos, List.append_assoc, List.cons_append]
    · rintro t outcome rfl
      exact h os t outcome [] rfl
  · rintro ⟨h, hlast⟩ earlier t outcome later hos
    obtain rfl | ⟨rest, o', rfl⟩ := List.eq_nil_or_concat later
    · obtain ⟨rfl, ho⟩ := List.append_inj' hos rfl
      exact hlast t outcome (List.singleton_inj.mp ho)
    · rw [List.concat_eq_append, ← List.cons_append, ← List.append_assoc] at hos
      exact h earlier t outcome rest (List.append_inj' hos rfl).1

theorem Explained.proceed (h : f.Explained entries) (ha : f.Answered os) :
    (f.proceed os).Explained entries ∧
      ∀ e ∈ f.record os, ∀ t, e.issued? = some t → ∀ v ∈ t.validators, Registered entries v.name := by
  -- A ticket may be answered long after it was handed out, so what all earlier tickets ask is part of
  -- the invariant.
  induction os using List.reverseRecOn with
  | nil => exact ⟨h, nofun⟩
  | append_singleton os o ih =>
    obtain ⟨hbefore, hlast⟩ := answered_concat.mp ha
    obtain ⟨hexplained, hissued⟩ := ih hbefore
    have houtcome : ∀ t outcome, o = .settle t outcome → Formwork.Explained entries outcome := by
      intro t outcome ho
      obtain ⟨⟨e, he, ht⟩, policy, transport, rfl⟩ := hlast t outcome ho
      exact Inquiry.explained_outcome (hissued e he t ht) policy transport
    rw [proceed_concat, record_concat]
    refine ⟨hexplained.after houtcome, List.forall_mem_append.mpr ⟨hissued, ?_⟩⟩
    exact List.forall_mem_singleton.mpr fun t ht => hexplained.issued ht

theorem explained_build {members : List (String × Json)} {messages : Messages}
    (h : build (.object members) messages = .ok f) :
    f.Explained (Outline.ofSchema members).registrations := by
  intro a l hl
  have hregistered := (registered_build h).leafAt? hl
  have hchecked : l.checked = l := (arranged_build h fun _ _ => Outline.checked_of_leafOf?).leafAt? hl
  rw [← hchecked]
  exact .settled hregistered (LocalValidator.explained_runAll hregistered.locals l.value)

/-- All messages in the order in which they have been registered: those that are always there, those of
the rules as the schema has them, and those that came later. -/
def registrations (schema : Json) (os : List Operation) : Keyed Message :=
  Messages.builtins ++ (Outline.ofSchema (schema.asObject?.getD [])).registrations ++
    os.flatMap Operation.registrations

theorem messages_of_build {schema : Json} (h : build schema Messages.builtins = .ok f)
    (os : List Operation) : (f.proceed os).messages = Keyed.putAll [] (registrations schema os) := by
  obtain ⟨members, rfl⟩ := exists_object_of_build h
  have hbuiltins : Keyed.putAll [] Messages.builtins = Messages.builtins := by decide
  have hbuilt := (exists_additions h).1
  rw [messages_proceed, hbuilt, registrations, Keyed.putAll_append, Keyed.putAll_append, hbuiltins]
  rfl

omit [Dialect] in
theorem errorMessage_eq {path : ControlPath} {l : Leaf} (hl : f.store.leaf? path = some l) :
    f.errorMessage path = .ok (f.messages.resolve l.failures) := by
  rw [errorMessage, leaf_eq_ok.mpr hl]
  rfl

/-- In every run from a built form in which services alone answer for tickets, each failure of a leaf has
a message, and the leaf is invalid with the foremost of them, or there is none. -/
theorem errorMessage_of_build {schema : Json} (h : build schema Messages.builtins = .ok f)
    (ha : f.Answered os) {a : Address} {l : Leaf} (hl : (f.proceed os).store.leafAt? a = some l) :
    (∀ key ∈ l.failureKeys, key ∈ (f.proceed os).messages.keys) ∧ l.failures ≠ some [] ∧
    (l.status = .invalid → ∃ failures key message detail, l.failures = some failures ∧
      Messages.Foremost (registrations schema os) failures key message detail ∧
      ∀ path, (f.proceed os).store.leaf? path = some l →
        (f.proceed os).errorMessage path = .ok (message.text detail)) ∧
    (l.status ≠ .invalid → ∀ path, (f.proceed os).store.leaf? path = some l →
      (f.proceed os).errorMessage path = .ok "") := by
  have hmessages := messages_of_build h os
  obtain ⟨members, rfl⟩ := exists_object_of_build h
  have hleaf := ((explained_build h).proceed ha).1 a l hl
  have hlog : ∀ key, Registered (Outline.ofSchema members).registrations key →
      key ∈ (registrations (.object members) os).keys := by
    rintro key (hkey | hkey)
    · exact List.map_subset _ (fun e he => by simp [registrations, he]) hkey
    · exact List.map_subset _ (fun e he => by simp [registrations, Json.asObject?, he]) hkey
  cases hfailures : l.failures with
  | none =>
    have hvalid : l.status ≠ .invalid := by
      intro hinvalid
      have hsome := hleaf.invalid.mp hinvalid
      simp [hfailures] at hsome
    refine ⟨by simp [Leaf.failureKeys, hfailures], by simp, fun hi => absurd hi hvalid, fun _ path hp => ?_⟩
    rw [errorMessage_eq hp, hfailures]
    rfl
  | some failures =>
    obtain ⟨hne, hkeys⟩ := hleaf.explained failures hfailures
    have hinvalid : l.status = .invalid := hleaf.invalid.mpr (by simp [hfailures])
    obtain ⟨e, he⟩ := List.exists_mem_of_ne_nil failures hne
    have hfirst : e.1 ∈ Keyed.keys failures := List.mem_map_of_mem he
    obtain ⟨key, message, detail, hforemost⟩ :=
      Messages.exists_foremost ⟨e.1, hfirst, hlog e.1 (hkeys e.1 hfirst)⟩
    refine ⟨fun k hk => ?_, by simpa using hne, fun _ => ?_, fun hv => absurd hinvalid hv⟩
    · have hk' : k ∈ Keyed.keys failures := by simpa [Leaf.failureKeys, hfailures] using hk
      rw [hmessages]
      exact Keyed.mem_keys_putAll.mpr (.inr (hlog k (hkeys k hk')))
    · refine ⟨failures, key, message, detail, rfl, hforemost, fun path hp => ?_⟩
      rw [errorMessage_eq hp, hfailures, hmessages, Messages.resolve_putAll hforemost]

end

def nameForm : Form :=
  { Session.askedForm with messages := Messages.builtins ++ Session.askedForm.messages }

def nameTicket : Ticket where
  path := ⟨"name"⟩
  generation := 1
  value := .string "ann"
  validators := [.external "taken" "https://names.test"]
  snapshot := (nameForm.proceed [.setValue ⟨"name"⟩ (.string "ann")]).store.snapshot.toJson

theorem errorMessage_nameForm :
    let os : List Operation := [.register "taken" "Choose another name",
      .setValue ⟨"name"⟩ (.string "ann"),
      .settle nameTicket (Inquiry.run .noRetry (Transport.scripted []) nameTicket).outcome]
    build Session.askedName Messages.builtins = .ok nameForm ∧ nameForm.Answered os ∧
      (nameForm.proceed os).errorMessage ⟨"name"⟩ = .ok "Choose another name" ∧
      ∃ l, (nameForm.proceed os).store.leaf? ⟨"name"⟩ = some l ∧ l.status = .invalid ∧
        ∃ failures key message detail, l.failures = some failures ∧
          Messages.Foremost (registrations Session.askedName os) failures key message detail ∧
          (nameForm.proceed os).errorMessage ⟨"name"⟩ = .ok (message.text detail) := by
  intro os
  have hbuild : build Session.askedName Messages.builtins = .ok nameForm := rfl
  have hissued : (Entry.mk (nameForm.register "taken" "Choose another name")
      (.setValue ⟨"name"⟩ (.string "ann"))).issued? = some nameTicket := rfl
  have hanswered : nameForm.Answered os := by
    have hnil : nameForm.Answered [] := by
      intro earlier t outcome later h
      simp at h
    have hset : nameForm.Answered ([] ++ [.register "taken" "Choose another name"] ++
        [.setValue ⟨"name"⟩ (.string "ann")]) :=
      answered_concat.mpr ⟨answered_concat.mpr ⟨hnil, fun _ _ ho => nomatch ho⟩, fun _ _ ho => nomatch ho⟩
    refine answered_concat.mpr ⟨hset, ?_⟩
    rintro t outcome ⟨⟩
    exact ⟨⟨_, List.mem_cons_of_mem _ List.mem_cons_self, hissued⟩, _, _, rfl⟩
  have hleaf : ((nameForm.proceed os).store.leaf? ⟨"name"⟩).map Leaf.status = some .invalid := by decide
  obtain ⟨l, hl, hstatus⟩ := Option.map_eq_some_iff.mp hleaf
  obtain ⟨a, -, hat⟩ := Store.exists_address_of_leaf? hl
  obtain ⟨-, -, hinvalid, -⟩ := errorMessage_of_build hbuild hanswered hat
  obtain ⟨failures, key, message, detail, hfailures, hforemost, hmessage⟩ := hinvalid hstatus
  exact ⟨hbuild, hanswered, rfl, l, hl, hstatus, failures, key, message, detail, hfailures, hforemost,
    hmessage _ hl⟩

end Form

end Formwork
