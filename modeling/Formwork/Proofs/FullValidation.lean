import Formwork.Dialect.Common
import Formwork.Proofs.Effect
import Formwork.Proofs.Replacement

/-! A validation with all its requests: it always comes to an end that the form takes over, and the leaf is
invalid exactly if a local validator fails or, where all of these pass, a remote one. -/

namespace Formwork

structure RetryPolicy.EndsAt (p : RetryPolicy) (attempt : Nat → Except TransportError Json)
    (last : Nat) : Prop where
  allowed : last ≤ p.maxRetries
  repeated : ∀ n < last, ∃ e, attempt n = .error e ∧ e.isRetryable = true
  ending : ∀ e, attempt last = .error e → e.isRetryable = true → last = p.maxRetries

theorem RetryPolicy.EndsAt.unique {p : RetryPolicy} {attempt : Nat → Except TransportError Json}
    {m n : Nat} (h : p.EndsAt attempt m) (h' : p.EndsAt attempt n) : m = n := by
  have hle : ∀ {m n}, p.EndsAt attempt m → p.EndsAt attempt n → n ≤ m := by
    intro m n h h'
    by_contra hlt
    obtain ⟨e, he, hretry⟩ := h'.repeated m (by omega)
    have hlast := h.ending e he hretry
    have hallowed := h'.allowed
    omega
  exact Nat.le_antisymm (hle h' h) (hle h h')

namespace Attempts

theorem resume_last (p : RetryPolicy) (url : String) (attempt : Nat → Except TransportError Json)
    {left retry : Nat} (hleft : retry + left = p.maxRetries)
    (hbefore : ∀ n < retry, ∃ e, attempt n = .error e ∧ e.isRetryable = true) :
    ∃ last, p.EndsAt attempt last ∧ (resume p url attempt left retry).result = attempt last ∧
      (resume p url attempt left retry).count = last + 1 := by
  induction left generalizing retry with
  | zero =>
    refine ⟨retry, ⟨by omega, hbefore, fun _ _ _ => by omega⟩, ?_⟩
    unfold resume
    cases ha : attempt retry <;> simp [exhausted]
  | succ left ih =>
    unfold resume
    cases ha : attempt retry with
    | ok body =>
      refine ⟨retry, ⟨by omega, hbefore, fun e he => ?_⟩, ha.symm, rfl⟩
      cases ha.symm.trans he
    | error e =>
      by_cases hretry : e.isRetryable = true
      · have hbefore' : ∀ n < retry + 1, ∃ e, attempt n = .error e ∧ e.isRetryable = true := by
          intro n hn
          rcases Nat.lt_succ_iff_lt_or_eq.mp hn with hn | rfl
          · exact hbefore n hn
          · exact ⟨e, ha, hretry⟩
        simpa only [hretry, if_true] using ih (by omega) hbefore'
      · refine ⟨retry, ⟨by omega, hbefore, fun e' he' hretry' => ?_⟩, ?_⟩
        · cases ha.symm.trans he'
          exact absurd hretry' hretry
        · simp [hretry, exhausted, ha]

theorem run_last (p : RetryPolicy) (url : String) (attempt : Nat → Except TransportError Json) :
    ∃ last, p.EndsAt attempt last ∧ (run p url attempt).result = attempt last ∧
      (run p url attempt).count = last + 1 :=
  resume_last p url attempt (Nat.zero_add _) nofun

end Attempts

namespace RemoteValidator

/-- What a validator is answered at each attempt, when `sent` requests have been made before it. -/
def answers (v : RemoteValidator) (transport : Transport) (value snapshot : Json) (sent n : Nat) :
    Except TransportError Json :=
  transport (sent + n) (v.request value snapshot)

variable [Dialect]

def Fails (p : RetryPolicy) (transport : Transport) (value snapshot : Json) (sent : Nat)
    (v : RemoteValidator) : Prop :=
  ∃ last, p.EndsAt (v.answers transport value snapshot sent) last ∧
    ∀ body, v.answers transport value snapshot sent last = .ok body → v.accepts value body = false

/-- One of the validators fails when they are asked one after another. Each takes up the answers where the
one before it has left off. -/
inductive SomeFails (p : RetryPolicy) (transport : Transport) (value snapshot : Json) :
    Nat → List RemoteValidator → Prop
  | here {sent : Nat} {v : RemoteValidator} {vs : List RemoteValidator}
      (fails : v.Fails p transport value snapshot sent) :
      SomeFails p transport value snapshot sent (v :: vs)
  | later {sent last : Nat} {v : RemoteValidator} {vs : List RemoteValidator}
      (ends : p.EndsAt (v.answers transport value snapshot sent) last)
      (fails : SomeFails p transport value snapshot (sent + (last + 1)) vs) :
      SomeFails p transport value snapshot sent (v :: vs)

section

variable {p : RetryPolicy} {transport : Transport} {value snapshot : Json} {sent last : Nat}
  {v : RemoteValidator} {vs : List RemoteValidator}

omit [Dialect] in
theorem send_last (p : RetryPolicy) (transport : Transport) (value snapshot : Json) (sent : Nat)
    (v : RemoteValidator) :
    ∃ last, p.EndsAt (v.answers transport value snapshot sent) last ∧
      (Attempts.send p transport sent (v.request value snapshot)).result =
        v.answers transport value snapshot sent last ∧
      (Attempts.send p transport sent (v.request value snapshot)).count = last + 1 :=
  Attempts.run_last p (v.request value snapshot).url (v.answers transport value snapshot sent)

theorem failureOf_ne_none {result : Except TransportError Json} :
    v.failureOf value result ≠ none ↔ ∀ body, result = .ok body → v.accepts value body = false := by
  cases result with
  | error e => simp [failureOf]
  | ok body => cases h : v.accepts value body <;> simp [failureOf, h]

theorem fails_iff (h : p.EndsAt (v.answers transport value snapshot sent) last) :
    v.Fails p transport value snapshot sent ↔
      v.failureOf value (v.answers transport value snapshot sent last) ≠ none := by
  rw [failureOf_ne_none]
  constructor
  · rintro ⟨last', h', hfails⟩
    cases h.unique h'
    exact hfails
  · exact fun hfails => ⟨last, h, hfails⟩

theorem someFails_cons (h : p.EndsAt (v.answers transport value snapshot sent) last) :
    SomeFails p transport value snapshot sent (v :: vs) ↔
      v.Fails p transport value snapshot sent ∨
        SomeFails p transport value snapshot (sent + (last + 1)) vs := by
  constructor
  · intro hsome
    cases hsome with
    | here fails => exact .inl fails
    | later ends fails =>
      cases h.unique ends
      exact .inr fails
  · rintro (fails | fails)
    · exact .here fails
    · exact .later h fails

end

end RemoteValidator

namespace Inquiry

variable {p : RetryPolicy} {transport : Transport} {t : Ticket}

theorem ask_failures_ne_nil [Dialect] (i : Inquiry) (v : RemoteValidator) :
    ∃ last, p.EndsAt (v.answers transport t.value t.snapshot i.requests.length) last ∧
      (ask p transport t i v).requests.length = i.requests.length + (last + 1) ∧
      ((ask p transport t i v).failures ≠ [] ↔
        i.failures ≠ [] ∨ v.Fails p transport t.value t.snapshot i.requests.length) := by
  obtain ⟨last, hends, hresult, hcount⟩ := v.send_last p transport t.value t.snapshot i.requests.length
  refine ⟨last, hends, ?_, ?_⟩
  · rw [ask, List.length_append, List.length_replicate, hcount]
  · rw [RemoteValidator.fails_iff hends, ← hresult]
    cases hfailure : v.failureOf t.value
      (Attempts.send p transport i.requests.length (v.request t.value t.snapshot)).result with
    | none => simp [ask, hfailure]
    | some detail => simp [ask, hfailure, Keyed.insert_ne_nil]

theorem foldl_ask_failures_ne_nil [Dialect] (vs : List RemoteValidator) (i : Inquiry) :
    (vs.foldl (ask p transport t) i).failures ≠ [] ↔ i.failures ≠ [] ∨
      RemoteValidator.SomeFails p transport t.value t.snapshot i.requests.length vs := by
  induction vs generalizing i with
  | nil =>
    refine ⟨.inl, ?_⟩
    rintro (h | h)
    · exact h
    · cases h
  | cons v vs ih =>
    obtain ⟨last, hends, hlength, hfailures⟩ := ask_failures_ne_nil (p := p) i v
    rw [List.foldl_cons, ih, hfailures, hlength, RemoteValidator.someFails_cons hends, or_assoc]

theorem outcome_run_isSome [Dialect] : (run p transport t).outcome.isSome = true ↔
    RemoteValidator.SomeFails p transport t.value t.snapshot 0 t.validators := by
  have houtcome : (run p transport t).outcome.isSome = true ↔ (run p transport t).failures ≠ [] := by
    cases h : (run p transport t).failures <;> simp [outcome, h]
  rw [houtcome, run, foldl_ask_failures_ne_nil]
  simp

end Inquiry

def Leaf.waiting (l : Leaf) : Leaf :=
  { l with status := .pending, failures := none, generation := l.generation + 1 }

namespace Form

def inquiryTicket (f : Form) (path : ControlPath) (l : Leaf) : Ticket where
  path := path
  generation := l.generation + 1
  value := l.value
  validators := l.remotes
  snapshot := (f.setLeaf path l.waiting).store.snapshot.toJson

section

variable [Dialect]

/-- What a full validation answers and what it does to the form, in which `l'` has taken the place of `l`. -/
structure Concluded (f : Form) (path : ControlPath) (p : RetryPolicy) (transport : Transport)
    (l l' : Leaf) (r : Reply (Settlement × List Request)) : Prop where
  applied : r.result.1 = .applied l'.status
  settled : l'.status ≠ .pending
  invalid : l'.status = .invalid ↔ (∃ v ∈ l.locals, v.failure? l.value ≠ none) ∨
    (∀ v ∈ l.locals, v.failure? l.value = none) ∧
      RemoteValidator.SomeFails p transport l.value (f.inquiryTicket path l).snapshot 0 l.remotes
  unasked : (∃ v ∈ l.locals, v.failure? l.value ≠ none) ∨ l.remotes = [] → r.result.2 = []
  leaf : r.form.store.leaf? path = some l'
  kept : l' = { l with status := l'.status, failures := l'.failures, generation := l.generation + 1 }
  others : ∀ a, f.store.address? path ≠ some a →
    r.form.store.root.bareAt? a = f.store.root.bareAt? a

section

variable {f : Form} {path : ControlPath} {l : Leaf}

theorem validateFully_of_settled (hl : f.store.leaf? path = some l) (ha : l.awaits = false)
    (p : RetryPolicy) (transport : Transport) :
    let l' := { l with generation := l.generation + 1 }.checked
    f.validateFully path p transport =
      .ok ⟨f.setLeaf path l', [settledEvent path l'], .applied l'.status, []⟩ := by
  intro l'
  have ha' : { l with generation := l.generation + 1 }.awaits = false := ha
  have hvalidated : { l with generation := l.generation + 1 }.validated = l' := by
    rw [Leaf.validated, ha']
    rfl
  have hreply : f.validate path = .ok ⟨f.setLeaf path l', [settledEvent path l'], none⟩ := by
    rw [validate_eq hl, revalidate_eq, hvalidated, issue?, ha']
    rfl
  have hl' : (f.setLeaf path l').leaf path = .ok l' := leaf_eq_ok.mpr (Store.leaf?_setLeaf_self hl l')
  simp only [validateFully, hreply, hl', bind, Except.bind]

theorem validateFully_of_awaits (hl : f.store.leaf? path = some l) (ha : l.awaits = true)
    (p : RetryPolicy) (transport : Transport) :
    let i := Inquiry.run p transport (f.inquiryTicket path l)
    let l' := l.waiting.settled i.outcome
    f.validateFully path p transport =
      .ok ⟨(f.setLeaf path l.waiting).setLeaf path l', i.events ++ [settledEvent path l'],
        .applied l'.status, i.requests⟩ := by
  intro i l'
  have ha' : { l with generation := l.generation + 1 }.awaits = true := ha
  have hpasses : LocalValidator.runAll l.locals l.value = none :=
    Leaf.passes_iff.mp (Leaf.awaits_iff.mp ha).1
  have hvalidated : { l with generation := l.generation + 1 }.validated = l.waiting := by
    rw [Leaf.validated, ha', Leaf.checked, Leaf.settled, hpasses]
    rfl
  have hreply : f.validate path =
      .ok ⟨f.setLeaf path l.waiting, [], some (f.inquiryTicket path l)⟩ := by
    rw [validate_eq hl, revalidate_eq, hvalidated, issue?, ha', hvalidated]
    rfl
  have hwaiting : (f.setLeaf path l.waiting).store.leaf? path = some l.waiting :=
    Store.leaf?_setLeaf_self hl _
  have hsettle := settle_eq (t := f.inquiryTicket path l) hwaiting i.outcome
  have hcurrent : l.waiting.generation = (f.inquiryTicket path l).generation := rfl
  rw [if_pos hcurrent] at hsettle
  simp only [validateFully, hreply, bind, Except.bind]
  rw [show Inquiry.run p transport (f.inquiryTicket path l) = i from rfl, hsettle]
  rfl

theorem validateFully_eq_error (h : f.store.leaf? path = none) (p : RetryPolicy) (transport : Transport) :
    f.validateFully path p transport = .error (.notAControl path) := by
  have herror : f.validate path = .error (.notAControl path) := leaf_bind_eq_error h _
  rw [validateFully, herror]
  rfl

/-- A full validation of any leaf comes to an end, with any answers, and nothing it finds out is stale. -/
theorem validateFully_concluded (hl : f.store.leaf? path = some l) (p : RetryPolicy)
    (transport : Transport) :
    ∃ r l', f.validateFully path p transport = .ok r ∧ Concluded f path p transport l l' r := by
  cases hawaits : l.awaits with
  | false =>
    have hrest : l.Passes → l.remotes = [] := by
      intro hpasses
      by_contra hremotes
      cases hawaits.symm.trans (Leaf.awaits_iff.mpr ⟨hpasses, hremotes⟩)
    refine ⟨_, _, validateFully_of_settled hl hawaits p transport, rfl, Leaf.statusOf_ne_pending _, ?_,
      fun _ => rfl, Store.leaf?_setLeaf_self hl _, rfl, fun a ha => Store.bareAt?_setLeaf_of_ne hl ha _⟩
    · rw [← Leaf.not_passes_iff]
      refine Leaf.statusOf_eq_invalid.trans ⟨fun hsome => .inl fun hpasses => ?_, ?_⟩
      · have hnone : LocalValidator.runAll l.locals l.value = none := Leaf.passes_iff.mp hpasses
        cases hnone ▸ hsome
      · rintro (hnot | ⟨hpasses, hfails⟩)
        · exact Option.isSome_iff_ne_none.mpr fun hnone => hnot (Leaf.passes_iff.mpr hnone)
        · cases hrest hpasses ▸ hfails
  | true =>
    obtain ⟨hpasses, hremotes⟩ := Leaf.awaits_iff.mp hawaits
    have hlocals : ¬ ∃ v ∈ l.locals, v.failure? l.value ≠ none :=
      fun h => Leaf.not_passes_iff.mpr h hpasses
    have hwaiting : (f.store.setLeaf path l.waiting).leaf? path = some l.waiting :=
      Store.leaf?_setLeaf_self hl _
    refine ⟨_, _, validateFully_of_awaits hl hawaits p transport, rfl, Leaf.statusOf_ne_pending _, ?_, ?_,
      Store.leaf?_setLeaf_self hwaiting _, rfl, fun a ha => ?_⟩
    · refine Leaf.statusOf_eq_invalid.trans (Inquiry.outcome_run_isSome.trans ⟨?_, ?_⟩)
      · exact fun hfails => .inr ⟨hpasses, hfails⟩
      · exact fun h => (h.resolve_left hlocals).2
    · exact fun h => absurd (h.resolve_left hlocals) hremotes
    · have hkept : (f.store.setLeaf path l.waiting).address? path ≠ some a := by
        rwa [Store.address?_setLeaf hl]
      exact (Store.bareAt?_setLeaf_of_ne hwaiting hkept _).trans (Store.bareAt?_setLeaf_of_ne hl ha _)

end

end

theorem invalid_after_second_answer :
    let l : Leaf := { Leaf.fresh [.check .required] [.external "taken" "https://names.test"] with
      value := .string "ann" }
    let f : Form := ⟨⟨.group [("name", .leaf l)]⟩, [], []⟩
    let p : RetryPolicy := ⟨1000, 1, none⟩
    let transport := Transport.scripted
      [.requestFailed "no route", .body (.object [("validationResult", .bool false)])]
    ∃ r l', f.validateFully ⟨"name"⟩ p transport = .ok r ∧ Concluded f ⟨"name"⟩ p transport l l' r ∧
      l'.status = .invalid := by
  intro l f p transport
  have hl : f.store.leaf? ⟨"name"⟩ = some l := rfl
  obtain ⟨r, l', hr, hconcluded⟩ := validateFully_concluded hl p transport
  refine ⟨r, l', hr, hconcluded, hconcluded.invalid.mpr (.inr ⟨?_, .here ⟨1, ?_, ?_⟩⟩)⟩
  · decide
  · refine ⟨Nat.le_refl 1, fun n hn => ?_, fun _ _ _ => rfl⟩
    cases Nat.lt_one_iff.mp hn
    exact ⟨.request "https://names.test" "no route", rfl, rfl⟩
  · intro body hbody
    cases hbody
    rfl

end Form

end Formwork
