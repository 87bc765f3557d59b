import Formwork.Dialect.Common
import Formwork.Proofs.FullValidation
import Formwork.Proofs.Reports

/-! The requests for a ticket, validator by validator. Each has a turn with all the retries that the policy
allows, and only the last answer of the turn counts. -/

namespace Formwork

inductive RemoteValidator.Confirms [Dialect] (value : Json) : RemoteValidator → Json → Prop
  | custom {name url : String} {e : Expression} {body : Json} (holds : (e.fill value).holds body = true) :
      Confirms value (.custom name url e) body
  | external {name url : String} {members : List (String × Json)}
      (granted : Keyed.get? "validationResult" members = some (.bool true)) :
      Confirms value (.external name url) (.object members)

theorem RemoteValidator.accepts_iff [Dialect] {v : RemoteValidator} {value body : Json} :
    v.accepts value body = true ↔ v.Confirms value body := by
  cases v with
  | custom name url e =>
    constructor
    · exact .custom
    · rintro ⟨holds⟩
      exact holds
  | external name url =>
    constructor
    · intro h
      have hmember : body.member? "validationResult" = some (.bool true) := of_decide_eq_true h
      cases body with
      | object members => exact .external hmember
      | _ => cases hmember
    · intro h
      cases h with
      | external granted => exact decide_eq_true granted

/-- A validator that is asked when `sent` requests have been made, with the number of its last attempt,
counted from zero. -/
structure Turn where
  validator : RemoteValidator
  sent : Nat
  last : Nat

namespace Turn

def name (u : Turn) : String := u.validator.name

def requests (t : Ticket) (u : Turn) : List Request :=
  List.replicate (u.last + 1) (u.validator.request t.value t.snapshot)

def answer (transport : Transport) (t : Ticket) (u : Turn) : Except TransportError Json :=
  u.validator.answers transport t.value t.snapshot u.sent u.last

variable [Dialect]

def Passes (transport : Transport) (t : Ticket) (u : Turn) : Prop :=
  ∃ body, u.answer transport t = .ok body ∧ u.validator.Confirms t.value body

inductive Reports (transport : Transport) (t : Ticket) (u : Turn) : Json → Prop
  | refused {body : Json} (answered : u.answer transport t = .ok body)
      (refuses : ¬ u.validator.Confirms t.value body) :
      Reports transport t u (.object [("value", t.value)])
  | unanswered {e : TransportError} (failed : u.answer transport t = .error e) :
      Reports transport t u (.object [("value", t.value), ("reason", .string "transport")])

/-- The turns of validators that are asked in the order of the list. Each begins at the first attempt
with what is answered after the turn before. -/
inductive Sequence (p : RetryPolicy) (transport : Transport) (t : Ticket) :
    Nat → List RemoteValidator → List Turn → Prop
  | nil {sent : Nat} : Sequence p transport t sent [] []
  | cons {sent last : Nat} {v : RemoteValidator} {vs : List RemoteValidator} {turns : List Turn}
      (ends : p.EndsAt (v.answers transport t.value t.snapshot sent) last)
      (rest : Sequence p transport t (sent + (last + 1)) vs turns) :
      Sequence p transport t sent (v :: vs) (⟨v, sent, last⟩ :: turns)

def LastReport (transport : Transport) (t : Ticket) (turns : List Turn) (name : String) (detail : Json) :
    Prop :=
  ∃ before u after, turns = before ++ u :: after ∧ u.name = name ∧ u.Reports transport t detail ∧
    ∀ w ∈ after, w.name = name → w.Passes transport t

def enter (transport : Transport) (t : Ticket) (failures : Failures) (u : Turn) : Failures :=
  match u.validator.failureOf t.value (u.answer transport t) with
  | some detail => failures.insert u.name detail
  | none => failures

section

variable {transport : Transport} {t : Ticket} {u : Turn} {turns : List Turn} {failures : Failures}
  {name : String} {detail : Json}

theorem failureOf_eq_some_iff :
    u.validator.failureOf t.value (u.answer transport t) = some detail ↔ u.Reports transport t detail := by
  cases ha : u.answer transport t with
  | error e =>
    constructor
    · rintro ⟨⟩
      exact .unanswered ha
    · rintro (⟨answered, -⟩ | -)
      · cases ha.symm.trans answered
      · rfl
  | ok body =>
    rw [RemoteValidator.failureOf]
    by_cases hc : u.validator.Confirms t.value body
    · rw [if_pos (RemoteValidator.accepts_iff.mpr hc)]
      constructor
      · rintro ⟨⟩
      · rintro (⟨answered, refuses⟩ | ⟨failed⟩)
        · cases ha.symm.trans answered
          exact absurd hc refuses
        · cases ha.symm.trans failed
    · rw [if_neg (mt RemoteValidator.accepts_iff.mp hc)]
      constructor
      · rintro ⟨⟩
        exact .refused ha hc
      · rintro (- | ⟨failed⟩)
        · rfl
        · cases ha.symm.trans failed

theorem failureOf_eq_none_iff :
    u.validator.failureOf t.value (u.answer transport t) = none ↔ u.Passes transport t := by
  rw [Passes]
  cases ha : u.answer transport t with
  | error e => simp [RemoteValidator.failureOf]
  | ok body => simp [RemoteValidator.failureOf, RemoteValidator.accepts_iff]

/-- Turns report what failed in them under the names of their validators. -/
theorem collected_foldl_enter (transport : Transport) (t : Ticket) (turns : List Turn) :
    Keyed.Collected Turn.name (fun u => u.validator.failureOf t.value (u.answer transport t)) turns
      (turns.foldl (enter transport t) []) := by
  have henter : enter transport t =
      Keyed.collect Turn.name fun u => u.validator.failureOf t.value (u.answer transport t) := by
    funext failures u
    cases h : u.validator.failureOf t.value (u.answer transport t) <;> simp only [enter, Keyed.collect, h]
  rw [henter]
  exact Keyed.collected_foldl turns

theorem foldl_enter_eq_nil :
    turns.foldl (enter transport t) [] = [] ↔ ∀ u ∈ turns, u.Passes transport t := by
  simp only [(collected_foldl_enter transport t turns).eq_nil_iff, failureOf_eq_none_iff]

theorem mem_keys_foldl_enter :
    name ∈ Keyed.keys (turns.foldl (enter transport t) []) ↔
      ∃ u ∈ turns, u.name = name ∧ ¬ u.Passes transport t := by
  simp only [(collected_foldl_enter transport t turns).mem_keys_iff, ne_eq, failureOf_eq_none_iff]

theorem get?_foldl_enter :
    Keyed.get? name (turns.foldl (enter transport t) []) = some detail ↔
      LastReport transport t turns name detail := by
  simp only [(collected_foldl_enter transport t turns).latest, Keyed.LastReport, failureOf_eq_some_iff,
    failureOf_eq_none_iff, LastReport]

theorem ascending_foldl_enter : Keyed.Ascending (turns.foldl (enter transport t) []) :=
  (collected_foldl_enter transport t turns).ascending

end

end Turn

namespace Inquiry

variable (p : RetryPolicy) (transport : Transport) (t : Ticket)

theorem ask_turn [Dialect] (i : Inquiry) (v : RemoteValidator) :
    ∃ last, p.EndsAt (v.answers transport t.value t.snapshot i.requests.length) last ∧
      (ask p transport t i v).requests =
        i.requests ++ Turn.requests t ⟨v, i.requests.length, last⟩ ∧
      (ask p transport t i v).failures =
        Turn.enter transport t i.failures ⟨v, i.requests.length, last⟩ := by
  obtain ⟨last, hends, hresult, hcount⟩ := v.send_last p transport t.value t.snapshot i.requests.length
  refine ⟨last, hends, ?_, ?_⟩
  · rw [ask, hcount]
    rfl
  · rw [ask, hresult]
    rfl

theorem foldl_ask_turns [Dialect] (vs : List RemoteValidator) (i : Inquiry) :
    ∃ turns, Turn.Sequence p transport t i.requests.length vs turns ∧
      (vs.foldl (ask p transport t) i).requests = i.requests ++ turns.flatMap (Turn.requests t) ∧
      (vs.foldl (ask p transport t) i).failures = turns.foldl (Turn.enter transport t) i.failures := by
  induction vs generalizing i with
  | nil => exact ⟨[], .nil, (List.append_nil _).symm, rfl⟩
  | cons v vs ih =>
    obtain ⟨last, hends, hrequests, hfailures⟩ := ask_turn p transport t i v
    obtain ⟨turns, hturns, hrest, hfinal⟩ := ih (ask p transport t i v)
    have hlength : (ask p transport t i v).requests.length = i.requests.length + (last + 1) := by
      rw [hrequests, List.length_append, Turn.requests, List.length_replicate]
    rw [hlength] at hturns
    refine ⟨_, .cons hends hturns, ?_, ?_⟩
    · rw [List.foldl_cons, hrest, hrequests, List.append_assoc, List.flatMap_cons]
    · rw [List.foldl_cons, hfinal, hfailures, List.foldl_cons]

structure Conducted [Dialect] (transport : Transport) (t : Ticket) (turns : List Turn) (i : Inquiry) : Prop where
  requests : i.requests = turns.flatMap (Turn.requests t)
  passed : i.outcome = none ↔ ∀ u ∈ turns, u.Passes transport t
  keys : ∀ failures, i.outcome = some failures → Keyed.Ascending failures ∧
    ∀ name, name ∈ Keyed.keys failures ↔ ∃ u ∈ turns, u.name = name ∧ ¬ u.Passes transport t
  details : ∀ failures, i.outcome = some failures → ∀ name detail,
    failures.get? name = some detail ↔ Turn.LastReport transport t turns name detail

theorem outcome_eq_none_iff {i : Inquiry} : i.outcome = none ↔ i.failures = [] := by
  simp [outcome]

theorem failures_of_outcome {i : Inquiry} {failures : Failures} (h : i.outcome = some failures) :
    i.failures = failures := by
  unfold outcome at h
  split at h
  · cases h
  · exact Option.some.inj h

/-- With every policy and any answers, all validators of a ticket have their turns one after another. The
outcome has the names of those that fail, each with the detail of the last that fails under it. -/
theorem run_conducted [Dialect] :
    ∃ turns, Turn.Sequence p transport t 0 t.validators turns ∧
      Conducted transport t turns (run p transport t) := by
  obtain ⟨turns, hturns, hrequests, hfailures⟩ :=
    foldl_ask_turns p transport t t.validators ⟨[], [], []⟩
  refine ⟨turns, hturns, hrequests, ?_, fun failures h => ?_, fun failures h => ?_⟩
  · exact outcome_eq_none_iff.trans (hfailures ▸ Turn.foldl_enter_eq_nil)
  · rw [← failures_of_outcome h]
    exact hfailures ▸ ⟨Turn.ascending_foldl_enter, fun _ => Turn.mem_keys_foldl_enter⟩
  · rw [← failures_of_outcome h]
    exact fun _ _ => hfailures ▸ Turn.get?_foldl_enter

/-- The second validator under a name is refused, where the first was not answered at all. -/
example :
    let taken : RemoteValidator := .external "taken" "https://names.test"
    let t : Ticket := ⟨⟨"name"⟩, 1, .string "ann", [taken, taken], .null⟩
    let i := run ⟨0, 1, none⟩ (.scripted [.status 500, .status 500, .body .null]) t
    i.requests.length = 3 ∧ i.outcome = some [("taken", .object [("value", .string "ann")])] := by
  decide

end Inquiry

end Formwork
