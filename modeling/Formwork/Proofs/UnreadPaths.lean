import Formwork.Dialect.Common
import Formwork.Proofs.FetchedOptions

/-! Sources of options whose path does not read. Every last answer is refused but the empty list, with which the
path is never looked at. -/

namespace Formwork.Options

/-- What is reported when a source whose path does not read is answered like this in the end. -/
inductive Refused (url : String) : Except TransportError Json → TransportError → Prop
  | failed (e : TransportError) : Refused url (.error e) e
  | noList {body : Json} (lacks : body.asArray? = none) :
      Refused url (.ok body) (.decode url "option source must return an array")
  | unread (entry : Json) (rest : List Json) :
      Refused url (.ok (.array (entry :: rest))) (.decode url "invalid option path")

section

variable [Dialect] {policy : RetryPolicy} {transport : Transport} {source : OptionSource} {path : String}

theorem ofEntries_of_unread (hpath : source.path = some path)
    (hread : ∀ document, Dialect.select? path document = none) (entry : Json) (rest : List Json) :
    ofEntries source (entry :: rest) = .error (.decode source.url "invalid option path") := by
  simp [ofEntries, hpath, hread, bind, Except.bind]

theorem ofBody_empty (hpath : source.path = some path) : ofBody source (.array []) = .ok [] := by
  have hentries : ofEntries source [] = .ok [] := by simp [ofEntries, hpath, pure, Except.pure]
  simp only [ofBody, hentries]
  cases source.order with
  | none => rfl
  | some o => cases o <;> simp [sorted, bind, Except.bind]

section Answer

variable (hpath : source.path = some path) (hread : ∀ document, Dialect.select? path document = none)
  {answer : Except TransportError Json} {options : List SelectOption} {e : TransportError}

include hpath hread

theorem bind_ofBody_eq_ok_iff :
    answer.bind (ofBody source) = .ok options ↔ answer = .ok (.array []) ∧ options = [] := by
  cases answer with
  | error e => simp [Except.bind]
  | ok body =>
    show ofBody source body = .ok options ↔ _
    cases body with
    | array entries =>
      cases entries with
      | nil => simp [ofBody_empty hpath, eq_comm]
      | cons entry rest =>
        have hentries := ofEntries_of_unread hpath hread entry rest
        simp [ofBody, hentries, bind, Except.bind]
    | _ => simp [ofBody]

theorem bind_ofBody_eq_error_iff :
    answer.bind (ofBody source) = .error e ↔ Refused source.url answer e := by
  constructor
  · intro herror
    cases answer with
    | error e' =>
      cases herror
      exact .failed e
    | ok body =>
      change ofBody source body = .error e at herror
      cases body with
      | array entries =>
        cases entries with
        | nil => cases (ofBody_empty hpath).symm.trans herror
        | cons entry rest =>
          have hentries := ofEntries_of_unread hpath hread entry rest
          simp only [ofBody, hentries] at herror
          cases herror
          exact .unread entry rest
      | _ =>
        cases herror
        exact .noList rfl
  · intro hrefused
    cases hrefused with
    | failed => rfl
    | @noList body lacks =>
      show ofBody source body = _
      cases body with
      | array entries => cases lacks
      | _ => rfl
    | unread entry rest =>
      have hentries := ofEntries_of_unread hpath hread entry rest
      show ofBody source (.array (entry :: rest)) = _
      simp only [ofBody, hentries]
      rfl

end Answer

theorem fetch_result_eq_iff {result : Except TransportError (List SelectOption)} :
    (fetch policy transport source).result = result ↔
      ∃ last, policy.EndsAt (fun n => transport n (.get source.url)) last ∧
        (transport last (.get source.url)).bind (ofBody source) = result := by
  obtain ⟨last, hends, hlast, -⟩ :=
    Attempts.run_last policy source.url fun n => transport n (.get source.url)
  have hfetch : (fetch policy transport source).result =
      (transport last (.get source.url)).bind (ofBody source) := by
    rw [← hlast]
    simp only [fetch, Attempts.send, Nat.zero_add]
    rfl
  constructor
  · rintro rfl
    exact ⟨last, hends, hfetch.symm⟩
  · rintro ⟨last', hends', hresult⟩
    cases hends.unique hends'
    exact hfetch.trans hresult

end

/-- A source whose path does not read is answered with options only if the last answer is the empty list, and
then with none. Any other answer is refused. -/
theorem fetch_of_unread [Dialect] {policy : RetryPolicy} {transport : Transport} {source : OptionSource}
    {path : String} (hpath : source.path = some path)
    (hread : ∀ document, Dialect.select? path document = none) :
    (∀ options, (fetch policy transport source).result = .ok options ↔
      ∃ last, policy.EndsAt (fun n => transport n (.get source.url)) last ∧
        transport last (.get source.url) = .ok (.array []) ∧ options = []) ∧
    ∀ e, (fetch policy transport source).result = .error e ↔
      ∃ last, policy.EndsAt (fun n => transport n (.get source.url)) last ∧
        Refused source.url (transport last (.get source.url)) e := by
  constructor
  · intro options
    simp only [fetch_result_eq_iff, bind_ofBody_eq_ok_iff hpath hread]
  · intro e
    simp only [fetch_result_eq_iff, bind_ofBody_eq_error_iff hpath hread]

def rootless : OptionSource := ⟨"https://a.test/", some "country.name", none⟩

theorem fetch_rootless : rootless.path = some "country.name" ∧
    (∀ document, Dialect.select? "country.name" document = none) ∧
    (fetch .noRetry (Transport.scripted [.body (.array [])]) rootless).result = .ok [] ∧
    ∀ entry rest, (fetch .noRetry (Transport.scripted [.body (.array (entry :: rest))]) rootless).result =
      .error (.decode "https://a.test/" "invalid option path") := by
  have hread (document : Json) : Dialect.select? "country.name" document = none := rfl
  have hends (transport : Transport) :
      RetryPolicy.noRetry.EndsAt (fun n => transport n (.get rootless.url)) 0 :=
    ⟨Nat.le_refl 0, nofun, fun _ _ _ => rfl⟩
  refine ⟨rfl, hread, ?_, fun entry rest => ?_⟩
  · exact ((fetch_of_unread rfl hread).1 []).mpr ⟨0, hends _, rfl, rfl⟩
  · exact ((fetch_of_unread rfl hread).2 _).mpr ⟨0, hends _, .unread entry rest⟩

theorem unread_path_passed : ¬ ∀ (policy : RetryPolicy) (transport : Transport) (source : OptionSource)
    (path : String), source.path = some path → (∀ document, Dialect.select? path document = none) →
      ∃ e, (fetch policy transport source).result = .error e := by
  intro h
  obtain ⟨e, he⟩ := h .noRetry (Transport.scripted [.body (.array [])]) rootless "country.name" rfl fun _ => rfl
  have hempty : (fetch .noRetry (Transport.scripted [.body (.array [])]) rootless).result = .ok [] := rfl
  cases hempty.symm.trans he

end Formwork.Options
