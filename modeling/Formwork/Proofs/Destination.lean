import Mathlib.Tactic.SplitIfs
import Mathlib.Data.List.TakeWhile
import Formwork.Dialect.Common
import Formwork.Transport.Http
import Formwork.Validation.Remote

/-! Where the request of a rule goes. Once a template has come past the authority of its address, what
a value puts into it changes neither the host nor what the settings say of the address. -/

namespace Formwork

namespace Url

open Text

def pastAuthority (head : String) : Bool :=
  match readScheme? (cleaned head) with
  | some (_, rest) => (rest.dropWhile isSlash).any (endsAuthority true)
  | none => false

theorem cleaned_append (head : String) (more : List Char) :
    ∃ rest, cleaned (String.ofList (head.toList ++ more)) = cleaned head ++ rest := by
  obtain ⟨rest, hrest⟩ := trimBy_append (fun c => c.toNat ≤ 32) head.toList more
  exact ⟨_, by rw [cleaned, String.toList_ofList, hrest, List.filter_append, ← cleaned]⟩

theorem run_append {p : Char → Bool} {cs after : List Char} {c : Char}
    (h : cs.dropWhile p = c :: after) (more : List Char) :
    (cs ++ more).takeWhile p = cs.takeWhile p ∧ (cs ++ more).dropWhile p = c :: (after ++ more) := by
  induction cs with
  | nil => simp at h
  | cons d cs ih =>
    by_cases hd : p d = true
    · have hrest : cs.dropWhile p = c :: after := by simpa [List.dropWhile_cons, hd] using h
      simpa [List.takeWhile_cons, List.dropWhile_cons, hd] using ih hrest
    · have hhere : d :: cs = c :: after := by simpa [List.dropWhile_cons, hd] using h
      obtain ⟨rfl, rfl⟩ := List.cons.inj hhere
      simp [hd]

theorem readScheme?_eq_some {cs rest : List Char} {scheme : String} :
    readScheme? cs = some (scheme, rest) ↔ cs.dropWhile isSchemeChar = ':' :: rest ∧
      (cs.takeWhile isSchemeChar).head?.any Char.isAlpha = true ∧
      scheme = String.ofList ((cs.takeWhile isSchemeChar).map Char.toLower) := by
  unfold readScheme?
  split
  · next after hafter =>
    by_cases halpha : (cs.takeWhile isSchemeChar).head?.any Char.isAlpha = true
    · simp [hafter, halpha, eq_comm, and_comm]
    · simp [halpha]
  · next hno =>
    constructor
    · simp
    · rintro ⟨hrest, -⟩
      exact absurd hrest (hno rest)

theorem readScheme?_append {cs rest : List Char} {scheme : String}
    (h : readScheme? cs = some (scheme, rest)) (more : List Char) :
    readScheme? (cs ++ more) = some (scheme, rest ++ more) := by
  obtain ⟨hrest, halpha, hscheme⟩ := readScheme?_eq_some.mp h
  obtain ⟨hname, hafter⟩ := run_append hrest more
  apply readScheme?_eq_some.mpr
  rw [hname, hafter]
  exact ⟨rfl, halpha, hscheme⟩

variable [Dialect]

theorem scheme_of_readAuthority? {special : Bool} {scheme : String} {authority : List Char} {u : Url}
    (h : readAuthority? special scheme authority = some u) : u.scheme = scheme := by
  unfold readAuthority? at h
  simp only at h
  by_cases hempty : (splitPort false (afterUser authority)).1.isEmpty = true
  · rw [if_pos hempty] at h
    split at h
    · cases h
    · cases h
      rfl
  · rw [if_neg hempty] at h
    split at h
    all_goals
      simp only [Option.bind_eq_bind, Option.bind_eq_some_iff] at h
      obtain ⟨host, -, port, -, hu⟩ := h
      cases hu
      rfl

theorem scheme_of_readFile? {scheme : String} {rest : List Char} {u : Url}
    (h : readFile? scheme rest = some u) : u.scheme = scheme := by
  unfold readFile? at h
  split at h
  · simp only at h
    split_ifs at h
    · obtain ⟨host, -, hu⟩ := Option.map_eq_some_iff.mp h
      cases hu
      rfl
    · cases h
      rfl
  · cases h
    rfl

theorem scheme_of_read? {text : String} {u : Url} (h : read? text = some u) :
    ∃ rest, readScheme? (cleaned text) = some (u.scheme, rest) := by
  unfold read? at h
  cases hread : readScheme? (cleaned text) with
  | none => simp [hread] at h
  | some r =>
    obtain ⟨scheme, rest⟩ := r
    simp only [hread, Option.bind_eq_bind, Option.bind_some] at h
    split_ifs at h
    · exact ⟨rest, by rw [scheme_of_readFile? h]⟩
    · exact ⟨rest, by rw [scheme_of_readAuthority? h]⟩
    · split at h
      · exact ⟨_, by rw [scheme_of_readAuthority? h]⟩
      · cases h
        exact ⟨rest, rfl⟩

def authority (rest : List Char) : List Char :=
  (rest.dropWhile isSlash).takeWhile fun c => !endsAuthority true c

theorem read?_of_special {text scheme : String} {rest : List Char}
    (h : readScheme? (cleaned text) = some (scheme, rest)) (hs : (defaultPort? scheme).isSome = true) :
    read? text = readAuthority? true scheme (authority rest) := by
  have hfile : scheme ≠ "file" := by
    rintro rfl
    cases hs
  simp [read?, h, hfile, hs, authority]

omit [Dialect] in
theorem authority_append {rest : List Char}
    (h : (rest.dropWhile isSlash).any (endsAuthority true) = true) (more : List Char) :
    authority (rest ++ more) = authority rest := by
  obtain ⟨d, hd, hends⟩ := List.any_eq_true.mp h
  cases hafter : rest.dropWhile isSlash with
  | nil => simp [hafter] at hd
  | cons c cs =>
    have hslashes := (run_append hafter more).2
    cases hrest : (c :: cs).dropWhile fun c => !endsAuthority true c with
    | nil =>
      have hnone := List.dropWhile_eq_nil_iff.mp hrest d (hafter ▸ hd)
      simp [hends] at hnone
    | cons e es =>
      have hrun := (run_append hrest more).1
      rw [authority, authority, hslashes, hafter, ← hrun, List.cons_append]

/-- An address that is past its authority leads to the same place however it goes on. -/
theorem read?_append {head : String} (hpast : pastAuthority head = true) {more : List Char} {u : Url}
    (hu : read? (String.ofList (head.toList ++ more)) = some u)
    (hs : (defaultPort? u.scheme).isSome = true) (other : List Char) :
    read? (String.ofList (head.toList ++ other)) = some u := by
  unfold pastAuthority at hpast
  cases hhead : readScheme? (cleaned head) with
  | none => simp [hhead] at hpast
  | some r =>
    obtain ⟨scheme, rest⟩ := r
    simp only [hhead] at hpast
    have hwhole (tail : List Char) : ∃ after,
        readScheme? (cleaned (String.ofList (head.toList ++ tail))) =
          some (scheme, rest ++ after) := by
      obtain ⟨after, hafter⟩ := cleaned_append head tail
      exact ⟨after, by rw [hafter, readScheme?_append hhead]⟩
    have hscheme : u.scheme = scheme := by
      obtain ⟨after, hafter⟩ := hwhole more
      obtain ⟨_, hread⟩ := scheme_of_read? hu
      have hsame := Option.some.inj (hread.symm.trans hafter)
      exact congrArg Prod.fst hsame
    rw [hscheme] at hs
    have hplace (tail : List Char) : read? (String.ofList (head.toList ++ tail)) =
        readAuthority? true scheme (authority rest) := by
      obtain ⟨after, hafter⟩ := hwhole tail
      rw [read?_of_special hafter hs, authority_append hpast]
    rw [hplace] at hu ⊢
    exact hu

end Url

theorem fillUrl_of_firstAt {template : String} {place : Nat}
    (h : Text.FirstAt placeholder.toList template.toList place) (value : Json) :
    ∃ rest, fillUrl template value =
      String.ofList ((String.ofList (template.toList.take place)).toList ++ rest) := by
  have hne : placeholder.toList ≠ [] := by decide
  exact ⟨_, by rw [fillUrl, Text.replaceFirst_of_firstAt hne h, String.toList_ofList,
    List.append_assoc]⟩

theorem read?_fillUrl [Dialect] {template : String} {place : Nat}
    (hfirst : Text.FirstAt placeholder.toList template.toList place)
    (hpast : Url.pastAuthority (String.ofList (template.toList.take place)) = true) {u : Url}
    (hu : Url.read? template = some u) (hs : u.scheme = "http" ∨ u.scheme = "https")
    (value : Json) : Url.read? (fillUrl template value) = some u := by
  have hspecial : (Url.defaultPort? u.scheme).isSome = true := by
    obtain hs | hs := hs <;> rw [hs] <;> rfl
  have htemplate : String.ofList ((String.ofList (template.toList.take place)).toList ++
      template.toList.drop place) = template := by
    rw [String.toList_ofList, List.take_append_drop, String.ofList_toList]
  obtain ⟨rest, hrest⟩ := fillUrl_of_firstAt hfirst value
  rw [hrest]
  exact Url.read?_append hpast (htemplate ▸ hu) hspecial rest

namespace HttpSettings

def refusal? (s : HttpSettings) (u : Url) : Option String :=
  if s.permitsScheme u.scheme then s.hostFault? u.host else some "unsupported url scheme"

theorem check_of_read? [Dialect] {url : String} {u : Url} (h : Url.read? url = some u) (s : HttpSettings) :
    s.check url = match s.refusal? u with
      | none => .ok u
      | some reason => .error (.policy url reason) := by
  by_cases hscheme : s.permitsScheme u.scheme = true
  · cases hfault : s.hostFault? u.host with
    | none => simp [check, refusal?, h, hscheme, hfault]
    | some reason => simp [check, refusal?, h, hscheme, hfault]
  · simp [check, refusal?, h, hscheme]

end HttpSettings

/-- Whatever value a rule asks about, the request is for the place that the template names, or it is
refused for one and the same reason. -/
theorem RemoteValidator.check_custom_request [Dialect] {template : String} {place : Nat}
    (hfirst : Text.FirstAt placeholder.toList template.toList place)
    (hpast : Url.pastAuthority (String.ofList (template.toList.take place)) = true) {u : Url}
    (hu : Url.read? template = some u) (hs : u.scheme = "http" ∨ u.scheme = "https")
    (name : String) (e : Expression) (s : HttpSettings) :
    (∀ value snapshot, s.check ((custom name template e).request value snapshot).url = .ok u) ∨
    ∃ reason, ∀ value snapshot, s.check ((custom name template e).request value snapshot).url =
      .error (.policy ((custom name template e).request value snapshot).url reason) := by
  have hread (value snapshot : Json) :
      Url.read? ((custom name template e).request value snapshot).url = some u :=
    read?_fillUrl hfirst hpast hu hs value
  cases hrefusal : s.refusal? u with
  | none =>
    left
    intro value snapshot
    rw [HttpSettings.check_of_read? (hread value snapshot) s, hrefusal]
  | some reason =>
    right
    refine ⟨reason, fun value snapshot => ?_⟩
    rw [HttpSettings.check_of_read? (hread value snapshot) s, hrefusal]

def codeRule : RemoteValidator :=
  .custom "Code" " https://user@API.test:8443\\codes?is=value"
    ⟨.all, [.comparison (.string "known") .equal (.bool true)]⟩

theorem RemoteValidator.check_codeRule_request :
    (∀ value snapshot, HttpSettings.standard.check (codeRule.request value snapshot).url =
      .ok ⟨"https", some "api.test", some 8443⟩) ∨
    ∃ reason, ∀ value snapshot,
      HttpSettings.standard.check (codeRule.request value snapshot).url =
        .error (.policy (codeRule.request value snapshot).url reason) := by
  have hfirst : Text.FirstAt placeholder.toList
      " https://user@API.test:8443\\codes?is=value".toList 37 :=
    ⟨by decide, by decide⟩
  have hpast : Url.pastAuthority
      (String.ofList (" https://user@API.test:8443\\codes?is=value".toList.take 37)) = true := by
    decide +kernel
  have hu : Url.read? " https://user@API.test:8443\\codes?is=value" =
      some ⟨"https", some "api.test", some 8443⟩ := by
    decide +kernel
  exact RemoteValidator.check_custom_request hfirst hpast hu (.inr rfl) _ _ _

end Formwork
