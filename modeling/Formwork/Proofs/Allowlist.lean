import Formwork.Dialect.Common
import Formwork.Proofs.Destination
import Formwork.Proofs.Hosts
import Formwork.Settings

/-! Lists of permitted hosts: which of their entries a request can meet. -/

namespace Formwork

namespace Url

open Text

def addressOf (host : String) : String := "https://" ++ host ++ "/"

theorem readScheme?_addressOf (host : String) :
    ∃ rest, readScheme? (cleaned (addressOf host)) = some ("https", rest) := by
  obtain ⟨rest, hrest⟩ := cleaned_append "https://" (host ++ "/").toList
  have hhead : readScheme? (cleaned "https://") = some ("https", "//".toList) := by decide
  refine ⟨"//".toList ++ rest, ?_⟩
  have haddress : addressOf host = String.ofList ("https://".toList ++ (host ++ "/").toList) := by
    rw [← String.toList_append, String.ofList_toList, addressOf, String.append_assoc]
  rw [haddress, hrest, readScheme?_append hhead]

theorem cleaned_addressOf {host : String} (h : Unbroken host.toList) :
    cleaned (addressOf host) = "https://".toList ++ host.toList ++ ['/'] := by
  have hlist : (addressOf host).toList = "https://".toList ++ host.toList ++ ['/'] := by
    simp [addressOf]
  have htrim : trimBy (fun c => c.toNat ≤ 32) (addressOf host).toList =
      "https://".toList ++ host.toList ++ ['/'] := by
    simp [hlist, trimBy]
  have hkept : host.toList.filter (fun c => c != '\t' && c != '\n' && c != '\r') = host.toList := by
    rw [List.filter_eq_self]
    intro c hc
    have hmark := h.unmarked c hc
    simp [marks] at hmark
    simp [hmark]
  rw [cleaned, htrim, List.filter_append, List.filter_append, hkept]
  rfl

variable [Dialect]

theorem readAuthority?_of_unbroken {host : List Char} (h : Unbroken host) (scheme : String) :
    readAuthority? true scheme host =
      (Host.read? host).map fun own => ⟨scheme, some (String.ofList own), none⟩ := by
  have huser : afterUser host = host := by
    have hkeep : host.reverse.takeWhile (· ≠ '@') = host.reverse := by
      rw [List.takeWhile_eq_self_iff]
      intro c hc
      have hmark := h.unmarked c (List.mem_reverse.mp hc)
      simp [marks] at hmark
      simpa using hmark.2.2.2.2.1
    rw [afterUser, hkeep, List.reverse_reverse]
  cases hread : Host.read? host with
  | none => simp [readAuthority?, huser, h.noPort, h.ne_nil, hread]
  | some own => simp [readAuthority?, huser, h.noPort, h.ne_nil, hread, readPort?]

omit [Dialect] in
theorem authority_of_unbroken {host : List Char} (h : Unbroken host) :
    authority ("//".toList ++ host ++ ['/']) = host := by
  have hends : ∀ c ∈ host, endsAuthority true c = false := by
    intro c hc
    have hmark := h.unmarked c hc
    simp [marks] at hmark
    simp [endsAuthority, hmark]
  have hslashes : ("//".toList ++ host ++ ['/']).dropWhile isSlash = host ++ ['/'] := by
    obtain ⟨c, cs, rfl⟩ := List.exists_cons_of_ne_nil h.ne_nil
    have hc := h.unmarked c (by simp)
    simp [marks] at hc
    simp [isSlash, hc]
  rw [authority, hslashes, List.takeWhile_append_of_pos (by simpa using hends)]
  simp [endsAuthority]

theorem read?_addressOf_of_unbroken {host : String} (h : Unbroken host.toList) :
    read? (addressOf host) =
      (Host.read? host.toList).map fun own => ⟨"https", some (String.ofList own), none⟩ := by
  have hscheme : readScheme? (cleaned (addressOf host)) =
      some ("https", "//".toList ++ host.toList ++ ['/']) := by
    have hhead : readScheme? "https://".toList = some ("https", "//".toList) := by decide
    rw [cleaned_addressOf h, List.append_assoc, readScheme?_append hhead, List.append_assoc]
  rw [read?_of_special hscheme rfl, authority_of_unbroken h, readAuthority?_of_unbroken h]

theorem host_of_readAuthority? {scheme : String} {authority : List Char} {u : Url}
    (h : readAuthority? true scheme authority = some u) :
    ∃ text host, Host.read? text = some host ∧ u.host = some (String.ofList host) := by
  unfold readAuthority? at h
  simp only [if_true, true_or] at h
  split at h
  · cases h
  · simp only [Option.bind_eq_bind, Option.bind_eq_some_iff] at h
    obtain ⟨host, hread, port, -, hu⟩ := h
    cases hu
    exact ⟨_, host, hread, rfl⟩

def Host.isCanonical (host : String) : Bool := read? host.toList = some host.toList

theorem host_addressOf_iff {host : String} :
    (∃ u, read? (addressOf host) = some u ∧ u.host = some host) ↔ Host.isCanonical host = true := by
  rw [Host.isCanonical, decide_eq_true_iff]
  constructor
  · rintro ⟨u, hu, hhost⟩
    have hunbroken : Unbroken host.toList := by
      obtain ⟨rest, hrest⟩ := readScheme?_addressOf host
      rw [read?_of_special hrest rfl] at hu
      obtain ⟨text, own, hread, hown⟩ := host_of_readAuthority? hu
      have hsame : host = String.ofList own := Option.some.inj (hhost.symm.trans hown)
      rw [hsame, String.toList_ofList]
      exact Host.unbroken_of_read? hread
    rw [read?_addressOf_of_unbroken hunbroken] at hu
    obtain ⟨own, hread, rfl⟩ := Option.map_eq_some_iff.mp hu
    rw [hread, ← Option.some.inj hhost, String.toList_ofList]
  · intro hread
    have haddress := read?_addressOf_of_unbroken (Host.unbroken_of_read? hread)
    rw [hread, Option.map_some, String.ofList_toList] at haddress
    exact ⟨_, haddress, rfl⟩

end Url

namespace HttpSettings

theorem check_addressOf_eq_ok [Dialect] {s : HttpSettings} {hosts : List String}
    (hlist : s.allowedHosts = some hosts) {host : String} {u : Url} :
    s.check (Url.addressOf host) = .ok u ↔
      Url.read? (Url.addressOf host) = some u ∧ ∃ other ∈ hosts, u.host = some other := by
  cases hread : Url.read? (Url.addressOf host) with
  | none => simp [check, hread]
  | some found =>
    have hscheme : found.scheme = "https" := by
      obtain ⟨rest, hrest⟩ := Url.readScheme?_addressOf host
      obtain ⟨_, hfound⟩ := Url.scheme_of_read? hread
      exact congrArg Prod.fst (Option.some.inj (hfound.symm.trans hrest))
    have hpermits : s.permitsScheme found.scheme = true := by
      rw [hscheme]
      rfl
    rw [check_of_read? hread, refusal?, if_pos hpermits]
    cases hhost : found.host with
    | none =>
      simp [hostFault?, hlist]
      rintro rfl
      simp [hhost]
    | some own =>
      by_cases hown : own ∈ hosts
      · simp [hostFault?, hlist, hown]
        rintro rfl
        exact ⟨own, hown, hhost⟩
      · simp [hostFault?, hlist, hown]
        rintro rfl other hother hsame
        exact hown (Option.some.inj (hhost.symm.trans hsame) ▸ hother)

/-- An entry of the list is met by its own address if and only if it is written as hosts are read.
Failing that, its address is permitted only where it leads to the host of another entry. -/
theorem check_addressOf_entry [Dialect] {s : HttpSettings} {hosts : List String}
    (hlist : s.allowedHosts = some hosts) {host : String} (hentry : host ∈ hosts) :
    ((∃ u, s.check (Url.addressOf host) = .ok u ∧ u.host = some host) ↔
      Url.Host.isCanonical host = true) ∧
    ((∃ u, s.check (Url.addressOf host) = .ok u) ↔ Url.Host.isCanonical host = true ∨
      ∃ other ∈ hosts, other ≠ host ∧
        (Url.read? (Url.addressOf host)).bind Url.host = some other) := by
  have hown : (∃ u, s.check (Url.addressOf host) = .ok u ∧ u.host = some host) ↔
      Url.Host.isCanonical host = true := by
    rw [← Url.host_addressOf_iff]
    constructor
    · rintro ⟨u, hu, hhost⟩
      exact ⟨u, ((check_addressOf_eq_ok hlist).mp hu).1, hhost⟩
    · rintro ⟨u, hu, hhost⟩
      exact ⟨u, (check_addressOf_eq_ok hlist).mpr ⟨hu, host, hentry, hhost⟩, hhost⟩
  refine ⟨hown, ?_⟩
  rw [← hown]
  constructor
  · rintro ⟨u, hu⟩
    obtain ⟨hread, other, hother, hhost⟩ := (check_addressOf_eq_ok hlist).mp hu
    by_cases hsame : other = host
    · exact .inl ⟨u, hu, hsame ▸ hhost⟩
    · exact .inr ⟨other, hother, hsame, by rw [hread, Option.bind_some, hhost]⟩
  · rintro (⟨u, hu, -⟩ | ⟨other, hother, -, hbind⟩)
    · exact ⟨u, hu⟩
    · obtain ⟨u, hread, hhost⟩ := Option.bind_eq_some_iff.mp hbind
      exact ⟨u, (check_addressOf_eq_ok hlist).mpr ⟨hread, other, hother, hhost⟩⟩

def loopback : HttpSettings := { standard with allowedHosts := some ["127.1", "127.0.0.1"] }

theorem check_loopback :
    (¬ ∃ u, loopback.check (Url.addressOf "127.1") = .ok u ∧ u.host = some "127.1") ∧
    ∃ u, loopback.check (Url.addressOf "127.1") = .ok u := by
  have hlist : loopback.allowedHosts = some ["127.1", "127.0.0.1"] := rfl
  have hentry : "127.1" ∈ ["127.1", "127.0.0.1"] := by decide
  obtain ⟨hown, hany⟩ := check_addressOf_entry hlist hentry
  have hcanonical : Url.Host.isCanonical "127.1" = false := by decide +kernel
  have hread : (Url.read? (Url.addressOf "127.1")).bind Url.host = some "127.0.0.1" := by
    decide +kernel
  rw [hown, hany, hcanonical]
  exact ⟨by decide, .inr ⟨"127.0.0.1", by decide, by decide, hread⟩⟩

end HttpSettings

/-- Entries with capitals or with a port pass the check of the settings, but no request to them is
permitted. -/
def Settings.unmetHosts : Settings :=
  { standard with
    transport := { HttpSettings.standard with
      allowedHosts := some ["API.example.com", "api.example.com:8443"] } }

theorem Settings.unmetHosts_refused :
    unmetHosts.fault? = none ∧
    unmetHosts.transport.check (Url.addressOf "API.example.com") =
      .error (.policy "https://API.example.com/" "url host not allowed") ∧
    unmetHosts.transport.check (Url.addressOf "api.example.com:8443") =
      .error (.policy "https://api.example.com:8443/" "url host not allowed") := by
  decide +kernel

end Formwork
