import Formwork.Proofs.Bytes
import Formwork.Settings

/-! Settings that pass their check though no client can be made with them: those whose user agent
cannot stand in a header. -/

namespace Formwork

namespace HttpSettings

def isBarredByte (b : UInt8) : Bool := b.toNat ≠ 9 && (b.toNat < 32 || b.toNat = 127)

theorem isHeaderChar_eq_false_iff {c : Char} :
    isHeaderChar c = false ↔ ∃ b ∈ String.utf8EncodeChar c, isBarredByte b = true := by
  by_cases hascii : c.toNat ≤ 127
  · have htab : c = '\t' ↔ c.toNat = 9 := ⟨fun h => by rw [h]; rfl, fun h => by
      rw [← Char.ofNat_toNat c, h]⟩
    have hbyte := Text.toNat_ofNat_of_ascii hascii
    simp [Text.utf8EncodeChar_of_ascii hascii, isHeaderChar, isBarredByte, htab, hbyte]
    omega
  · have hheader : isHeaderChar c = true := by
      simp [isHeaderChar]
      omega
    rw [hheader]
    constructor
    · simp
    · rintro ⟨b, hb, hbarred⟩
      have hlow := Text.le_of_mem_utf8EncodeChar hascii hb
      simp [isBarredByte] at hbarred
      omega

theorem isUsable_eq_false_iff {s : HttpSettings} :
    s.isUsable = false ↔ ∃ b ∈ s.userAgent.toUTF8.data, isBarredByte b = true := by
  simp only [isUsable, List.all_eq_false, Text.mem_toUTF8, Bool.not_eq_true,
    isHeaderChar_eq_false_iff]
  grind

end HttpSettings

namespace HttpTransport

theorem create_eq_error_iff {said : String} {s : HttpSettings} {e : TransportError} :
    create said s = .error e ↔
      s.isUsable = false ∧ e = .request "" ("http client build failed: " ++ said) := by
  by_cases h : s.isUsable = true
  · simp [create, h]
  · simp [create, h, eq_comm]

end HttpTransport

namespace Settings

def withUserAgent (s : Settings) (agent : String) : Settings :=
  { s with transport := { s.transport with userAgent := agent } }

theorem transportFault?_eq_none_iff {s : HttpSettings} :
    transportFault? s = none ↔ (minTimeout ≤ s.timeout ∧ s.timeout ≤ maxTimeout) ∧
      (s.maxResponseBytes ≠ 0 ∧ s.maxResponseBytes ≤ maxResponseLimit) ∧
      (∃ c ∈ s.userAgent.toList, Text.isBlank c = false) ∧ s.allowedHosts.bind hostsFault? = none := by
  unfold transportFault?
  by_cases htimeout : s.timeout < minTimeout ∨ maxTimeout < s.timeout
  · rw [if_pos htimeout]
    have hout : ¬ (minTimeout ≤ s.timeout ∧ s.timeout ≤ maxTimeout) := by omega
    simp [hout]
  by_cases hlimit : s.maxResponseBytes = 0 ∨ maxResponseLimit < s.maxResponseBytes
  · rw [if_neg htimeout, if_pos hlimit]
    have hout : ¬ (s.maxResponseBytes ≠ 0 ∧ s.maxResponseBytes ≤ maxResponseLimit) := by omega
    simp [hout]
  rw [if_neg htimeout, if_neg hlimit]
  have hin : minTimeout ≤ s.timeout ∧ s.timeout ≤ maxTimeout := by omega
  have hbounded : s.maxResponseBytes ≠ 0 ∧ s.maxResponseBytes ≤ maxResponseLimit := by omega
  by_cases hblank : Text.isBlankText s.userAgent = true
  · have hall : ∀ c ∈ s.userAgent.toList, Text.isBlank c = true := by
      simpa [Text.isBlankText] using hblank
    rw [if_pos hblank]
    simp only [reduceCtorEq, false_iff]
    rintro ⟨-, -, ⟨c, hc, hshown⟩, -⟩
    simp [hall c hc] at hshown
  · have hshown : ∃ c ∈ s.userAgent.toList, Text.isBlank c = false := by
      simpa [Text.isBlankText] using hblank
    rw [if_neg hblank]
    simp [hin, hbounded, hshown]

/-- All that the check asks of a user agent is a character that is not blank. -/
theorem fault?_eq_none_iff_userAgent {s : Settings} :
    s.fault? = none ↔ (s.withUserAgent HttpSettings.standard.userAgent).fault? = none ∧
      ∃ c ∈ s.transport.userAgent.toList, Text.isBlank c = false := by
  have hstandard : ∃ c ∈ HttpSettings.standard.userAgent.toList, Text.isBlank c = false :=
    ⟨'d', by decide, by decide⟩
  simp only [fault?_eq_none_iff, transportFault?_eq_none_iff, withUserAgent]
  constructor
  · rintro ⟨⟨htimeout, hlimit, hshown, hhosts⟩, hrest⟩
    exact ⟨⟨⟨htimeout, hlimit, hstandard, hhosts⟩, hrest⟩, hshown⟩
  · rintro ⟨⟨⟨htimeout, hlimit, -, hhosts⟩, hrest⟩, hshown⟩
    exact ⟨⟨htimeout, hlimit, hshown, hhosts⟩, hrest⟩

/-- The settings that pass their check though there is no client with them are those whose user agent
is not blank and has a barred byte, and in which nothing else is wrong. -/
theorem passed_without_client_iff (said : String) (s : Settings) :
    (s.fault? = none ∧ HttpTransport.create said s.transport =
        .error (.request "" ("http client build failed: " ++ said))) ↔
      (s.withUserAgent HttpSettings.standard.userAgent).fault? = none ∧
      (∃ c ∈ s.transport.userAgent.toList, Text.isBlank c = false) ∧
      ∃ b ∈ s.transport.userAgent.toUTF8.data, b.toNat ≠ 9 ∧ (b.toNat < 32 ∨ b.toNat = 127) := by
  have hbarred : s.transport.isUsable = false ↔
      ∃ b ∈ s.transport.userAgent.toUTF8.data, b.toNat ≠ 9 ∧ (b.toNat < 32 ∨ b.toNat = 127) := by
    simpa [HttpSettings.isBarredByte] using HttpSettings.isUsable_eq_false_iff (s := s.transport)
  rw [HttpTransport.create_eq_error_iff, fault?_eq_none_iff_userAgent, hbarred]
  simp [and_assoc]

theorem lineEnd_passed :
    (standard.withUserAgent "forms/2\n").fault? = none ∧
    ∀ said, HttpTransport.create said (standard.withUserAgent "forms/2\n").transport =
      .error (.request "" ("http client build failed: " ++ said)) := by
  have hunusable : (standard.withUserAgent "forms/2\n").transport.isUsable = false := by decide
  refine ⟨by decide +kernel, fun said => ?_⟩
  exact HttpTransport.create_eq_error_iff.mpr ⟨hunusable, rfl⟩

end Settings

end Formwork
