import Formwork.Proofs.Backoff

/-! How long a single wait can be under settings that pass their check. -/

namespace Formwork

namespace RetryPolicy

/-- No wait before a retry that the policy allows is longer. -/
def KeepsTo (p : RetryPolicy) (limit : Nat) : Prop :=
  ∀ n, 1 ≤ n → n ≤ p.maxRetries → p.delay n ≤ limit

variable {p : RetryPolicy} {limit : Nat}

theorem delay_le_cap {cap : Nat} (h : p.cap = some cap) (n : Nat) : p.delay n ≤ cap := by
  simp only [delay, h]
  omega

/-- The last wait is the longest. -/
theorem keepsTo_iff : p.KeepsTo limit ↔ p.maxRetries = 0 ∨ p.delay p.maxRetries ≤ limit := by
  constructor
  · intro h
    by_cases hzero : p.maxRetries = 0
    · exact .inl hzero
    · exact .inr (h p.maxRetries (by omega) (by omega))
  · rintro (hzero | hlast) n hn hretries
    · omega
    · have hle := p.delay_le_delay hretries
      omega

end RetryPolicy

namespace Settings

variable {s : Settings}

theorem retryFault?_of_fault? (hs : s.fault? = none) : retryFault? s.retry = none :=
  (fault?_eq_none_iff.mp hs).2.1

theorem delay_le_of_fault? (hs : s.fault? = none) {n : Nat} (hn : n ≤ s.retry.maxRetries) :
    s.retry.delay n ≤ maxInterval * 2 ^ 9 := by
  obtain ⟨hretries, hinitial, -⟩ := retryFault?_eq_none_iff.mp (retryFault?_of_fault? hs)
  have hlimit : maxRetriesLimit = 10 := rfl
  have hpower : 2 ^ min (n - 1) 31 ≤ 2 ^ 9 := Nat.pow_le_pow_right (by decide) (by omega)
  exact (s.retry.delay_le_uncapped n).trans (Nat.mul_le_mul hinitial hpower)

theorem delay_of_uncapped (hs : s.fault? = none) (hcap : s.retry.cap = none) {n : Nat} (h1 : 1 ≤ n)
    (hn : n ≤ s.retry.maxRetries) : s.retry.delay n = s.retry.initial * 2 ^ (n - 1) := by
  have hdoubles := RetryPolicy.doubles_of_retryFault? (retryFault?_of_fault? hs)
  have hexact := hdoubles.exact n h1 hn
  rwa [hcap] at hexact

/-- A longest delay that is set holds for every wait. Without it each wait doubles the one before, and may last
for up to 512 times the longest delay that can be set. -/
theorem waits_of_fault? (hs : s.fault? = none) :
    (∀ n, 1 ≤ n → n ≤ s.retry.maxRetries →
      (∀ cap, s.retry.cap = some cap → s.retry.delay n ≤ cap ∧ cap ≤ maxInterval) ∧
      (s.retry.cap = none → s.retry.delay n = s.retry.initial * 2 ^ (n - 1)) ∧
      s.retry.delay n ≤ maxInterval * 2 ^ 9) ∧
    (s.retry.KeepsTo maxInterval ↔ s.retry.cap ≠ none ∨ s.retry.maxRetries = 0 ∨
      s.retry.initial * 2 ^ (s.retry.maxRetries - 1) ≤ maxInterval) := by
  obtain ⟨-, -, hcap⟩ := retryFault?_eq_none_iff.mp (retryFault?_of_fault? hs)
  constructor
  · intro n h1 hn
    refine ⟨fun cap h => ?_, fun h => delay_of_uncapped hs h h1 hn, delay_le_of_fault? hs hn⟩
    exact ⟨RetryPolicy.delay_le_cap h n, (hcap cap h).2⟩
  · rw [RetryPolicy.keepsTo_iff]
    cases h : s.retry.cap with
    | some cap =>
      have hle := RetryPolicy.delay_le_cap h s.retry.maxRetries
      have hmax := (hcap cap h).2
      exact iff_of_true (.inr (hle.trans hmax)) (.inl nofun)
    | none =>
      by_cases hzero : s.retry.maxRetries = 0
      · simp [hzero]
      · have hlast := delay_of_uncapped hs h (by omega) (Nat.le_refl s.retry.maxRetries)
        simp [hzero, hlast]

def patient (cap : Option Nat) : Settings := { standard with retry := ⟨maxInterval, maxRetriesLimit, cap⟩ }

theorem patient_waits :
    (patient none).fault? = none ∧ (patient none).retry.delay 10 = 153600000 ∧
    ¬ (patient none).retry.KeepsTo maxInterval ∧
    (patient (some maxInterval)).fault? = none ∧ (patient (some maxInterval)).retry.delay 10 ≤ maxInterval ∧
    (patient (some maxInterval)).retry.KeepsTo maxInterval := by
  have hfree : (patient none).fault? = none := by decide
  have hcapped : (patient (some maxInterval)).fault? = none := by decide
  obtain ⟨hwaits, hkeeps⟩ := waits_of_fault? hfree
  obtain ⟨-, hdelay, -⟩ := hwaits 10 (by decide) (by decide)
  obtain ⟨hwaits', hkeeps'⟩ := waits_of_fault? hcapped
  obtain ⟨hcap, -, -⟩ := hwaits' 10 (by decide) (by decide)
  refine ⟨hfree, (hdelay rfl).trans rfl, ?_, hcapped, (hcap maxInterval rfl).1, ?_⟩
  · rw [hkeeps]
    decide
  · rw [hkeeps']
    exact .inl nofun

theorem doubled_wait_exceeds : ¬ ∀ s : Settings, s.fault? = none → s.retry.KeepsTo maxInterval := by
  intro h
  have hdouble : ({ standard with retry := ⟨300000, 2, none⟩ } : Settings).retry.KeepsTo maxInterval :=
    h _ (by decide)
  have hwait := hdouble 2 (by decide) (by decide)
  exact absurd hwait (by decide)

end Settings

end Formwork
