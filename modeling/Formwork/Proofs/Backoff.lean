import Mathlib.Algebra.Group.Nat.Defs
import Mathlib.Order.Bounds.Basic
import Formwork.Proofs.FullValidation
import Formwork.Settings

/-! Attempts under a policy: where they stop, every event that is reported of them, and the delays
between them when the policy comes from settings that pass their check. -/

namespace Formwork

namespace RetryPolicy

/-- No attempt follows the one with the given number, counted from zero, if it comes to it. -/
def Stops (p : RetryPolicy) (attempt : Nat → Except TransportError Json) (n : Nat) : Prop :=
  (∃ body, attempt n = .ok body) ∨ (∃ e, attempt n = .error e ∧ e.isRetryable = false) ∨
    n = p.maxRetries

theorem isLeast_stops_of_endsAt {p : RetryPolicy} {attempt : Nat → Except TransportError Json}
    {last : Nat} (h : p.EndsAt attempt last) : IsLeast {n | p.Stops attempt n} last := by
  refine ⟨?_, fun n hstops => ?_⟩
  · cases ha : attempt last with
    | ok body => exact .inl ⟨body, ha⟩
    | error e =>
      by_cases hretry : e.isRetryable = true
      · exact .inr (.inr (h.ending e ha hretry))
      · exact .inr (.inl ⟨e, ha, Bool.eq_false_iff.mpr hretry⟩)
  · by_contra hlt
    have hbefore : n < last := Nat.not_le.mp hlt
    obtain ⟨e, he, hretry⟩ := h.repeated n hbefore
    have hallowed := h.allowed
    rcases hstops with ⟨body, hok⟩ | ⟨e', he', hfinal⟩ | hmax
    · cases he.symm.trans hok
    · cases he.symm.trans he'
      cases hretry.symm.trans hfinal
    · omega

def retryEvent (p : RetryPolicy) (url : String) (retry : Nat) (e : TransportError) : Event :=
  .transportRetry url retry (min (p.delay retry) longestReported) e.kind

def retryEvents (p : RetryPolicy) (url : String) (errors : List TransportError) : List Event :=
  errors.mapIdx fun n e => p.retryEvent url (n + 1) e

def closingEvents (url : String) (attempts : Nat) : Except TransportError Json → List Event
  | .ok _ => []
  | .error e => [.transportExhausted url attempts e.kind]

/-- The delays double from the first until they reach the longest, and no number on the way is too large
for its type. -/
structure Doubles (p : RetryPolicy) : Prop where
  exact : ∀ k, 1 ≤ k → k ≤ p.maxRetries →
    p.delay k = p.cap.elim (p.initial * 2 ^ (k - 1)) (min (p.initial * 2 ^ (k - 1)))
  unsaturated : ∀ k, 1 ≤ k → k ≤ p.maxRetries →
    k - 1 ≤ 31 ∧ p.initial * 2 ^ (k - 1) ≤ longestReported
  reported : ∀ k, 1 ≤ k → k ≤ p.maxRetries → min (p.delay k) longestReported = p.delay k
  ascending : ∀ j k, j ≤ k → p.delay j ≤ p.delay k

theorem delay_le_delay (p : RetryPolicy) {j k : Nat} (h : j ≤ k) : p.delay j ≤ p.delay k := by
  have hexponent : min (j - 1) 31 ≤ min (k - 1) 31 := by omega
  have hpower : Nat.pow 2 (min (j - 1) 31) ≤ Nat.pow 2 (min (k - 1) 31) :=
    Nat.pow_le_pow_right (by decide) hexponent
  have hproduct := Nat.mul_le_mul_left p.initial hpower
  unfold delay
  cases p.cap with
  | none =>
    show min _ longest ≤ min _ longest
    omega
  | some cap =>
    show min (min _ longest) cap ≤ min (min _ longest) cap
    omega

theorem delay_le_uncapped (p : RetryPolicy) (k : Nat) :
    p.delay k ≤ p.initial * 2 ^ min (k - 1) 31 := by
  unfold delay
  cases p.cap with
  | none => exact Nat.min_le_left _ _
  | some cap => exact (Nat.min_le_left _ _).trans (Nat.min_le_left _ _)

theorem delay_of_le {p : RetryPolicy} {k : Nat} (hk : k - 1 ≤ 31)
    (h : p.initial * 2 ^ (k - 1) ≤ longest) :
    p.delay k = p.cap.elim (p.initial * 2 ^ (k - 1)) (min (p.initial * 2 ^ (k - 1))) := by
  have hexponent : min (k - 1) 31 = k - 1 := Nat.min_eq_left hk
  have huncapped : min (p.initial * Nat.pow 2 (k - 1)) longest = p.initial * 2 ^ (k - 1) :=
    Nat.min_eq_left h
  unfold delay
  rw [hexponent, huncapped]
  cases p.cap <;> rfl

/-- The limits of the settings keep every delay far from the ends of the types that hold it. -/
theorem doubles_of_retryFault? {p : RetryPolicy} (h : Settings.retryFault? p = none) : p.Doubles := by
  obtain ⟨hretries, hinitial, -⟩ := Settings.retryFault?_eq_none_iff.mp h
  have hbound : ∀ k, k ≤ p.maxRetries → k - 1 ≤ 31 ∧ p.initial * 2 ^ (k - 1) ≤ longestReported := by
    intro k hk
    have hlimit : Settings.maxRetriesLimit = 10 := rfl
    have hexponent : k - 1 ≤ 9 := by omega
    have hpower : 2 ^ (k - 1) ≤ 2 ^ 9 := Nat.pow_le_pow_right (by decide) hexponent
    have hproduct : p.initial * 2 ^ (k - 1) ≤ Settings.maxInterval * 2 ^ 9 :=
      Nat.mul_le_mul hinitial hpower
    exact ⟨by omega, hproduct.trans (by decide)⟩
  have hlongest : longestReported ≤ longest := by decide
  refine ⟨fun k _ hk => ?_, fun k _ hk => hbound k hk, fun k _ hk => ?_, fun _ _ => p.delay_le_delay⟩
  · obtain ⟨hshift, hproduct⟩ := hbound k hk
    exact delay_of_le hshift (hproduct.trans hlongest)
  · obtain ⟨hshift, hproduct⟩ := hbound k hk
    have hle := p.delay_le_uncapped k
    rw [Nat.min_eq_left hshift] at hle
    exact Nat.min_eq_left (hle.trans hproduct)

end RetryPolicy

namespace Attempts

/-- The attempts from a given one on: those that fail and are repeated, and the one after them. -/
theorem resume_eq (p : RetryPolicy) (url : String) (attempt : Nat → Except TransportError Json)
    (left retry : Nat) :
    ∃ errors : List TransportError,
      (∀ n e, errors[n]? = some e → attempt (retry + n) = .error e) ∧
      resume p url attempt left retry =
        ⟨attempt (retry + errors.length), retry + errors.length + 1,
          (errors.mapIdx fun n e => p.retryEvent url (retry + n + 1) e) ++
            RetryPolicy.closingEvents url (retry + errors.length + 1)
              (attempt (retry + errors.length))⟩ := by
  induction left generalizing retry with
  | zero =>
    refine ⟨[], nofun, ?_⟩
    unfold resume
    cases ha : attempt retry <;> simp [exhausted, RetryPolicy.closingEvents]
  | succ left ih =>
    unfold resume
    cases ha : attempt retry with
    | ok body => exact ⟨[], nofun, by simp [RetryPolicy.closingEvents, ha]⟩
    | error e =>
      by_cases hretry : e.isRetryable = true
      · obtain ⟨errors, herrors, hrest⟩ := ih (retry + 1)
        have hshift (n : Nat) : retry + 1 + n = retry + (n + 1) := by omega
        refine ⟨e :: errors, fun n e' he' => ?_, ?_⟩
        · cases n with
          | zero =>
            cases he'
            exact ha
          | succ n => exact hshift n ▸ herrors n e' he'
        · simp only [hretry, if_true, hrest, hshift, List.length_cons, List.mapIdx_cons,
            List.cons_append]
          rfl
      · exact ⟨[], nofun, by simp [hretry, exhausted, RetryPolicy.closingEvents, ha]⟩

/-- Attempts stop at the first that succeeds, that must not be repeated, or after which the policy allows
no more. Each failure before it is reported with the number and the delay of the retry that follows, and
the last one, if it is a failure, with the number of attempts. -/
theorem run_stops (p : RetryPolicy) (hcount : p.maxRetries < 2 ^ 32 - 1) (url : String)
    (attempt : Nat → Except TransportError Json) :
    ∃ errors : List TransportError,
      (∀ n e, errors[n]? = some e → attempt n = .error e) ∧
      IsLeast {n | p.Stops attempt n} errors.length ∧ errors.length + 1 < 2 ^ 32 ∧
      run p url attempt = ⟨attempt errors.length, errors.length + 1,
        p.retryEvents url errors ++
          RetryPolicy.closingEvents url (errors.length + 1) (attempt errors.length)⟩ ∧
      ∀ s : Settings, s.fault? = none → s.retry = p → p.Doubles := by
  obtain ⟨errors, herrors, hrun⟩ := resume_eq p url attempt p.maxRetries 0
  obtain ⟨last, hends, -, hlast⟩ := run_last p url attempt
  simp only [Nat.zero_add] at herrors hrun
  have hlength : errors.length = last := by
    have hcounts : errors.length + 1 = last + 1 := by
      rw [← hlast, run, hrun]
    omega
  have hallowed := hends.allowed
  refine ⟨errors, herrors, ?_, by omega, hrun, fun s hs hretry => ?_⟩
  · rw [hlength]
    exact RetryPolicy.isLeast_stops_of_endsAt hends
  · have hfault := (Settings.fault?_eq_none_iff.mp hs).2.1
    exact RetryPolicy.doubles_of_retryFault? (hretry ▸ hfault)

theorem run_twoRetries :
    let p : RetryPolicy := ⟨200000, 2, some 300000⟩
    let url := "https://a.test/"
    let answers : List Transport.Answer := [.status 500, .requestFailed "no route", .body .null]
    let attempt := fun n => Transport.scripted answers n (.get url)
    p.maxRetries < 2 ^ 32 - 1 ∧ IsLeast {n | p.Stops attempt n} 2 ∧ p.Doubles ∧
      run p url attempt = ⟨.ok .null, 3, [.transportRetry url 1 200000 "status",
        .transportRetry url 2 300000 "request"]⟩ := by
  intro p url answers attempt
  have hcount : p.maxRetries < 2 ^ 32 - 1 := by decide
  have hrun : run p url attempt = ⟨.ok .null, 3, [.transportRetry url 1 200000 "status",
      .transportRetry url 2 300000 "request"]⟩ := by
    have hfirst : min (p.delay 1) RetryPolicy.longestReported = 200000 := by decide
    have hsecond : min (p.delay 2) RetryPolicy.longestReported = 300000 := by decide
    show (⟨_, _, [.transportRetry url 1 (min (p.delay 1) RetryPolicy.longestReported) _,
      .transportRetry url 2 (min (p.delay 2) RetryPolicy.longestReported) _]⟩ : Attempts) = _
    rw [hfirst, hsecond]
    rfl
  obtain ⟨found, -, hleast, -, heq, hdoubles⟩ := run_stops p hcount url attempt
  have hlength : found.length = 2 := by
    have hcounts := congrArg Attempts.count (heq.symm.trans hrun)
    exact Nat.succ.inj hcounts
  exact ⟨hcount, hlength ▸ hleast, hdoubles { Settings.standard with retry := p } (by decide) rfl, hrun⟩

end Attempts

end Formwork
