import Formwork.Transport.Http
import Formwork.Transport.Retry

/-! The settings of a program that runs forms, and the limits that they must keep. -/

namespace Formwork

inductive SinkKind where
  | stderr
  | file
  | none
deriving DecidableEq, Repr

def SinkKind.label : SinkKind → String
  | stderr => "stderr"
  | file => "file"
  | none => "none"

def SinkKind.ofLabel? : String → Option SinkKind
  | "stderr" => some .stderr
  | "file" => some .file
  | "none" => some .none
  | _ => Option.none

theorem SinkKind.ofLabel?_label (k : SinkKind) : ofLabel? k.label = some k := by
  cases k <;> rfl

structure EventSettings where
  sink : SinkKind
  path : Option String
deriving DecidableEq, Repr

def EventSettings.standard : EventSettings := ⟨.stderr, none⟩

structure Settings where
  transport : HttpSettings
  retry : RetryPolicy
  events : EventSettings
deriving DecidableEq, Repr

inductive SettingsFault where
  | configPathLength
  | configSize
  | configEncoding
  | timeoutRange
  | responseLimitRange
  | blankUserAgent
  | noHosts
  | notBareHost
  | tooManyRetries
  | initialIntervalLimit
  | maxIntervalRange
  | sinkPathNeeded
  | sinkPathLength
  | needlessSinkPath
deriving DecidableEq, Repr

namespace Settings

def standard : Settings := ⟨.standard, .standard, .standard⟩

def minTimeout : Nat := 100

def maxTimeout : Nat := 120000

def maxResponseLimit : Nat := 16 * 1024 * 1024

def maxRetriesLimit : Nat := 10

/-- The longest delay that may be set, in milliseconds. -/
def maxInterval : Nat := 300000

/-- The most bytes that a path may have. -/
def maxPathLength : Nat := 4096

/-- The most bytes that a file with settings may have. -/
def maxFileSize : Nat := 64 * 1024

end Settings

def SettingsFault.reason : SettingsFault → String
  | configPathLength => "config path exceeds max length"
  | configSize => "config file exceeds size limit"
  | configEncoding => "config file must be utf-8"
  | timeoutRange =>
    "transport.timeout_ms must be between " ++ Text.natText Settings.minTimeout ++ " and " ++
      Text.natText Settings.maxTimeout
  | responseLimitRange =>
    "transport.max_response_bytes must be between 1 and " ++
      Text.natText Settings.maxResponseLimit
  | blankUserAgent => "transport.user_agent must be non-empty"
  | noHosts => "transport.allowed_hosts must list at least one host"
  | notBareHost => "transport.allowed_hosts entries must be bare host names"
  | tooManyRetries => "retry.max_retries must be at most " ++ Text.natText Settings.maxRetriesLimit
  | initialIntervalLimit =>
    "retry.initial_interval_ms must be at most " ++ Text.natText Settings.maxInterval
  | maxIntervalRange =>
    "retry.max_interval_ms must be between retry.initial_interval_ms and " ++
      Text.natText Settings.maxInterval
  | sinkPathNeeded => "events.path required for file sink"
  | sinkPathLength => "events.path exceeds max length"
  | needlessSinkPath => "events.path is only valid with the file sink"

def SettingsFault.message (f : SettingsFault) : String := "invalid config: " ++ f.reason

namespace Settings

def isBareHost (host : String) : Bool := !Text.isBlankText host && !host.toList.contains '/'

def hostsFault? (hosts : List String) : Option SettingsFault :=
  if hosts.isEmpty then some .noHosts
  else if hosts.all isBareHost then none
  else some .notBareHost

def transportFault? (s : HttpSettings) : Option SettingsFault :=
  if s.timeout < minTimeout ∨ maxTimeout < s.timeout then some .timeoutRange
  else if s.maxResponseBytes = 0 ∨ maxResponseLimit < s.maxResponseBytes then
    some .responseLimitRange
  else if Text.isBlankText s.userAgent then some .blankUserAgent
  else s.allowedHosts.bind hostsFault?

def retryFault? (p : RetryPolicy) : Option SettingsFault :=
  if maxRetriesLimit < p.maxRetries then some .tooManyRetries
  else if maxInterval < p.initial then some .initialIntervalLimit
  else if p.cap.any fun cap => cap < p.initial || maxInterval < cap then some .maxIntervalRange
  else none

def eventsFault? (e : EventSettings) : Option SettingsFault :=
  match e.sink, e.path with
  | .file, none => some .sinkPathNeeded
  | .file, some path => if maxPathLength < path.utf8ByteSize then some .sinkPathLength else none
  | _, some _ => some .needlessSinkPath
  | _, none => none

def fault? (s : Settings) : Option SettingsFault :=
  transportFault? s.transport <|> retryFault? s.retry <|> eventsFault? s.events

theorem fault?_eq_none_iff {s : Settings} :
    s.fault? = none ↔ transportFault? s.transport = none ∧ retryFault? s.retry = none ∧
      eventsFault? s.events = none := by
  unfold fault?
  cases transportFault? s.transport <;> cases retryFault? s.retry <;>
    cases eventsFault? s.events <;> simp

theorem retryFault?_eq_none_iff {p : RetryPolicy} :
    retryFault? p = none ↔ p.maxRetries ≤ maxRetriesLimit ∧ p.initial ≤ maxInterval ∧
      ∀ cap, p.cap = some cap → p.initial ≤ cap ∧ cap ≤ maxInterval := by
  obtain ⟨initial, maxRetries, cap⟩ := p
  unfold retryFault?
  by_cases hr : maxRetriesLimit < maxRetries
  · simp [hr, Nat.not_le.mpr hr]
  by_cases hi : maxInterval < initial
  · simp [hr, hi, Nat.not_le.mpr hi]
  cases cap with
  | none => simp [hr, hi, Nat.not_lt.mp hr, Nat.not_lt.mp hi]
  | some cap =>
    by_cases hc : cap < initial ∨ maxInterval < cap
    · simp only [hr, hi, if_false, Option.any_some, Bool.or_eq_true, decide_eq_true_eq, hc, if_true]
      constructor
      · intro h
        exact absurd h (by simp)
      · intro h
        have := h.2.2 cap rfl
        omega
    · simp only [hr, hi, if_false, Option.any_some, Bool.or_eq_true, decide_eq_true_eq, hc]
      refine ⟨fun _ => ⟨Nat.not_lt.mp hr, Nat.not_lt.mp hi, fun c h => ?_⟩, fun _ => trivial⟩
      have : cap = c := Option.some.inj h
      omega

end Settings

end Formwork
