import Formwork.Event
import Formwork.Transport

/-! Trying a request again after a failure, with delays that double. Times are in milliseconds. -/

namespace Formwork

structure RetryPolicy where
  initial : Nat
  maxRetries : Nat
  /-- The longest single delay, if there is a limit. -/
  cap : Option Nat
deriving DecidableEq, Repr

namespace RetryPolicy

def standard : RetryPolicy := ⟨1000, 3, none⟩

def noRetry : RetryPolicy := ⟨0, 0, none⟩

/-- The longest time that can be told, in whole milliseconds. -/
def longest : Nat := 18446744073709551615999

/-- The delay before a retry, counted from one. Doubling ends after 31 times. -/
def delay (p : RetryPolicy) (retry : Nat) : Nat :=
  let uncapped := min (p.initial * Nat.pow 2 (min (retry - 1) 31)) longest
  match p.cap with
  | some cap => min uncapped cap
  | none => uncapped

def longestReported : Nat := Text.wordEnd - 1

end RetryPolicy

structure Attempts where
  result : Except TransportError Json
  count : Nat
  events : List Event

namespace Attempts

def exhausted (url : String) (retry : Nat) (error : TransportError) : Attempts where
  result := .error error
  count := retry + 1
  events := [.transportExhausted url (retry + 1) error.kind]

/-- Goes on after `retry` retries, with `left` more allowed. -/
def resume (p : RetryPolicy) (url : String) (attempt : Nat → Except TransportError Json) :
    (left retry : Nat) → Attempts
  | 0, retry =>
    match attempt retry with
    | .ok body => ⟨.ok body, retry + 1, []⟩
    | .error error => exhausted url retry error
  | left + 1, retry =>
    match attempt retry with
    | .ok body => ⟨.ok body, retry + 1, []⟩
    | .error error =>
      if error.isRetryable then
        let wait := min (p.delay (retry + 1)) RetryPolicy.longestReported
        let rest := resume p url attempt left (retry + 1)
        { rest with events := .transportRetry url (retry + 1) wait error.kind :: rest.events }
      else exhausted url retry error

/-- Makes attempts, numbered from zero, until one succeeds, one must not be repeated, or the policy
allows no more. -/
def run (p : RetryPolicy) (url : String) (attempt : Nat → Except TransportError Json) : Attempts :=
  resume p url attempt p.maxRetries 0

def send (p : RetryPolicy) (transport : Transport) (sent : Nat) (request : Request) : Attempts :=
  run p request.url fun n => transport (sent + n) request

end Attempts

end Formwork
