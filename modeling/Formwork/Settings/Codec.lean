import Formwork.Settings
import Formwork.Toml.Reader

/-! Settings as they are written in a TOML document, where each section and each field may be
missing, and as they are shown in JSON. -/

namespace Formwork.Settings

open Keyed (defaulted)
open Toml (record? boolean? natural? string? items? choice?)

def distinct (names : List String) : List String :=
  (Keyed.sorted (names.map fun name => (name, ()))).keys

def word? : Toml → Option Nat := natural? Text.wordEnd

def transportOfToml? (v : Toml) : Option HttpSettings := do
  let standard := HttpSettings.standard
  let r ← record?
    ["allow_http", "timeout_ms", "max_response_bytes", "allowed_hosts", "user_agent"] v
  let allowHttp ← defaulted boolean? standard.allowHttp "allow_http" r
  let timeout ← defaulted word? standard.timeout "timeout_ms" r
  let maxResponseBytes ←
    defaulted word? standard.maxResponseBytes "max_response_bytes" r
  let allowedHosts ← defaulted (fun v => (items? string? v).map (some ∘ distinct))
    standard.allowedHosts "allowed_hosts" r
  let userAgent ← defaulted string? standard.userAgent "user_agent" r
  some ⟨allowHttp, timeout, maxResponseBytes, allowedHosts, userAgent⟩

def retryOfToml? (v : Toml) : Option RetryPolicy := do
  let standard := RetryPolicy.standard
  let r ← record? ["initial_interval_ms", "max_retries", "max_interval_ms"] v
  let initial ← defaulted word? standard.initial "initial_interval_ms" r
  let maxRetries ← defaulted (natural? 0x100000000) standard.maxRetries "max_retries" r
  let cap ← defaulted (fun v => (word? v).map some) standard.cap "max_interval_ms" r
  some ⟨initial, maxRetries, cap⟩

def eventsOfToml? (v : Toml) : Option EventSettings := do
  let standard := EventSettings.standard
  let r ← record? ["sink", "path"] v
  let sink ← defaulted (choice? SinkKind.ofLabel?) standard.sink "sink" r
  let path ← defaulted (fun v => (string? v).map some) standard.path "path" r
  some ⟨sink, path⟩

def ofToml? (v : Toml) : Option Settings := do
  let r ← record? ["transport", "retry", "events"] v
  let transport ← defaulted transportOfToml? standard.transport "transport" r
  let retry ← defaulted retryOfToml? standard.retry "retry" r
  let events ← defaulted eventsOfToml? standard.events "events" r
  some ⟨transport, retry, events⟩

def transportToJson (s : HttpSettings) : Json :=
  .object [("allow_http", .bool s.allowHttp), ("timeout_ms", .int s.timeout),
    ("max_response_bytes", .int s.maxResponseBytes),
    ("allowed_hosts", .ofOption .strings s.allowedHosts), ("user_agent", .string s.userAgent)]

def retryToJson (p : RetryPolicy) : Json :=
  .object [("initial_interval_ms", .int p.initial), ("max_retries", .int p.maxRetries),
    ("max_interval_ms", .ofOption (fun cap => .int cap) p.cap)]

def eventsToJson (e : EventSettings) : Json :=
  .object [("sink", .string e.sink.label), ("path", .ofOption .string e.path)]

def toJson (s : Settings) : Json :=
  .object [("transport", transportToJson s.transport), ("retry", retryToJson s.retry),
    ("events", eventsToJson s.events)]

end Formwork.Settings
