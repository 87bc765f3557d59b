import Formwork.Json.Record
import Formwork.Transport
import Formwork.Url

/-! The settings of requests over a network, and which addresses they permit. -/

namespace Formwork

structure HttpSettings where
  allowHttp : Bool
  timeout : Nat
  maxResponseBytes : Nat
  /-- The only hosts that may be asked, if there is such a limit. -/
  allowedHosts : Option (List String)
  userAgent : String
deriving DecidableEq, Repr

namespace HttpSettings

def standard : HttpSettings := ⟨false, 5000, 1024 * 1024, none, "dynform/0.1"⟩

def boolean? : Json → Option Bool
  | .bool b => some b
  | _ => none

open Json (record? nullable items? asString? word?) in
open Keyed (defaulted) in
def ofJson? (v : Json) : Option HttpSettings := do
  let r ← record?
    ["allow_http", "timeout_ms", "max_response_bytes", "allowed_hosts", "user_agent"] v
  let allowHttp ← defaulted boolean? standard.allowHttp "allow_http" r
  let timeout ← defaulted word? standard.timeout "timeout_ms" r
  let maxResponseBytes ← defaulted word? standard.maxResponseBytes "max_response_bytes" r
  let allowedHosts ←
    defaulted (nullable (items? asString?)) standard.allowedHosts "allowed_hosts" r
  let userAgent ← defaulted asString? standard.userAgent "user_agent" r
  some ⟨allowHttp, timeout, maxResponseBytes, allowedHosts, userAgent⟩

def isHeaderChar (c : Char) : Bool := c = '\t' || (32 ≤ c.toNat && c.toNat ≠ 127)

def isUsable (s : HttpSettings) : Bool := s.userAgent.toList.all isHeaderChar

def permitsScheme (s : HttpSettings) (scheme : String) : Bool :=
  scheme = "https" || (scheme = "http" && s.allowHttp)

def hostFault? (s : HttpSettings) (host : Option String) : Option String :=
  match s.allowedHosts, host with
  | none, _ => none
  | some _, none => some "url host required"
  | some hosts, some host => if host ∈ hosts then none else some "url host not allowed"

def check [Dialect] (s : HttpSettings) (url : String) : Except TransportError Url :=
  match Url.read? url with
  | none => .error (.policy url "invalid url")
  | some parsed =>
    if s.permitsScheme parsed.scheme then
      match s.hostFault? parsed.host with
      | some fault => .error (.policy url fault)
      | none => .ok parsed
    else .error (.policy url "unsupported url scheme")

end HttpSettings

structure HttpTransport where
  settings : HttpSettings
  usable : settings.isUsable = true

/-- A client with the settings. Where there can be none, `said` is what is said of the reason. -/
def HttpTransport.create (said : String) (s : HttpSettings) : Except TransportError HttpTransport :=
  if h : s.isUsable = true then .ok ⟨s, h⟩
  else .error (.request "" ("http client build failed: " ++ said))

end Formwork
