import Formwork.Json
import Formwork.Text.Numeral

/-! Requests to remote services and what becomes of them. -/

namespace Formwork

inductive Request where
  | get (url : String)
  | post (url : String) (body : Json)
deriving DecidableEq

inductive TransportError where
  | request (url : String) (reason : String)
  | status (url : String) (status : Nat)
  | decode (url : String) (reason : String)
  | policy (url : String) (reason : String)
deriving DecidableEq, Repr

namespace TransportError

def kind : TransportError → String
  | request _ _ => "request"
  | status _ _ => "status"
  | decode _ _ => "decode"
  | policy _ _ => "policy"

def message : TransportError → String
  | request url reason => "request to `" ++ url ++ "` failed: " ++ reason
  | status url code => "request to `" ++ url ++ "` returned status " ++ Text.natText code
  | decode url reason => "response from `" ++ url ++ "` could not be decoded: " ++ reason
  | policy url reason => "request to `" ++ url ++ "` blocked: " ++ reason

/-- Only what a policy forbids stays forbidden when tried again. -/
def isRetryable : TransportError → Bool
  | policy _ _ => false
  | _ => true

end TransportError

def Request.url : Request → String
  | get url => url
  | post url _ => url

/-- The answers of the remote side: what comes back for the request with a given number, counted from
zero over all requests made. -/
abbrev Transport := Nat → Request → Except TransportError Json

namespace Transport

/-- An answer written down beforehand, before it is known which request it answers. -/
inductive Answer where
  | body (body : Json)
  | requestFailed (reason : String)
  | decodeFailed (reason : String)
  | blocked (reason : String)
  | status (code : Nat)

def Answer.to (url : String) : Answer → Except TransportError Json
  | body v => .ok v
  | requestFailed reason => .error (.request url reason)
  | decodeFailed reason => .error (.decode url reason)
  | blocked reason => .error (.policy url reason)
  | status code => .error (.status url code)

def scripted (answers : List Answer) : Transport := fun n request =>
  (answers[n]?.getD (.requestFailed "no scripted response")).to request.url

end Transport

end Formwork
