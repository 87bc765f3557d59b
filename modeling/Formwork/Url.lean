import Formwork.Text.Blank
import Formwork.Url.Host

/-! Addresses of remote services: the scheme, and where there is one the host and the port. -/

namespace Formwork

structure Url where
  scheme : String
  host : Option String
  /-- Left out if it is the one that goes with the scheme. -/
  port : Option Nat
deriving DecidableEq, Repr

namespace Url

open Text

/-- The text without controls and spaces at its ends, and without tabs and line ends anywhere. -/
def cleaned (text : String) : List Char :=
  (trimBy (fun c => c.toNat ≤ 32) text.toList).filter fun c =>
    c != '\t' && c != '\n' && c != '\r'

def isSchemeChar (c : Char) : Bool := c.isAlphanum || c = '+' || c = '-' || c = '.'

def readScheme? (cs : List Char) : Option (String × List Char) :=
  let name := cs.takeWhile isSchemeChar
  match cs.dropWhile isSchemeChar with
  | ':' :: rest =>
    if name.head?.any Char.isAlpha then some (String.ofList (name.map Char.toLower), rest) else none
  | _ => none

def defaultPort? : String → Option Nat
  | "http" => some 80
  | "ws" => some 80
  | "https" => some 443
  | "wss" => some 443
  | "ftp" => some 21
  | _ => none

/-- What ends the part of an address that names a host. A backslash does so in addresses that are
fetched over a network. -/
def endsAuthority (special : Bool) (c : Char) : Bool :=
  c = '/' || c = '?' || c = '#' || (special && c = '\\')

def afterUser (authority : List Char) : List Char :=
  (authority.reverse.takeWhile (· ≠ '@')).reverse

/-- The text up to the first colon outside brackets, and the rest from it on. -/
def splitPort (inBrackets : Bool) : List Char → List Char × List Char
  | [] => ([], [])
  | c :: cs =>
    if c = ':' ∧ !inBrackets then ([], c :: cs)
    else
      let inner := if c = '[' then true else if c = ']' then false else inBrackets
      let (host, rest) := splitPort inner cs
      (c :: host, rest)

/-- The port after a colon, if one is written; it must be a 16-bit number. A backslash ends it even
where it does not end the authority. -/
def readPort? : List Char → Option (Option Nat)
  | [] => some none
  | _ :: rest =>
    let digits := rest.takeWhile (· ≠ '\\')
    if digits.isEmpty then some none
    else if digits.all isDigit then ((readNat? 10 digits).filter (· < 0x10000)).map some
    else none

/-- A host with a port, after a user that is left out. Only hosts of other kinds may be empty, and
then without a user and a port. -/
def readAuthority? [Dialect] (special : Bool) (scheme : String) (authority : List Char) : Option Url := do
  let rest := afterUser authority
  let (hostText, portText) := splitPort false rest
  if hostText.isEmpty then
    if special ∨ rest.length < authority.length ∨ !portText.isEmpty then none
    else some ⟨scheme, none, none⟩
  else
    let host ← if special then Host.read? hostText else Host.readPlain? hostText
    let port ← readPort? portText
    some ⟨scheme, some (String.ofList host), port.filter (defaultPort? scheme ≠ some ·)⟩

def isSlash (c : Char) : Bool := c = '/' || c = '\\'

/-- A letter and a colon or bar name a drive and no host. -/
def isDrive : List Char → Bool
  | [a, b] => a.isAlpha && (b = ':' || b = '|')
  | _ => false

/-- An address of a file, whose host is left out when it is the local one. -/
def readFile? [Dialect] (scheme : String) (rest : List Char) : Option Url :=
  match rest with
  | a :: b :: more =>
    let hostText := more.takeWhile fun c => !endsAuthority true c
    if isSlash a && isSlash b && !hostText.isEmpty && !isDrive hostText then
      (Host.read? hostText).map fun host =>
        ⟨scheme, if host = "localhost".toList then none else some (String.ofList host), none⟩
    else some ⟨scheme, none, none⟩
  | _ => some ⟨scheme, none, none⟩

def read? [Dialect] (text : String) : Option Url := do
  let (scheme, rest) ← readScheme? (cleaned text)
  if scheme = "file" then readFile? scheme rest
  else if (defaultPort? scheme).isSome then
    let after := rest.dropWhile isSlash
    readAuthority? true scheme (after.takeWhile fun c => !endsAuthority true c)
  else
    match rest with
    | '/' :: '/' :: after =>
      readAuthority? false scheme (after.takeWhile fun c => !endsAuthority false c)
    | _ => some ⟨scheme, none, none⟩

end Url

end Formwork
