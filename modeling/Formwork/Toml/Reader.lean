import Formwork.Toml.Draft
import Formwork.Toml.Quoted
import Formwork.Toml.Scalar

/-! Reading a TOML document, line by line. -/

namespace Formwork.Toml

/-- Drops white space, line ends and comments; the flag says whether a comment has begun. -/
def skipTrivia (comment : Bool) : List Char → List Char
  | '\r' :: '\n' :: cs => skipTrivia false cs
  | '\n' :: cs => skipTrivia false cs
  | '#' :: cs => skipTrivia true cs
  | c :: cs => if isSpace c || (comment && isPlain c) then skipTrivia comment cs else c :: cs
  | [] => []

def skipComment : List Char → List Char
  | '#' :: cs => cs.dropWhile isPlain
  | cs => cs

def isBareKeyChar (c : Char) : Bool := c.isAlphanum || c = '_' || c = '-'

def readSimpleKey? (cs : List Char) : Option (String × List Char) :=
  let bare := cs.takeWhile isBareKeyChar
  if bare.isEmpty then readLine? cs else some (String.ofList bare, cs.dropWhile isBareKeyChar)

def readKey? : Nat → List Char → Option (List String × List Char)
  | 0, _ => none
  | fuel + 1, cs => do
    let (key, rest) ← readSimpleKey? (skipSpace cs)
    match skipSpace rest with
    | '.' :: rest =>
      let (path, rest) ← readKey? fuel rest
      some (key :: path, rest)
    | rest => some ([key], rest)

mutual
/-- The fuel bounds the nesting and the number of items. -/
def readValue? : Nat → List Char → Option (Toml × List Char)
  | 0, _ => none
  | fuel + 1, '[' :: rest =>
    (readItems? fuel (skipTrivia false rest)).map fun (items, rest) => (.array items, rest)
  | fuel + 1, '\x7b' :: rest =>
    (readEntries? fuel [] (skipTrivia false rest)).map fun (entries, rest) =>
      (.table (Draft.allFinished entries), rest)
  | _ + 1, c :: rest => if isQuote c then
      (readText? (c :: rest)).map fun (text, rest) => (.string text, rest)
    else readScalar? (c :: rest)
  | _ + 1, [] => none
def readItems? : Nat → List Char → Option (List Toml × List Char)
  | 0, _ => none
  | _ + 1, ']' :: rest => some ([], rest)
  | fuel + 1, cs => do
    let (item, rest) ← readValue? fuel cs
    match skipTrivia false rest with
    | ',' :: rest =>
      let (items, rest) ← readItems? fuel (skipTrivia false rest)
      some (item :: items, rest)
    | ']' :: rest => some ([item], rest)
    | _ => none
def readEntries? : Nat → Keyed Draft → List Char → Option (Keyed Draft × List Char)
  | 0, _, _ => none
  | _ + 1, entries, '\x7d' :: rest => some (entries, rest)
  | fuel + 1, entries, cs => do
    let (key, value, rest) ← readPair? fuel cs
    let entries ← Draft.define? value key entries
    match skipTrivia false rest with
    | ',' :: rest => readEntries? fuel entries (skipTrivia false rest)
    | '\x7d' :: rest => some (entries, rest)
    | _ => none
def readPair? : Nat → List Char → Option (List String × Toml × List Char)
  | 0, _ => none
  | fuel + 1, cs => do
    let (key, rest) ← readKey? fuel cs
    match rest with
    | '=' :: rest =>
      let (value, rest) ← readValue? fuel (skipSpace rest)
      some (key, value, rest)
    | _ => none
end

/-- Reads a statement, but not the end of its line. -/
def readStatement? (fuel : Nat) : List Char → Option (Statement × List Char)
  | '[' :: '[' :: rest => do
    match ← readKey? fuel rest with
    | (path, ']' :: ']' :: rest) => some (.header true path, rest)
    | _ => none
  | '[' :: rest => do
    match ← readKey? fuel rest with
    | (path, ']' :: rest) => some (.header false path, rest)
    | _ => none
  | cs => (readPair? fuel cs).map fun (key, value, rest) => (.entry key value, rest)

def readLines? : Nat → Draft.Document → List Char → Option Draft.Document
  | 0, _, _ => none
  | fuel + 1, d, cs =>
    match skipTrivia false cs with
    | [] => some d
    | cs => do
      let (statement, rest) ← readStatement? fuel cs
      let d ← d.add? statement
      match skipComment (skipSpace rest) with
      | [] => some d
      | rest =>
        let rest ← readLineEnd? rest
        readLines? fuel d rest

def dropMark : List Char → List Char
  | '\uFEFF' :: cs => cs
  | cs => cs

def read? (text : String) : Option Toml :=
  let cs := dropMark text.toList
  (readLines? (cs.length + 2) .empty cs).map Draft.Document.finished

end Formwork.Toml
